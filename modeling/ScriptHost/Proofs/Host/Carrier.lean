import ScriptHost.Host.State
/-!
A host with one more array than before: the carrier of a call that may be patched.
-/
namespace ScriptHost.Host

namespace State

variable (s : State) (values : Array Value)

theorem setSlot_eq (ref : ObjectRef) (slot : Nat) (v : Value) :
    s.setSlot ref slot v =
      if slot < s.heap.size ref then (true, { s with heap := s.heap.set ref slot v })
      else (false, s) := rfl

theorem slots_set (heap : Heap) (ref : ObjectRef) (slot : Nat) (v : Value) :
    (heap.set ref slot v).slots ref = (heap.slots ref).setIfInBounds slot v := by
  unfold Heap.slots Heap.set
  rw [Array.getD_eq_getD_getElem?, Array.getD_eq_getD_getElem?, Array.getElem?_modify, if_pos rfl]
  cases heap.objects[ref.id]? <;> rfl

/-- What an object holds after something was stored into it. -/
theorem slots_setSlot (ref : ObjectRef) (slot : Nat) (v : Value) :
    (s.setSlot ref slot v).2.heap.slots ref = (s.heap.slots ref).setIfInBounds slot v := by
  rw [setSlot_eq]
  split
  · exact slots_set s.heap ref slot v
  · rename_i outside
    exact (Array.setIfInBounds_eq_of_size_le (Nat.le_of_not_lt outside)).symm

/-- The next array of objects. -/
def carrierRef : ObjectRef :=
  ⟨s.heap.objects.size, (s.arrayType .object).1⟩

/-- The host with one more array of objects. -/
def withCarrier : State where
  domain := (s.arrayType .object).2.domain
  heap := ⟨s.heap.objects.push values⟩
  statics := (s.arrayType .object).2.statics

theorem heap_arrayType (element : ValueType) : (s.arrayType element).2.heap = s.heap := by
  unfold arrayType
  cases s.domain.findArray? element <;> rfl

theorem newArray_object : s.newArray .object values = (s.carrierRef, s.withCarrier values) := by
  unfold newArray allocate Heap.allocate carrierRef withCarrier
  simp only [heap_arrayType]

@[simp] theorem slots_withCarrier : (s.withCarrier values).heap.slots s.carrierRef = values := by
  simp [withCarrier, carrierRef, Heap.slots, Array.getD]

@[simp] theorem size_withCarrier : (s.withCarrier values).heap.size s.carrierRef = values.size := by
  simp [Heap.size]

/-- Storing into the carrier. -/
theorem setSlot_withCarrier {i : Nat} (v : Value) (inBounds : i < values.size) :
    (s.withCarrier values).setSlot s.carrierRef i v =
      (true, s.withCarrier (values.setIfInBounds i v)) := by
  have fits : i < (s.withCarrier values).heap.size s.carrierRef := by simpa using inBounds
  have stored : (⟨s.heap.objects.push values⟩ : Heap).set s.carrierRef i v =
      ⟨s.heap.objects.push (values.setIfInBounds i v)⟩ := by
    unfold Heap.set carrierRef
    congr 1
    apply Array.ext_getElem?
    intro j
    rw [Array.getElem?_modify, Array.getElem?_push, Array.getElem?_push]
    by_cases last : j = s.heap.objects.size
    · simp [last]
    · have other : s.heap.objects.size ≠ j := Ne.symm last
      simp [last, other]
  rw [setSlot_eq, if_pos fits]
  simp only [withCarrier, stored]

end State

/-! ## Filling a carrier -/

/-- The carrier with some arguments stored. -/
def fill (args : Array Value) (indices : List Nat) (values : Array Value) : Array Value :=
  indices.foldl (fun values i => values.setIfInBounds i (args.getD i .null)) values

theorem getElem?_fill (args : Array Value) (indices : List Nat) (values : Array Value) (j : Nat) :
    (fill args indices values)[j]? =
      if j ∈ indices ∧ j < values.size then some (args.getD j .null) else values[j]? := by
  induction indices generalizing values with
  | nil => simp [fill]
  | cons i rest ih =>
    have unfolded : fill args (i :: rest) values =
        fill args rest (values.setIfInBounds i (args.getD i .null)) := rfl
    rw [unfolded, ih, Array.size_setIfInBounds, Array.getElem?_setIfInBounds]
    by_cases inRest : j ∈ rest
    · by_cases inBounds : j < values.size
      · simp [inRest, inBounds]
      · by_cases same : i = j
        · subst same
          simp [inBounds]
        · simp [inRest, inBounds, same]
    · by_cases same : i = j
      · subst same
        by_cases inBounds : i < values.size <;> simp [inBounds, inRest]
      · have other : j ≠ i := Ne.symm same
        simp [inRest, same, other]

/-- A carrier that holds all arguments, and nothing yet in the place of the result. -/
theorem fill_range (args : Array Value) :
    fill args (List.range args.size) (.replicate (args.size + 1) .null) = args.push .null := by
  apply Array.ext_getElem?
  intro j
  rw [getElem?_fill, Array.getElem?_push]
  simp only [List.mem_range, Array.size_replicate, Array.getElem?_replicate]
  by_cases inside : j < args.size
  · have notLast : j ≠ args.size := Nat.ne_of_lt inside
    have wide : j < args.size + 1 := by omega
    simp [inside, wide, notLast]
  · by_cases last : j = args.size
    · simp [last]
    · have outside : ¬ j < args.size + 1 := by omega
      simp [inside, outside, last]

end ScriptHost.Host

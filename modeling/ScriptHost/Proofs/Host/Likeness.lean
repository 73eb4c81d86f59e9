import Mathlib.Data.List.Forall2
import ScriptHost.Proofs.Host.Bodies
import ScriptHost.Proofs.Host.Carrier
import ScriptHost.Proofs.Host.Growth
import ScriptHost.Proofs.Host.Regime
/-!
Hosts that are alike but for the identity of objects. Each object of the one host has a place in the
other one, where an object with the same slots is, and references go to the same places. What is made
on both hosts takes its place, and the places that were taken stay as they are.
-/
namespace ScriptHost.Host

open List (Forall₂)

/-! ## Places -/

/-- Where the objects of one host are in another one. -/
abbrev Places := Nat → Option Nat

namespace Places

variable {p q r : Places} {i j : Nat}

/-- Objects that had a place keep it. -/
def Grows (p q : Places) : Prop :=
  ∀ i j, p i = some j → q i = some j

theorem Grows.refl (p : Places) : p.Grows p :=
  fun _ _ placed => placed

theorem Grows.trans (first : p.Grows q) (second : q.Grows r) : p.Grows r :=
  fun i j placed => second i j (first i j placed)

/-- The places with another one for an object. -/
def put (p : Places) (i j : Nat) : Places :=
  fun k => if k = i then some j else p k

theorem put_same (p : Places) (i j : Nat) : p.put i j i = some j :=
  if_pos rfl

theorem put_other {k : Nat} (other : k ≠ i) : p.put i j k = p k :=
  if_neg other

/-- A new place for an object without one. -/
theorem grows_put (free : p i = none) : p.Grows (p.put i j) := by
  intro k l placed
  rw [put_other]
  · exact placed
  · rintro rfl
    rw [free] at placed
    cases placed

end Places

/-! ## Values -/

/-- References to one object, in its two places. -/
structure ObjectRef.Like (p : Places) (a b : ObjectRef) : Prop where
  place : p a.id = some b.id
  type : b.type = a.type

/-- Values that are alike but for the places of objects. -/
inductive Value.Like (p : Places) : Value → Value → Prop
  | plain {v : Value} (noObject : v.asObject? = none) : Like p v v
  | object {a b : ObjectRef} (same : a.Like p b) : Like p (.object a) (.object b)

/-- Lists of values that are alike one by one. -/
abbrev AllLike (p : Places) : List Value → List Value → Prop :=
  Forall₂ (Value.Like p)

variable {p q : Places}

theorem ObjectRef.Like.mono {a b : ObjectRef} (like : a.Like p b) (grown : p.Grows q) : a.Like q b :=
  ⟨grown _ _ like.place, like.type⟩

theorem rel_mono {this this' : Option ObjectRef} (like : Option.Rel (ObjectRef.Like p) this this')
    (grown : p.Grows q) : Option.Rel (ObjectRef.Like q) this this' := by
  cases like with
  | none => exact .none
  | some same => exact .some (same.mono grown)

namespace Value.Like

variable {v v' x x' y y' : Value}

theorem mono (like : v.Like p v') (grown : p.Grows q) : v.Like q v' := by
  cases like with
  | plain noObject => exact .plain noObject
  | object same => exact .object (same.mono grown)

theorem defaultFor (type : ValueType) : (Value.defaultFor type).Like p (Value.defaultFor type) :=
  .plain (Value.asObject?_defaultFor type)

theorem asFloat? (like : v.Like p v') : v'.asFloat? = v.asFloat? := by
  cases like <;> rfl

theorem asNat? (like : v.Like p v') : v'.asNat? = v.asNat? := by
  cases like <;> rfl

theorem asBytes? (like : v.Like p v') : v'.asBytes? = v.asBytes? := by
  cases like <;> rfl

theorem truthy (like : v.Like p v') : v'.truthy = v.truthy := by
  cases like <;> rfl

theorem shown (like : v.Like p v') : v'.shown = v.shown := by
  cases like with
  | plain => rfl
  | object same =>
    simp only [Value.shown]
    rw [same.type]

/-- Both values refer to an object, or none does. -/
theorem asObject? (like : v.Like p v') : Option.Rel (ObjectRef.Like p) v.asObject? v'.asObject? := by
  cases like with
  | plain noObject =>
    rw [noObject]
    exact .none
  | object same => exact .some same

/-- Identity is a matter of places, if no two objects share one. -/
theorem equals (single : ∀ i j at', p i = some at' → p j = some at' → i = j)
    (first : x.Like p x') (second : y.Like p y') : x'.equals y' = x.equals y := by
  cases first with
  | plain noObject =>
    cases second with
    | plain => rfl
    | object => cases x <;> first | rfl | cases noObject
  | object same =>
    cases second with
    | plain noObject => cases y <;> first | rfl | cases noObject
    | object other =>
      simp only [Value.equals, ObjectRef.same]
      rw [Bool.eq_iff_iff, beq_iff_eq, beq_iff_eq]
      constructor
      · intro equal
        exact single _ _ _ same.place (equal ▸ other.place)
      · intro equal
        have twice := same.place
        rw [equal, other.place] at twice
        exact (Option.some.inj twice).symm

/-- Operators see no more of an object than its type. -/
theorem apply_object_left (op : ArithOp) {a b : ObjectRef} (same : b.type = a.type) (y : Value) :
    op.apply (.object b) y = op.apply (.object a) y := by
  obtain ⟨i, type⟩ := a
  obtain ⟨j, _⟩ := b
  cases same
  cases y <;> rfl

theorem apply_object_right (op : ArithOp) {a b : ObjectRef} (same : b.type = a.type) (x : Value) :
    op.apply x (.object b) = op.apply x (.object a) := by
  obtain ⟨i, type⟩ := a
  obtain ⟨j, _⟩ := b
  cases same
  cases x <;> rfl

/-- Operators give the same on both sides. -/
theorem apply (op : ArithOp) (first : x.Like p x') (second : y.Like p y') :
    op.apply x' y' = op.apply x y := by
  have left : op.apply x' y' = op.apply x y' := by
    cases first with
    | plain => rfl
    | object same => exact apply_object_left op same.type y'
  rw [left]
  cases second with
  | plain => rfl
  | object same => exact apply_object_right op same.type x

end Value.Like

/-! ## Slots -/

namespace AllLike

variable {values values' : List Value} {slots slots' : Array Value} {v v' : Value}

theorem mono (like : AllLike p values values') (grown : p.Grows q) : AllLike q values values' :=
  like.imp fun _ _ same => same.mono grown

theorem replicate (n : Nat) (like : v.Like p v') :
    AllLike p (List.replicate n v) (List.replicate n v') := by
  induction n with
  | zero => exact .nil
  | succ n ih => exact .cons like ih

theorem defaults (types : List ValueType) :
    AllLike p (types.map Value.defaultFor) (types.map Value.defaultFor) := by
  refine List.forall₂_same.2 fun v member => ?_
  obtain ⟨type, _, rfl⟩ := List.mem_map.1 member
  exact .defaultFor type

/-- At each position both lists end, or have values that are alike. -/
theorem lookup (like : AllLike p values values') (i : Nat) :
    Option.Rel (Value.Like p) values[i]? values'[i]? := by
  induction like generalizing i with
  | nil => exact .none
  | cons head _ ih =>
    cases i with
    | zero => exact .some head
    | succ i => exact ih i

theorem getElem? (like : AllLike p slots.toList slots'.toList) (i : Nat) :
    Option.Rel (Value.Like p) slots[i]? slots'[i]? := by
  rw [← Array.getElem?_toList, ← Array.getElem?_toList]
  exact like.lookup i

theorem size (like : AllLike p slots.toList slots'.toList) : slots'.size = slots.size :=
  like.length_eq.symm

theorem set (like : AllLike p values values') (same : v.Like p v') (i : Nat) :
    AllLike p (values.set i v) (values'.set i v') := by
  induction like generalizing i with
  | nil => exact .nil
  | cons head tail ih =>
    cases i with
    | zero => exact .cons same tail
    | succ i => exact .cons head (ih i)

theorem setIfInBounds (like : AllLike p slots.toList slots'.toList) (same : v.Like p v') (i : Nat) :
    AllLike p (slots.setIfInBounds i v).toList (slots'.setIfInBounds i v').toList := by
  rw [Array.toList_setIfInBounds, Array.toList_setIfInBounds]
  exact like.set same i

end AllLike

/-! ## Heaps -/

/-- A heap each of whose objects has a place in another one. What the other heap has besides is
spare. -/
structure Heap.Like (p : Places) (spare : Array Value → Prop) (h k : Heap) : Prop where
  single : ∀ i j place, p i = some place → p j = some place → i = j
  unplaced : ∀ i, p i = none ↔ h.objects.size ≤ i
  slots : ∀ i j, p i = some j → ∃ slots slots' : Array Value, h.objects[i]? = some slots ∧
    k.objects[j]? = some slots' ∧ AllLike p slots.toList slots'.toList
  others : ∀ (j : Nat) (slots : Array Value), k.objects[j]? = some slots → (∀ i, p i ≠ some j) →
    spare slots

namespace Heap.Like

variable {spare : Array Value → Prop} {h k : Heap} {a b : ObjectRef}

/-- An object has the same slots in its two places. -/
theorem slots_eq (like : h.Like p spare k) (same : a.Like p b) :
    AllLike p (h.slots a).toList (k.slots b).toList := by
  obtain ⟨slots, slots', found, found', alike⟩ := like.slots _ _ same.place
  unfold Heap.slots
  rw [Array.getD_eq_getD_getElem?, Array.getD_eq_getD_getElem?, found, found']
  exact alike

theorem size (like : h.Like p spare k) (same : a.Like p b) : k.size b = h.size a :=
  (like.slots_eq same).size

theorem get? (like : h.Like p spare k) (same : a.Like p b) (i : Nat) :
    Option.Rel (Value.Like p) (h.get? a i) (k.get? b i) :=
  (like.slots_eq same).getElem? i

/-- A place is taken by an object that is there. -/
theorem lt_size (like : h.Like p spare k) {i j : Nat} (placed : p i = some j) :
    j < k.objects.size := by
  obtain ⟨_, slots', _, found, _⟩ := like.slots i j placed
  exact (Array.getElem?_eq_some_iff.1 found).1

/-- Storing into an object in both of its places. -/
theorem set (like : h.Like p spare k) (same : a.Like p b) {v v' : Value} (stored : v.Like p v')
    (slot : Nat) : (h.set a slot v).Like p spare (k.set b slot v') := by
  refine ⟨like.single, fun i => ?_, fun i j placed => ?_, fun j slots found other => ?_⟩
  · rw [like.unplaced i]
    simp only [Heap.set, Array.size_modify]
  · obtain ⟨slots, slots', found, found', alike⟩ := like.slots i j placed
    simp only [Heap.set, Array.getElem?_modify, found, found']
    by_cases hit : a.id = i
    · have hit' : b.id = j := by
        rw [← hit, same.place] at placed
        exact Option.some.inj placed
      rw [if_pos hit, if_pos hit']
      exact ⟨_, _, rfl, rfl, alike.setIfInBounds stored slot⟩
    · have missed : b.id ≠ j := fun hit' => hit (like.single _ _ j (hit' ▸ same.place) placed)
      rw [if_neg hit, if_neg missed]
      exact ⟨slots, slots', rfl, rfl, alike⟩
  · have missed : b.id ≠ j := fun hit => other a.id (hit ▸ same.place)
    simp only [Heap.set, Array.getElem?_modify, if_neg missed] at found
    exact like.others j slots found other

/-- An object that is made on both heaps takes a place of its own. -/
theorem push (like : h.Like p spare k) {slots slots' : Array Value}
    (alike : AllLike p slots.toList slots'.toList) :
    p.Grows (p.put h.objects.size k.objects.size) ∧
      (⟨h.objects.push slots⟩ : Heap).Like (p.put h.objects.size k.objects.size) spare
        ⟨k.objects.push slots'⟩ := by
  have grown : p.Grows (p.put h.objects.size k.objects.size) :=
    Places.grows_put ((like.unplaced _).2 (Nat.le_refl _))
  have old : ∀ {i j : Nat}, i ≠ h.objects.size → p.put h.objects.size k.objects.size i = some j →
      p i = some j := by
    intro i j other placed
    rwa [Places.put_other other] at placed
  refine ⟨grown, fun i j place first second => ?_, fun i => ?_, fun i j placed => ?_,
    fun j found there other => ?_⟩
  · by_cases new : i = h.objects.size
    · by_cases new' : j = h.objects.size
      · rw [new, new']
      · rw [new, Places.put_same] at first
        have taken := like.lt_size (old new' second)
        cases first
        exact absurd taken (Nat.lt_irrefl _)
    · by_cases new' : j = h.objects.size
      · rw [new', Places.put_same] at second
        have taken := like.lt_size (old new first)
        cases second
        exact absurd taken (Nat.lt_irrefl _)
      · exact like.single i j place (old new first) (old new' second)
  · rw [Array.size_push]
    by_cases new : i = h.objects.size
    · rw [new, Places.put_same]
      constructor
      · intro none
        cases none
      · intro beyond
        omega
    · rw [Places.put_other new, like.unplaced i]
      omega
  · by_cases new : i = h.objects.size
    · rw [new, Places.put_same] at placed
      cases placed
      refine ⟨slots, slots', ?_, Array.getElem?_push_size, alike.mono grown⟩
      rw [new, Array.getElem?_push_size]
    · obtain ⟨before, before', found, found', same⟩ := like.slots i j (old new placed)
      obtain ⟨inBounds, _⟩ := Array.getElem?_eq_some_iff.1 found
      obtain ⟨inBounds', _⟩ := Array.getElem?_eq_some_iff.1 found'
      refine ⟨before, before', ?_, ?_, same.mono grown⟩
      · rw [Array.getElem?_push_lt inBounds, ← found, Array.getElem?_eq_getElem inBounds]
      · rw [Array.getElem?_push_lt inBounds', ← found', Array.getElem?_eq_getElem inBounds']
  · have notNew : j ≠ k.objects.size := by
      intro new
      exact other h.objects.size (new ▸ Places.put_same p _ _)
    have before : k.objects[j]? = some found := by
      rw [Array.getElem?_push, if_neg notNew] at there
      exact there
    exact like.others j found before fun i placed => other i (grown i j placed)

/-- Making an object that is spare. -/
theorem pushSpare (like : h.Like p spare k) {slots : Array Value} (isSpare : spare slots) :
    h.Like p spare ⟨k.objects.push slots⟩ := by
  refine ⟨like.single, like.unplaced, fun i j placed => ?_, fun j found there other => ?_⟩
  · obtain ⟨before, before', found, found', same⟩ := like.slots i j placed
    obtain ⟨inBounds', _⟩ := Array.getElem?_eq_some_iff.1 found'
    refine ⟨before, before', found, ?_, same⟩
    rw [Array.getElem?_push_lt inBounds', ← found', Array.getElem?_eq_getElem inBounds']
  · rw [Array.getElem?_push] at there
    split at there
    · cases there
      exact isSpare
    · exact like.others j found there other

end Heap.Like

end ScriptHost.Host

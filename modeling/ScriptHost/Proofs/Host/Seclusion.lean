import ScriptHost.Proofs.Host.Evolution
/-!
Objects out of reach. As long as no value that a computation can get at refers to a hidden object,
the computation leaves hidden objects alone, and no value that it gives refers to one.
-/
namespace ScriptHost.Host

variable {hidden : Nat → Prop}

/-! ## Open values -/

/-- A reference to an object that is not hidden. -/
def ObjectRef.Open (hidden : Nat → Prop) (ref : ObjectRef) : Prop :=
  ¬ hidden ref.id

/-- A value that does not refer to a hidden object. -/
def Value.Open (hidden : Nat → Prop) : Value → Prop
  | .object ref => ref.Open hidden
  | _ => True

/-- Values none of which refers to a hidden object. -/
def AllOpen (hidden : Nat → Prop) (values : List Value) : Prop :=
  ∀ v ∈ values, v.Open hidden

namespace AllOpen

variable {values more : List Value} {v : Value}

theorem nil : AllOpen hidden [] :=
  fun _ member => (List.not_mem_nil member).elim

theorem cons (first : v.Open hidden) (rest : AllOpen hidden values) : AllOpen hidden (v :: values) :=
  List.forall_mem_cons.2 ⟨first, rest⟩

theorem append (all : AllOpen hidden values) (others : AllOpen hidden more) :
    AllOpen hidden (values ++ more) :=
  fun u member => (List.mem_append.1 member).elim (all u) (others u)

theorem getElem? {values : Array Value} {i : Nat} (all : AllOpen hidden values.toList)
    (found : values[i]? = some v) : v.Open hidden :=
  known_getElem? all found

theorem getD {values : Array Value} (all : AllOpen hidden values.toList) (i : Nat) :
    (values.getD i .null).Open hidden :=
  known_getD all trivial i

theorem setIfInBounds {values : Array Value} (all : AllOpen hidden values.toList)
    (known : v.Open hidden) (i : Nat) : AllOpen hidden (values.setIfInBounds i v).toList :=
  known_setIfInBounds all known i

end AllOpen

theorem Value.open_of_plain {v : Value} (plain : v.asObject? = none) : v.Open hidden := by
  cases v with
  | object ref => cases plain
  | _ => trivial

theorem Value.open_defaultFor (type : ValueType) : (defaultFor type).Open hidden :=
  open_of_plain (asObject?_defaultFor type)

theorem Literal.open_toValue (l : Literal) : l.toValue.Open hidden :=
  Value.open_of_plain l.asObject?_toValue

theorem AllOpen.defaults (types : List ValueType) :
    AllOpen hidden (types.map Value.defaultFor) := by
  intro v member
  obtain ⟨type, _, rfl⟩ := List.mem_map.1 member
  exact Value.open_defaultFor type

/-! ## Secluded hosts -/

/-- A host that refers to hidden objects nowhere but in hidden objects. -/
structure State.Veiled (hidden : Nat → Prop) (s : State) : Prop where
  made : ∀ id, hidden id → id < s.heap.objects.size
  slots : ∀ (id : Nat) (slots : Array Value), ¬ hidden id → s.heap.objects[id]? = some slots →
    AllOpen hidden slots.toList
  statics : ∀ slots ∈ s.statics, AllOpen hidden slots.toList

/-- A host that refers to hidden objects nowhere. -/
structure State.Sealed (hidden : Nat → Prop) (s : State) : Prop where
  made : ∀ id, hidden id → id < s.heap.objects.size
  slots : ∀ slots ∈ s.heap.objects, AllOpen hidden slots.toList
  statics : ∀ slots ∈ s.statics, AllOpen hidden slots.toList

/-- What may become of a host: types only come, objects keep the number of their slots, and hidden
ones all that they hold. -/
structure State.Leads (hidden : Nat → Prop) (s t : State) : Prop where
  types : s.domain.Evolves t.domain
  sizes : ∀ (id : Nat) (slots : Array Value), s.heap.objects[id]? = some slots →
    ∃ slots' : Array Value, t.heap.objects[id]? = some slots' ∧ slots'.size = slots.size
  unseen : ∀ id, hidden id → t.heap.objects[id]? = s.heap.objects[id]?

namespace State

variable {s t u : State}

theorem Leads.refl (s : State) : s.Leads hidden s :=
  ⟨.refl, fun _ slots found => ⟨slots, found, rfl⟩, fun _ _ => rfl⟩

theorem Leads.trans (first : s.Leads hidden t) (second : t.Leads hidden u) : s.Leads hidden u := by
  refine ⟨first.types.trans second.types, fun id slots found => ?_, fun id isHidden => ?_⟩
  · obtain ⟨slots', found', same⟩ := first.sizes id slots found
    obtain ⟨slots'', found'', same'⟩ := second.sizes id slots' found'
    exact ⟨slots'', found'', same'.trans same⟩
  · exact (second.unseen id isHidden).trans (first.unseen id isHidden)

/-- Objects keep the number of their slots. -/
theorem Leads.size (leads : s.Leads hidden t) {ref : ObjectRef}
    (made : ref.id < s.heap.objects.size) : t.heap.size ref = s.heap.size ref := by
  obtain ⟨slots', found, same⟩ := leads.sizes ref.id _ (Array.getElem?_eq_getElem made)
  unfold Heap.size Heap.slots
  rw [Array.getD_eq_getD_getElem?, Array.getD_eq_getD_getElem?, found,
    Array.getElem?_eq_getElem made]
  exact same

theorem Sealed.slot (isSealed : s.Sealed hidden) (ref : ObjectRef) :
    AllOpen hidden (s.heap.slots ref).toList := by
  unfold Heap.slots
  rw [Array.getD_eq_getD_getElem?]
  cases found : s.heap.objects[ref.id]? with
  | none => exact .nil
  | some slots => exact isSealed.slots slots (Array.mem_of_getElem? found)

theorem Sealed.static? (isSealed : s.Sealed hidden) {type : TypeId} {i : Nat} {v : Value}
    (found : s.static? type i = some v) : v.Open hidden := by
  unfold State.static? at found
  rw [Array.getD_eq_getD_getElem?] at found
  cases there : s.statics[type.index]? with
  | none =>
    rw [there] at found
    cases found
  | some slots =>
    rw [there] at found
    exact (isSealed.statics slots (Array.mem_of_getElem? there)).getElem? found

/-- The host leads to another that refers to hidden objects nowhere but in hidden objects. -/
structure Shields (hidden : Nat → Prop) (s t : State) : Prop where
  leads : s.Leads hidden t
  isVeiled : t.Veiled hidden

theorem Veiled.shields (isVeiled : s.Veiled hidden) : s.Shields hidden s :=
  ⟨.refl s, isVeiled⟩

theorem Shields.trans (first : s.Shields hidden t) (second : t.Shields hidden u) :
    s.Shields hidden u :=
  ⟨first.leads.trans second.leads, second.isVeiled⟩

theorem Veiled.slot (isVeiled : s.Veiled hidden) {ref : ObjectRef} (known : ref.Open hidden) :
    AllOpen hidden (s.heap.slots ref).toList := by
  unfold Heap.slots
  rw [Array.getD_eq_getD_getElem?]
  cases found : s.heap.objects[ref.id]? with
  | none => exact .nil
  | some slots => exact isVeiled.slots ref.id slots known found

theorem Veiled.get? (isVeiled : s.Veiled hidden) {ref : ObjectRef} (known : ref.Open hidden)
    {i : Nat} {v : Value} (found : s.heap.get? ref i = some v) : v.Open hidden :=
  (isVeiled.slot known).getElem? found

/-- The host leads to another that refers to hidden objects nowhere. -/
structure Keeps (hidden : Nat → Prop) (s t : State) : Prop where
  leads : s.Leads hidden t
  isSealed : t.Sealed hidden

theorem Sealed.keeps (isSealed : s.Sealed hidden) : s.Keeps hidden s :=
  ⟨.refl s, isSealed⟩

theorem Keeps.trans (first : s.Keeps hidden t) (second : t.Keeps hidden u) : s.Keeps hidden u :=
  ⟨first.leads.trans second.leads, second.isSealed⟩

theorem Sealed.isVeiled (isSealed : s.Sealed hidden) : s.Veiled hidden :=
  ⟨isSealed.made, fun _ slots _ found => isSealed.slots slots (Array.mem_of_getElem? found),
    isSealed.statics⟩

/-- Hidden objects keep what they hold, and so refer to no hidden object if they did not before. -/
theorem Sealed.keeps_of_shields (isSealed : s.Sealed hidden) (shields : s.Shields hidden t) :
    s.Keeps hidden t := by
  refine ⟨shields.leads, shields.isVeiled.made, fun slots member => ?_, shields.isVeiled.statics⟩
  obtain ⟨id, found⟩ := Array.mem_iff_getElem?.1 member
  by_cases isHidden : hidden id
  · rw [shields.leads.unseen id isHidden] at found
    exact isSealed.slots slots (Array.mem_of_getElem? found)
  · exact shields.isVeiled.slots id slots isHidden found

/-! ### What a host offers -/

/-- Storing an open value into an object that is not hidden. -/
theorem Veiled.setSlot (isVeiled : s.Veiled hidden) {ref : ObjectRef} {v : Value}
    (target : ref.Open hidden) (known : v.Open hidden) (i : Nat) :
    s.Shields hidden (s.setSlot ref i v).2 := by
  unfold State.setSlot
  dsimp only
  split
  · refine ⟨⟨.refl, fun id slots found => ?_, fun id isHidden => ?_⟩, ?_,
      fun id slots isOpen found => ?_, isVeiled.statics⟩
    · simp only [Heap.set, Array.getElem?_modify, found]
      split
      · exact ⟨_, rfl, Array.size_setIfInBounds⟩
      · exact ⟨slots, rfl, rfl⟩
    · have other : ref.id ≠ id := fun same => target (same ▸ isHidden)
      simp only [Heap.set, Array.getElem?_modify, if_neg other]
    · simpa [Heap.set] using isVeiled.made
    · simp only [Heap.set, Array.getElem?_modify] at found
      split at found
      · obtain ⟨before, there, rfl⟩ := Option.map_eq_some_iff.1 found
        exact (isVeiled.slots id before isOpen there).setIfInBounds known i
      · exact isVeiled.slots id slots isOpen found
  · exact isVeiled.shields

theorem Sealed.setSlot (isSealed : s.Sealed hidden) {ref : ObjectRef} {v : Value}
    (target : ref.Open hidden) (known : v.Open hidden) (i : Nat) :
    s.Keeps hidden (s.setSlot ref i v).2 :=
  isSealed.keeps_of_shields (isSealed.isVeiled.setSlot target known i)

/-- Making an object of open values. -/
theorem Veiled.allocate (isVeiled : s.Veiled hidden) (type : TypeId) {slots : Array Value}
    (known : AllOpen hidden slots.toList) :
    (s.allocate type slots).1.Open hidden ∧ s.Shields hidden (s.allocate type slots).2 := by
  unfold State.allocate Heap.allocate
  refine ⟨fun isHidden => Nat.lt_irrefl _ (isVeiled.made _ isHidden), ?_⟩
  refine ⟨⟨.refl, fun id before found => ?_, fun id isHidden => ?_⟩, fun id isHidden => ?_,
    fun id object isOpen found => ?_, isVeiled.statics⟩
  · obtain ⟨inBounds, _⟩ := Array.getElem?_eq_some_iff.1 found
    refine ⟨before, ?_, rfl⟩
    rw [Array.getElem?_push_lt inBounds, ← found, Array.getElem?_eq_getElem inBounds]
  · have inBounds := isVeiled.made id isHidden
    rw [Array.getElem?_push_lt inBounds, Array.getElem?_eq_getElem inBounds]
  · rw [Array.size_push]
    exact Nat.lt_succ_of_lt (isVeiled.made id isHidden)
  · rw [Array.getElem?_push] at found
    split at found
    · cases found
      exact known
    · exact isVeiled.slots id object isOpen found

theorem Sealed.allocate (isSealed : s.Sealed hidden) (type : TypeId) {slots : Array Value}
    (known : AllOpen hidden slots.toList) :
    (s.allocate type slots).1.Open hidden ∧ s.Keeps hidden (s.allocate type slots).2 :=
  (isSealed.isVeiled.allocate type known).imp_right isSealed.keeps_of_shields

/-- Only the types and the static slots change, and those to open values. -/
theorem Veiled.retype (isVeiled : s.Veiled hidden) {domain : Domain} {statics : Array (Array Value)}
    (evolves : s.domain.Evolves domain)
    (known : ∀ slots ∈ statics, AllOpen hidden slots.toList) :
    s.Shields hidden ⟨domain, s.heap, statics⟩ :=
  ⟨⟨evolves, fun _ slots found => ⟨slots, found, rfl⟩, fun _ _ => rfl⟩, isVeiled.made,
    isVeiled.slots, known⟩

theorem Sealed.retype (isSealed : s.Sealed hidden) {domain : Domain} {statics : Array (Array Value)}
    (evolves : s.domain.Evolves domain)
    (known : ∀ slots ∈ statics, AllOpen hidden slots.toList) :
    s.Keeps hidden ⟨domain, s.heap, statics⟩ :=
  isSealed.keeps_of_shields (isSealed.isVeiled.retype evolves known)

theorem Veiled.pushStatics (isVeiled : s.Veiled hidden) {domain : Domain} {slots : Array Value}
    (evolves : s.domain.Evolves domain) (known : AllOpen hidden slots.toList) :
    s.Shields hidden ⟨domain, s.heap, s.statics.push slots⟩ := by
  refine isVeiled.retype evolves fun more member => ?_
  rcases Array.mem_push.1 member with old | rfl
  · exact isVeiled.statics more old
  · exact known

theorem Veiled.arrayType (isVeiled : s.Veiled hidden) (element : ValueType) :
    s.Shields hidden (s.arrayType element).2 := by
  have evolves := Domain.Evolves.refl.arrayType (d := s.domain) element
  unfold State.arrayType
  cases found : s.domain.findArray? element with
  | some id => exact isVeiled.shields
  | none => exact isVeiled.pushStatics evolves .nil

theorem Sealed.arrayType (isSealed : s.Sealed hidden) (element : ValueType) :
    s.Keeps hidden (s.arrayType element).2 :=
  isSealed.keeps_of_shields (isSealed.isVeiled.arrayType element)

theorem Veiled.newArray (isVeiled : s.Veiled hidden) (element : ValueType) {values : Array Value}
    (known : AllOpen hidden values.toList) :
    (s.newArray element values).1.Open hidden ∧ s.Shields hidden (s.newArray element values).2 := by
  have typed := isVeiled.arrayType element
  obtain ⟨isOpen, made⟩ := typed.isVeiled.allocate (s.arrayType element).1 known
  exact ⟨isOpen, typed.trans made⟩

theorem Sealed.newArray (isSealed : s.Sealed hidden) (element : ValueType) {values : Array Value}
    (known : AllOpen hidden values.toList) :
    (s.newArray element values).1.Open hidden ∧ s.Keeps hidden (s.newArray element values).2 :=
  (isSealed.isVeiled.newArray element known).imp_right isSealed.keeps_of_shields

theorem Veiled.instantiate (isVeiled : s.Veiled hidden) (type : TypeId) :
    (∀ ref, (s.instantiate type).1 = .ok ref → ref.Open hidden) ∧
      s.Shields hidden (s.instantiate type).2 := by
  unfold State.instantiate
  cases s.domain.get? type with
  | none => exact ⟨fun _ made => (nomatch made), isVeiled.shields⟩
  | some info =>
    dsimp only
    split
    · exact ⟨fun _ made => (nomatch made), isVeiled.shields⟩
    · have known : AllOpen hidden (info.layout.map Value.defaultFor).toArray.toList :=
        AllOpen.defaults info.layout
      obtain ⟨isOpen, made⟩ := isVeiled.allocate type known
      refine ⟨fun ref same => ?_, made⟩
      cases same
      exact isOpen

theorem Sealed.instantiate (isSealed : s.Sealed hidden) (type : TypeId) :
    (∀ ref, (s.instantiate type).1 = .ok ref → ref.Open hidden) ∧
      s.Keeps hidden (s.instantiate type).2 :=
  (isSealed.isVeiled.instantiate type).imp_right isSealed.keeps_of_shields

theorem Sealed.duplicate (isSealed : s.Sealed hidden) (ref : ObjectRef) :
    (s.duplicate ref).1.Open hidden ∧ s.Keeps hidden (s.duplicate ref).2 :=
  isSealed.allocate ref.type (isSealed.slot ref)

theorem Sealed.setStatic (isSealed : s.Sealed hidden) {v : Value} (known : v.Open hidden)
    (type : TypeId) (i : Nat) : s.Keeps hidden (s.setStatic type i v) := by
  refine isSealed.retype .refl fun slots member => ?_
  obtain ⟨j, found⟩ := Array.mem_iff_getElem?.1 member
  rw [Array.getElem?_modify] at found
  split at found
  · obtain ⟨before, there, rfl⟩ := Option.map_eq_some_iff.1 found
    exact (isSealed.statics before (Array.mem_of_getElem? there)).setIfInBounds known i
  · exact isSealed.statics slots (Array.mem_of_getElem? found)

theorem Sealed.define (isSealed : s.Sealed hidden) (decl : TypeDecl) :
    s.Keeps hidden (s.define decl).2 := by
  have evolves := Domain.Evolves.refl.define (d := s.domain) decl
  unfold State.define
  cases defined : s.domain.define decl with
  | mk outcome domain =>
    rw [defined] at evolves
    cases outcome with
    | error e => exact isSealed.retype evolves isSealed.statics
    | ok id =>
      refine isSealed.keeps_of_shields (isSealed.isVeiled.pushStatics evolves ?_)
      have defaults : AllOpen hidden
          (((decl.fields.filter (·.isStatic)).map (·.type)).map Value.defaultFor) := .defaults _
      rw [List.map_map] at defaults
      exact defaults

end State

/-! ## Regimes -/

/-- Hosts that refer to hidden objects nowhere but in hidden objects. -/
def Regime.veiled (hidden : Nat → Prop) : Regime where
  Stands := State.Veiled hidden
  Leads := State.Shields hidden
  Knows := fun _ => Value.Open hidden
  refl := State.Veiled.shields
  trans := State.Shields.trans
  stands := State.Shields.isVeiled
  mono := fun _ => id
  plain := Value.open_of_plain
  get? := fun isVeiled known found => isVeiled.get? known found
  setSlot := fun i isVeiled target known => isVeiled.setSlot target known i
  newArray := fun element isVeiled known => (isVeiled.newArray element known).symm
  instantiate := fun type isVeiled => (isVeiled.instantiate type).symm

/-- Hosts that refer to hidden objects nowhere. -/
def Regime.secluded (hidden : Nat → Prop) : Regime where
  Stands := State.Sealed hidden
  Leads := State.Keeps hidden
  Knows := fun _ => Value.Open hidden
  refl := State.Sealed.keeps
  trans := State.Keeps.trans
  stands := State.Keeps.isSealed
  mono := fun _ => id
  plain := Value.open_of_plain
  get? := fun isSealed known found => isSealed.isVeiled.get? known found
  setSlot := fun i isSealed target known => isSealed.setSlot target known i
  newArray := fun element isSealed known => (isSealed.newArray element known).symm
  instantiate := fun type isSealed => (isSealed.instantiate type).symm

end ScriptHost.Host

import ScriptHost.Proofs.Host.Lineage
import ScriptHost.Proofs.Host.Regime
import ScriptHost.Proofs.Image.Loaded
/-!
Typed hosts: every reference is to an object of a type that the domain has. What runs on a typed host
leaves a typed host behind, and what it gives is typed as well.
-/
namespace ScriptHost.Host

variable {n k : Nat}

/-! ## Typed values -/

/-- A value that, if it is an object, is of one of the first `n` types. -/
def Value.Within (n : Nat) : Value → Prop
  | .object ref => ref.type.index < n
  | _ => True

/-- Values whose objects are of the first `n` types. -/
def AllWithin (n : Nat) (values : List Value) : Prop :=
  ∀ v ∈ values, v.Within n

theorem Value.Within.mono {v : Value} (known : v.Within n) (grown : n ≤ k) : v.Within k := by
  cases v with
  | object ref => exact Nat.lt_of_lt_of_le known grown
  | _ => trivial

theorem Value.within_of_plain {v : Value} (plain : v.asObject? = none) : v.Within n := by
  cases v with
  | object ref => cases plain
  | _ => trivial

theorem Value.within_defaultFor (type : ValueType) : (defaultFor type).Within n :=
  within_of_plain (asObject?_defaultFor type)

theorem Literal.within_toValue (l : Literal) : l.toValue.Within n :=
  Value.within_of_plain l.asObject?_toValue

namespace AllWithin

variable {values : List Value} {v : Value}

theorem nil : AllWithin n [] :=
  fun _ member => (List.not_mem_nil member).elim

theorem cons (first : v.Within n) (rest : AllWithin n values) : AllWithin n (v :: values) :=
  List.forall_mem_cons.2 ⟨first, rest⟩

theorem mono (all : AllWithin n values) (grown : n ≤ k) : AllWithin k values :=
  fun v member => (all v member).mono grown

theorem defaults (types : List ValueType) : AllWithin n (types.map Value.defaultFor) := by
  intro v member
  obtain ⟨type, _, rfl⟩ := List.mem_map.1 member
  exact Value.within_defaultFor type

theorem getElem? {values : Array Value} {i : Nat} (all : AllWithin n values.toList)
    (found : values[i]? = some v) : v.Within n :=
  known_getElem? all found

theorem getD {values : Array Value} (all : AllWithin n values.toList) (i : Nat) :
    (values.getD i .null).Within n :=
  known_getD all trivial i

theorem setIfInBounds {values : Array Value} (all : AllWithin n values.toList)
    (known : v.Within n) (i : Nat) : AllWithin n (values.setIfInBounds i v).toList :=
  known_setIfInBounds all known i

end AllWithin

/-! ## Typed hosts -/

/-- How many types a host has. -/
abbrev State.types (s : State) : Nat :=
  s.domain.types.size

/-- A host whose objects are all of types that it has. -/
structure State.Typed (s : State) : Prop where
  placed : s.domain.Placed
  slots : ∀ slots ∈ s.heap.objects, AllWithin s.types slots.toList
  statics : ∀ slots ∈ s.statics, AllWithin s.types slots.toList

/-- The host comes to a typed one, and its types only grow. -/
structure State.Types (s t : State) : Prop where
  evolves : s.domain.Evolves t.domain
  typed : t.Typed

theorem Domain.Evolves.size {d e : Domain} (evolves : d.Evolves e) :
    d.types.size ≤ e.types.size := by
  obtain ⟨more, same⟩ := evolves.extends
  rw [same, Array.size_append]
  exact Nat.le_add_right ..

namespace State

variable {s t u : State}

theorem Types.grown (types : s.Types t) : s.types ≤ t.types :=
  types.evolves.size

theorem Typed.types (typed : s.Typed) : s.Types s :=
  ⟨.refl, typed⟩

theorem Types.trans (first : s.Types t) (second : t.Types u) : s.Types u :=
  ⟨first.evolves.trans second.evolves, second.typed⟩

theorem Typed.slot (typed : s.Typed) (ref : ObjectRef) :
    AllWithin s.types (s.heap.slots ref).toList := by
  unfold Heap.slots
  rw [Array.getD_eq_getD_getElem?]
  cases found : s.heap.objects[ref.id]? with
  | none => exact .nil
  | some slots => exact typed.slots slots (Array.mem_of_getElem? found)

theorem Typed.get? (typed : s.Typed) {ref : ObjectRef} {i : Nat} {v : Value}
    (found : s.heap.get? ref i = some v) : v.Within s.types :=
  (typed.slot ref).getElem? found

theorem Typed.getD (typed : s.Typed) (ref : ObjectRef) (i : Nat) :
    ((s.heap.get? ref i).getD .null).Within s.types := by
  cases found : s.heap.get? ref i with
  | none => trivial
  | some v => exact typed.get? found

theorem Typed.static (typed : s.Typed) (type : TypeId) (i : Nat) :
    ((s.static? type i).getD .null).Within s.types := by
  unfold State.static?
  rw [Array.getD_eq_getD_getElem?]
  cases found : s.statics[type.index]? with
  | none => trivial
  | some slots =>
    dsimp only [Option.getD_some]
    rw [← Array.getD_eq_getD_getElem?]
    exact AllWithin.getD (typed.statics slots (Array.mem_of_getElem? found)) i

/-! ### What a host offers -/

theorem Typed.setSlot (typed : s.Typed) {v : Value} (known : v.Within s.types) (ref : ObjectRef)
    (i : Nat) : s.Types (s.setSlot ref i v).2 := by
  unfold State.setSlot
  dsimp only
  split
  · refine ⟨.refl, typed.placed, fun slots member => ?_, typed.statics⟩
    obtain ⟨j, found⟩ := Array.mem_iff_getElem?.1 member
    simp only [Heap.set, Array.getElem?_modify] at found
    split at found
    · obtain ⟨before, there, rfl⟩ := Option.map_eq_some_iff.1 found
      exact (typed.slots before (Array.mem_of_getElem? there)).setIfInBounds known i
    · exact typed.slots slots (Array.mem_of_getElem? found)
  · exact typed.types

theorem Typed.allocate (typed : s.Typed) {type : TypeId} (known : type.index < s.types)
    {slots : Array Value} (within : AllWithin s.types slots.toList) :
    (Value.object (s.allocate type slots).1).Within s.types ∧
      s.Types (s.allocate type slots).2 := by
  unfold State.allocate Heap.allocate
  refine ⟨known, .refl, typed.placed, fun object member => ?_, typed.statics⟩
  rcases Array.mem_push.1 member with old | rfl
  · exact typed.slots object old
  · exact within

/-- Only the types and the static slots change, and the latter hold typed values. -/
theorem Typed.retype (typed : s.Typed) {domain : Domain} {statics : Array (Array Value)}
    (evolves : s.domain.Evolves domain)
    (known : ∀ slots ∈ statics, AllWithin domain.types.size slots.toList) :
    s.Types ⟨domain, s.heap, statics⟩ :=
  ⟨evolves, evolves.placed typed.placed,
    fun slots member => (typed.slots slots member).mono evolves.size, known⟩

theorem Typed.retain (typed : s.Typed) {domain : Domain} (evolves : s.domain.Evolves domain) :
    s.Types { s with domain } :=
  typed.retype evolves fun slots member => (typed.statics slots member).mono evolves.size

theorem Typed.pushStatics (typed : s.Typed) {domain : Domain} {slots : Array Value}
    (evolves : s.domain.Evolves domain) (known : AllWithin domain.types.size slots.toList) :
    s.Types ⟨domain, s.heap, s.statics.push slots⟩ := by
  refine typed.retype evolves fun more member => ?_
  rcases Array.mem_push.1 member with old | rfl
  · exact (typed.statics more old).mono evolves.size
  · exact known

theorem Typed.setStatic (typed : s.Typed) {v : Value} (known : v.Within s.types) (type : TypeId)
    (i : Nat) : s.Types (s.setStatic type i v) := by
  refine typed.retype .refl fun slots member => ?_
  obtain ⟨j, found⟩ := Array.mem_iff_getElem?.1 member
  rw [Array.getElem?_modify] at found
  split at found
  · obtain ⟨before, there, rfl⟩ := Option.map_eq_some_iff.1 found
    exact (typed.statics before (Array.mem_of_getElem? there)).setIfInBounds known i
  · exact typed.statics slots (Array.mem_of_getElem? found)

theorem Typed.arrayType (typed : s.Typed) (element : ValueType) :
    (s.arrayType element).1.index < (s.arrayType element).2.types ∧
      s.Types (s.arrayType element).2 := by
  have evolves := Domain.Evolves.refl.arrayType (d := s.domain) element
  unfold State.arrayType
  cases found : s.domain.findArray? element with
  | some id =>
    refine ⟨?_, typed.types⟩
    obtain ⟨info, there, rfl⟩ := Option.map_eq_some_iff.1 found
    exact typed.placed.inBounds (Array.mem_of_find?_eq_some there)
  | none =>
    refine ⟨?_, typed.pushStatics evolves .nil⟩
    unfold Domain.arrayType
    rw [found]
    exact Nat.lt_of_lt_of_eq (Nat.lt_succ_self _) (Array.size_push _).symm

theorem Typed.newArray (typed : s.Typed) (element : ValueType) {values : Array Value}
    (known : AllWithin s.types values.toList) :
    (Value.object (s.newArray element values).1).Within (s.newArray element values).2.types ∧
      s.Types (s.newArray element values).2 := by
  obtain ⟨inBounds, first⟩ := typed.arrayType element
  obtain ⟨within, second⟩ := first.typed.allocate inBounds (known.mono first.grown)
  exact ⟨within.mono second.grown, first.trans second⟩

theorem Typed.instantiate (typed : s.Typed) (type : TypeId) :
    (∀ ref, (s.instantiate type).1 = .ok ref → (Value.object ref).Within s.types) ∧
      s.Types (s.instantiate type).2 := by
  unfold State.instantiate
  cases found : s.domain.get? type with
  | none => exact ⟨fun _ made => (nomatch made), typed.types⟩
  | some info =>
    dsimp only
    split
    · exact ⟨fun _ made => (nomatch made), typed.types⟩
    · obtain ⟨inBounds, _⟩ := Array.getElem?_eq_some_iff.1 found
      have defaults : AllWithin s.types (info.layout.map Value.defaultFor).toArray.toList :=
        AllWithin.defaults info.layout
      obtain ⟨within, made⟩ := typed.allocate inBounds defaults
      refine ⟨fun ref same => ?_, made⟩
      cases same
      exact within

theorem Typed.duplicate (typed : s.Typed) {ref : ObjectRef}
    (known : (Value.object ref).Within s.types) :
    (Value.object (s.duplicate ref).1).Within s.types ∧ s.Types (s.duplicate ref).2 :=
  typed.allocate known (typed.slot ref)

theorem Typed.define (typed : s.Typed) (decl : TypeDecl) : s.Types (s.define decl).2 := by
  have evolves := Domain.Evolves.refl.define (d := s.domain) decl
  unfold State.define
  cases defined : s.domain.define decl with
  | mk outcome domain =>
    rw [defined] at evolves
    cases outcome with
    | error e => exact typed.retain evolves
    | ok id =>
      refine typed.pushStatics evolves ?_
      have defaults : AllWithin domain.types.size
          (((decl.fields.filter (·.isStatic)).map (·.type)).map Value.defaultFor) := .defaults _
      rw [List.map_map] at defaults
      exact defaults

theorem Typed.defineAll (typed : s.Typed) (decls : List (Nat × TypeDecl)) :
    s.Types (Image.defineAll s decls).2 := by
  induction decls generalizing s with
  | nil => exact typed.types
  | cons entry rest ih =>
    obtain ⟨i, decl⟩ := entry
    have types := typed.define decl
    unfold Image.defineAll
    cases defined : s.define decl with
    | mk outcome after =>
      rw [defined] at types
      cases outcome with
      | error e => exact types
      | ok id => exact types.trans (ih types.typed)

theorem Typed.load (typed : s.Typed) (image : Image) : s.Types (image.load s).2 := by
  have setAside : s.Types (image.reserved s) :=
    typed.retain (Domain.Evolves.refl.reserveTokens image.methods.length)
  rcases Image.load_cases image s with
    ⟨e, refused⟩ | ⟨order, _, ⟨e, _, refused⟩ | ⟨decls, _, result⟩⟩
  · rw [refused]
    exact typed.types
  · rw [refused]
    exact setAside
  · rw [result]
    exact setAside.trans (setAside.typed.defineAll decls)

end State

/-- Hosts whose objects are of types that they have. -/
def Regime.typed : Regime where
  Stands := State.Typed
  Leads := State.Types
  Knows := fun s => Value.Within s.types
  refl := State.Typed.types
  trans := State.Types.trans
  stands := State.Types.typed
  mono := fun types known => known.mono types.grown
  plain := Value.within_of_plain
  get? := fun typed _ found => typed.get? found
  setSlot := fun i typed _ known => typed.setSlot known _ i
  newArray := fun element typed known => (typed.newArray element known).symm
  instantiate := fun type typed =>
    have ⟨within, types⟩ := typed.instantiate type
    ⟨types, fun ref made => (within ref made).mono types.grown⟩

end ScriptHost.Host

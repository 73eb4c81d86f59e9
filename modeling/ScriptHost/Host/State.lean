import ScriptHost.Host.Domain
import ScriptHost.Host.Exception
import ScriptHost.Journal
/-!
The state that host code runs in: types, objects and static slots, the journal, and whatever lies
outside the host.
-/
namespace ScriptHost.Host

/-- The types of a host, its objects, and the static slots of each type. -/
structure State where
  domain : Domain := {}
  heap : Heap := {}
  statics : Array (Array Value) := #[#[]]

instance : Inhabited State := ⟨{}⟩

namespace State

/-- What a static slot holds, if the type has that slot. -/
def static? (s : State) (type : TypeId) (slot : Nat) : Option Value :=
  (s.statics.getD type.index #[])[slot]?

/-- Stores into a static slot that the type has. -/
def setStatic (s : State) (type : TypeId) (slot : Nat) (v : Value) : State :=
  { s with statics := s.statics.modify type.index (·.setIfInBounds slot v) }

/-- Defines a type, with defaults in its static slots. -/
def define (s : State) (decl : TypeDecl) : Except DomainError TypeId × State :=
  match s.domain.define decl with
  | (.error e, domain) => (.error e, { s with domain })
  | (.ok id, domain) =>
    let defaults := (decl.fields.filter (·.isStatic)).map fun f => Value.defaultFor f.type
    (.ok id, { s with domain, statics := s.statics.push defaults.toArray })

/-- The type of the arrays of an element type, made on first use. -/
def arrayType (s : State) (element : ValueType) : TypeId × State :=
  match s.domain.findArray? element with
  | some id => (id, s)
  | none =>
    let (id, domain) := s.domain.arrayType element
    (id, { s with domain, statics := s.statics.push #[] })

/-- Makes an object. -/
def allocate (s : State) (type : TypeId) (slots : Array Value) : ObjectRef × State :=
  match s with
  | ⟨domain, heap, statics⟩ =>
    let (ref, heap) := heap.allocate type slots
    (ref, ⟨domain, heap, statics⟩)

/-- Makes an array. -/
def newArray (s : State) (element : ValueType) (values : Array Value) : ObjectRef × State :=
  let (type, s) := s.arrayType element
  s.allocate type values

/-- Makes an instance of a type, with defaults in its slots. -/
def instantiate (s : State) (type : TypeId) : Except HostException ObjectRef × State :=
  match s.domain.get? type with
  | none => (.error (.noType type), s)
  | some info =>
    if info.isArray then (.error (.notConstructible info.name), s)
    else
      let (ref, s) := s.allocate type (info.layout.map Value.defaultFor).toArray
      (.ok ref, s)

/-- Stores into a slot of an object, if it has that slot. -/
def setSlot (s : State) (ref : ObjectRef) (slot : Nat) (v : Value) : Bool × State :=
  match s with
  | ⟨domain, heap, statics⟩ =>
    if slot < heap.size ref then (true, ⟨domain, heap.set ref slot v, statics⟩)
    else (false, ⟨domain, heap, statics⟩)

/-- Makes an object of the same type with the same slots. -/
def duplicate (s : State) (ref : ObjectRef) : ObjectRef × State :=
  s.allocate ref.type (s.heap.slots ref)

end State

/-- A computation on the host alone that may raise an exception. -/
abbrev HostM := ExceptT HostException (StateM State)

/-- A host together with its surroundings. -/
structure World (ε : Type) where
  host : State
  journal : Journal
  /-- Values held by the host calls under way, innermost first. -/
  pins : List (List Value)
  outer : ε

/-- A host with nothing around it. -/
def World.alone (host : State) : World Unit := ⟨host, #[], [], ()⟩

/-- Runs a computation on the host of a world. -/
def World.onHost {ε α : Type} (m : HostM α) : StateM (World ε) (Except HostException α) :=
  fun ⟨host, journal, pins, outer⟩ =>
    let (result, host) := m.run host
    (result, ⟨host, journal, pins, outer⟩)

/-- Adds an entry to the journal. -/
def World.report {ε : Type} (entry : JournalEntry) : StateM (World ε) Unit :=
  fun ⟨host, journal, pins, outer⟩ => ((), ⟨host, journal.push entry, pins, outer⟩)

/-- Runs a computation while some values are held. -/
def World.holding {ε α : Type} (values : List Value) (m : StateM (World ε) α) :
    StateM (World ε) α := fun w =>
  let (a, w) := m { w with pins := values :: w.pins }
  (a, { w with pins := w.pins.tail })

end ScriptHost.Host

import ScriptHost.Bridge.Error
/-!
The registry of handles. A released slot is used again, last released first. It counts its releases
in 32 bits, and a handle of an earlier count is dead.
-/
namespace ScriptHost.Bridge

open Host

/-- What a handle was issued for. -/
inductive Registry.Entry
  /-- An object that the handle keeps alive. -/
  | strong (ref : ObjectRef)
  /-- An object that the handle does not keep alive. -/
  | weak (ref : ObjectRef)
  | type (id : TypeId)
  deriving DecidableEq, Repr

/-- A slot: how often it was released, and what it holds now. -/
structure Registry.Slot where
  generation : UInt32
  entry : Option Registry.Entry
  deriving DecidableEq, Repr

/-- Slots, the free ones in the order in which they are used again, and the number of live ones. -/
structure Registry where
  slots : Array Registry.Slot := #[]
  free : List UInt32 := []
  live : Nat := 0
  deriving DecidableEq, Repr

instance : Inhabited Registry := ⟨{}⟩

/-- What a live handle refers to. -/
inductive Referent
  | object (ref : ObjectRef)
  | type (id : TypeId)
  deriving DecidableEq, Repr

namespace Registry

/-- Issues a handle. -/
def insert (r : Registry) (entry : Entry) : Handle × Registry :=
  match r.free with
  | index :: free =>
    let generation := (r.slots[index.toNat]?.map (·.generation)).getD 0
    (⟨index, generation⟩,
      { slots := r.slots.setIfInBounds index.toNat ⟨generation, some entry⟩, free,
        live := r.live + 1 })
  | [] =>
    (⟨.ofNat r.slots.size, 0⟩,
      { r with slots := r.slots.push ⟨0, some entry⟩, live := r.live + 1 })

/-- What a handle was issued for, unless it was released since. -/
def entry? (r : Registry) (h : Handle) : Option Entry :=
  match r.slots[h.index.toNat]? with
  | some slot => if slot.generation = h.generation then slot.entry else none
  | none => none

/-- Whether a handle was issued and not released since. -/
def isIssued (r : Registry) (h : Handle) : Bool :=
  (r.entry? h).isSome

/-- What a handle refers to, given which objects are alive. -/
def resolve (r : Registry) (alive : ObjectRef → Bool) (h : Handle) : Except Error Referent :=
  match r.entry? h with
  | some (.strong ref) => .ok (.object ref)
  | some (.weak ref) => if alive ref then .ok (.object ref) else .error (.stale h)
  | some (.type type) => .ok (.type type)
  | none => .error (.stale h)

/-- The object that a handle refers to. -/
def unwrap (r : Registry) (alive : ObjectRef → Bool) (h : Handle) : Except Error ObjectRef :=
  match r.resolve alive h with
  | .ok (.object ref) => .ok ref
  | .ok (.type _) => .error (.conversion "object instance" "class")
  | .error e => .error e

/-- Whether a handle refers to anything. -/
def contains (r : Registry) (alive : ObjectRef → Bool) (h : Handle) : Bool :=
  (r.resolve alive h).isOk

/-- Releases a handle, if it is issued. -/
def release? (r : Registry) (h : Handle) : Option Registry :=
  if r.isIssued h then
    some {
      slots := r.slots.setIfInBounds h.index.toNat ⟨h.generation + 1, none⟩
      free := h.index :: r.free
      live := r.live - 1 }
  else none

/-- What is said when a handle that is not issued is released. -/
def deadRelease (h : Handle) : String :=
  "release of dead handle " ++ h.text

/-- The objects that the registry keeps alive. -/
def strongRefs (r : Registry) : List ObjectRef :=
  r.slots.toList.filterMap fun slot =>
    match slot.entry with
    | some (.strong ref) => some ref
    | _ => none

/-- The registry in diagnostics. -/
def diagnostic (r : Registry) : String :=
  s!"HandleRegistry \x7b slots: {r.slots.size}, live: {r.live}, free_count: {r.free.length} \x7d"

end Registry

end ScriptHost.Bridge

import ScriptHost.Image.Codec
import ScriptHost.Image.Load
import ScriptHost.Session.Outcome
/-!
Carrying out actions on the domain and its objects.
-/
namespace ScriptHost.Session

open Host (Domain Method ObjectRef TypeDecl TypeId)
open Script (DomainAction)
open Run

/-- Fails with a refusal, or breaks off if that is what came about instead of one. -/
def refuse {α : Type} (panic : Option String) (e : StepError) : StepRun α :=
  match panic with
  | some message => breakOff message
  | none => fail e

/-- Defines types in turn, up to the first that is refused, and answers their ids. -/
def defineAll (decls : List TypeDecl) : StepRun (List TypeId) :=
  decls.mapM fun decl => do
    match ← onHost (·.define decl) with
    | .ok id => pure id
    | .error e => refuse e.panic? (.domain e)

/-- Loads an image given as text, after injection if that is asked for. -/
def loadImage (text : String) (inject : Bool) : StepRun (List TypeId) := do
  match Image.decode? text with
  | none => fail (.image .malformed)
  | some image =>
    let image ← if inject then
        match image.inject with
        | .ok (image, _) => pure image
        | .error e => refuse e.panic? (.inject e)
      else pure image
    match ← onHost image.load with
    | .ok ids => return ids
    | .error e => refuse e.panic? (.image e)

/-- Ids as an answer. -/
def idReport (ids : List TypeId) : Report :=
  .list (ids.map fun id => .count id.index)

/-- The types of the domain as an answer. A domain that has only its root is empty. -/
def typesReport (d : Domain) : Report :=
  .record [("names", .list (d.types.toList.map fun t => .text t.name)),
    ("len", .count d.types.size), ("empty", .flag (decide (d.types.size ≤ 1)))]

/-- The slots of an object as an answer. -/
def slotsReport (ref : ObjectRef) : StepRun Report := do
  let slots := (← host).heap.slots ref
  let values ← slots.toList.mapM hostReport
  return .record [("len", .count slots.size), ("empty", .flag slots.isEmpty),
    ("slots", .list values),
    ("debug", .text s!"HostObject \x7b type_id: {ref.type.index}, slots: {slots.size} \x7d")]

/-- Calls a method from the host and names the object that it gives. -/
def hostCall (ctx : Host.Context Engine) (m : Method) (this : Option ObjectRef)
    (arguments : List Host.Value) (name : Option String) : StepRun Outcome := do
  let (v, left) ← (invokeHost ctx m this arguments).mapError .exception
  nameValue name v
  let result ← hostReport v
  let left ← left.mapM hostReport
  answer (.record [("ret", result), ("args", .list left)])

/-- An object that is made, named and shown. -/
def madeObject (name : String) (ref : ObjectRef) : StepRun Outcome := do
  nameObject name ref
  answer (← hostReport (.object ref))

/-- Stores into a static slot and answers whether the type has it. -/
def storeStatic (type : TypeId) (slot : Nat) (v : Host.Value) : StepRun Bool := do
  let found := ((← host).static? type slot).isSome
  onHost fun s => (found, s.setStatic type slot v)

/-- Carries out an action on the domain. -/
def performDomain (run : Runner) : DomainAction → StepRun Outcome
  | .define types => do answer (idReport (← defineAll types))
  | .loadImage text inject => do answer (idReport (← loadImage text inject))
  | .lookup name => do
    answer (((← domain).lookup name).elim .nothing fun id => .count id.index)
  | .types => do answer (typesReport (← domain))
  | .describe type => do
    let d ← domain
    let found := match type with
      | .named name => d.find? name
      | .id index => d.get? ⟨index⟩
    answer (found.elim .nothing d.reportType)
  | .describeToken token => do
    answer (((← domain).method? token).elim .nothing (·.report))
  | .reserve count => do
    let reserved ← onHost fun s =>
      let (first, domain) := s.domain.reserveTokens count
      (first, { s with domain })
    match reserved with
    | .ok first => answer (.count first.toNat)
    | .error e => refuse e.panic? (.domain e)
  | .chain type => do
    let id ← typeId type
    answer (.list (((← domain).chain id).map fun t => .text t.name))
  | .subtype sub sup => do
    let sub ← typeId sub
    let sup ← typeId sup
    answer (.flag ((← domain).isSubtype sub sup))
  | .accepts type name => do
    let ref ← object name
    answer (.flag ((← domain).accepts type ref))
  | .arrayType element => do answer (.count (← onHost (·.arrayType element)).index)
  | .instantiate type name => do
    let id ← typeId type
    match ← onHost (·.instantiate id) with
    | .ok ref => madeObject name ref
    | .error e => fail (.exception e)
  | .newArray element values name => do
    let values ← values.mapM hostValue
    madeObject name (← onHost (·.newArray element values.toArray))
  | .duplicate source name => do
    let ref ← object source
    madeObject name (← onHost (·.duplicate ref))
  | .slots name => do answer (← slotsReport (← object name))
  | .setSlot name slot v => do
    let ref ← object name
    let v ← hostValue v
    answer (.flag (← onHost (·.setSlot ref slot v)))
  | .forget name => do
    let found := ((← engine).names.find? name).isSome
    modifyEngine fun e => { e with names := e.names.unbind name }
    answer (.flag found)
  | .static type slot => do
    let id ← typeId type
    match (← host).static? id slot with
    | some v => answer (← hostReport v)
    | none => answer (.text "none")
  | .setStatic type slot v => do
    let id ← typeId type
    let v ← hostValue v
    answer (.flag (← storeStatic id slot v))
  | .call type method position this arguments patched stepLimit name => do
    let m ← overload (← typeId type) method position
    let this ← object? this
    let arguments ← arguments.mapM hostValue
    let limit := (← bridge).options.stepLimit
    let ctx := if patched then patchedContext run limit else .direct stepLimit
    hostCall ctx m this arguments name
  | .debug => do answer (.text (← domain).diagnostic)

end ScriptHost.Session

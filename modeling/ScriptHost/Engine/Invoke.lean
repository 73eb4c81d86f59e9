import ScriptHost.Engine.Call
import ScriptHost.Engine.Resolve
import ScriptHost.Host.Invoke
/-!
Calls from scripts into the host, and from patched methods back into scripts. A patch that fails or
declines leaves everything to the method that it would replace.
-/
namespace ScriptHost.Run

open Host (Method ObjectRef PatchRequest TypeId World)
open Bridge (CallShape)
open Script (FunctionRef Value)

variable {ε : Type}

/-- The arguments with which a patch is called: the receiver, if there is one, and what callers pass
to the method. -/
def patchArguments (r : PatchRequest) : Run Bridge.Error (List Value) := do
  let slots := (← host).heap.slots r.carrier
  let passed := r.method.params.zipIdx.filterMap fun (p, i) =>
    if p.isInput then some (slots.getD i .null) else none
  let target := r.target.map Host.Value.object
  (target.toList ++ passed).mapM toScript

/-- The slots that a patch fills, each with its type: the result, if the method has one, and the
parameters that callers receive from. -/
def patchedSlots (r : PatchRequest) : List (Nat × Host.ValueType) :=
  let received := r.method.params.zipIdx.filterMap fun (p, i) =>
    if p.isByRef then some (i, p.type) else none
  if r.method.returnsValue then (r.returnSlot, r.method.ret) :: received else received

/-- The host values for the slots, taken in order. A slot without a value gets its default. -/
def stage : List (Nat × Host.ValueType) → List Value → Run Bridge.Error (List (Nat × Host.Value))
  | [], _ => pure []
  | (slot, type) :: rest, values => do
    let v ← toHostSlot (values.headD .nil) type .output
    return (slot, v) :: (← stage rest values.tail)

/-- Takes over what a patch gave, if its first result says that it replaces the method. Nothing is
stored before all of it is converted. -/
def accept (r : PatchRequest) (results : List Value) : Run Bridge.Error Bool := do
  if (results.headD .nil).truthy then
    let staged ← stage (patchedSlots r) results.tail
    staged.forM fun (slot, v) => do
      let _ ← onHost (·.setSlot r.carrier slot v)
    return true
  else return false

/-- Runs a patch and answers whether it took the place of the method. -/
def runPatch (run : Runner) (f : FunctionRef) (r : PatchRequest) : Run Bridge.Error Bool := do
  let arguments ← patchArguments r
  holding arguments (fun _ => []) do
    let results ← (callValue run (.function f) arguments).mapError .script
    holding results (fun _ => []) (accept r results)

/-- The traceback of an error that came from a script. -/
def tracebackOf : Bridge.Error → String
  | .script e => e.traceback
  | _ => ""

/-- Asks the patches about a method that is about to run. The error of a patch is logged. -/
def dispatchPatch (run : Runner) (r : PatchRequest) : Run Bridge.Error Bool := do
  match (← bridge).patches.find? r.signature with
  | none => return false
  | some f =>
    match ← outcome (guarded (runPatch run f r)) with
    | .ok replaced => return replaced
    | .error (.failed e) =>
      let failure : Bridge.Error := .patchFailed r.signature e.message
      report (.log .error (failure.message ++ "\n" ++ tracebackOf e))
      return false
    | .error stop => throw stop

/-- The context of host calls that consult the patches. -/
def patchedContext (run : Runner) (stepLimit : Nat) : Host.Context Engine where
  stepLimit := stepLimit
  dispatch := fun r w =>
    match dispatchPatch run r w with
    | (.ok replaced, w) => (.ok replaced, w)
    | (.error (.panicked message), w) => (.error (.panicked message), w)
    | (.error (.failed _), w) => (.ok false, w)
    | (.error .exhausted, w) => (.error .exhausted, w)

/-- Calls a method of the host. -/
def invokeHost (ctx : Host.Context Engine) (m : Method) (this : Option ObjectRef)
    (arguments : List Host.Value) : Run Host.HostException (Host.Value × List Host.Value) := do
  let completion ← (Host.invoke ctx Host.callDepth m this arguments.toArray : StateM _ _)
  match completion.ending with
  | .returned v => return (v, completion.args.toList)
  | .threw e => fail e
  | .interrupted (.panicked message) => breakOff message
  | .interrupted .exhausted => throw .exhausted

/-- Calls a method of the host with the arguments of a script. -/
def invokeMethod (run : Runner) (m : Method) (this : Option ObjectRef) (arguments : List Value) :
    Run Bridge.Error (List Value) := do
  let passed ← marshalArguments m.params arguments
  let ctx := patchedContext run (← bridge).options.stepLimit
  let (v, left) ← (invokeHost ctx m this passed).mapError .host
  marshalResults m v left

/-- Calls the member of a type that fits the arguments. -/
def callMember (run : Runner) (type : TypeId) (member : String) (shape : CallShape)
    (this : Option ObjectRef) (arguments : List Value) : Run Bridge.Error (List Value) := do
  let m ← resolveMethod type member shape (arguments.map (·.tag))
  invokeMethod run m this arguments

/-- Calls a member through a handle: of an object, or of a type. -/
def callHandle (run : Runner) (h : Bridge.Handle) (member : String) (arguments : List Value) :
    Run Bridge.Error (List Value) := do
  match ← resolveHandle h with
  | .object ref => callMember run ref.type member .ofInstance (some ref) arguments
  | .type type =>
    let shape : CallShape := if member = Host.constructorName then .constructor else .static
    callMember run type member shape none arguments

end ScriptHost.Run

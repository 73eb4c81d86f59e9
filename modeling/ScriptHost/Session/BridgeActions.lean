import ScriptHost.Session.Outcome
/-!
Carrying out actions on what joins scripts and host.
-/
namespace ScriptHost.Session

open Script (BridgeAction)
open Run

/-- Releases a handle. A handle that is not issued breaks the run off. -/
def release (h : Bridge.Handle) : StepRun Unit := do
  match (← bridge).registry.release? h with
  | some registry => do
    modifyBridge ({ · with registry })
    note (.revoked h)
  | none => breakOff (Bridge.Registry.deadRelease h)

/-- The object of a handle. -/
def unwrapHandle (h : Bridge.Handle) : Run Bridge.Error Host.ObjectRef := do
  let w ← get
  ofExcept (w.outer.bridge.registry.unwrap (aliveIn w) h)

/-- The method cache as an answer. -/
def cacheReport (c : Bridge.MethodCache Host.Method) : Report :=
  .record [("len", .count c.entries.size), ("population", .count c.population),
    ("hits", .count c.hits), ("empty", .flag c.entries.isEmpty)]

/-- Behaviour keys as an answer. -/
def keysReport (keys : Bridge.BehaviourKeys) : Report :=
  .list [.count keys.ofInstance, .count keys.ofClass]

/-- Carries out an action on a bridge that is there. -/
def performOnBridge (run : Runner) : BridgeAction → StepRun Outcome
  | .importType name => do single (← ofBridge (importType name))
  | .classValue type => do single (← ofBridge (classValue (← typeId type)))
  | .register type => do answer (keysReport (← ofBridge (registerType (← typeId type))))
  | .registration type => do
    let id ← typeId type
    answer (((← bridge).exposed.find? id).elim .nothing keysReport)
  | .wrap name weak => do
    let ref ← object name
    let h ← issue (if weak then .weak ref else .strong ref)
    note (.given h)
    answer (.text h.text)
  | .unwrap h name => do
    let ref ← ofBridge (unwrapHandle (← handle h))
    nameValue name (.object ref)
    answer (← hostReport (.object ref))
  | .release h => do
    release (← handle h)
    answer .nothing
  | .handles => do answer (.count (← bridge).registry.live)
  | .call h member arguments => do
    let h ← handle h
    let arguments ← arguments.mapM value
    several (← holding arguments id (ofBridge (callHandle run h member arguments)))
  | .resolve type member shape tags => do
    answer (← ofBridge (resolveMethod (← typeId type) member shape tags)).report
  | .callMember type member shape this arguments => do
    let type ← typeId type
    let this ← object? this
    let arguments ← arguments.mapM value
    several (← holding arguments id (ofBridge (callMember run type member shape this arguments)))
  | .invoke type method position this arguments => do
    let m ← overload (← typeId type) method position
    let this ← object? this
    let arguments ← arguments.mapM value
    several (← holding arguments id (ofBridge (invokeMethod run m this arguments)))
  | .marshal type method position arguments => do
    let m ← overload (← typeId type) method position
    let arguments ← arguments.mapM value
    let passed ← ofBridge (marshalArguments m.params arguments)
    answer (.list (← passed.mapM hostReport))
  | .methodWrapper type member => do
    single (.function (← ofBridge (methodWrapper (← typeId type) member)))
  | .cache => do answer (cacheReport (← bridge).cache)
  | .clearCache => do
    modifyBridge ({ · with cache := {} })
    answer .nothing
  | .getMember name key => do
    let ref ← object name
    let key ← value key
    single (← holding [key] (fun v => [v]) (ofBridge (getMember run ref key)))
  | .setMember name key v => do
    let ref ← object name
    let key ← value key
    let v ← value v
    holding [v, key] (fun _ => []) (ofBridge (setMember run ref key v))
    answer .nothing
  | .toHost v type mode name => do
    let v ← ofBridge (toHostSlot (← value v) type mode)
    nameValue name v
    answer (← hostReport v)
  | .toScript v => do single (← ofBridge (toScript (← hostValue v)))
  | .toScriptWeak name => do single (← ofBridge (wrapObject (← object name) true))
  | .patch signature f => do
    addPatch signature (← function f)
    answer .nothing
  | .unpatch signature => do answer (.flag (← removePatch signature))
  | .findPatch signature => do
    single (((← bridge).patches.find? signature).elim .nil .function)
  | .patched => do
    answer (.list ((← bridge).patches.signatures.map .text))
  | .debug => do answer (.text (← bridge).diagnostic)

/-- Carries out an action on the bridge, unless the bridge is gone. -/
def performBridge (run : Runner) (a : BridgeAction) : StepRun Outcome := do
  if (← engine).bridgeDropped then fail (.unknown "bridge")
  else performOnBridge run a

end ScriptHost.Session

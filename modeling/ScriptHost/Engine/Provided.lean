import ScriptHost.Engine.Member
/-!
The functions that the bridge provides to scripts: importing and patching, the behaviours of types
and their instances, and the members of types.
-/
namespace ScriptHost.Run

open Host (ObjectRef TypeId)
open Bridge (CallShape)
open Script (BridgeFunction TypeFunction Value)

variable {ε : Type}

/-- The script value of the type of a name. -/
def importType (name : String) : Run Bridge.Error Value := do
  match (← domain).lookup name with
  | some type => classValue type
  | none => fail (.typeNotFound name)

/-- Lets a function take the place of the method of a signature. -/
def addPatch (signature : String) (f : Script.FunctionRef) : Run ε Unit :=
  modifyBridge fun b => { b with patches := b.patches.insert signature f }

/-- Takes back a patch and answers whether there was one. -/
def removePatch (signature : String) : Run ε Bool := do
  let found := (← bridge).patches.contains signature
  modifyBridge fun b => { b with patches := b.patches.erase signature }
  return found

/-- The first argument of a function, which has to be a byte string. -/
def textArgument (arguments : List Value) (name : String) : Run Bridge.Error String := do
  match arguments.headD .nil with
  | .string bytes => return Text.shown bytes
  | other => fail (.conversion ("string (argument #1 to '" ++ name ++ "')") other.tag.name)

/-- The object of a value. -/
def objectOf (v : Value) : Run Bridge.Error ObjectRef := do
  match ← resolveValue v with
  | .object ref => return ref
  | .type _ => fail (.conversion "object instance" "class")

/-- Releases the handle of a wrapper that is gone, unless that was done before. -/
def releaseRemains (v : Value) : Run Bridge.Error Unit := do
  match v with
  | .pointer slot =>
    match (← bridge).registry.release? (.ofWord slot) with
    | some registry => do
      modifyBridge ({ · with registry })
      note (.finalized (.ofWord slot))
    | none => return ()
  | _ => return ()

/-- What a part of the behaviour of a type gives. -/
def applyTypeFunction (run : Runner) (type : TypeId) (f : TypeFunction) (arguments : List Value) :
    Run Bridge.Error (List Value) := do
  let first := arguments.getD 0 .nil
  let second := arguments.getD 1 .nil
  let third := arguments.getD 2 .nil
  match f with
  | .instanceIndex => return [← getMember run (← objectOf first) second]
  | .instanceNewindex => do
    setMember run (← objectOf first) second third
    return []
  | .instanceText => do
    let ref ← objectOf first
    let h := first.wrapper?.elim 0 (·.slot)
    return [.text (← describe run ref (.ofWord h))]
  | .classCall => do
    let results ← callMember run type Host.constructorName .constructor none arguments.tail
    discard (results.take 1) (results.drop 1)
    return results.take 1
  | .classIndex => return [← getStatic run type second]
  | .classNewindex => do
    setStatic run type second third
    return []
  | .classText => return [.text ("class " ++ (← typeInfo type).name)]
  | .finalize => do
    releaseRemains first
    return []

/-- What a function of the bridge gives. -/
def applyBridgeFunction (run : Runner) (f : BridgeFunction) (arguments : List Value) :
    Run Bridge.Error (List Value) := do
  match f with
  | .importType => return [← importType (← textArgument arguments "import")]
  | .patch => do
    let signature ← textArgument arguments "patch"
    match arguments.getD 1 .nil with
    | .function f => do
      addPatch signature f
      return []
    | other => fail (.conversion "function" other.tag.name)
  | .unpatch => return [.bool (← removePatch (← textArgument arguments "unpatch"))]
  | .findPatch => do
    let signature ← textArgument arguments "find_patch"
    return [((← bridge).patches.find? signature).elim .nil .function]
  | .ofType f type => applyTypeFunction run type f arguments
  | .member type name => callWrapped run type name arguments

/-- Runs a function of the bridge on the values of its frame. When the bridge is gone there is
nothing to release any more, and everything else fails. -/
def runBridgeFunction (run : Runner) (f : BridgeFunction) : Run Script.Error Nat := do
  if (← engine).bridgeDropped then
    match f with
    | .ofType .finalize _ => return 0
    | _ => failHere "bridge was dropped"
  else
    let arguments := (← script).frameValues
    holding arguments (fun _ => []) do
      let results ← (applyBridgeFunction run f arguments).mapError (·.toScript)
      modifyScript (·.pushAll results)
      return results.length

/-- The functions that scripts find under global names. -/
def providedGlobals : List (String × BridgeFunction) :=
  [("import", .importType), ("patch", .patch), ("unpatch", .unpatch), ("find_patch", .findPatch)]

/-- Gives scripts the functions of the bridge. -/
def install : Run ε Unit :=
  providedGlobals.forM fun (name, f) => do
    let f ← onScript (·.newFunction name none (.bridge f))
    modifyScript fun s => { s with globals := s.globals.insert name (.function f) }

end ScriptHost.Run

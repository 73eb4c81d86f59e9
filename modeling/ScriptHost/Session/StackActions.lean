import ScriptHost.Script.Chunk
import ScriptHost.Session.Outcome
/-!
Carrying out actions on values, variables and the stack.
-/
namespace ScriptHost.Session

open Script (BehaviourPart StackAction Term Value)
open Run

/-- The parts of a value, each as far as the value has it. -/
def inspect (v : Value) : Report :=
  let number := match v with
    | .number x => .number x
    | _ => .nothing
  let bool := match v with
    | .bool b => .flag b
    | _ => .nothing
  let slot := v.wrapper?.elim .nothing fun w => .text (toString w.slot.toNat)
  .record [("tag", .text v.tag.name), ("nil", .flag (v.tag == .nil)), ("truthy", .flag v.truthy),
    ("bool", bool), ("number", number), ("str", Host.optionalText v.text?),
    ("bytes", Host.optionalText (v.bytes?.map fun b => Text.hexBytes b.toList)), ("slot", slot),
    ("fn", Host.optionalText (v.function?.map fun f => "FunctionRef(" ++ f.name ++ ")"))]

/-- The top value of the frame, taken off the stack, or nil. -/
def popValue : StepRun Value := do
  let s ← script
  if s.top = 0 then return .nil
  else
    let popped ← onScript (·.takeFrom (s.stack.size - 1))
    return popped.headD .nil

/-- Makes the frame `count` values long. -/
def setTop (count : Nat) : StepRun Unit := do
  let s ← script
  let target := s.base + count
  cutStack target
  modifyScript (·.pushAll (List.replicate (target - s.stack.size) .nil))

/-- The text at an index of the frame. -/
def checkString (index : Int) : Run Script.Error String := do
  match (← script).valueAt index with
  | .string bytes => return Text.shown bytes
  | other => failHere s!"bad argument #{index} (string expected, got {other.tag.name})"

/-- Gives a global name a value. What it had before goes. -/
def setGlobal {ε : Type} (name : String) (v : Value) : Run ε Unit := do
  let old := (← script).globals.find? name
  modifyScript fun s => { s with globals := s.globals.insert name v }
  discard [] old.toList

/-- Forgets a variable and answers whether there was one. -/
def forgetVariable (name : String) : StepRun Bool := do
  let old := (← engine).bindings.find? name
  modifyEngine fun e => { e with bindings := e.bindings.erase name }
  discard [] old.toList
  return old.isSome

/-- Makes a behaviour of functions and answers its key. -/
def makeBehaviour (name : String) (parts : List (BehaviourPart × Term)) : StepRun Nat := do
  let empty : Script.Behaviour := { name }
  let b ← parts.foldlM (fun b (part, t) => do return b.setPart (← function t) part) empty
  onScript (·.addBehaviour b)

/-- A function that is made, or the error that prevents it. -/
def madeFunction (make : Script.State → Except Script.Error Script.FunctionRef × Script.State) :
    StepRun Outcome := do
  let f ← ofScript ((onScript make) >>= ofExcept)
  single (.function f)

/-- Makes an entry in the books if a finalizer is handed out. -/
def noteHandedOut (part : BehaviourPart) : StepRun Unit :=
  if part = .gc then note .bypassed else pure ()

/-- Carries out an action on the stack. Operands are held until the action is over. -/
def performStack (run : Runner) : StackAction → StepRun Outcome
  | .bind v => do single (← value v)
  | .forget name => do answer (.flag (← forgetVariable name))
  | .same a b => do
    let a ← value a
    let b ← value b
    answer (.flag (a.equals b))
  | .debug v => do answer (.text (← value v).diagnostic)
  | .inspect v => do answer (inspect (← value v))
  | .push v => do
    push (← value v)
    topOutcome
  | .pop count => do
    truncate ((← script).stack.size - count)
    topOutcome
  | .popValue => do single (← popValue)
  | .setTop count => do
    setTop count
    topOutcome
  | .truncate depth => do
    truncate depth
    answer (.count (← script).stack.size)
  | .top => do
    let s ← script
    answer (.list [.count s.top, .count s.stack.size])
  | .valueAt i => do single ((← script).valueAt i)
  | .kindAt i => do
    answer (Host.optionalText (((← script).valueAt? i).map (·.tag.name)))
  | .frame => do several (← script).frameValues
  | .checkString i => do answer (.text (← ofScript (checkString i)))
  | .setGlobal name v => do
    setGlobal name (← value v)
    answer .nothing
  | .getGlobal name => do single (((← script).globals.find? name).getD .nil)
  | .call arguments wanted => do
    ofScript (call run arguments wanted)
    topOutcome
  | .protectedCall arguments wanted => do
    ofScript (protectedCall run arguments wanted)
    topOutcome
  | .callFunction f arguments wanted => do
    let f ← function f
    let arguments ← arguments.mapM value
    several (← holding arguments id (ofScript (callFunction run f arguments wanted)))
  | .callValue f arguments => do
    let callee ← value f
    let arguments ← arguments.mapM value
    several (← holding (arguments ++ [callee]) id (ofScript (callValue run callee arguments)))
  | .method target name arguments => do
    let target ← value target
    let arguments ← arguments.mapM value
    several (← holding (arguments ++ [target]) id (ofScript (callMethod run target name arguments)))
  | .index target key => do
    let target ← value target
    let key ← value key
    single (← holding [key, target] (fun v => [v]) (ofScript (index run target key)))
  | .setIndex target key v => do
    let target ← value target
    let key ← value key
    let v ← value v
    holding [v, key, target] (fun _ => []) (ofScript (setIndex run target key v))
    answer .nothing
  | .display v => do
    let v ← value v
    answer (.text (← holding [v] (fun _ => []) (ofScript (display run v))))
  | .traceback => do answer (.text (← script).traceback)
  | .error message => ofScript (failHere message)
  | .raise message => fail (.script ⟨message, ""⟩)
  | .panic message => breakOff message
  | .pendingFinalizers => do answer (.count (← script).graveyard.size)
  | .collect => do answer (.count (← ofScript (collect run Host.callDepth 0)))
  | .behaviour name parts => do answer (.count (← makeBehaviour name parts))
  | .behaviourPart key part => do
    noteHandedOut part
    let f := ((← script).behaviours[key]?).bind (·.part part)
    single (f.elim .nil .function)
  | .wrapper slot key => do
    note .bypassed
    single (← onScript (·.newWrapper slot key))
  | .loadPrototype name => madeFunction (·.loadPrototype name)
  | .dump f => do
    let f ← function f
    answer (.text (Text.hexBytes (← ofScript (ofExcept f.dump))))
  | .load chunk name => madeFunction (·.load chunk.toList name)
  | .debugStack => do answer (.text (← script).diagnostic)

end ScriptHost.Session

import ScriptHost.Session.BridgeActions
import ScriptHost.Session.DomainActions
import ScriptHost.Session.StackActions
/-!
Running the bodies of script functions. The actions that run bodies take the interpreter as a
parameter; how deep functions and bodies may nest is bounded by a number of levels.
-/
namespace ScriptHost.Session

open Script (Action Block FunctionRef Step)
open Run

/-- What runs functions, and bodies under a label. A body answers its number of results if it ends
the function that it stands in. -/
structure Interpreter where
  function : Runner
  block : (label : String) → Block → Run Script.Error (Option Nat)

/-- Adds the answer of a step to the journal. -/
def record {ε : Type} (label : Option String) (quiet : Bool) (result : Except Failure Report) :
    Run ε Unit := do
  unless quiet do report (.step label result)

/-- Runs a body some times, or until it ends the function. -/
def repeatBlock (i : Interpreter) (body : Block) : Nat → Run Script.Error (Option Nat)
  | 0 => pure none
  | count + 1 => do
    match ← i.block "repeat" body with
    | some results => return some results
    | none => repeatBlock i body count

/-- Runs a body, restores the depth of the stack, and tells the depths on the way. -/
def guardBlock (i : Interpreter) (body : Block) : StepRun Outcome := do
  let depth := (← script).stack.size
  let inside ← guarded do
    let _ ← ofScript (i.block "guard" body)
    return (← script).top
  let after := (← script).stack.size
  answer (.list [.count depth, .count depth, .count inside, .count after])

/-- Puts a body into the queue of tasks. -/
def postTask (body : Block) : StepRun Unit := do
  if (← engine).senderOpen then
    match ← onTasks (·.post body) with
    | .ok () => pure ()
    | .error e => fail (.task e)
  else fail (.task .closed)

/-- Carries out an action. -/
def perform (i : Interpreter) : Action → StepRun Outcome
  | .choose condition yes no => do
    let holds := (← value condition).truthy
    let label := if holds then "then" else "else"
    let returned ← ofScript (i.block label (if holds then yes else no))
    return { report := .text label, returned }
  | .loop count body => do
    let returned ← ofScript (repeatBlock i body count)
    return { report := .nothing, returned }
  | .guarded body => guardBlock i body
  | .ret values count => do
    let values ← values.mapM value
    modifyScript (·.pushAll values)
    return { report := .count count, returned := some count }
  | .define name body binding => do
    let f ← onScript (·.newFunction name none (.block body))
    bindAll [binding] [.function f]
    answer ((Script.Value.function f).report (← script))
  | .register name body => do
    let f ← onScript (·.newFunction name none (.block body))
    setGlobal name (.function f)
    answer .nothing
  | .prototype name body => do
    modifyScript fun s => { s with prototypes := s.prototypes.insert name body }
    answer .nothing
  | .post body => do
    postTask body
    answer .nothing
  | .stack a => performStack i.function a
  | .domain a => performDomain i.function a
  | .bridge a => performBridge i.function a

/-- Runs a step of a body: carries out its action, answers, and binds its results. -/
def runStep (i : Interpreter) (label : String) (s : Step Action) :
    Run Script.Error (Option Nat) := do
  match ← outcome (perform i s.action) with
  | .ok o =>
    record label s.quiet (.ok o.report)
    (bindAll s.names o.values).mapError (·.toScript)
    return o.returned
  | .error (.failed e) =>
    record label s.quiet (.error e.failure)
    if s.attempt then return none else fail e.toScript
  | .error (.panicked message) => breakOff message
  | .error .exhausted => throw .exhausted

/-- Runs the steps of a body in order, up to one that ends the function. -/
def runBlock (i : Interpreter) (label : String) : Block → Run Script.Error (Option Nat)
  | [] => pure none
  | s :: rest => do
    match ← runStep i label s with
    | some results => return some results
    | none => runBlock i label rest

/-- Something to run. -/
inductive Code
  | function (f : FunctionRef)
  | block (label : String) (body : Block)

/-- Runs a piece of code within a number of levels. A function that does not say otherwise has no
results. -/
def execute : (levels : Nat) → Code → Run Script.Error (Option Nat)
  | 0, _ => throw .exhausted
  | levels + 1, code =>
    let i : Interpreter := {
      function := fun f => do return (← execute levels (.function f)).getD 0
      block := fun label body => execute levels (.block label body) }
    match code with
    | .block label body => runBlock i label body
    | .function f =>
      match f.body with
      | .block body => runBlock i f.name body
      | .bridge b => do return some (← runBridgeFunction i.function b)

/-- The interpreter with a number of levels. -/
def interpreter (levels : Nat) : Interpreter where
  function f := do return (← execute levels (.function f)).getD 0
  block label body := execute levels (.block label body)

end ScriptHost.Session

import ScriptHost.Engine.Provided
import ScriptHost.Image.Describe
/-!
What a step ends with, and the values that it names.
-/
namespace ScriptHost.Session

open Host (ObjectRef TypeId)
open Script (HandleTerm Term TypeTerm Value)
open Run

/-- Why a step fails. -/
inductive StepError
  | script (cause : Script.Error)
  | bridge (cause : Bridge.Error)
  | domain (cause : Host.DomainError)
  | exception (cause : Host.HostException)
  | image (cause : Image.Error)
  | inject (cause : Image.InjectError)
  | task (cause : TaskError)
  /-- The step names something that is not there. -/
  | unknown (what : String)

namespace StepError

/-- A failed step as an answer. -/
def failure : StepError → Failure
  | .script e => e.failure
  | .bridge e => e.failure
  | .domain e => e.failure
  | .exception e => e.failure
  | .image e => e.failure
  | .inject e => e.failure
  | .task e => e.failure
  | .unknown what => ⟨"driver", some ("unknown " ++ what), none⟩

/-- The error with which a failed step ends its body. -/
def toScript : StepError → Script.Error
  | .script e => e
  | .bridge e => e.toScript
  | other => ⟨other.failure.message.getD "", ""⟩

end StepError

/-- A computation of a step. -/
abbrev StepRun := Run StepError

/-- What a step that succeeds gives: its answer, the values that variables can take, and the number
of results if it ends the function. -/
structure Outcome where
  report : Report
  values : List Value := []
  returned : Option Nat := none

/-- A computation that fails with an error of scripts. -/
def ofScript {α : Type} (m : Run Script.Error α) : StepRun α :=
  m.mapError .script

/-- A computation that fails with an error of the bridge. -/
def ofBridge {α : Type} (m : Run Bridge.Error α) : StepRun α :=
  m.mapError .bridge

/-- A result that has to be there. -/
def need {α : Type} (what : String) : Option α → StepRun α
  | some a => pure a
  | none => fail (.unknown what)

/-- The value that a term stands for. -/
def value : Term → StepRun Value
  | .nil => pure .nil
  | .bool b => pure (.bool b)
  | .number x => pure (.number x)
  | .bytes b => pure (.string b)
  | .pointer address => pure (.pointer address)
  | .var name => do need ("variable " ++ name) ((← engine).bindings.find? name)
  | .argument i => do return (← script).valueAt i
  | .global name => do return ((← script).globals.find? name).getD .nil

/-- The function that a term stands for. -/
def function (t : Term) : StepRun Script.FunctionRef := do
  need "function" (← value t).function?

/-- The handle that a term stands for. -/
def handle : HandleTerm → StepRun Bridge.Handle
  | .word raw => pure (.ofWord raw)
  | .value t => do return .ofWord (← need "handle" (← value t).wrapper?).slot

/-- The id that a term stands for. -/
def typeId : TypeTerm → StepRun TypeId
  | .named name => do need ("type " ++ name) ((← domain).lookup name)
  | .id index => pure ⟨index⟩

/-- The object of a name. -/
def object (name : String) : StepRun ObjectRef := do
  need ("object " ++ name) ((← engine).names.find? name)

/-- The object of a name that may be left out. -/
def object? : Option String → StepRun (Option ObjectRef)
  | some name => do return some (← object name)
  | none => pure none

/-- The host value that a term stands for. -/
def hostValue (t : Host.ValueTerm) : StepRun Host.Value := do
  need "object" (t.eval? (← engine).names)

/-- The overload of a name that a type declares. -/
def overload (type : TypeId) (name : String) (position : Nat) : StepRun Host.Method := do
  let info ← need "type" ((← domain).get? type)
  let methods := if name = Host.constructorName then info.constructors else info.methodsNamed name
  need ("method " ++ name) methods[position]?

/-- Gives a name to an object. -/
def nameObject (name : String) (ref : ObjectRef) : StepRun Unit :=
  modifyEngine fun e => { e with names := e.names.bind name ref }

/-- Gives a name to a value that is an object. -/
def nameValue (name : Option String) (v : Host.Value) : StepRun Unit := do
  match name, v.asObject? with
  | some name, some ref => nameObject name ref
  | _, _ => pure ()

/-- A host value as an answer. -/
def hostReport (v : Host.Value) : StepRun Report := do
  let w ← get
  return .host (v.view w.host.domain w.outer.names)

/-- The outcome of a step that only answers. -/
def answer (r : Report) : StepRun Outcome :=
  pure { report := r }

/-- The outcome of a step that gives one value. -/
def single (v : Value) : StepRun Outcome := do
  return { report := v.report (← script), values := [v] }

/-- The outcome of a step that gives a list of values. -/
def several (values : List Value) : StepRun Outcome := do
  let s ← script
  return { report := .list (values.map (·.report s)), values }

/-- The outcome of a step that tells how many values the frame has. -/
def topOutcome : StepRun Outcome := do
  answer (.count (← script).top)

/-- Lets variables take values. What a variable held before goes. -/
def bindAll : List String → List Value → StepRun Unit
  | [], values => discard [] values
  | name :: names, values => do
    let old := (← engine).bindings.find? name
    let v := values.headD .nil
    modifyEngine fun e => { e with bindings := e.bindings.insert name v }
    discard values.tail old.toList
    bindAll names values.tail

end ScriptHost.Session

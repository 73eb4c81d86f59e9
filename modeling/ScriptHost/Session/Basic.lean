import ScriptHost.Session.Interpreter
/-!
Sessions: commands carried out one after the other on an engine, with everything that they report.
Besides the actions of scripts there are commands for whoever owns the engine.
-/
namespace ScriptHost.Session

open Host (World)
open Script (Action Block Step Term Value)
open Run

/-- What the owner of an engine may ask for. -/
inductive Command
  | action (a : Action)
  /-- Runs tasks and finalizers as the options say. -/
  | tick
  /-- Runs tasks for some time, in milliseconds. -/
  | drain (budgetMs : Nat)
  | pendingTasks
  | queueState
  | callGlobal (name : String) (arguments : List Term)
  | debugTasks
  | debugQueue
  | dropBridge
  | dropQueue

/-- Runs a task. The stack is as deep afterwards as before, and an error is logged. -/
def runTask (i : Interpreter) (task : Block) : StepRun Unit := do
  match ← outcome (guarded (i.block "task" task)) with
  | .ok _ => pure ()
  | .error (.failed e) => report (.log .error ("task failed: " ++ e.message ++ "\n" ++ e.traceback))
  | .error (.panicked message) => breakOff message
  | .error .exhausted => throw .exhausted

/-- Runs tasks until none waits or the time is spent, which is asked after each task, and answers
how many ran. -/
def drain (i : Interpreter) (spent : (ran : Nat) → Bool) :
    (rounds : Nat) → (ran : Nat) → StepRun Nat
  | 0, _ => throw .exhausted
  | rounds + 1, ran => do
    match ← onTasks (·.take?) with
    | none => return ran
    | some task =>
      runTask i task
      if spent (ran + 1) then return ran + 1 else drain i spent rounds (ran + 1)

/-- How many tasks a queue may run in one go. -/
def taskRounds : Nat := 1000000

/-- Runs tasks within a budget. A budget of nothing is spent after one task, any other never. -/
def drainFor (i : Interpreter) (budgetMs : Nat) : StepRun Nat :=
  drain i (fun _ => budgetMs == 0) taskRounds 0

/-- Calls the function of a global name. An error is logged. -/
def callGlobal (i : Interpreter) (name : String) (arguments : List Value) :
    Run Script.Error (List Value) := do
  let f := ((← script).globals.find? name).getD .nil
  match f with
  | .nil =>
    let e : Script.Error := ⟨"attempt to call a nil value (global '" ++ name ++ "')", ""⟩
    report (.log .error e.message)
    fail e
  | _ =>
    match ← outcome (holding [f] id (callValue i.function f arguments)) with
    | .ok values => return values
    | .error (.failed e) => do
      report (.log .error (e.message ++ "\n" ++ e.traceback))
      fail e
    | .error stop => throw stop

/-- Lets the bridge go and answers whether it was still there. -/
def dropBridge : StepRun Bool := do
  let e ← engine
  if e.bridgeDropped then return false
  else
    modifyEngine fun e =>
      { e with bridge := { options := e.bridge.options }, bridgeDropped := true }
    discard [] e.bridge.classes.values
    return true

/-- The sender of tasks in diagnostics. -/
def senderText (e : Engine) : String :=
  let queued := if e.senderOpen then e.tasks.size else 0
  s!"Some(TaskSender \x7b queued: {queued} \x7d)"

/-- Carries out a command. -/
def performCommand (i : Interpreter) : Command → StepRun Outcome
  | .action a => perform i a
  | .tick => do
    let tasks ← drainFor i (← engine).bridge.options.tickBudgetMs
    let finalized ← ofScript (collect i.function Host.callDepth 0)
    answer (.record [("tasks", .count tasks), ("finalized", .count finalized)])
  | .drain budgetMs => do
    answer (.record [("tasks", .count (← drainFor i budgetMs))])
  | .pendingTasks => do answer (.count (← taskQueue).size)
  | .queueState => do
    let tasks ← taskQueue
    answer (.list [.count tasks.size, .flag tasks.waiting.isEmpty])
  | .callGlobal name arguments => do
    let arguments ← arguments.mapM value
    several (← holding arguments id (ofScript (callGlobal i name arguments)))
  | .debugTasks => do
    let tasks ← taskQueue
    let e ← engine
    let runtime := "ScriptRuntime \x7b bridge: " ++ e.bridge.diagnostic ++
      s!", pending_tasks: {tasks.size} \x7d"
    answer (.list [.text (senderText e), .text runtime, .count e.script.stack.size])
  | .debugQueue => do
    let tasks ← taskQueue
    answer (.list [.text (senderText (← engine)), .text tasks.diagnostic])
  | .dropBridge => do answer (.flag (← dropBridge))
  | .dropQueue => do
    modifyEngine fun e => { e with tasks := { capacity := e.tasks.capacity }, senderOpen := false }
    answer .nothing

/-- How deep functions and bodies may nest in a session. -/
def levels : Nat := 1000000

/-- Carries out a command of a session. Whatever it ends with, the session goes on. -/
def runCommand (s : Step Command) : StepRun Unit := do
  let i := interpreter levels
  match ← outcome (performCommand i s.action) with
  | .ok o =>
    record none s.quiet (.ok o.report)
    bindAll s.names o.values
  | .error (.failed e) => record none s.quiet (.error e.failure)
  | .error (.panicked message) => record none s.quiet (.error (Host.panicFailure message))
  | .error .exhausted => record none s.quiet (.error (Host.panicFailure "nested too deeply"))

/-- Carries out the commands of a session. -/
def runAll (commands : List (Step Command)) : StepRun Unit :=
  commands.forM runCommand

/-- The world of a new engine, with the functions of the bridge unless they are not wanted. -/
def start (options : Options) (installed : Bool) : World Engine :=
  let w : World Engine := ⟨{}, #[], [], .ofOptions options⟩
  if installed then ((install : StepRun Unit) w).2 else w

/-- Everything that a session reports. -/
def run (options : Options) (installed : Bool) (commands : List (Step Command)) : Journal :=
  ((runAll commands) (start options installed)).2.journal

end ScriptHost.Session

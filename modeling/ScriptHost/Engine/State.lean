import ScriptHost.Bridge.Ledger
import ScriptHost.Bridge.State
import ScriptHost.Engine.TaskQueue
import ScriptHost.Host.Liveness
/-!
The engine: scripts, bridge and tasks, with the variables and object names of whoever drives it.
Computations on it may fail, break off, or nest deeper than they are allowed to.
-/
namespace ScriptHost

open Host (World ObjectNames ObjectRef)
open Script (Value Wrapper)

/-- The state of the engine apart from the host. -/
structure Engine where
  script : Script.State
  bridge : Bridge.State
  /-- Whether the bridge is gone. -/
  bridgeDropped : Bool := false
  tasks : TaskQueue Script.Block
  /-- Whether tasks can still be posted. -/
  senderOpen : Bool := true
  bindings : Table String Value := {}
  names : ObjectNames := []
  /-- Values held by the computations under way, innermost first. -/
  held : List (List Value) := []
  /-- What was done with handles. -/
  ledger : Bridge.Ledger := []

/-- An engine without anything in it. -/
def Engine.ofOptions (options : Options) : Engine where
  script := { maxStack := options.maxStackSlots, maxDepth := options.maxCallDepth }
  bridge := { options }
  tasks := { capacity := options.taskQueueCapacity }

/-- Every place that holds script values. -/
def Engine.values (e : Engine) : List Value :=
  e.script.stack.toList ++ e.script.globals.values ++ e.bindings.values ++
    e.bridge.classes.values ++ e.held.flatten

/-- Whether one of some values is a wrapper. -/
def holdsWrapper (values : List Value) (w : Wrapper) : Bool :=
  values.any fun v => v.wrapper? == some w

/-- The wrappers that nothing refers to when some values go one after the other, given the values
that stay. -/
def lastReferences (staying : List Value) : (going : List Value) → List Wrapper
  | [] => []
  | v :: rest =>
    match v.wrapper? with
    | some w =>
      if holdsWrapper rest w || holdsWrapper staying w then lastReferences staying rest
      else w :: lastReferences staying rest
    | none => lastReferences staying rest

/-- Lets some values go, while some more than the engine holds are in use. Wrappers without other
references wait to be finalized from now on. -/
def Engine.discard (e : Engine) (inUse going : List Value) : Engine :=
  if going.all (·.wrapper?.isNone) then e
  else
    let dead := (lastReferences (inUse ++ e.values) going).map fun w =>
      Script.Remains.mk w.behaviour w.slot
    { e with script.graveyard := e.script.graveyard ++ dead.toArray }

/-- Whether an object is still there. -/
def aliveIn (w : World Engine) (ref : ObjectRef) : Bool :=
  let named := w.outer.names.map fun (_, ref) => Host.Value.object ref
  let issued := w.outer.bridge.registry.strongRefs.map Host.Value.object
  w.host.isAlive (named ++ issued ++ w.pins.flatten) ref

/-- Why a computation stops early. -/
inductive Stop (ε : Type)
  | failed (e : ε)
  /-- Something broke off with a message. -/
  | panicked (message : String)
  /-- Calls are nested deeper than the run allows for. -/
  | exhausted

/-- The same reason with another error. -/
def Stop.map {ε δ : Type} (f : ε → δ) : Stop ε → Stop δ
  | .failed e => .failed (f e)
  | .panicked message => .panicked message
  | .exhausted => .exhausted

/-- A computation on the engine and its host. -/
abbrev Run (ε α : Type) := ExceptT (Stop ε) (StateM (World Engine)) α

namespace Run

variable {ε δ α : Type}

/-- Fails with an error. -/
def fail (e : ε) : Run ε α :=
  throw (.failed e)

/-- Breaks off with a message. -/
def breakOff (message : String) : Run ε α :=
  throw (.panicked message)

/-- What a computation ends with. -/
def outcome (m : Run ε α) : Run δ (Except (Stop ε) α) := fun w =>
  let (result, w) := m w
  (.ok result, w)

/-- Changes the error with which a computation fails. -/
def mapError (f : ε → δ) (m : Run ε α) : Run δ α := fun w =>
  let (result, w) := m w
  (result.mapError (·.map f), w)

/-- Fails with the error of a result. -/
def ofExcept : Except ε α → Run ε α
  | .ok a => pure a
  | .error e => fail e

/-- The state of the engine. -/
def engine : Run ε Engine := do
  return (← get).outer

/-- Changes the state of the engine. -/
def modifyEngine (f : Engine → Engine) : Run ε Unit :=
  modify fun ⟨host, journal, pins, outer⟩ => ⟨host, journal, pins, f outer⟩

/-- Makes an entry in the books about handles. -/
def note (deed : Bridge.Deed) : Run ε Unit :=
  modifyEngine fun e => { e with ledger := deed :: e.ledger }

/-- The state of the scripts. -/
def script : Run ε Script.State := do
  return (← get).outer.script

/-- Changes the state of the scripts. -/
def modifyScript (f : Script.State → Script.State) : Run ε Unit :=
  modifyEngine fun e => { e with script := f e.script }

/-- Changes the state of the scripts and answers what goes with the change. -/
def onScript (f : Script.State → α × Script.State) : Run ε α := do
  let (a, script) := f (← script)
  modifyEngine ({ · with script })
  return a

/-- Turns to the queue of tasks, where other senders posted meanwhile, changes it and answers what
goes with the change. -/
def onTasks (f : TaskQueue Script.Block → α × TaskQueue Script.Block) : Run ε α := do
  let (a, tasks) := f (← engine).tasks.gather
  modifyEngine ({ · with tasks })
  return a

/-- The queue of tasks as it is found. -/
def taskQueue : Run ε (TaskQueue Script.Block) :=
  onTasks fun q => (q, q)

/-- The state of the bridge. -/
def bridge : Run ε Bridge.State := do
  return (← get).outer.bridge

/-- Changes the state of the bridge. -/
def modifyBridge (f : Bridge.State → Bridge.State) : Run ε Unit :=
  modifyEngine fun e => { e with bridge := f e.bridge }

/-- The state of the host. -/
def host : Run ε Host.State := do
  return (← get).host

/-- The types of the host. -/
def domain : Run ε Host.Domain := do
  return (← get).host.domain

/-- Changes the state of the host and answers what goes with the change. -/
def onHost (f : Host.State → α × Host.State) : Run ε α :=
  modifyGet fun ⟨host, journal, pins, outer⟩ =>
    let (a, host) := f host
    (a, ⟨host, journal, pins, outer⟩)

/-- Adds an entry to the journal. -/
def report (entry : JournalEntry) : Run ε Unit :=
  modify fun ⟨host, journal, pins, outer⟩ => ⟨host, journal.push entry, pins, outer⟩

/-- Lets some values go, while some more than the engine holds are in use. -/
def discard (inUse going : List Value) : Run ε Unit :=
  modifyEngine (·.discard inUse going)

/-- Runs a computation that holds some values and lets them go at its end. `inUse` are the values in
its result. -/
def holding (values : List Value) (inUse : α → List Value) (m : Run ε α) : Run ε α := do
  modifyEngine fun e => { e with held := values :: e.held }
  let result ← outcome (δ := ε) m
  modifyEngine fun e => { e with held := e.held.tail }
  match result with
  | .ok a => do
    discard (inUse a) values
    return a
  | .error stop => do
    discard [] values
    throw stop

end Run

end ScriptHost

import ScriptHost.Journal
/-!
A bounded queue of tasks, first in first out. Tasks are posted by the tasks that run and by other
senders, who post whenever they like.
-/
namespace ScriptHost

/-- Why a task is not accepted. -/
inductive TaskError
  | full
  | closed
  deriving DecidableEq, Repr

/-- What a refusal says. -/
def TaskError.message : TaskError → String
  | .full => "task queue is full"
  | .closed => "task queue is closed"

/-- A refused task as an answer. -/
def TaskError.failure (e : TaskError) : Failure :=
  ⟨match e with | .full => "Full" | .closed => "Disconnected", some e.message, none⟩

/-- What happened to a task. -/
inductive TaskQueue.Event (τ : Type)
  | accepted (task : τ)
  | refused (task : τ)
  | taken (task : τ)

/-- Tasks that wait, oldest first, and how many may wait at a time. -/
structure TaskQueue (τ : Type) where
  capacity : Nat
  waiting : List τ := []
  /-- What other senders post before the owner turns to the queue, each time that it does. Nobody but
  senders looks at the queue in between. -/
  arriving : List (List τ) := []
  /-- What happened, the latest first. Nothing that runs reads it. -/
  history : List (TaskQueue.Event τ) := []

namespace TaskQueue

variable {τ : Type}

/-- Puts a task behind the others, unless the queue is full. -/
def post (q : TaskQueue τ) (task : τ) : Except TaskError Unit × TaskQueue τ :=
  if q.waiting.length < q.capacity then
    (.ok (), { q with waiting := q.waiting ++ [task], history := .accepted task :: q.history })
  else (.error .full, { q with history := .refused task :: q.history })

/-- Puts tasks behind the others as long as there is room. -/
def postAll (q : TaskQueue τ) : (tasks : List τ) → TaskQueue τ
  | [] => q
  | task :: rest => (q.post task).2.postAll rest

/-- The queue after other senders posted what they do before the owner turns to it. -/
def gather (q : TaskQueue τ) : TaskQueue τ :=
  match q.arriving with
  | [] => q
  | tasks :: later => { q with arriving := later }.postAll tasks

/-- Takes the oldest task. -/
def take? (q : TaskQueue τ) : Option τ × TaskQueue τ :=
  match q.waiting with
  | [] => (none, q)
  | task :: rest => (some task, { q with waiting := rest, history := .taken task :: q.history })

/-- How many tasks wait. -/
def size (q : TaskQueue τ) : Nat :=
  q.waiting.length

/-- The queue in diagnostics. -/
def diagnostic (q : TaskQueue τ) : String :=
  s!"TaskQueue \x7b pending: {q.size}, capacity: Some({q.capacity}) \x7d"

end TaskQueue

end ScriptHost

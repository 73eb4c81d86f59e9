import ScriptHost.Proofs.Session.Commands
/-!
The queue of tasks of a session. Whoever posts and whenever, and however long the owner drains the
queue each time, tasks run in the order in which they were accepted, each of them once.
-/
namespace ScriptHost.Session

open Host (World)
open Run
open Script (Block Step)

variable {w : World Engine}

/-! ## Turns -/

/-- A world in which other senders are about to post tasks, some each time before the owner turns to
the queue. -/
def expecting (arriving : List (List Block)) (w : World Engine) : World Engine :=
  { w with outer := { w.outer with tasks := { w.outer.tasks with arriving } } }

/-- What the owner of an engine does: it carries out a command, or drains the queue by a clock. -/
inductive Turn
  | command (s : Step Command)
  | drain (spent : (ran : Nat) → Bool) (rounds : Nat)

/-- The world after a turn. -/
def Turn.after (w : World Engine) : Turn → World Engine
  | .command s => (runCommand s w).2
  | .drain spent rounds => (Session.drain (interpreter levels) spent rounds 0 w).2

/-- The tasks that run in a turn. -/
def Turn.Runs (w : World Engine) (tasks : List Block) : Turn → Prop
  | .command s => s.action.Runs (interpreter levels) w tasks
  | .drain spent rounds => ∃ ended, Drains (interpreter levels) w tasks ended
      (Session.drain (interpreter levels) spent rounds 0 w).2

/-- The world after some turns. -/
def afterAll (w : World Engine) : List Turn → World Engine
  | [] => w
  | turn :: rest => afterAll (turn.after w) rest

/-- The tasks that run in some turns. -/
def RunsAll (w : World Engine) : List Turn → List Block → Prop
  | [], ran => ran = []
  | turn :: rest, ran => ∃ first later, turn.Runs w first ∧ RunsAll (turn.after w) rest later ∧
      ran = first ++ later

theorem goes_turn (steady : Steady w) (turn : Turn) :
    ∃ tasks, turn.Runs w tasks ∧ Goes tasks w (turn.after w) := by
  cases turn with
  | command s => exact goes_runCommand steady s
  | drain spent rounds =>
    have orderly : (interpreter levels).IsOrderly fun _ => False := isOrderly_interpreter levels
    obtain ⟨tasks, ended, drains, -⟩ := exists_drains orderly spent rounds 0 steady
    exact ⟨tasks, ⟨ended, drains⟩, .inl (drains.took orderly steady)⟩

theorem goes_turns (steady : Steady w) (turns : List Turn) :
    ∃ ran, RunsAll w turns ran ∧ Goes ran w (afterAll w turns) := by
  induction turns generalizing w with
  | nil => exact ⟨[], rfl, .inl steady.took⟩
  | cons turn rest ih =>
    obtain ⟨first, runs, goes⟩ := goes_turn steady turn
    obtain ⟨later, runsLater, goesOn⟩ := ih goes.steady
    exact ⟨first ++ later, ⟨first, later, runs, runsLater, rfl⟩, goes.trans goesOn⟩

theorem steady_expecting (options : Options) (installed : Bool) (arriving : List (List Block)) :
    Steady (expecting arriving (start options installed)) := by
  cases installed <;> exact ⟨Nat.zero_le _, .start⟩

/-! ## Posting -/

/-- The answer to whoever posts is in the history. -/
theorem postTask_cases (body : Block) (isOpen : w.outer.senderOpen = true) :
    ((postTask body w).1 = .ok () ∧
      (postTask body w).2.outer.tasks.history = .accepted body :: w.outer.tasks.gather.history ∧
      w.outer.tasks.gather.waiting.length < w.outer.tasks.gather.capacity) ∨
    ((postTask body w).1 = .error (.failed (.task .full)) ∧
      (postTask body w).2.outer.tasks.history = .refused body :: w.outer.tasks.gather.history ∧
      ¬ w.outer.tasks.gather.waiting.length < w.outer.tasks.gather.capacity) := by
  have step : postTask body w = _ := bind_apply engine _ w
  have asked := step.trans (congrFun (if_pos isOpen) w)
  rw [asked, bind_apply, onTasks_apply]
  by_cases room : w.outer.tasks.gather.waiting.length < w.outer.tasks.gather.capacity
  · left
    have posted : w.outer.tasks.gather.post body = (.ok (), _) := if_pos room
    rw [posted]
    exact ⟨rfl, rfl, room⟩
  · right
    have posted : w.outer.tasks.gather.post body = (.error .full, _) := if_neg room
    rw [posted]
    exact ⟨rfl, rfl, room⟩

/-- Whoever posts is told that the queue is full exactly if as many tasks wait as may. -/
theorem Steady.full_iff (steady : Steady w) (body : Block) (isOpen : w.outer.senderOpen = true) :
    (postTask body w).1 = .error (.failed (.task .full)) ↔
      w.outer.tasks.gather.waiting.length = w.outer.tasks.capacity := by
  have gathers := TaskQueue.gathers_gather w.outer.tasks
  have most := (gathers.lawful steady.lawful).length_le
  rw [gathers.capacity] at most
  rcases postTask_cases body isOpen with ⟨answer, -, room⟩ | ⟨answer, -, noRoom⟩
  · rw [gathers.capacity] at room
    rw [answer]
    exact iff_of_false nofun (Nat.ne_of_lt room)
  · rw [gathers.capacity] at noRoom
    exact iff_of_true answer (Nat.le_antisymm most (Nat.le_of_not_lt noRoom))

/-! ## Sessions -/

/-- Tasks are run in the order in which they were accepted, each of them once. That is so for every
session, whatever turns the owner of the engine takes and whatever other senders post before it turns
to the queue each time: what ran so far and what waits are together what was accepted. The history of
the queue accounts for what waits, so that tasks are refused when as many wait as may and not before,
and it says of every task what whoever posted it was told. A drain runs at least one task if any
waits, and as many as it answers, and tasks that come to their end leave the frames as they were and
the stack no deeper. -/
theorem tasks_in_order (options : Options) (installed : Bool) (arriving : List (List Block))
    (turns : List Turn) :
    ∃ ran w, RunsAll (expecting arriving (start options installed)) turns ran ∧
      afterAll (expecting arriving (start options installed)) turns = w ∧
      (w.outer.senderOpen = true → ran ++ w.outer.tasks.waiting = w.outer.tasks.accepted) ∧
      TaskQueue.Explains options.taskQueueCapacity w.outer.tasks.history w.outer.tasks.waiting ∧
      (∀ body, w.outer.senderOpen = true →
        ((postTask body w).1 = .error (.failed (.task .full)) ↔
          w.outer.tasks.gather.waiting.length = options.taskQueueCapacity)) ∧
      (∀ (u : World Engine) body, u.outer.senderOpen = true →
        (postTask body u).1 = .ok () ∧
            (postTask body u).2.outer.tasks.history =
              .accepted body :: u.outer.tasks.gather.history ∨
          (postTask body u).1 = .error (.failed (.task .full)) ∧
            (postTask body u).2.outer.tasks.history =
              .refused body :: u.outer.tasks.gather.history) ∧
      ∀ spent rounds, ∃ tasks ended,
        Drains (interpreter levels) w tasks ended
          (drain (interpreter levels) spent rounds 0 w).2 ∧
        (0 < rounds → w.outer.tasks.gather.waiting ≠ [] → tasks ≠ []) ∧
        Drained spent rounds 0 tasks ended (drain (interpreter levels) spent rounds 0 w).2
          (drain (interpreter levels) spent rounds 0 w).1 := by
  have orderly : (interpreter levels).IsOrderly fun _ => False := isOrderly_interpreter levels
  have steady := steady_expecting options installed arriving
  have room : (expecting arriving (start options installed)).outer.tasks.capacity =
      options.taskQueueCapacity := by
    cases installed <;> rfl
  have untaken : (expecting arriving (start options installed)).outer.tasks.taken = [] := by
    cases installed <;> rfl
  obtain ⟨ran, runs, goes⟩ := goes_turns steady turns
  have capacity := goes.capacity.trans room
  refine ⟨ran, _, runs, rfl, ?_, ?_, ?_, ?_, ?_⟩
  · intro isOpen
    rcases goes with took | ⟨-, -, closed⟩
    · have whole := took.steady.lawful.taken_append_waiting
      rwa [← TaskQueue.taken, took.taken, untaken, List.nil_append] at whole
    · rw [closed] at isOpen
      cases isOpen
  · rw [← capacity]
    exact goes.steady.lawful
  · intro body isOpen
    rw [← capacity]
    exact goes.steady.full_iff body isOpen
  · intro u body isOpen
    rcases postTask_cases body isOpen with ⟨answer, noted, -⟩ | ⟨answer, noted, -⟩
    · exact .inl ⟨answer, noted⟩
    · exact .inr ⟨answer, noted⟩
  · intro spent rounds
    exact exists_drains orderly spent rounds 0 goes.steady

/-- A task that posts two others. -/
def twice : Block :=
  [{ action := .post [], attempt := true }, { action := .post [], attempt := true }]

/-- There is room for one task. One of two that arrive is refused, and so is one of two that the
other posts when it runs. -/
example :
    let w := afterAll (expecting [[twice, []]] (start { taskQueueCapacity := 1 } true))
      [.drain (fun _ => true) 1, .drain (fun _ => true) 1]
    w.outer.tasks.history.length = 6 ∧ w.outer.tasks.taken.map List.length = [2, 0] := by
  decide +kernel

end ScriptHost.Session

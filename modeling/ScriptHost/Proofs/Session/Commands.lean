import ScriptHost.Proofs.Session.Interpreter
import ScriptHost.Session.Basic
/-!
The commands of a session. They are orderly, but for those that take tasks out of the queue; these
run every task that they take, and each task leaves frames and stack as they should be.
-/
namespace ScriptHost.Session

open Host (World)
open Run
open Script (Step Value)

variable {ε α β : Type} {hidden : Nat → Prop} {i : Interpreter}

/-- The time in which a command is to run tasks, if it is to do so. -/
def Command.budget? (w : World Engine) : Command → Option Nat
  | .tick => some w.outer.bridge.options.tickBudgetMs
  | .drain budgetMs => some budgetMs
  | _ => none

section

variable (orderly : i.IsOrderly hidden)
include orderly

theorem orderly_runTask (task : Script.Block) :
    Orderly hidden .framed (fun _ => True) (runTask i task) :=
  (orderly_guarded (orderly.block _ _)).attempt (fun _ _ => .pure trivial) (fun _ => .report _)
    (fun _ => rfl) rfl

theorem orderly_callGlobal (name : String) (arguments : List Value) :
    Orderly hidden .framed (fun _ => True) (callGlobal i name arguments) := by
  refine Orderly.script.bind fun s _ => ?_
  dsimp only
  split
  · exact (Orderly.report _).bind fun _ _ => .fail _
  · refine Orderly.attempt (P := fun _ => True) ?_ (fun _ _ => .pure trivial) (fun e => ?_)
      (fun _ => rfl) rfl
    · exact (orderly_callValue orderly.function _ _).of_still.holding _ _
    · exact (Orderly.report _).bind fun _ _ => .fail _

omit orderly in
theorem orderly_dropBridge : Orderly hidden .framed (fun _ => True) dropBridge := by
  refine Orderly.engine.bind fun e _ => ?_
  split
  · exact .pure trivial
  · refine Orderly.bind (P := fun _ => True) (.modifyEngine fun _ isSealed fits => ?_) fun _ _ => ?_
    · exact ⟨⟨isSealed.names, fun slot member => (Array.not_mem_empty slot member).elim⟩,
        .refl fits, .refl _, rfl⟩
    · exact (Orderly.discard _ _).bind fun _ _ => .pure trivial

/-- A command that neither runs tasks nor drops their queue is orderly. -/
theorem orderly_performCommand {c : Command} {w : World Engine} (runsNone : c.budget? w = none)
    (keeps : c ≠ .dropQueue) : Orderly hidden .framed (fun _ => True) (performCommand i c) := by
  cases c with
  | action a => exact orderly_perform orderly a
  | tick | drain _ => cases runsNone
  | dropQueue => exact absurd rfl keeps
  | pendingTasks | queueState => exact Orderly.taskQueue.bind fun _ _ => orderly_answer _
  | debugTasks | debugQueue =>
    exact Orderly.taskQueue.bind fun _ _ => Orderly.engine.bind fun _ _ => orderly_answer _
  | callGlobal name arguments =>
    refine (orderly_values arguments).bind fun arguments _ => ?_
    refine Orderly.bind (P := fun _ => True) ?_ fun _ _ => orderly_several _
    exact (orderly_ofScript (orderly_callGlobal orderly name arguments)).holding _ _
  | dropBridge => exact orderly_dropBridge.bind fun _ _ => orderly_answer _

end

/-- After an orderly computation, whatever it ends with, the current frame starts on the stack. -/
theorem fits_of_orderly {d : Script.Discipline} {P : α → Prop} {m : Run ε α}
    (orderly : Orderly (fun _ => False) d P m) {w : World Engine} (fits : w.outer.script.Fits) :
    (m w).2.outer.script.Fits :=
  (orderly w (proper_of_fits fits)).1.script.fits fits

/-- All functions and bodies of a session are orderly. -/
theorem isOrderly_interpreter (levels : Nat) : (interpreter levels).IsOrderly hidden :=
  ⟨orderly_interpreter levels, fun _ _ => orderly_execute levels _⟩

/-! ## Taking tasks -/

/-- A world whose current frame starts on the stack, and whose queue accounts for what waits. -/
structure Steady (w : World Engine) : Prop where
  fits : w.outer.script.Fits
  lawful : w.outer.tasks.Lawful

/-- A world stays steady, and nothing happens to its queue but that some tasks are taken, in order,
and others are posted. -/
structure Took (tasks : List Script.Block) (w v : World Engine) : Prop where
  steady : Steady v
  taken : v.outer.tasks.taken = w.outer.tasks.taken ++ tasks
  capacity : v.outer.tasks.capacity = w.outer.tasks.capacity
  senderOpen : v.outer.senderOpen = w.outer.senderOpen

section

variable {w v u : World Engine} {tasks later : List Script.Block}

theorem Steady.took (steady : Steady w) : Took [] w w :=
  ⟨steady, (List.append_nil _).symm, rfl, rfl⟩

theorem Took.trans (first : Took tasks w v) (second : Took later v u) : Took (tasks ++ later) w u :=
  ⟨second.steady, by rw [second.taken, first.taken, List.append_assoc],
    second.capacity.trans first.capacity, second.senderOpen.trans first.senderOpen⟩

/-- An orderly computation takes nothing. -/
theorem Steady.took_of_orderly {d : Script.Discipline} {P : α → Prop} {m : Run ε α}
    (steady : Steady w) (orderly : Orderly (fun _ => False) d P m) : Took [] w (m w).2 := by
  obtain ⟨leads, -⟩ := orderly w (proper_of_fits steady.fits)
  obtain ⟨gathers, same⟩ := leads.posts
  exact ⟨⟨leads.script.fits steady.fits, gathers.lawful steady.lawful⟩,
    gathers.taken.trans (List.append_nil _).symm, gathers.capacity, same⟩

/-- An orderly computation after others takes no more than they did. -/
theorem Took.orderly {d : Script.Discipline} {P : α → Prop} {m : Run ε α} (took : Took tasks w v)
    (orderly : Orderly (fun _ => False) d P m) : Took tasks w (m v).2 := by
  have both := took.trans (took.steady.took_of_orderly orderly)
  rwa [List.append_nil] at both

theorem Took.bind {d : Script.Discipline} {P : β → Prop} {m : Run ε α} {f : α → Run ε β}
    (took : Took tasks w (m w).2) (rest : ∀ a, Orderly (fun _ => False) d P (f a)) :
    Took tasks w ((m >>= f) w).2 := by
  rw [bind_apply]
  cases result : m w with
  | mk outcome v =>
    rw [result] at took
    cases outcome with
    | ok a => exact took.orderly (rest a)
    | error stop => exact took

end

/-- The oldest task is taken out of the queue, if any waits. -/
def takeTask : StepRun (Option Script.Block) :=
  onTasks (·.take?)

theorem takeTask_apply (w : World Engine) :
    takeTask w = (.ok w.outer.tasks.gather.waiting.head?,
      { w with outer := { w.outer with tasks := w.outer.tasks.gather.take?.2 } }) := by
  rw [← TaskQueue.take?_fst]
  rfl

theorem Steady.took_takeTask {w v : World Engine} {task : Option Script.Block} (steady : Steady w)
    (takes : takeTask w = (.ok task, v)) : Took task.toList w v := by
  have gathers := TaskQueue.gathers_gather w.outer.tasks
  rw [takeTask_apply] at takes
  obtain ⟨first, rfl⟩ := Prod.mk.inj takes
  cases first
  refine ⟨⟨steady.fits, (gathers.lawful steady.lawful).take?⟩, ?_, ?_, rfl⟩
  · rw [TaskQueue.taken_take?, gathers.taken, TaskQueue.take?_fst]
  · exact (TaskQueue.capacity_take? _).trans gathers.capacity

/-! ## Draining -/

/-- What a task leaves of the engine is what restoring the stack at its end leaves. -/
theorem outer_runTask (i : Interpreter) (task : Script.Block) (w : World Engine) :
    (runTask i task w).2.outer = (guarded (i.block "task" task) w).2.outer := by
  unfold runTask
  rw [bind_apply, outcome_apply]
  dsimp only
  cases (guarded (i.block "task" task) w).1 with
  | ok _ => rfl
  | error stop => cases stop <;> rfl

/-- A task that comes to its end leaves the frames as they were and the stack no deeper. -/
theorem restored_of_runTask (orderly : i.IsOrderly fun _ => False) {w v : World Engine}
    (fits : w.outer.script.Fits) {task : Script.Block} (ran : runTask i task w = (.ok (), v)) :
    v.outer.script.frames = w.outer.script.frames ∧
      v.outer.script.stack.size ≤ w.outer.script.stack.size := by
  obtain ⟨leads, -⟩ := orderly_runTask orderly task w (proper_of_fits fits)
  have left := outer_runTask i task w
  rw [ran] at leads left
  have allows : Script.Discipline.framed.Allows w.outer.script v.outer.script := leads.script
  refine ⟨allows.frames, ?_⟩
  obtain ⟨graveyard, guards⟩ := exists_guarded (i.block "task" task) w
  rw [guards] at left
  -- The stack is cut off no lower than the current frame, which is the one of the beginning.
  have base : (i.block "task" task w).2.outer.script.base = w.outer.script.base := by
    rw [← Script.Discipline.base_eq allows.frames, left]
    rfl
  have cut : v.outer.script.stack = (i.block "task" task w).2.outer.script.stack.take
      (max w.outer.script.stack.size (i.block "task" task w).2.outer.script.base) :=
    congrArg (·.script.stack) left
  rw [cut, base, Nat.max_eq_left fits, Array.take_eq_extract, Array.size_extract]
  omega

/-- The owner takes tasks out of the queue and runs them, one after the other. A task that comes to
its end, with an error or without one, leaves the frames as they were and the stack no deeper than it
was. One that breaks off is the last. -/
inductive Drains (i : Interpreter) : World Engine → List Script.Block →
    Except (Stop StepError) Unit → World Engine → Prop
  /-- No task is looked for. -/
  | enough (w : World Engine) : Drains i w [] (.ok ()) w
  /-- No task waits. -/
  | idle {w u : World Engine} (takes : takeTask w = (.ok none, u)) : Drains i w [] (.ok ()) u
  | broke {w u v : World Engine} {task : Script.Block} {stop : Stop StepError}
      (takes : takeTask w = (.ok (some task), u)) (ran : runTask i task u = (.error stop, v)) :
      Drains i w [task] (.error stop) v
  | next {w u v x : World Engine} {task : Script.Block} {tasks : List Script.Block}
      {ended : Except (Stop StepError) Unit} (takes : takeTask w = (.ok (some task), u))
      (ran : runTask i task u = (.ok (), v))
      (frames : v.outer.script.frames = u.outer.script.frames)
      (depth : v.outer.script.stack.size ≤ u.outer.script.stack.size)
      (later : Drains i v tasks ended x) : Drains i w (task :: tasks) ended x

theorem Steady.took_runTask (orderly : i.IsOrderly fun _ => False) {w u v : World Engine}
    (steady : Steady w) {task : Script.Block} {ended : Except (Stop StepError) Unit}
    (takes : takeTask w = (.ok (some task), u)) (ran : runTask i task u = (ended, v)) :
    Took [task] w v := by
  have took := (steady.took_takeTask takes).orderly (orderly_runTask orderly task)
  rwa [ran] at took

/-- The tasks that are run are those that are taken. -/
theorem Drains.took (orderly : i.IsOrderly fun _ => False) {w v : World Engine}
    {tasks : List Script.Block} {ended : Except (Stop StepError) Unit}
    (drains : Drains i w tasks ended v) (steady : Steady w) : Took tasks w v := by
  induction drains with
  | enough w => exact steady.took
  | idle takes => exact steady.took_takeTask takes
  | broke takes ran => exact steady.took_runTask orderly takes ran
  | next takes ran _ _ _ ih =>
    have took := steady.took_runTask orderly takes ran
    exact took.trans (ih took.steady)

/-- What a drain that ran some tasks ends with: their number, when the time was spent or no task
waited, or that a task broke off or the rounds were used up. -/
def Drained (spent : Nat → Bool) (rounds ran : Nat) (tasks : List Script.Block)
    (ended : Except (Stop StepError) Unit) (v : World Engine) :
    Except (Stop StepError) Nat → Prop
  | .ok n => ended = .ok () ∧ n = ran + tasks.length ∧
      (spent n = true ∨ v.outer.tasks.waiting = [])
  | .error stop => ended = .error stop ∨ stop = .exhausted ∧ tasks.length = rounds

/-- One task more before the others. -/
theorem Drained.cons {spent : Nat → Bool} {rounds ran : Nat} {tasks : List Script.Block}
    {ended : Except (Stop StepError) Unit} {v : World Engine} {result : Except (Stop StepError) Nat}
    (drained : Drained spent rounds (ran + 1) tasks ended v result) (task : Script.Block) :
    Drained spent (rounds + 1) ran (task :: tasks) ended v result := by
  cases result with
  | ok n =>
    obtain ⟨fine, number, stopped⟩ := drained
    refine ⟨fine, ?_, stopped⟩
    rw [number, List.length_cons]
    omega
  | error stop => exact drained.imp_right fun ⟨out, all⟩ => ⟨out, congrArg (· + 1) all⟩

/-- A drain runs the tasks that it takes, at least one of them if any waits. -/
theorem exists_drains (orderly : i.IsOrderly fun _ => False) (spent : Nat → Bool) (rounds ran : Nat)
    {w : World Engine} (steady : Steady w) :
    ∃ tasks ended, Drains i w tasks ended (drain i spent rounds ran w).2 ∧
      (0 < rounds → w.outer.tasks.gather.waiting ≠ [] → tasks ≠ []) ∧
      Drained spent rounds ran tasks ended (drain i spent rounds ran w).2
        (drain i spent rounds ran w).1 := by
  induction rounds generalizing w ran with
  | zero => exact ⟨[], .ok (), .enough w, nofun, .inr ⟨rfl, rfl⟩⟩
  | succ rounds ih =>
    have step : drain i spent (rounds + 1) ran w = _ := bind_apply (takeTask) _ w
    have takes := takeTask_apply w
    cases first : w.outer.tasks.gather.waiting.head? with
    | none =>
      have none : w.outer.tasks.gather.waiting = [] := List.head?_eq_none_iff.1 first
      rw [first] at takes
      rw [step, takes]
      refine ⟨[], .ok (), .idle takes, fun _ waits => absurd none waits, rfl, rfl, .inr ?_⟩
      change w.outer.tasks.gather.take?.2.waiting = []
      unfold TaskQueue.take?
      rw [none]
      exact none
    | some task =>
      rw [first] at takes
      rw [step, takes]
      dsimp only
      rw [bind_apply]
      generalize World.mk _ _ _ _ = u at takes ⊢
      have later := steady.took_takeTask takes
      cases runs : runTask i task u with
      | mk result v =>
        cases result with
        | error stop => exact ⟨[task], .error stop, .broke takes runs, fun _ _ => nofun, .inl rfl⟩
        | ok _ =>
          obtain ⟨frames, depth⟩ := restored_of_runTask orderly later.steady.fits runs
          dsimp only
          split
          · rename_i timeIsUp
            exact ⟨[task], .ok (), .next takes runs frames depth (.enough v), fun _ _ => nofun, rfl,
              rfl, .inl timeIsUp⟩
          · have took := steady.took_runTask orderly takes runs
            obtain ⟨tasks, ended, drains, -, drained⟩ := ih (ran + 1) took.steady
            exact ⟨task :: tasks, ended, .next takes runs frames depth drains, fun _ _ => nofun,
              drained.cons task⟩

/-! ## Commands -/

/-- What becomes of a world in which some tasks are run: they are taken out of the queue, and others
are posted, unless the queue is dropped. -/
def Goes (tasks : List Script.Block) (w v : World Engine) : Prop :=
  Took tasks w v ∨ Steady v ∧ v.outer.tasks.capacity = w.outer.tasks.capacity ∧
    v.outer.senderOpen = false

section

variable {w v u : World Engine} {tasks later : List Script.Block}

theorem Goes.steady (goes : Goes tasks w v) : Steady v := by
  rcases goes with took | ⟨steady, -, -⟩
  · exact took.steady
  · exact steady

theorem Goes.capacity (goes : Goes tasks w v) :
    v.outer.tasks.capacity = w.outer.tasks.capacity := by
  rcases goes with took | ⟨-, capacity, -⟩
  · exact took.capacity
  · exact capacity

theorem Goes.trans (first : Goes tasks w v) (second : Goes later v u) :
    Goes (tasks ++ later) w u := by
  rcases first, second with ⟨first | ⟨-, capacity, closed⟩, second | ⟨steady, same, gone⟩⟩
  · exact .inl (first.trans second)
  · exact .inr ⟨steady, same.trans first.capacity, gone⟩
  · exact .inr ⟨second.steady, second.capacity.trans capacity, second.senderOpen.trans closed⟩
  · exact .inr ⟨steady, same.trans capacity, gone⟩

end

/-- The tasks that a command runs. -/
def Command.Runs (i : Interpreter) (c : Command) (w : World Engine) (tasks : List Script.Block) :
    Prop :=
  match c.budget? w with
  | some budgetMs => ∃ ended, Drains i w tasks ended (drainFor i budgetMs w).2
  | none => tasks = []

/-- A command takes the tasks that it runs, and no others. -/
theorem goes_performCommand (orderly : i.IsOrderly fun _ => False) {w : World Engine}
    (steady : Steady w) {c : Command} {tasks : List Script.Block} (runs : c.Runs i w tasks) :
    Goes tasks w (performCommand i c w).2 := by
  unfold Command.Runs at runs
  cases budget : c.budget? w with
  | none =>
    rw [budget] at runs
    subst runs
    by_cases drops : c = .dropQueue
    · subst drops
      exact .inr ⟨⟨steady.fits, TaskQueue.lawful_empty _ _⟩, rfl, rfl⟩
    · exact .inl (steady.took_of_orderly (orderly_performCommand orderly budget drops))
  | some budgetMs =>
    rw [budget] at runs
    obtain ⟨ended, drains⟩ := runs
    have took := drains.took orderly steady
    left
    cases c with
    | tick =>
      cases budget
      have step : performCommand i .tick w = _ := bind_apply engine _ w
      rw [step]
      refine took.bind (d := .framed) fun _ => Orderly.bind (P := fun _ => True)
        (orderly_ofScript ?_) fun _ _ => orderly_answer _
      exact (orderly_collect orderly.function _ _).of_still
    | drain _ =>
      cases budget
      exact took.bind (d := .framed) fun _ => orderly_answer _
    | _ => cases budget

/-- What is done after a command is orderly. -/
theorem exists_runCommand (s : Step Command) (w : World Engine) :
    ∃ m : StepRun Unit, Orderly (fun _ => False) .framed (fun _ => True) m ∧
      (runCommand s w).2 = (m (performCommand (interpreter levels) s.action w).2).2 := by
  unfold runCommand
  rw [bind_apply, outcome_apply]
  dsimp only
  cases (performCommand (interpreter levels) s.action w).1 with
  | ok o =>
    exact ⟨_, (orderly_record none s.quiet (.ok o.report)).bind
      fun _ _ => orderly_bindAll s.names o.values, rfl⟩
  | error stop => cases stop <;> exact ⟨_, orderly_record none s.quiet _, rfl⟩

theorem goes_runCommand {w : World Engine} (steady : Steady w) (s : Step Command) :
    ∃ tasks, s.action.Runs (interpreter levels) w tasks ∧ Goes tasks w (runCommand s w).2 := by
  have orderly : (interpreter levels).IsOrderly fun _ => False := isOrderly_interpreter levels
  obtain ⟨m, after, same⟩ := exists_runCommand s w
  have runs : ∃ tasks, s.action.Runs (interpreter levels) w tasks := by
    unfold Command.Runs
    cases s.action.budget? w with
    | none => exact ⟨[], rfl⟩
    | some budgetMs =>
      obtain ⟨tasks, ended, drains, -⟩ := exists_drains orderly _ taskRounds 0 steady
      exact ⟨tasks, ended, drains⟩
  obtain ⟨tasks, runs⟩ := runs
  have goes := goes_performCommand orderly steady runs
  refine ⟨tasks, runs, ?_⟩
  have both := goes.trans (.inl (goes.steady.took_of_orderly after))
  rwa [List.append_nil, ← same] at both

theorem steady_start (options : Options) (installed : Bool) : Steady (start options installed) := by
  cases installed <;> exact ⟨Nat.zero_le _, .start⟩

end ScriptHost.Session

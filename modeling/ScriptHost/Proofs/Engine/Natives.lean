import ScriptHost.Proofs.Engine.Frames
import ScriptHost.Proofs.Session.Actions
/-!
Functions that are written against the state of the scripts. Whatever such functions do, the values
below a call stay, the frames come back, and results stand where the callee stood.
-/
namespace ScriptHost

open Host (World)
open Run (Runner Settled)
open Script (FunctionRef Value)

/-! ## Functions -/

/-- What a native function can do to the stack, and the calls that it can make. -/
inductive StackOp : Type → Type
  | push (v : Value) : StackOp Unit
  | pop (count : Nat) : StackOp Unit
  | popValue : StackOp Value
  | setTop (count : Nat) : StackOp Unit
  | truncate (depth : Nat) : StackOp Unit
  | call (arguments : Nat) (wanted : Int) : StackOp Unit
  | protectedCall (arguments : Nat) (wanted : Int) : StackOp Unit
  | callFunction (f : FunctionRef) (arguments : List Value) (wanted : Int) : StackOp (List Value)
  | callValue (callee : Value) (arguments : List Value) : StackOp (List Value)
  | index (target key : Value) : StackOp Value
  | setIndex (target key v : Value) : StackOp Unit
  | display (v : Value) : StackOp String

/-- A change to anything but the stack, the frames and their limits. -/
structure Aside where
  change : World Engine → World Engine
  stack : ∀ w, (change w).outer.script.stack = w.outer.script.stack
  frames : ∀ w, (change w).outer.script.frames = w.outer.script.frames
  maxDepth : ∀ w, (change w).outer.script.maxDepth = w.outer.script.maxDepth
  maxStack : ∀ w, (change w).outer.script.maxStack = w.outer.script.maxStack

/-- A native function, or a part of one. It may look at everything, handle failures, and fail or
panic at any point. -/
inductive Native : Type → Type 1
  | give {α : Type} (a : α) : Native α
  | fail {α : Type} (e : Script.Error) : Native α
  | panic {α : Type} (message : String) : Native α
  | look {α : Type} (next : World Engine → Native α) : Native α
  | aside {α : Type} (change : Aside) (next : Native α) : Native α
  | ask {α β : Type} (op : StackOp β) (next : Except Script.Error β → Native α) : Native α
  /-- A part at whose end the depth of the stack is restored. -/
  | guarded {α β : Type} (part : Native β) (next : Except Script.Error β → Native α) : Native α

/-- Carries out what a native function asks for. -/
def StackOp.run (run : Runner) {β : Type} : StackOp β → Run Script.Error β
  | push v => Run.push v
  | pop count => do Run.truncate ((← Run.script).stack.size - count)
  | popValue => Session.popValue.mapError (·.toScript)
  | setTop count => (Session.setTop count).mapError (·.toScript)
  | truncate depth => Run.truncate depth
  | call arguments wanted => Run.call run arguments wanted
  | protectedCall arguments wanted => Run.protectedCall run arguments wanted
  | callFunction f arguments wanted => Run.callFunction run f arguments wanted
  | callValue callee arguments => Run.callValue run callee arguments
  | index target key => Run.index run target key
  | setIndex target key v => Run.setIndex run target key v
  | display v => Run.display run v

/-- Runs a computation whose failure is a result. -/
def Run.attempt {α : Type} (m : Run Script.Error α) : Run Script.Error (Except Script.Error α) :=
  fun w =>
    match m w with
    | (.ok a, v) => (.ok (.ok a), v)
    | (.error (.failed e), v) => (.ok (.error e), v)
    | (.error (.panicked message), v) => (.error (.panicked message), v)
    | (.error .exhausted, v) => (.error .exhausted, v)

namespace Native

/-- Runs a native function. -/
def run (runner : Runner) {α : Type} : Native α → Run Script.Error α
  | give a => pure a
  | fail e => Run.fail e
  | panic message => Run.breakOff message
  | look next => fun w => (next w).run runner w
  | aside change next => fun w => next.run runner (change.change w)
  | ask op next => Run.attempt (op.run runner) >>= fun r => (next r).run runner
  | guarded part next =>
    Run.attempt (Run.guarded (part.run runner)) >>= fun r => (next r).run runner

/-- Runs functions by their native bodies within a number of levels. -/
def runner (bodies : FunctionRef → Native Nat) : (levels : Nat) → Runner
  | 0, _ => throw .exhausted
  | levels + 1, f => (bodies f).run (runner bodies levels)

end Native

/-! ## Keeping to the frame -/

namespace Run

open Script.State (Settles Shares)

variable {α β : Type} {levels : Nat}

theorem Settled.attempt {m : Run Script.Error α} (settled : Settled levels m) :
    Settled levels (attempt m) := by
  intro w ready
  obtain ⟨settles, ended⟩ := settled w ready
  unfold Run.attempt
  cases result : m w with
  | mk outcome v =>
    rw [result] at settles ended
    cases outcome with
    | ok a => exact ⟨settles, nofun⟩
    | error stop =>
      cases stop with
      | failed e => exact ⟨settles, nofun⟩
      | panicked message => exact ⟨settles, nofun⟩
      | exhausted => exact (ended rfl).elim

theorem settled_truncate (depth : Nat) :
    Settled levels (truncate depth : Run Script.Error Unit) := by
  refine .of_retouches fun w ready => ?_
  obtain ⟨_, cut⟩ := exists_truncate (ε := Script.Error) depth w
  exact ⟨_, _, cut, ready.settles rfl rfl (.of_take rfl ready.fits (Nat.le_max_right ..))⟩

theorem settled_setTop (count : Nat) : Settled levels (Session.setTop count) := by
  refine .of_retouches fun w ready => ?_
  obtain ⟨_, _, changed, shares⟩ := Session.exists_setTop count ready.fits
  exact ⟨_, _, changed, ready.settles rfl rfl shares⟩

theorem settled_popValue : Settled levels Session.popValue := by
  refine .of_retouches fun w ready => ?_
  obtain ⟨_, _, popped, shares⟩ := Session.exists_popValue ready.fits
  exact ⟨_, _, popped, ready.settles rfl rfl shares⟩

end Run

open Run

variable {levels : Nat}

/-- What a native function asks for keeps to its frame if the functions do that are called. -/
theorem StackOp.settled_run {run : Runner} (settled : ∀ f, Settled levels (run f)) {β : Type}
    (op : StackOp β) : Settled (levels + 1) (op.run run) := by
  cases op with
  | push v =>
    refine .of_retouches fun w ready =>
      ⟨(), _, Retouches.modifyScript (ε := Script.Error) (·.push v), ?_⟩
    exact ready.settles rfl rfl (.of_append Array.push_eq_append ready.fits)
  | pop count => exact Settled.script.bind fun _ => settled_truncate _
  | popValue => exact settled_popValue.mapError _
  | setTop count => exact (settled_setTop count).mapError _
  | truncate depth => exact settled_truncate depth
  | call arguments wanted => exact settled_call settled arguments wanted
  | protectedCall arguments wanted => exact settled_protectedCall settled arguments wanted
  | callFunction f arguments wanted => exact settled_callFunction settled f arguments wanted
  | callValue callee arguments => exact settled_callValue settled callee arguments
  | index target key => exact settled_index settled target key
  | setIndex target key v => exact settled_setIndex settled target key v
  | display v => exact settled_display settled v

namespace Native

open Script.State (Ready)

theorem ready_aside (change : Aside) {w : World Engine} (ready : w.outer.script.Ready levels) :
    (change.change w).outer.script.Ready levels :=
  (ready.refl.congr (change.stack w) (change.frames w) (change.maxDepth w)).ready ready

/-- A native function keeps to its frame if the functions do that it calls. -/
theorem settled_run {run : Runner} (settled : ∀ f, Settled levels (run f)) {α : Type}
    (m : Native α) : Settled (levels + 1) (m.run run) := by
  induction m with
  | give a => exact .pure a
  | fail e => exact .fail e
  | panic message => exact .breakOff message
  | look next ih => exact fun w ready => ih w w ready
  | aside change next ih =>
    intro w ready
    obtain ⟨settles, ended⟩ := ih (change.change w) (ready_aside change ready)
    refine ⟨?_, ended⟩
    exact (ready.refl.congr (change.stack w) (change.frames w) (change.maxDepth w)).trans ready
      settles
  | ask op next ih => exact (op.settled_run settled).attempt.bind ih
  | guarded part next ihPart ih => exact ihPart.guarded.attempt.bind ih

/-- Functions with native bodies keep to their frames. -/
theorem settled_runner (bodies : FunctionRef → Native Nat) (levels : Nat) (f : FunctionRef) :
    Settled levels (runner bodies levels f) := by
  induction levels generalizing f with
  | zero =>
    -- The frames run out before the levels.
    intro w ready
    have shallow := ready.shallow
    have ample := ready.ample
    omega
  | succ levels ih => exact settled_run ih (bodies f)

end Native

/-! ## States on the way -/

/-- The world with more values on the stack. -/
def pushing (values : List Value) (w : World Engine) : World Engine :=
  withScript w (w.outer.script.pushAll values)

/-- The function that is entered for what a native function asks for, and the world that it finds. -/
def StackOp.entered? {β : Type} (w : World Engine) :
    StackOp β → Option (FunctionRef × World Engine)
  | call arguments _ | protectedCall arguments _ => Run.entered? arguments w
  | callFunction f arguments _ =>
    Run.entered? arguments.length (pushing (.function f :: arguments) w)
  | callValue callee arguments => Run.entered? arguments.length (pushing (callee :: arguments) w)
  | index target key =>
    (w.outer.script.part? target .index).bind fun f =>
      Run.entered? 2 (pushing [.function f, target, key] (keeping [target, key] w))
  | setIndex target key v =>
    (w.outer.script.part? target .newindex).bind fun f =>
      Run.entered? 3 (pushing [.function f, target, key, v] (keeping [target, key, v] w))
  | display v =>
    (w.outer.script.part? v .tostring).bind fun f =>
      Run.entered? 1 (pushing [.function f, v] (keeping [v] w))
  | push _ | pop _ | popValue | setTop _ | truncate _ => none

namespace Run

variable {run other : Runner} {w : World Engine}

theorem bind_congr {ε α β : Type} {m m' : Run ε α} {f : α → Run ε β} (same : m w = m' w) :
    (m >>= f) w = (m' >>= f) w := by
  rw [bind_apply, bind_apply, same]

theorem holding_congr {ε α : Type} {values : List Value} {inUse : α → List Value} {m m' : Run ε α}
    (same : m (keeping values w) = m' (keeping values w)) :
    holding values inUse m w = holding values inUse m' w := by
  rw [holding_apply, holding_apply, same]

theorem enter_congr {pos : Nat} {f : FunctionRef} (wanted : Int)
    (same : ¬(w.outer.script.maxDepth ≤ w.outer.script.frames.length ||
        w.outer.script.maxStack ≤ w.outer.script.stack.size) = true →
      run f (withScript w (w.outer.script.enter ⟨pos + 1, f.name⟩)) =
        other f (withScript w (w.outer.script.enter ⟨pos + 1, f.name⟩))) :
    enter run pos f wanted w = enter other pos f wanted w := by
  unfold enter
  rw [script_bind_apply, script_bind_apply]
  split
  · rfl
  · rename_i room
    rw [(Retouches.modifyScript _).andThen, (Retouches.modifyScript _).andThen, bind_apply,
      bind_apply, outcome_apply, outcome_apply, same room]

/-- A call depends on functions only through the one that it enters. -/
theorem call_congr {arguments : Nat} (wanted : Int)
    (same : ∀ f u, entered? arguments w = some (f, u) → run f u = other f u) :
    call run arguments wanted w = call other arguments wanted w := by
  unfold Run.entered? Script.State.entered? at same
  unfold call
  rw [script_bind_apply, script_bind_apply]
  dsimp only at same ⊢
  by_cases short : w.outer.script.top < arguments + 1
  · rw [if_pos short, if_pos short]
  · rw [if_neg short] at same
    rw [if_neg short, if_neg short]
    unfold Script.State.callee? at same
    generalize w.outer.script.stack.size - arguments - 1 = pos at *
    generalize w.outer.script.stack.getD pos .nil = callee at *
    refine holding_congr ?_
    cases callee with
    | function f =>
      exact enter_congr wanted fun room => same f _ (congrArg (Option.map _) (if_neg room))
    | handle h =>
      cases part : w.outer.script.part? (.handle h) .call with
      | none => rfl
      | some f =>
        dsimp only at same ⊢
        rw [part] at same
        rw [(Retouches.modifyScript _).andThen, (Retouches.modifyScript _).andThen]
        exact enter_congr wanted fun room => same f _ (congrArg (Option.map _) (if_neg room))
    | _ => rfl

theorem protectedCall_congr {arguments : Nat} (wanted : Int)
    (same : ∀ f u, entered? arguments w = some (f, u) → run f u = other f u) :
    protectedCall run arguments wanted w = protectedCall other arguments wanted w := by
  unfold protectedCall
  rw [script_bind_apply, script_bind_apply, bind_apply, bind_apply, outcome_apply, outcome_apply,
    call_congr wanted same]

theorem exchange_congr {m m' : Run Script.Error Unit} {values : List Value}
    (same : m (pushing values w) = m' (pushing values w)) :
    (do
      let depth := (← script).stack.size
      modifyScript (·.pushAll values)
      m
      onScript (·.takeFrom depth) : Run Script.Error (List Value)) w =
    (do
      let depth := (← script).stack.size
      modifyScript (·.pushAll values)
      m'
      onScript (·.takeFrom depth) : Run Script.Error (List Value)) w := by
  rw [script_bind_apply, script_bind_apply, (Retouches.modifyScript _).andThen,
    (Retouches.modifyScript _).andThen, bind_apply, bind_apply]
  unfold pushing at same
  rw [same]

/-- The handler of a value is found before any function is entered. -/
theorem handler_congr {α : Type} {target : Value} {part : Script.BehaviourPart}
    {next next' : FunctionRef → Run Script.Error α}
    (same : ∀ f, w.outer.script.part? target part = some f → next f w = next' f w) :
    (handler target part >>= next) w = (handler target part >>= next') w := by
  rw [bind_apply, bind_apply]
  unfold handler
  rw [script_bind_apply]
  cases there : w.outer.script.part? target part with
  | some f => exact same f there
  | none => rfl

end Run

/-- What a native function asks for depends on functions only through the one that is entered. -/
theorem StackOp.run_congr {run other : Runner} {β : Type} {w : World Engine} (op : StackOp β)
    (same : ∀ f u, op.entered? w = some (f, u) → run f u = other f u) :
    op.run run w = op.run other w := by
  cases op with
  | call arguments wanted => exact call_congr wanted same
  | protectedCall arguments wanted => exact protectedCall_congr wanted same
  | callFunction f arguments wanted => exact exchange_congr (call_congr wanted same)
  | callValue callee arguments => exact exchange_congr (protectedCall_congr (-1) same)
  | index target key =>
    refine handler_congr fun f found => bind_congr (holding_congr (exchange_congr ?_))
    exact call_congr 1 fun g u entered => same g u (Option.bind_eq_some_iff.2 ⟨f, found, entered⟩)
  | setIndex target key v =>
    refine handler_congr fun f found => bind_congr (holding_congr (exchange_congr ?_))
    exact call_congr 0 fun g u entered => same g u (Option.bind_eq_some_iff.2 ⟨f, found, entered⟩)
  | display v =>
    show Run.display run v w = Run.display other v w
    unfold Run.display
    rw [script_bind_apply, script_bind_apply]
    cases found : w.outer.script.part? v .tostring with
    | none => rfl
    | some f =>
      refine bind_congr (holding_congr (exchange_congr ?_))
      exact call_congr 1 fun g u entered => same g u (Option.bind_eq_some_iff.2 ⟨f, found, entered⟩)
  | push v | pop count | popValue | setTop count | truncate depth => rfl

theorem ready_pushing {levels : Nat} {w : World Engine} (values : List Value)
    (ready : w.outer.script.Ready levels) : (pushing values w).outer.script.Ready levels := by
  have pushed : Script.State.Settles false w.outer.script (w.outer.script.pushAll values) :=
    ready.settles rfl rfl (.of_append rfl ready.fits)
  exact pushed.ready ready

/-- A function that is entered has a level less, and a frame more. -/
theorem StackOp.ready_of_entered? {levels : Nat} {β : Type} {op : StackOp β} {w u : World Engine}
    {f : FunctionRef} (entered : op.entered? w = some (f, u))
    (ready : w.outer.script.Ready (levels + 1)) : u.outer.script.Ready levels := by
  cases op with
  | call arguments wanted | protectedCall arguments wanted =>
    exact (enters_of_entered? entered).ready ready
  | callFunction g arguments wanted | callValue callee arguments =>
    exact (enters_of_entered? entered).ready (ready_pushing _ ready)
  | index target key | setIndex target key v | display v =>
    obtain ⟨g, _, entered⟩ := Option.bind_eq_some_iff.1 entered
    exact (enters_of_entered? entered).ready (ready_pushing _ ready)
  | push v | pop count | popValue | setTop count | truncate depth => cases entered

namespace Native

/-- The states that a native function meets on its way from a world, in its own frame and in those of
the functions that it calls, with the levels that are left there. -/
inductive Meets (bodies : FunctionRef → Native Nat) :
    {α : Type} → (levels : Nat) → Native α → World Engine → (left : Nat) → World Engine → Prop
  | start {α : Type} {levels : Nat} {m : Native α} {w : World Engine} :
      Meets bodies levels m w levels w
  | stop {α : Type} {levels : Nat} {m : Native α} {w : World Engine} :
      Meets bodies levels m w levels (m.run (runner bodies levels) w).2
  | look {α : Type} {levels left : Nat} {next : World Engine → Native α} {w v : World Engine}
      (met : Meets bodies levels (next w) w left v) : Meets bodies levels (.look next) w left v
  | aside {α : Type} {levels left : Nat} {change : Aside} {next : Native α} {w v : World Engine}
      (met : Meets bodies levels next (change.change w) left v) :
      Meets bodies levels (.aside change next) w left v
  | entered {α β : Type} {levels left : Nat} {op : StackOp β}
      {next : Except Script.Error β → Native α} {w u v : World Engine} {f : FunctionRef}
      (enters : op.entered? w = some (f, u)) (met : Meets bodies levels (bodies f) u left v) :
      Meets bodies (levels + 1) (.ask op next) w left v
  | asked {α β : Type} {levels left : Nat} {op : StackOp β}
      {next : Except Script.Error β → Native α} {w u v : World Engine} {r : Except Script.Error β}
      (answer : Run.attempt (op.run (runner bodies levels)) w = (.ok r, u))
      (met : Meets bodies levels (next r) u left v) : Meets bodies levels (.ask op next) w left v
  | inside {α β : Type} {levels left : Nat} {part : Native β}
      {next : Except Script.Error β → Native α} {w v : World Engine}
      (met : Meets bodies levels part w left v) :
      Meets bodies levels (.guarded part next) w left v
  | behind {α β : Type} {levels left : Nat} {part : Native β}
      {next : Except Script.Error β → Native α} {w u v : World Engine} {r : Except Script.Error β}
      (answer : Run.attempt (Run.guarded (part.run (runner bodies levels))) w = (.ok r, u))
      (met : Meets bodies levels (next r) u left v) :
      Meets bodies levels (.guarded part next) w left v

/-- Every state on the way is one in which calls can be made. -/
theorem Meets.ready {bodies : FunctionRef → Native Nat} {α : Type} {levels left : Nat}
    {m : Native α} {w v : World Engine} (met : Meets bodies levels m w left v)
    (ready : w.outer.script.Ready (levels + 1)) : v.outer.script.Ready (left + 1) := by
  have settledAll := fun n => settled_runner bodies n
  induction met with
  | start => exact ready
  | @stop _ levels m w => exact (settled_run (settledAll levels) m w ready).1.ready ready
  | look _ ih => exact ih ready
  | @aside _ _ _ change _ _ _ _ ih => exact ih (ready_aside change ready)
  | entered enters _ ih => exact ih (StackOp.ready_of_entered? enters ready)
  | @asked _ _ levels _ op _ w u _ r answer _ ih =>
    have settled := ((op.settled_run (settledAll levels)).attempt w ready).1
    rw [answer] at settled
    exact ih (settled.ready ready)
  | inside _ ih => exact ih ready
  | @behind _ _ levels _ part _ w u _ r answer _ ih =>
    have settled := ((settled_run (settledAll levels) part).guarded.attempt w ready).1
    rw [answer] at settled
    exact ih (settled.ready ready)

/-- A stack with a value, a function and an argument. -/
def laden (f : FunctionRef) : World Engine :=
  let outer := Engine.ofOptions { maxCallDepth := 2 }
  ⟨{}, #[], [], { outer with
    script := { outer.script with stack := #[.bool true, .function f, .nil] } }⟩

end Native

end ScriptHost

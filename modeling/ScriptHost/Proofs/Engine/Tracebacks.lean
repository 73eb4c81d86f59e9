import ScriptHost.Proofs.Engine.BridgeFrames
import ScriptHost.Proofs.Engine.Natives
/-!
What tracebacks tell. An error that arises without a traceback gets one before any frame is left,
and what breaks off leaves the frames standing until a protected call looks at them. So the calls
that an error comes out of all deliver it with the frames that were active where it arose.
-/
namespace ScriptHost

open Host (World)
open Native (laden)
open Run
open Script (Frame FunctionRef Value)

/-! ## Functions -/

/-- Something that a function does besides calling functions: it looks around, changes what it
finds, calls methods of the host. Whatever runs the patches, the frames are left alone. -/
structure Act (α : Type) where
  carryOut : Runner → Run Script.Error α
  unwinds : ∀ run, UnwindsRunner run → Unwinds .still (carryOut run)

/-- The body of a function, or a part of one. It may handle failures, or pass them on. -/
inductive Routine : Type → Type 1
  | give {α : Type} (a : α) : Routine α
  | fail {α : Type} (e : Script.Error) : Routine α
  | act {α β : Type} (a : Act β) (next : Except Script.Error β → Routine α) : Routine α
  | ask {α β : Type} (op : StackOp β) (next : Except Script.Error β → Routine α) : Routine α
  /-- A part at whose end the depth of the stack is restored. -/
  | guarded {α β : Type} (part : Routine β) (next : Except Script.Error β → Routine α) : Routine α

/-- Runs a body. -/
def Routine.run (runner : Runner) {α : Type} : Routine α → Run Script.Error α
  | give a => pure a
  | fail e => Run.fail e
  | act a next => Run.attempt (a.carryOut runner) >>= fun r => (next r).run runner
  | ask op next => Run.attempt (op.run runner) >>= fun r => (next r).run runner
  | guarded part next =>
    Run.attempt (Run.guarded (part.run runner)) >>= fun r => (next r).run runner

/-- Runs functions within a number of levels: those of the bridge, and others by their bodies. -/
def hosted (bodies : FunctionRef → Routine Nat) : (levels : Nat) → Runner
  | 0, _ => throw .exhausted
  | levels + 1, f =>
    match f.body with
    | .bridge b => runBridgeFunction (hosted bodies levels) b
    | .block _ => (bodies f).run (hosted bodies levels)

/-! ## Frames on the way -/

section

variable {run : Runner} {α β : Type} {d : Script.Discipline}

theorem Run.Unwinds.attempted {m : Run Script.Error α} (unwinds : Unwinds d m) :
    Unwinds d (Run.attempt m) := by
  intro w
  have unwound := unwinds w
  unfold Run.attempt
  cases result : m w with
  | mk outcome v =>
    rw [result] at unwound
    match outcome with
    | .ok a => exact unwound
    | .error (.failed e) => exact unwound
    | .error (.panicked message) => exact unwound
    | .error .exhausted => trivial

/-- What a function asks for leaves the frames that it finds, unless it breaks off. -/
theorem StackOp.unwinds_run (unwinds : UnwindsRunner run) (op : StackOp β) :
    Unwinds .framed (op.run run) := by
  have cut : ∀ depth, Unwinds .framed (Run.truncate depth : Run Script.Error Unit) := fun depth =>
    Unwinds.bind (.of_eq fun _ => rfl) fun _ => unwinds_cutStack _ _
  cases op with
  | push v => exact .of_eq fun _ => rfl
  | pop count => exact Unwinds.bind (.of_eq fun _ => rfl) fun _ => cut _
  | popValue =>
    refine Unwinds.mapError (Unwinds.bind (.of_eq fun _ => rfl) fun s => ?_) _
    split
    · exact .pure _
    · exact Unwinds.bind (.of_eq fun _ => rfl) fun _ => .pure _
  | setTop count =>
    refine Unwinds.mapError (Unwinds.bind (.of_eq fun _ => rfl) fun s => ?_) _
    exact (unwinds_cutStack _ _).bind fun _ => .of_eq fun _ => rfl
  | truncate depth => exact cut depth
  | call arguments wanted => exact unwinds_call unwinds arguments wanted
  | protectedCall arguments wanted => exact (unwinds_protectedCall unwinds arguments wanted).framed
  | callFunction f arguments wanted => exact unwinds_callFunction unwinds f arguments wanted
  | callValue callee arguments => exact (unwinds_callValue unwinds callee arguments).framed
  | index target key => exact unwinds_index unwinds target key
  | setIndex target key v => exact unwinds_setIndex unwinds target key v
  | display v => exact unwinds_display unwinds v

theorem Routine.unwinds_run (unwinds : UnwindsRunner run) (m : Routine α) :
    Unwinds .framed (m.run run) := by
  induction m with
  | give a => exact .pure a
  | fail e => exact .fail e
  | act a next ih => exact (a.unwinds run unwinds).framed.attempted.bind ih
  | ask op next ih => exact (op.unwinds_run unwinds).attempted.bind ih
  | guarded part next ihPart ih => exact ihPart.guarded.attempted.bind ih

/-- Functions leave the frames that they find, unless they break off. -/
theorem unwinds_hosted (bodies : FunctionRef → Routine Nat) (levels : Nat) :
    UnwindsRunner (hosted bodies levels) := by
  induction levels with
  | zero => exact fun f w => trivial
  | succ levels ih =>
    intro f
    unfold hosted
    split
    · exact (unwinds_runBridgeFunction ih _).framed
    · exact (bodies f).unwinds_run ih

end

/-- From a world, a body comes to a part of it in another world, still in its own frame. -/
inductive Routine.Reaches (run : Runner) :
    {α β : Type} → Routine α → World Engine → Routine β → World Engine → Prop
  | here {α : Type} {m : Routine α} {w : World Engine} : Reaches run m w m w
  | acted {α β γ : Type} {a : Act β} {next : Except Script.Error β → Routine α} {part : Routine γ}
      {w u v : World Engine} {r : Except Script.Error β}
      (done : Run.attempt (a.carryOut run) w = (.ok r, u)) (later : Reaches run (next r) u part v) :
      Reaches run (.act a next) w part v
  | asked {α β γ : Type} {op : StackOp β} {next : Except Script.Error β → Routine α}
      {part : Routine γ} {w u v : World Engine} {r : Except Script.Error β}
      (answer : Run.attempt (op.run run) w = (.ok r, u)) (later : Reaches run (next r) u part v) :
      Reaches run (.ask op next) w part v
  | inside {α β γ : Type} {inner : Routine β} {next : Except Script.Error β → Routine α}
      {part : Routine γ} {w v : World Engine} (within : Reaches run inner w part v) :
      Reaches run (.guarded inner next) w part v
  | behind {α β γ : Type} {inner : Routine β} {next : Except Script.Error β → Routine α}
      {part : Routine γ} {w u v : World Engine} {r : Except Script.Error β}
      (answer : Run.attempt (Run.guarded (inner.run run)) w = (.ok r, u))
      (later : Reaches run (next r) u part v) :
      Reaches run (.guarded inner next) w part v

/-- All the way the frames are those with which the body was entered. -/
theorem Routine.Reaches.frames {run : Runner} (unwinds : UnwindsRunner run) {α β : Type}
    {m : Routine α} {part : Routine β} {w v : World Engine} (reaches : Reaches run m w part v) :
    v.outer.script.frames = w.outer.script.frames := by
  induction reaches with
  | here => rfl
  | @acted _ _ _ a _ _ w _ _ _ done _ ih =>
    have unwound := (a.unwinds run unwinds).attempted w
    rw [done] at unwound
    exact ih.trans unwound
  | @asked _ _ _ op _ _ w _ _ _ answer _ ih =>
    have unwound := (op.unwinds_run unwinds).attempted w
    rw [answer] at unwound
    exact ih.trans unwound
  | inside _ ih => exact ih
  | @behind _ _ _ inner _ _ w _ _ _ answer _ ih =>
    have unwound := (inner.unwinds_run unwinds).guarded.attempted w
    rw [answer] at unwound
    exact ih.trans unwound

/-! ## Stops -/

/-- The text of a traceback: a header, and a line for each frame. -/
def Script.tracebackText (frames : List Frame) : String :=
  "stack traceback:" ++
    String.join (frames.map fun f => "\n\t[native]: in function '" ++ f.name ++ "'")

open Script (tracebackText)

namespace Run

variable {ε δ α β : Type} {w u : World Engine} {stop : Stop ε × List Frame}

/-- A computation stops for a reason, and some frames stand then. -/
def Stops (m : Run ε α) (w : World Engine) (stop : Stop ε × List Frame) : Prop :=
  ∃ v, m w = (.error stop.1, v) ∧ v.outer.script.frames = stop.2

namespace Stops

theorem of_eq {m : Run ε α} {reason : Stop ε} {v : World Engine}
    (result : m w = (.error reason, v)) :
    Stops m w (reason, v.outer.script.frames) :=
  ⟨v, result, rfl⟩

theorem bind {m : Run ε α} (stops : Stops m w stop) (f : α → Run ε β) : Stops (m >>= f) w stop := by
  obtain ⟨v, result, frames⟩ := stops
  refine ⟨v, ?_, frames⟩
  rw [bind_apply, result]

theorem mapError {m : Run ε α} (stops : Stops m w stop) (f : ε → δ) :
    Stops (m.mapError f) w (stop.1.map f, stop.2) := by
  obtain ⟨v, result, frames⟩ := stops
  refine ⟨v, ?_, frames⟩
  rw [mapError_apply, result]
  rfl

/-- A computation that stops after one that did not. -/
theorem after {m : Run ε α} {f : α → Run ε β} {a : α} (first : m w = (.ok a, u))
    (stops : Stops (f a) u stop) : Stops (m >>= f) w stop := by
  obtain ⟨v, result, frames⟩ := stops
  refine ⟨v, ?_, frames⟩
  rw [bind_apply, first]
  exact result

theorem holding {m : Run ε α} {values : List Value} (inUse : α → List Value)
    (stops : Stops m (keeping values w) stop) : Stops (holding values inUse m) w stop := by
  obtain ⟨v, result, frames⟩ := stops
  refine ⟨_, by rw [holding_apply, result], ?_⟩
  exact (Unwinds.frames_discard _ _ _).trans frames

theorem guarded {m : Run ε α} (stops : Stops m w stop) : Stops (guarded m) w stop := by
  obtain ⟨v, result, frames⟩ := stops
  obtain ⟨_, same⟩ := exists_guarded m w
  rw [result] at same
  exact ⟨_, same, frames⟩

/-- Whatever breaks off is not handled. -/
theorem attempt {m : Run Script.Error α} {message : String} {fs : List Frame}
    (stops : Stops m w (.panicked message, fs)) :
    Stops (Run.attempt m) w (.panicked message, fs) := by
  obtain ⟨v, result, frames⟩ := stops
  refine ⟨v, ?_, frames⟩
  unfold Run.attempt
  rw [result]

/-- What is found out about how a computation ends may be told apart from the frames. -/
theorem of_fst {d : Script.Discipline} {m : Run ε α} {e : ε} (unwinds : Unwinds d m)
    (fails : (m w).1 = .error (.failed e)) : Stops m w (.failed e, w.outer.script.frames) := by
  have unwound := unwinds w
  rw [fails] at unwound
  exact ⟨(m w).2, Prod.ext fails rfl, unwound⟩

end Stops

/-! ## Calls that stop -/

/-- How a call stops whose function did: an error has a traceback from then on, and the frame of the
function is left. -/
def leaving : Stop Script.Error × List Frame → Stop Script.Error × List Frame
  | (.failed e, fs) => (.failed (e.withTraceback (tracebackText fs)), fs.tail)
  | (stop, fs) => (stop, fs)

/-- How a protected call stops whose call did: what broke off becomes an error with a traceback of
the frames that stand, and they are left down to a number. -/
def catching (depth : Nat) : Stop Script.Error × List Frame → Stop Script.Error × List Frame
  | (.panicked message, fs) => (.failed ⟨message, tracebackText fs⟩, fs.drop (fs.length - depth))
  | (stop, fs) => (stop, fs)

variable {run : Runner} {f : FunctionRef} {stop : Stop Script.Error × List Frame}

theorem stops_enter {pos : Nat} (wanted : Int)
    (room : ¬(w.outer.script.maxDepth ≤ w.outer.script.frames.length ||
      w.outer.script.maxStack ≤ w.outer.script.stack.size) = true)
    (stops : Stops (run f) (withScript w (w.outer.script.enter ⟨pos + 1, f.name⟩)) stop) :
    Stops (enter run pos f wanted) w (leaving stop) := by
  obtain ⟨u, result, frames⟩ := stops
  unfold Stops enter
  rw [script_bind_apply, if_neg room, (Retouches.modifyScript _).andThen, bind_apply, outcome_apply,
    result]
  obtain ⟨stop, fs⟩ := stop
  cases stop with
  | failed e =>
    -- The traceback is taken while the frame of the function still stands.
    obtain ⟨_, cut⟩ := exists_cutStack (ε := Script.Error) pos [] u
    dsimp only
    rw [script_bind_apply, cut.andThen, (Retouches.modifyScript _).andThen]
    have named : u.outer.script.traceback = tracebackText fs := congrArg tracebackText frames
    rw [named]
    exact ⟨_, rfl, congrArg List.tail frames⟩
  | panicked message => exact ⟨u, rfl, frames⟩
  | exhausted => exact ⟨u, rfl, frames⟩

theorem stops_call {arguments : Nat} (wanted : Int) (entered : entered? arguments w = some (f, u))
    (stops : Stops (run f) u stop) : Stops (call run arguments wanted) w (leaving stop) := by
  obtain ⟨callee, m, v, called, enters, rfl, room⟩ := call_enters run wanted entered
  unfold Stops
  rw [called]
  refine Stops.holding _ ?_
  unfold Stops
  rw [enters]
  exact stops_enter wanted room stops

theorem stops_protectedCall {arguments : Nat} (wanted : Int)
    (entered : entered? arguments w = some (f, u)) (stops : Stops (run f) u stop) :
    Stops (protectedCall run arguments wanted) w
      (catching w.outer.script.frames.length (leaving stop)) := by
  obtain ⟨v, result, frames⟩ := stops_call wanted entered stops
  unfold Stops protectedCall
  rw [script_bind_apply, bind_apply, outcome_apply, result]
  generalize leaving stop = left at frames
  obtain ⟨stop, fs⟩ := left
  cases stop with
  | failed e => exact ⟨v, rfl, frames⟩
  | exhausted => exact ⟨v, rfl, frames⟩
  | panicked message =>
    obtain ⟨_, cut⟩ := exists_cutStack (ε := Script.Error)
      (w.outer.script.stack.size - (arguments + 1)) []
      (withScript v (v.outer.script.leaveTo w.outer.script.frames.length))
    dsimp only
    rw [script_bind_apply, (Retouches.modifyScript _).andThen, cut.andThen]
    have same : v.outer.script.frames = fs := frames
    have named : v.outer.script.error message = ⟨message, tracebackText fs⟩ :=
      congrArg (fun frames => Script.Error.mk message (tracebackText frames)) same
    rw [named]
    refine ⟨_, rfl, ?_⟩
    change v.outer.script.frames.drop (v.outer.script.frames.length - _) = fs.drop (fs.length - _)
    rw [same]

theorem stops_exchange {m : Run Script.Error Unit} {values : List Value}
    (stops : Stops m (pushing values w) stop) :
    Stops (do
      let depth := (← script).stack.size
      modifyScript (·.pushAll values)
      m
      onScript (·.takeFrom depth)) w stop :=
  Stops.after (u := w) rfl (Stops.after (u := pushing values w) rfl (stops.bind _))

theorem handler_apply {target : Value} {part : Script.BehaviourPart}
    (found : w.outer.script.part? target part = some f) : handler target part w = (.ok f, w) := by
  unfold handler
  rw [script_bind_apply, found]
  rfl

end Run

/-- Whether a call stops what breaks off. -/
def StackOp.catches {β : Type} : StackOp β → Bool
  | protectedCall .. | callValue .. => true
  | _ => false

/-- What is asked for stops as the function does that it enters, but for the traceback. -/
theorem StackOp.stops_run {run : Runner} {β : Type} {op : StackOp β} {w u : World Engine}
    {f : FunctionRef} {stop : Stop Script.Error × List Frame}
    (entered : op.entered? w = some (f, u)) (stops : Stops (run f) u stop) :
    Stops (op.run run) w (if op.catches then catching w.outer.script.frames.length (leaving stop)
      else leaving stop) := by
  cases op with
  | call arguments wanted => exact stops_call wanted entered stops
  | protectedCall arguments wanted => exact stops_protectedCall wanted entered stops
  | callFunction g arguments wanted => exact stops_exchange (stops_call wanted entered stops)
  | callValue callee arguments => exact stops_exchange (stops_protectedCall (-1) entered stops)
  | index target key =>
    obtain ⟨g, found, entered⟩ := Option.bind_eq_some_iff.1 entered
    exact .after (handler_apply found)
      ((Stops.holding _ (stops_exchange (stops_call 1 entered stops))).bind _)
  | setIndex target key v =>
    obtain ⟨g, found, entered⟩ := Option.bind_eq_some_iff.1 entered
    exact .after (handler_apply found)
      ((Stops.holding _ (stops_exchange (stops_call 0 entered stops))).bind _)
  | display v =>
    obtain ⟨g, found, entered⟩ := Option.bind_eq_some_iff.1 entered
    refine .after (u := w) (a := w.outer.script) rfl ?_
    rw [found]
    exact (Stops.holding _ (stops_exchange (stops_call 1 entered stops))).bind _
  | push v | pop count | popValue | setTop count | truncate depth => cases entered

/-- A body breaks off where a part of it does that it comes to. -/
theorem Routine.Reaches.stops {run : Runner} {α β : Type} {m : Routine α} {part : Routine β}
    {w v : World Engine} (reaches : Reaches run m w part v) {message : String} {fs : List Frame}
    (stops : Stops (part.run run) v (.panicked message, fs)) :
    Stops (m.run run) w (.panicked message, fs) := by
  induction reaches with
  | here => exact stops
  | acted done _ ih => exact .after done (ih stops)
  | asked answer _ ih => exact .after answer (ih stops)
  | inside _ ih => exact (ih stops).guarded.attempt.bind _
  | behind answer _ ih => exact .after answer (ih stops)

/-- A function of the bridge stops as its part behind the arguments does. -/
theorem stops_runBridgeFunction {run : Runner} {b : Script.BridgeFunction} {w : World Engine}
    {stop : Stop Bridge.Error × List Frame} (there : w.outer.bridgeDropped = false)
    (stops : Stops (applyBridgeFunction run b w.outer.script.frameValues)
      (keeping w.outer.script.frameValues w) stop) :
    Stops (runBridgeFunction run b) w (stop.1.map (·.toScript), stop.2) := by
  refine .after (u := w) (a := w.outer) rfl ?_
  rw [there]
  exact .after (u := w) (a := w.outer.script) rfl (.holding _ ((stops.mapError _).bind _))

/-! ## Where errors come from -/

/-- An error, which the functions above may handle or pass on, or a panic, which they cannot. -/
inductive Guise
  | error
  | panic
  deriving DecidableEq

/-- Something goes wrong in the body of a function that has been entered: an error without a
traceback, raised by a script or made of an error of the bridge, or a panic. A message is known, and
the frames that are active at this point. -/
inductive Arises (bodies : FunctionRef → Routine Nat) (levels : Nat) (f : FunctionRef)
    (w : World Engine) : Guise → String → List Frame → Prop
  | raised {β : Type} {steps : Script.Block} {message : String} {v : World Engine}
      (scripted : f.body = .block steps)
      (reaches : (bodies f).Reaches (hosted bodies levels) w
        (.fail ⟨message, ""⟩ : Routine β) v)
      (passed : (hosted bodies (levels + 1) f w).1 = .error (.failed ⟨message, ""⟩)) :
      Arises bodies levels f w .error message v.outer.script.frames
  | broke {β γ : Type} {steps : Script.Block} {a : Act β}
      {next : Except Script.Error β → Routine γ} {message : String} {u v : World Engine}
      (scripted : f.body = .block steps)
      (reaches : (bodies f).Reaches (hosted bodies levels) w (.act a next) u)
      (breaks : a.carryOut (hosted bodies levels) u = (.error (.panicked message), v)) :
      Arises bodies levels f w .panic message v.outer.script.frames
  | converted {b : Script.BridgeFunction} {e : Bridge.Error} {v : World Engine}
      (bridged : f.body = .bridge b) (there : w.outer.bridgeDropped = false)
      (fails : applyBridgeFunction (hosted bodies levels) b w.outer.script.frameValues
        (keeping w.outer.script.frameValues w) = (.error (.failed e), v))
      (own : ∀ cause, e ≠ .script cause) :
      Arises bodies levels f w .error e.message v.outer.script.frames
  | bridgeBroke {b : Script.BridgeFunction} {message : String} {v : World Engine}
      (bridged : f.body = .bridge b) (there : w.outer.bridgeDropped = false)
      (breaks : applyBridgeFunction (hosted bodies levels) b w.outer.script.frameValues
        (keeping w.outer.script.frameValues w) = (.error (.panicked message), v)) :
      Arises bodies levels f w .panic message v.outer.script.frames

/-- What goes wrong comes out of a function that has been entered, unhandled: it arises there, or in
a function that is called from there. A body that a call delivers it to passes it on unchanged.
Functions of the bridge let nothing through, since they call scripts as patches alone, and whatever
goes wrong in a patch is delivered to the bridge, which reports it. -/
inductive Emerges (bodies : FunctionRef → Routine Nat) :
    (levels : Nat) → FunctionRef → World Engine → Guise → String → List Frame → Prop
  | here {levels : Nat} {f : FunctionRef} {w : World Engine} {guise : Guise} {message : String}
      {active : List Frame} (arises : Arises bodies levels f w guise message active) :
      Emerges bodies (levels + 1) f w guise message active
  | passed {levels : Nat} {β γ : Type} {f g : FunctionRef} {steps : Script.Block}
      {op : StackOp β} {next : Except Script.Error β → Routine γ} {w u v : World Engine}
      {guise : Guise} {message : String} {active : List Frame} {e : Script.Error}
      (scripted : f.body = .block steps)
      (reaches : (bodies f).Reaches (hosted bodies levels) w (.ask op next) u)
      (entered : op.entered? u = some (g, v))
      (emerges : Emerges bodies levels g v guise message active)
      (delivered : (op.run (hosted bodies levels) u).1 = .error (.failed e))
      (passed : (hosted bodies (levels + 1) f w).1 = .error (.failed e)) :
      Emerges bodies (levels + 1) f w .error message active
  | crossed {levels : Nat} {β γ : Type} {f g : FunctionRef} {steps : Script.Block}
      {op : StackOp β} {next : Except Script.Error β → Routine γ} {w u v : World Engine}
      {message : String} {active : List Frame} (scripted : f.body = .block steps)
      (reaches : (bodies f).Reaches (hosted bodies levels) w (.ask op next) u)
      (entered : op.entered? u = some (g, v))
      (emerges : Emerges bodies levels g v .panic message active) (bare : op.catches = false) :
      Emerges bodies (levels + 1) f w .panic message active

/-! ## What calls deliver -/

/-- How a function that has been entered stops where something emerges from it: an error is going to
have the traceback of the active frames when the function is left, and a panic leaves them all. -/
def Guise.Stops (guise : Guise) (m : Run Script.Error Nat) (w : World Engine) (message : String)
    (active : List Frame) : Prop :=
  match guise with
  | .error => ∃ e, Run.Stops m w (.failed e, w.outer.script.frames) ∧
      e.withTraceback (tracebackText w.outer.script.frames) = ⟨message, tracebackText active⟩
  | .panic => Run.Stops m w (.panicked message, active)

theorem hosted_block {bodies : FunctionRef → Routine Nat} {levels : Nat} {f : FunctionRef}
    {steps : Script.Block} (scripted : f.body = .block steps) :
    hosted bodies (levels + 1) f = (bodies f).run (hosted bodies levels) := by
  unfold hosted
  rw [scripted]

theorem hosted_bridge {bodies : FunctionRef → Routine Nat} {levels : Nat} {f : FunctionRef}
    {b : Script.BridgeFunction} (bridged : f.body = .bridge b) :
    hosted bodies (levels + 1) f = runBridgeFunction (hosted bodies levels) b := by
  unfold hosted
  rw [bridged]

theorem toScript_of_own {e : Bridge.Error} (own : ∀ cause, e ≠ .script cause) :
    e.toScript = ⟨e.message, ""⟩ := by
  unfold Bridge.Error.toScript
  split
  · exact absurd rfl (own _)
  · rfl

/-- A traceback that is there stays. -/
theorem withTraceback_tracebackText (message : String) (fs : List Frame) (other : String) :
    (Script.Error.mk message (tracebackText fs)).withTraceback other =
      ⟨message, tracebackText fs⟩ := by
  unfold Script.Error.withTraceback
  rw [if_neg]
  intro empty
  have none := congrArg String.toList (String.isEmpty_iff.1 empty)
  unfold tracebackText at none
  rw [String.toList_append] at none
  cases none

section

variable {bodies : FunctionRef → Routine Nat} {levels : Nat} {f : FunctionRef}
  {w u : World Engine} {guise : Guise} {message : String} {active : List Frame}

/-- What arises in a function does so in its own frame. -/
theorem Arises.frames (arises : Arises bodies levels f w guise message active) :
    active = w.outer.script.frames := by
  have unwinds := unwinds_hosted bodies levels
  cases arises with
  | raised _ reaches _ => exact reaches.frames unwinds
  | @broke _ _ _ a _ _ u _ _ reaches breaks =>
    have unwound := a.unwinds _ unwinds u
    rw [breaks] at unwound
    exact Eq.trans unwound (reaches.frames unwinds)
  | @converted b _ _ _ _ result _ | @bridgeBroke b _ _ _ _ result =>
    have unwound := unwinds_applyBridgeFunction unwinds b w.outer.script.frameValues
      (keeping w.outer.script.frameValues w)
    rw [result] at unwound
    exact unwound

theorem Arises.stops (arises : Arises bodies levels f w guise message active) :
    guise.Stops (hosted bodies (levels + 1) f) w message active := by
  have same := arises.frames
  cases arises with
  | raised scripted _ passed =>
    rw [same]
    exact ⟨_, .of_fst (unwinds_hosted bodies (levels + 1) f) passed, rfl⟩
  | broke scripted reaches breaks =>
    rw [hosted_block scripted]
    exact reaches.stops ((Run.Stops.of_eq breaks).attempt.bind _)
  | @converted b e v bridged there fails own =>
    have stops := stops_runBridgeFunction there (.of_eq fails)
    rw [← hosted_bridge bridged] at stops
    rw [same] at stops ⊢
    refine ⟨e.toScript, stops, ?_⟩
    rw [toScript_of_own own]
    rfl
  | bridgeBroke bridged there breaks =>
    rw [hosted_bridge bridged]
    exact stops_runBridgeFunction there (.of_eq breaks)

/-- A call delivers what emerges from the function that it enters: the message, and unless it is a
panic that the call does not catch, the traceback of the frames that were active. -/
theorem StackOp.delivers {run : Runner} {β : Type} {op : StackOp β}
    (entered : op.entered? w = some (f, u)) (stops : guise.Stops (run f) u message active) :
    (op.run run w).1 =
      if guise = .panic ∧ op.catches = false then .error (.panicked message)
      else .error (.failed ⟨message, tracebackText active⟩) := by
  cases guise with
  | error =>
    obtain ⟨e, stops, named⟩ := stops
    obtain ⟨v, result, _⟩ := stops_run entered stops
    rw [if_neg (fun panics => Guise.noConfusion panics.1), ← named, result]
    cases op.catches <;> rfl
  | panic =>
    obtain ⟨v, result, _⟩ := stops_run entered stops
    rw [result]
    cases op.catches <;> rfl

/-- A function that is entered finds a frame more. -/
theorem StackOp.suffix_of_entered? {β : Type} {op : StackOp β}
    (entered : op.entered? w = some (f, u)) :
    w.outer.script.frames <:+ u.outer.script.frames := by
  have step : ∀ {arguments x}, Run.entered? arguments x = some (f, u) →
      x.outer.script.frames = w.outer.script.frames →
      w.outer.script.frames <:+ u.outer.script.frames := by
    intro arguments x entered same
    rw [(enters_of_entered? entered).frames, same]
    exact List.suffix_cons _ _
  cases op with
  | call arguments wanted | protectedCall arguments wanted => exact step entered rfl
  | callFunction g arguments wanted | callValue callee arguments => exact step entered rfl
  | index target key | setIndex target key v | display v =>
    obtain ⟨g, _, entered⟩ := Option.bind_eq_some_iff.1 entered
    exact step entered rfl
  | push v | pop count | popValue | setTop count | truncate depth => cases entered

/-- The frames at the place of failure stand above those with which a function was entered that it
emerges from. -/
theorem Emerges.stops (emerges : Emerges bodies levels f w guise message active) :
    w.outer.script.frames <:+ active ∧ guise.Stops (hosted bodies levels f) w message active := by
  induction emerges with
  | here arises => exact ⟨⟨[], arises.frames.symm⟩, arises.stops⟩
  | @passed levels _ _ f g _ op _ w u v guise message active e scripted reaches entered _ delivered
      passed ih =>
    have above := (StackOp.suffix_of_entered? entered).trans ih.1
    rw [reaches.frames (unwinds_hosted bodies levels)] at above
    -- The call delivers an error, so that it is none which lets a panic through; and the error has
    -- its traceback by now, to which leaving this function adds nothing.
    have same := delivered.symm.trans (StackOp.delivers entered ih.2)
    split at same
    · cases same
    · cases same
      exact ⟨above, _, .of_fst (unwinds_hosted bodies (levels + 1) f) passed,
        withTraceback_tracebackText _ _ _⟩
  | @crossed levels _ _ f g _ op _ w u v message active scripted reaches entered _ bare ih =>
    have above := (StackOp.suffix_of_entered? entered).trans ih.1
    rw [reaches.frames (unwinds_hosted bodies levels)] at above
    have stops := StackOp.stops_run entered ih.2
    rw [bare] at stops
    refine ⟨above, ?_⟩
    rw [hosted_block scripted]
    exact reaches.stops (stops.attempt.bind _)

/-- Whatever goes wrong in a function and comes through the functions above it, however many they
are: the call of the outermost delivers the message with a traceback of the frames that were active
where it went wrong, the innermost first. Only a panic passes through calls that are not
protected. -/
theorem traceback_of_emerges {β : Type} (op : StackOp β)
    (entered : op.entered? w = some (f, u))
    (emerges : Emerges bodies levels f u guise message active) :
    u.outer.script.frames <:+ active ∧
      (op.run (hosted bodies levels) w).1 =
        if guise = .panic ∧ op.catches = false then .error (.panicked message)
        else .error (.failed ⟨message, "stack traceback:" ++
          String.join (active.map fun f => "\n\t[native]: in function '" ++ f.name ++ "'")⟩) :=
  ⟨emerges.stops.1, StackOp.delivers entered emerges.stops.2⟩

end

/-- A function that calls another one in protected mode and passes on what that fails with, and one
that breaks off. -/
def brittle (f : FunctionRef) : Routine Nat :=
  if f.name = "outer" then
    .ask (.callValue (.function ⟨1, "inner", none, .block []⟩) []) fun
      | .ok _ => .give 0
      | .error e => .fail e
  else
    let snap : Act Nat := ⟨fun _ => Run.breakOff "snap", fun _ _ => .of_eq fun _ => rfl⟩
    .act snap fun _ => .give 0

/-- A panic two frames deep, of which a protected call makes an error that an ordinary call
delivers. -/
theorem traceback_of_emerges_brittle :
    let f : FunctionRef := ⟨0, "outer", none, .block []⟩
    let u := withScript (keeping [.function f] (laden f))
      ((laden f).outer.script.enter ⟨2, "outer"⟩)
    let active : List Frame := [⟨4, "inner"⟩, ⟨2, "outer"⟩]
    let op : StackOp Unit := .call 1 3
    op.entered? (laden f) = some (f, u) ∧ Emerges brittle 2 f u .error "snap" active ∧
      (op.run (hosted brittle 2) (laden f)).1 = .error (.failed ⟨"snap", "stack traceback:" ++
        String.join (active.map fun f => "\n\t[native]: in function '" ++ f.name ++ "'")⟩) := by
  intro f u active op
  have entered : op.entered? (laden f) = some (f, u) := rfl
  have emerges : Emerges brittle 2 f u .error "snap" active := by
    have within : ∀ v, Emerges brittle 1 ⟨1, "inner", none, .block []⟩ v .panic "snap"
        v.outer.script.frames := fun v => .here (.broke rfl .here rfl)
    exact .passed (f := f) rfl .here rfl (within _) rfl rfl
  exact ⟨entered, emerges, (traceback_of_emerges op entered emerges).2⟩

end ScriptHost

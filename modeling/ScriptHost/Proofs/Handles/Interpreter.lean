import ScriptHost.Proofs.Handles.HostActions
import ScriptHost.Proofs.Session.Commands
/-!
Running code keeps a world balanced, and nothing would be different if someone looked at the world
before each step of each body.
-/
namespace ScriptHost

open Host (World)
open Run
open Script (Block Value)

variable {ε α : Type} {w v : World Engine} {holds : World Engine → Prop}

/-- Tasks do not matter. -/
theorem Balanced.retask (balanced : Balanced [] w) (tasks : TaskQueue Block) (senderOpen : Bool) :
    Balanced [] { w with outer := { w.outer with tasks, senderOpen } } :=
  ⟨balanced.typed, balanced.names, balanced.entries, balanced.globals, balanced.bindings,
    balanced.classes, balanced.furnished, fun later => balanced.custody (later.congr rfl rfl rfl)⟩

/-- The current frame starts on the stack after an orderly computation. -/
theorem Run.Balances.fits {d : Script.Discipline} {R : α → Prop} {m m' : Run ε α}
    {P : α → World Engine → Prop} (balances : Balances w m m' P)
    (orderly : Orderly (fun _ => False) d R m) (fits : w.outer.script.Fits) :
    Balances w m m' fun a v => P a v ∧ v.outer.script.Fits := by
  obtain ⟨same, ends⟩ := balances
  have kept := Session.fits_of_orderly orderly fits
  refine ⟨same, ?_⟩
  generalize m w = ended at ends kept
  match ended, ends with
  | (.ok a, v), ⟨passes, given⟩ => exact ⟨passes, given, kept⟩
  | (.error (.failed _), v), ends => exact ends
  | (.error (.panicked _), v), ends => exact ends
  | (.error .exhausted, v), _ => trivial

namespace Session

/-! ## Looking at worlds -/

open Classical in
/-- Runs a computation in a world that has a property, and breaks off in any other. -/
noncomputable def watched (holds : World Engine → Prop) (m : Run ε α) : Run ε α := fun w =>
  if holds w then m w else breakOff "unexpected" w

/-- Runs the steps of a body like `runBlock`, and looks at the world before each and after the
last. -/
noncomputable def watchBlock (holds : World Engine → Prop) (i : Interpreter) (label : String) :
    Block → Run Script.Error (Option Nat)
  | [] => watched holds (pure none)
  | s :: rest => watched holds do
    match ← runStep i label s with
    | some results => watched holds (pure (some results))
    | none => watchBlock holds i label rest

/-- Runs a piece of code like `execute`, and looks at the world around each step on the way, in the
functions and bodies that are run meanwhile as well. -/
noncomputable def watch (holds : World Engine → Prop) :
    (levels : Nat) → Code → Run Script.Error (Option Nat)
  | 0, _ => throw .exhausted
  | levels + 1, code =>
    let i : Interpreter := {
      function := fun f => do return (← watch holds levels (.function f)).getD 0
      block := fun label body => watch holds levels (.block label body) }
    match code with
    | .block label body => watchBlock holds i label body
    | .function f =>
      match f.body with
      | .block body => watchBlock holds i f.name body
      | .bridge b => do return some (← runBridgeFunction i.function b)

/-- The interpreter that looks at the world around each step. -/
noncomputable def watcher (holds : World Engine → Prop) (levels : Nat) : Interpreter where
  function f := do return (← watch holds levels (.function f)).getD 0
  block label body := watch holds levels (.block label body)

theorem balances_watched {m m' : Run ε α} {P : α → World Engine → Prop} (there : holds w)
    (balances : Balances w m m' P) : Balances w m (watched holds m') P := by
  unfold Balances watched
  rw [if_pos there]
  exact balances

/-! ## Interpreters -/

/-- Two interpreters that do the same in every balanced world in which code can run, and keep it
balanced. -/
structure Interpreter.Alike (i i' : Interpreter) : Prop where
  orderly : i.IsOrderly fun _ => False
  function : Agrees i.function i'.function
  block : ∀ label body w, w.outer.script.Fits → Balanced [] w →
    Balances w (i.block label body) (i'.block label body) fun _ => Balanced []

/-- An entry in the journal makes no difference to what is at hand. -/
theorem yields_record {loose : List Value} (balanced : Balanced loose w) (label : Option String)
    (quiet : Bool) (result : Except Failure Report) :
    Yields w (record label quiet result : Run ε Unit) fun _ => Balanced loose := by
  cases quiet with
  | true => exact .pure balanced
  | false => exact ⟨(), _, rfl, ⟨rfl, .refl, id⟩, balanced⟩

theorem passes_retask (w : World Engine) (tasks : TaskQueue Block) (senderOpen : Bool) :
    Passes w { w with outer := { w.outer with tasks, senderOpen } } :=
  ⟨rfl, .refl, fun later => later.congr rfl rfl rfl⟩

theorem balances_onTasks (balanced : Balanced [] w) (f : TaskQueue Block → α × TaskQueue Block) :
    Balances w (onTasks f : Run ε α) (onTasks f) fun _ => Balanced [] :=
  .last (onTasks_apply f w) (passes_retask w _ w.outer.senderOpen) (balanced.retask _ _)

theorem balances_postTask (balanced : Balanced [] w) (body : Block) :
    Balances w (postTask body) (postTask body) fun _ => Balanced [] := by
  refine .engine ?_
  split
  · refine (balances_onTasks balanced _).bind fun result _ _ given => ?_
    cases result with
    | ok _ => exact .pure given
    | error e => exact .fail given _
  · exact .fail balanced _

section

variable {i i' : Interpreter} (alike : i.Alike i')
include alike

theorem balances_repeatBlock (fits : w.outer.script.Fits) (balanced : Balanced [] w) (body : Block)
    (count : Nat) :
    Balances w (repeatBlock i body count) (repeatBlock i' body count) fun _ => Balanced [] := by
  induction count generalizing w with
  | zero => exact .pure balanced
  | succ count ih =>
    have once := (alike.block "repeat" body w fits balanced).fits (alike.orderly.block _ _) fits
    refine once.bind fun returned v _ ⟨given, fits⟩ => ?_
    cases returned with
    | some results => exact .pure given
    | none => exact ih fits given

theorem balances_guardBlock (fits : w.outer.script.Fits) (balanced : Balanced [] w) (body : Block) :
    Balances w (guardBlock i body) (guardBlock i' body) Gives := by
  have ran := (alike.block "guard" body w fits balanced).mapError StepError.script
  refine .script (Balances.bind (balances_guarded ?_) fun _ v _ given => ?_)
  · exact ran.bind fun _ v _ given => .script (.pure given)
  · exact .script (balances_answer given _)

omit alike in
theorem balances_newFunction (balanced : Balanced [] w) (name : String) (body : Block) :
    Balances w (onScript (·.newFunction name none (.block body)) : Run ε Script.FunctionRef)
      (onScript (·.newFunction name none (.block body))) fun f => Balanced [.function f] :=
  .onScript ((balanced.renumber _).withFunction fun _ => .of_block rfl)

theorem balances_perform (fits : w.outer.script.Fits) (balanced : Balanced [] w)
    (a : Script.Action) : Balances w (perform i a) (perform i' a) Gives := by
  cases a with
  | choose condition yes no =>
    refine (balances_value balanced condition).look fun x _ => ?_
    exact ((alike.block _ _ w fits balanced).mapError _).bind fun _ _ _ given => .pure given
  | loop count body =>
    exact ((balances_repeatBlock alike fits balanced body count).mapError _).bind
      fun _ _ _ given => .pure given
  | guarded body => exact balances_guardBlock alike fits balanced body
  | ret values count =>
    refine (balances_values balanced values).look fun values had => ?_
    refine .afterScript (.pure (Balanced.pushAll ?_))
    rw [List.append_nil]
    exact balanced.regain fun _ => had
  | define name body binding =>
    refine (balances_newFunction balanced name body).bind fun f v _ given => ?_
    exact (balances_bindAll [binding] given).bind fun _ _ _ given =>
      .script (balances_answer given _)
  | register name body =>
    refine (balances_newFunction balanced name body).bind fun f v _ given => ?_
    exact (balances_setGlobal name given).bind fun _ _ _ given => balances_answer given _
  | prototype name body =>
    refine .afterScript (balances_answer ?_ _)
    exact balanced.restack rfl rfl rfl (fun _ => .inl) fun _ => id
  | post body =>
    exact (balances_postTask balanced body).bind fun _ _ _ given => balances_answer given _
  | stack a => exact balances_performStack alike.function balanced a
  | domain a => exact balances_performDomain alike.function balanced a
  | bridge a => exact balances_performBridge alike.function balanced a

theorem balances_runStep (fits : w.outer.script.Fits) (balanced : Balanced [] w) (label : String)
    (s : Script.Step Script.Action) :
    Balances w (runStep i label s) (runStep i' label s) fun _ => Balanced [] := by
  refine (balances_perform alike fits balanced s.action).attempt (fun o v _ given => ?_)
    (fun e v _ given => ?_) (fun message v _ given => .breakOff given message) rfl rfl
  · refine (yields_record given _ _ _).balances.bind fun _ u _ given => ?_
    exact ((balances_bindAll s.names given).mapError _).bind fun _ _ _ given => .pure given
  · refine (yields_record given _ _ _).balances.bind fun _ u _ given => ?_
    split
    · exact .pure given
    · exact .fail given _

/-- Nobody sees anything unexpected before a step of a body. -/
theorem balances_watchBlock
    (expected : ∀ w, w.outer.script.Fits → Balanced [] w → holds w)
    (fits : w.outer.script.Fits) (balanced : Balanced [] w) (label : String) (body : Block) :
    Balances w (runBlock i label body) (watchBlock holds i' label body) fun _ => Balanced [] := by
  induction body generalizing w with
  | nil => exact balances_watched (expected w fits balanced) (.pure balanced)
  | cons s rest ih =>
    refine balances_watched (expected w fits balanced) ?_
    have step := (balances_runStep alike fits balanced label s).fits
      (orderly_runStep alike.orderly label s) fits
    refine step.bind fun returned v _ ⟨given, fits⟩ => ?_
    cases returned with
    | some results => exact balances_watched (expected v fits given) (.pure given)
    | none => exact ih fits given

end

/-! ## Code -/

/-- A finalizer does the same whatever runs functions. -/
theorem finalize_execute (holds : World Engine → Prop) (levels : Nat) {f : Script.FunctionRef}
    {type : Host.TypeId} (body : f.body = .bridge (.ofType .finalize type)) :
    execute levels (.function f) = watch holds levels (.function f) ∧
      (execute levels (.function f) = throw .exhausted ∨ ∃ inner, execute levels (.function f) =
        do return some (← runBridgeFunction inner (.ofType .finalize type))) := by
  cases levels with
  | zero => exact ⟨rfl, .inl rfl⟩
  | succ levels =>
    unfold execute watch
    dsimp only
    rw [body]
    exact ⟨rfl, .inr ⟨_, rfl⟩⟩

/-- Interpreters are alike if code does the same. -/
theorem alike_of_execute {levels : Nat}
    (same : ∀ code w, w.outer.script.Fits → Balanced [] w →
      (∀ f, code = .function f → w.outer.Regular → f.Fair) →
      Balances w (execute levels code) (watch holds levels code) fun _ => Balanced []) :
    (interpreter levels).Alike (watcher holds levels) where
  orderly := isOrderly_interpreter levels
  function := {
    fair := fun f w fair fits balanced => by
      refine (same (.function f) w fits balanced fun g is => ?_).bind fun _ _ _ given => .pure given
      cases is
      exact fair
    finalizer := fun f type body w => by
      obtain ⟨equal, runs⟩ := finalize_execute holds levels body
      have whole : (interpreter levels).function f = (watcher holds levels).function f := by
        unfold interpreter watcher
        dsimp only
        rw [equal]
      refine ⟨by rw [whole], ?_⟩
      unfold interpreter
      dsimp only
      refine runs.imp (fun deep => ?_) fun ⟨inner, runs⟩ => ⟨inner, ?_⟩
      · rw [deep]
        rfl
      · rw [runs, bind_apply, bind_apply]
        cases runBridgeFunction inner (.ofType .finalize type) w with
        | mk outcome v => cases outcome <;> rfl }
  block := fun label body w fits balanced => same (.block label body) w fits balanced nofun

section

variable (expected : ∀ w, w.outer.script.Fits → Balanced [] w → holds w)
include expected

theorem balances_execute (levels : Nat) (code : Code) (fits : w.outer.script.Fits)
    (balanced : Balanced [] w) (fair : ∀ f, code = .function f → w.outer.Regular → f.Fair) :
    Balances w (execute levels code) (watch holds levels code) fun _ => Balanced [] := by
  induction levels generalizing code w with
  | zero => exact .exhausted
  | succ levels ih =>
    have inner : (interpreter levels).Alike (watcher holds levels) :=
      alike_of_execute fun code w fits balanced fair => ih code fits balanced fair
    cases code with
    | block label body => exact balances_watchBlock inner expected fits balanced label body
    | function f =>
      have fair := fair f rfl
      unfold execute watch
      dsimp only
      cases body : f.body with
      | block steps => exact balances_watchBlock inner expected fits balanced f.name steps
      | bridge b =>
        refine Balances.bind (P := fun _ => Balanced []) ?_ fun _ _ _ given => .pure given
        refine balances_runBridgeFunction inner.function balanced fun regular type same => ?_
        exact fair regular type (same ▸ body)

/-- Looking at the world around each step makes no difference, at whatever depth. -/
theorem alike_watcher (levels : Nat) : (interpreter levels).Alike (watcher holds levels) :=
  alike_of_execute fun code _ fits balanced fair =>
    balances_execute expected levels code fits balanced fair

end

/-- Functions of scripts, of which code that does the same is an example. -/
theorem alike_interpreter (levels : Nat) :
    (interpreter levels).Alike (watcher (fun _ => True) levels) :=
  alike_watcher (fun _ _ _ => trivial) levels

end Session

end ScriptHost

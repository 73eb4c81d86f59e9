import ScriptHost.Proofs.Handles.Accounts
/-!
Sessions. Whatever commands an engine is given, the accounts of its handles stay in order.
-/
namespace ScriptHost.Session

open Host (World)
open Run
open Script (Step Value)

variable {ε α : Type} {w v : World Engine} {i i' : Interpreter}

/-! ## Commands -/

/-- The bridge goes, and with it every claim about wrappers. -/
theorem balances_dropBridge (balanced : Balanced [] w) :
    Balances w dropBridge dropBridge fun _ => Balanced [] := by
  refine .engine ?_
  split
  · exact .pure balanced
  · have irregular : ¬ Engine.Regular { w.outer with
        bridge := { options := w.outer.bridge.options }, bridgeDropped := true } :=
      fun later => nomatch later.bridge
    have dropped : Balanced w.outer.bridge.classes.values { w with outer := { w.outer with
        bridge := { options := w.outer.bridge.options }, bridgeDropped := true } } :=
      ⟨balanced.typed, balanced.names, fun _ member => (Array.not_mem_empty _ member).elim,
        balanced.globals, balanced.bindings, Table.nodup_empty, ⟨nofun, nofun⟩,
        fun later => (irregular later).elim⟩
    refine .after rfl ⟨rfl, .refl, fun later => (irregular later).elim⟩ ?_
    exact (Balances.discarded [] dropped).bind fun _ _ _ given => .pure given

section

variable (alike : i.Alike i')
include alike

theorem balances_runTask (fits : w.outer.script.Fits) (balanced : Balanced [] w)
    (task : Script.Block) :
    Balances w (runTask i task) (runTask i' task) fun _ => Balanced [] := by
  have ran := balances_guarded (alike.block "task" task w fits balanced)
  exact ran.attempt (fun _ _ _ given => .pure given)
    (fun e v _ given => .report _ given) (fun message v _ given => .breakOff given message) rfl rfl

theorem balances_drain (spent : Nat → Bool) (rounds ran : Nat) (fits : w.outer.script.Fits)
    (balanced : Balanced [] w) :
    Balances w (drain i spent rounds ran) (drain i' spent rounds ran) fun _ => Balanced [] := by
  induction rounds generalizing w ran with
  | zero => exact .exhausted
  | succ rounds ih =>
    refine .after (onTasks_apply _ w) (passes_retask w _ w.outer.senderOpen) ?_
    generalize w.outer.tasks.gather.take? = taken
    obtain ⟨first, tasks⟩ := taken
    have given := balanced.retask tasks w.outer.senderOpen
    cases first with
    | none => exact .pure given
    | some task =>
      have ran := (balances_runTask alike (w := { w with outer := { w.outer with tasks } }) fits
        given task).fits (orderly_runTask alike.orderly task) fits
      refine ran.bind fun _ v _ ⟨given, fits⟩ => ?_
      split
      · exact .pure given
      · exact ih _ fits given

theorem balances_callGlobal (balanced : Balanced [] w) (name : String) {arguments : List Value}
    (held : ∀ x ∈ arguments, x ∈ w.outer.held.flatten) :
    Balances w (callGlobal i name arguments) (callGlobal i' name arguments) Balanced := by
  refine .script ?_
  have had := had_global w name
  dsimp only
  generalize (w.outer.script.globals.find? name).getD .nil = f at had
  have called : Balances w (holding [f] id (callValue i.function f arguments))
      (holding [f] id (callValue i'.function f arguments)) Balanced := by
    refine .holds id (balances_callValue alike.function ?_)
    have kept : Balanced [] (keeping [f] w) := Had.keep (by simpa using had) balanced
    refine kept.regain fun _ x member => .inl (Engine.mem_values_of_held ?_)
    rcases List.mem_cons.1 member with rfl | there
    · exact List.mem_append_left _ List.mem_cons_self
    · exact List.mem_append_right _ (held x there)
  have failed : ∀ (e : Script.Error) {v : World Engine}, Balanced [] v → Balances v
      (do
        report (.log .error (e.message ++ "\n" ++ e.traceback))
        fail e : Run Script.Error (List Value))
      (do
        report (.log .error (e.message ++ "\n" ++ e.traceback))
        fail e) Balanced := fun e _ given =>
    Balances.bind (P := fun _ => Balanced []) (.report _ given) fun _ _ _ given => .fail given e
  split
  · exact Balances.bind (P := fun _ => Balanced []) (.report _ balanced) fun _ _ _ given =>
      .fail given _
  · exact called.attempt (fun _ _ _ given => .pure given) (fun e _ _ given => failed e given)
      (fun message v _ given => .breakOff given message) rfl rfl

theorem balances_performCommand (fits : w.outer.script.Fits) (balanced : Balanced [] w)
    (c : Command) : Balances w (performCommand i c) (performCommand i' c) Gives := by
  cases c with
  | action a => exact balances_perform alike fits balanced a
  | tick =>
    refine .engine ((balances_drain alike _ _ _ fits balanced).bind fun _ v _ given => ?_)
    exact ((balances_collect alike.function given _ _).mapError _).bind fun _ _ _ given =>
      balances_answer given _
  | drain budgetMs =>
    exact (balances_drain alike _ _ _ fits balanced).bind fun _ _ _ given =>
      balances_answer given _
  | pendingTasks | queueState =>
    exact (balances_onTasks balanced _).bind fun _ _ _ given => balances_answer given _
  | debugTasks | debugQueue =>
    exact (balances_onTasks balanced _).bind fun _ _ _ given => .engine (balances_answer given _)
  | callGlobal name arguments =>
    refine (balances_values balanced arguments).look fun arguments had => ?_
    refine Balances.bind (P := Balanced) (.holds id ?_) fun _ _ _ given =>
      balances_several given
    refine (balances_callGlobal alike (Had.keep had balanced) name fun x member => ?_).mapError _
    exact List.mem_append_left _ member
  | dropBridge =>
    exact (balances_dropBridge balanced).bind fun _ _ _ given => balances_answer given _
  | dropQueue =>
    exact .after rfl (passes_retask w _ false) (balances_answer (balanced.retask _ _) _)

end

/-! ## Sessions -/

/-- The worlds that a session comes to, command after command, as long as nothing nests too
deeply. -/
inductive Reached (options : Options) (installed : Bool) : World Engine → Prop
  | start : Reached options installed (start options installed)
  | command {w : World Engine} (reached : Reached options installed w) (s : Step Command)
    (bounded : (performCommand (interpreter levels) s.action w).1 ≠ .error .exhausted) :
    Reached options installed (runCommand s w).2

/-- A command that does not nest too deeply leaves a balanced world, and the session goes on. -/
theorem yields_runCommand (fits : w.outer.script.Fits) (balanced : Balanced [] w)
    (s : Step Command)
    (bounded : (performCommand (interpreter levels) s.action w).1 ≠ .error .exhausted) :
    Yields w (runCommand s) fun _ => Balanced [] := by
  have alike := alike_interpreter levels
  obtain ⟨-, ends⟩ := balances_performCommand alike fits balanced s.action
  have rest : ∀ {m : StepRun Unit} {v : World Engine}, Passes w v → runCommand s w = m v →
      Yields v m (fun _ => Balanced []) → Yields w (runCommand s) fun _ => Balanced [] := by
    rintro m v passes same ⟨_, u, step, later, given⟩
    exact ⟨(), u, same.trans step, passes.trans later, given⟩
  have split : runCommand s w = _ := bind_apply ..
  rw [outcome_apply] at split
  generalize performCommand (interpreter levels) s.action w = ended at ends bounded split
  match ended, ends with
  | (.ok o, v), ⟨passes, given⟩ =>
    exact rest passes split ((yields_record given none s.quiet _).bind fun _ u _ given =>
      yields_bindAll s.names given)
  | (.error (.failed e), v), ⟨passes, given⟩ =>
    exact rest passes split (yields_record given none s.quiet _)
  | (.error (.panicked message), v), ⟨passes, given⟩ =>
    exact rest passes split (yields_record given none s.quiet _)
  | (.error .exhausted, v), _ => exact (bounded rfl).elim

/-! ### New engines -/

/-- No wrapper has a global name. -/
def Unnamed (w : World Engine) : Prop :=
  ∀ h, .handle h ∉ w.outer.script.globals.values

theorem yields_install (functions : List (String × Script.BridgeFunction))
    (fair : ∀ entry ∈ functions, ∀ type, entry.2 ≠ .ofType .finalize type)
    (balanced : Balanced [] w) (unnamed : Unnamed w) :
    Yields w (functions.forM fun (name, f) => do
        let f ← onScript (·.newFunction name none (.bridge f))
        modifyScript fun s => { s with globals := s.globals.insert name (.function f) } : Run ε Unit)
      fun _ => Balanced [] := by
  induction functions generalizing w with
  | nil => exact .pure balanced
  | cons entry rest ih =>
    obtain ⟨name, f⟩ := entry
    generalize made : Script.FunctionRef.mk w.outer.script.nextId name none (.bridge f) = g
    have isFair : g.Fair := fun type body => by
      rw [← made] at body
      cases body
      exact fair (name, _) List.mem_cons_self type rfl
    have ready : Balanced [.function g]
        (withScript w { w.outer.script with nextId := w.outer.script.nextId + 1 }) :=
      (balanced.renumber _).withFunction fun _ => isFair
    have named := (ready.insertGlobal name).forget fun h member => by
      exact unnamed h (Table.mem_values_of_find? (Option.mem_toList.1 member))
    have still : Unnamed (withScript w { w.outer.script with
        nextId := w.outer.script.nextId + 1
        globals := w.outer.script.globals.insert name (.function g) }) := fun h member =>
      ((Table.mem_values_insert balanced.globals name (.function g)).1 _ member).elim nofun
        (unnamed h)
    subst made
    refine .after (a := ()) rfl ⟨rfl, .refl, fun later => later.congr rfl rfl rfl⟩ ?_
    exact ih (fun entry member => fair entry (List.mem_cons_of_mem _ member)) named still

/-- An engine without anything in it. -/
theorem balanced_empty (options : Options) :
    Balanced [] ⟨{}, #[], [], .ofOptions options⟩ where
  typed := ⟨Host.Domain.placed_empty, fun _ member => (Array.not_mem_empty _ member).elim,
    fun slots member => by
      have root : slots = #[] := by simpa using member
      rw [root]
      exact .nil⟩
  names := fun _ member => (List.not_mem_nil member).elim
  entries := fun _ member => (Array.not_mem_empty _ member).elim
  globals := Table.nodup_empty
  bindings := Table.nodup_empty
  classes := Table.nodup_empty
  furnished := ⟨nofun, nofun⟩
  custody := fun _ => Custody.empty fun v there => by
    rcases there with there | there <;> cases there

theorem balanced_start (options : Options) (installed : Bool) :
    Balanced [] (start options installed) := by
  unfold start
  have unnamed : Unnamed ⟨{}, #[], [], .ofOptions options⟩ := fun _ => List.not_mem_nil
  cases installed with
  | false => exact balanced_empty options
  | true =>
    obtain ⟨_, v, step, -, given⟩ := yields_install (ε := StepError) providedGlobals
      (by simp [providedGlobals]) (balanced_empty options) unnamed
    dsimp only
    rw [if_pos rfl]
    unfold install
    rw [step]
    exact given

theorem Reached.steady {options : Options} {installed : Bool}
    (reached : Reached options installed w) : Steady w := by
  induction reached with
  | start => exact steady_start options installed
  | command _ s _ ih =>
    obtain ⟨_, _, goes⟩ := goes_runCommand ih s
    exact goes.steady

theorem Reached.sound {options : Options} {installed : Bool}
    (reached : Reached options installed w) :
    w.outer.script.Fits ∧ Balanced [] w := by
  induction reached with
  | start =>
    exact ⟨(steady_start options installed).fits, balanced_start options installed⟩
  | command earlier s bounded ih =>
    obtain ⟨_, v, step, -, given⟩ := yields_runCommand ih.1 ih.2 s bounded
    have steady := (earlier.command s bounded).steady
    rw [step] at steady ⊢
    exact ⟨steady.fits, given⟩

/-- No command of a list nests too deeply. -/
def Shallow : List (Step Command) → World Engine → Prop
  | [], _ => True
  | s :: rest, w => (performCommand (interpreter levels) s.action w).1 ≠ .error .exhausted ∧
      Shallow rest (runCommand s w).2

instance decidableNotExhausted (r : Except (Stop ε) α) : Decidable (r ≠ .error .exhausted) :=
  match r with
  | .ok _ => isTrue nofun
  | .error (.failed _) => isTrue nofun
  | .error (.panicked _) => isTrue nofun
  | .error .exhausted => isFalse fun different => different rfl

instance decidableShallow : ∀ commands w, Decidable (Shallow commands w)
  | [], _ => isTrue trivial
  | _ :: rest, _ =>
    have := decidableShallow rest
    inferInstanceAs (Decidable (_ ∧ _))

theorem Reached.runAll {options : Options} {installed : Bool}
    (reached : Reached options installed w) {commands : List (Step Command)} (shallow : Shallow commands w) :
    Reached options installed (runAll commands w).2 := by
  induction commands generalizing w with
  | nil => exact reached
  | cons s rest ih =>
    obtain ⟨bounded, shallow⟩ := shallow
    obtain ⟨fits, balanced⟩ := reached.sound
    obtain ⟨_, v, step, -, -⟩ := yields_runCommand fits balanced s bounded
    have next := reached.command s bounded
    rw [step] at next shallow
    change Reached _ _ ((runCommand s >>= fun _ => Session.runAll rest : StepRun Unit) w).2
    rw [bind_apply, step]
    exact ih next shallow

/-- Wherever a session comes to, the accounts of handles are in order, and wherever it passes
through as well: commands end as they do if someone looks at the world around each step on the way
and breaks off where they are not. -/
theorem inOrder_of_reached {options : Options} {installed : Bool}
    (reached : Reached options installed w) :
    InOrder w ∧ ∀ command, performCommand (watcher InOrder levels) command w =
      performCommand (interpreter levels) command w := by
  obtain ⟨fits, balanced⟩ := reached.sound
  have alike : (interpreter levels).Alike (watcher InOrder levels) :=
    alike_watcher (fun _ => inOrder_of_balanced) levels
  exact ⟨inOrder_of_balanced fits balanced, fun command =>
    (balances_performCommand alike fits balanced command).1.symm⟩

/-- A wrapper of which the handle is released, and the slot of it given to another wrapper of the
same object, before the first one goes. -/
def reuse : List (Step Command) := [
  { action := .action (.domain (.define [⟨"Point", none, false, [], []⟩])) },
  { action := .action (.bridge (.importType "Point")), names := ["class"] },
  { action := .action (.domain (.instantiate (.named "Point") "p")) },
  { action := .action (.bridge (.toScript (.object "p"))), names := ["first"] },
  { action := .action (.bridge (.wrap "p" false)) },
  { action := .action (.bridge (.release (.value (.var "first")))) },
  { action := .action (.bridge (.toScript (.object "p"))), names := ["second"] },
  { action := .action (.stack (.forget "first")) }]

/-- The world after that. -/
def reused : World Engine :=
  (runAll reuse (start {} true)).2

/-- The wrapper that went waits to be finalized, with a handle that is not issued any more. -/
theorem inOrder_reused :
    Reached {} true reused ∧ reused.outer.Accounted ∧
      reused.outer.script.graveyard.toList = [⟨0, 1⟩] ∧
      reused.outer.bridge.registry.isIssued ⟨1, 0⟩ = false ∧
      reused.outer.bridge.registry.isIssued ⟨1, 1⟩ = true ∧
      SettlesOwn (interpreter levels).function ⟨0, 1⟩
        (withScript reused { reused.outer.script with graveyard := #[] }) ∧
      performCommand (watcher InOrder levels) (.action (.stack .collect)) reused =
        performCommand (interpreter levels) (.action (.stack .collect)) reused := by
  have shallow : Shallow reuse (start {} true) := by decide +kernel
  have reached : Reached {} true reused := Reached.start.runAll shallow
  have ledger : reused.outer.ledger = [.revoked ⟨1, 0⟩, .given ⟨2, 0⟩] := by decide +kernel
  have regular : reused.outer.Regular := by
    constructor
    case bridge => decide +kernel
    case owned => simp [ledger]
    case finalized => simp [ledger]
    case counts =>
      intro slot
      rw [ledger]
      exact Nat.lt_of_le_of_lt List.countP_le_length (by decide)
    case room => decide +kernel
  have waiting : reused.outer.script.graveyard.toList = [⟨0, 1⟩] := by decide +kernel
  obtain ⟨inOrder, watched⟩ := inOrder_of_reached reached
  obtain ⟨accounted, collects⟩ := inOrder regular
  refine ⟨reached, accounted, waiting, by decide +kernel, by decide +kernel, ?_, watched _⟩
  exact (collects levels).first waiting regular

end ScriptHost.Session

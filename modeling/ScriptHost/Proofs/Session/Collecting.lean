import ScriptHost.Proofs.Engine.Finalizers
import ScriptHost.Proofs.Handles.Sessions
import ScriptHost.Proofs.Session.MethodCalls
/-!
Collecting garbage. Where the limits of the scripts leave room for a call, everything that waits is
finalized, once each, also what comes to wait meanwhile. Where they do not, the finalizers are
refused, and what waited waits no more.
-/
namespace ScriptHost.Run

open Host (World)
open Script (Block FunctionRef Remains Value)
open Script.State (Fits)
open Session (interpreter)

variable {w : World Engine} {f : FunctionRef} {remains : List Remains} {name message : String}

/-- In a session whose accounts are in order, the finalizers of the bridge are enough. -/
theorem owned_of_balanced (balanced : Balanced [] w) (regular : w.outer.Regular) : Owned [] w where
  bridge := regular.bridge
  finalizes := fun r member => by
    have custody := balanced.custody regular
    obtain ⟨type, ⟨keys, exposed, same⟩, -⟩ := custody.queued r member
    have finalizes := (custody.fair.finalizes type keys exposed).1
    rw [← same] at finalizes
    exact ⟨type, finalizes⟩

/-! ## Finalizers of scripts -/

/-- A body that forgets a variable. -/
def forgets (name : String) : Block :=
  [{ action := .stack (.forget name), quiet := true }]

/-- A body that fails. -/
def raises (message : String) : Block :=
  [{ action := .stack (.raise message), quiet := true }]

/-- The world in which a variable is forgotten. -/
def forgetting (name : String) (w : World Engine) : World Engine :=
  let e : Engine := { w.outer with bindings := w.outer.bindings.erase name }
  { w with outer := e.discard [] (w.outer.bindings.find? name).toList }

theorem function_block (n : Nat) {body : Block} (block : f.body = .block body) :
    (interpreter (n + 1)).function f =
      (do return (← Session.runBlock (interpreter n) f.name body).getD 0) := by
  change (do return (← Session.execute (n + 1) (.function f)).getD 0 : Run Script.Error Nat) = _
  unfold Session.execute
  dsimp only
  rw [block]
  rfl

theorem run_forgets (n : Nat) (body : f.body = .block (forgets name)) (w : World Engine) :
    (interpreter (n + 1)).function f w = (.ok 0, forgetting name w) := by
  rw [function_block n body]
  rfl

theorem run_raises (n : Nat) (body : f.body = .block (raises message)) (w : World Engine) :
    (interpreter (n + 1)).function f w = (.error (.failed ⟨message, ""⟩), w) := by
  rw [function_block n body]
  rfl

/-- The world in which a variable is forgotten and more waits. -/
def forgotten (name : String) (w : World Engine) (more : Array Remains) : World Engine :=
  { burying w more with outer := { (burying w more).outer with
    bindings := w.outer.bindings.erase name } }

/-- Forgetting a variable leaves more waiting only if there was one. -/
theorem exists_forgetting (name : String) (w : World Engine) :
    ∃ more, forgetting name w = forgotten name w more ∧
      (w.outer.bindings.find? name = none → more = #[]) := by
  obtain ⟨more, left, same⟩ := Engine.discard_leaves
    { w.outer with bindings := w.outer.bindings.erase name } []
    (w.outer.bindings.find? name).toList
  refine ⟨more, congrArg (fun outer => { w with outer }) same, fun absent => left.eq_empty ?_⟩
  rw [absent]
  exact fun x member => (List.not_mem_nil member).elim

theorem untouched_forgotten (name : String) (w : World Engine) (more : Array Remains) :
    Untouched w (forgotten name w more) :=
  ⟨⟨rfl, rfl, rfl, rfl⟩, rfl⟩

theorem returned_forgotten (name : String) (f : FunctionRef) (r : Remains) (w : World Engine)
    (more : Array Remains) :
    returned w (forgotten name (finalizing f r w) more) = forgotten name w more := rfl

theorem untouched_refl (w : World Engine) : Untouched w w :=
  ⟨⟨rfl, rfl, rfl, rfl⟩, rfl⟩

theorem returned_finalizing (f : FunctionRef) (r : Remains) (w : World Engine) :
    returned w (finalizing f r w) = w := rfl

/-- All finalizers forget one variable, or they fail. -/
def Forgetful (name message : String) (w : World Engine) : Prop :=
  ∀ r f, finalizer? w r = some f →
    f.body = .block (forgets name) ∨ f.body = .block (raises message)

/-- Finalizers that forget one variable make garbage once. -/
theorem finitely_forgetful (n : Nat) (name message : String) :
    Finitely (interpreter (n + 1)).function (fun _ => Forgetful name message)
      fun w => if (w.outer.bindings.find? name).isSome then 1 else 0 where
  taken := fun w forgetful => ⟨forgetful, Nat.le_refl _⟩
  ends := fun w r rest forgetful f found => by
    rcases forgetful r f found with body | body
    · obtain ⟨more, same, -⟩ := exists_forgetting name (finalizing f r w)
      rw [run_forgets n body, same]
      exact ⟨rfl, (untouched_forgotten name (finalizing f r w) more).keepsTo⟩
    · rw [run_raises n body]
      exact ⟨rfl, (untouched_refl (finalizing f r w)).keepsTo⟩
  next := fun w r rest v forgetful finalized => by
    cases finalized with
    | idle nothing => exact ⟨forgetful, Nat.le_refl _, fun more => (Nat.lt_irrefl _ more).elim⟩
    | @done f _ _ _ found ran _ left =>
      obtain body | body := forgetful r f found
      · obtain ⟨more, same, nothing⟩ := exists_forgetting name (finalizing f r w)
        rw [run_forgets n body, same] at ran
        obtain rfl := (Prod.mk.inj ran).2
        rw [(untouched_forgotten name (finalizing f r w) more).buries_nothing left,
          returned_forgotten]
        have gone : (forgotten name w more).outer.bindings.find? name = none :=
          (Table.find?_erase ..).trans (if_pos rfl)
        rw [gone]
        refine ⟨forgetful, Nat.zero_le _, fun grown => ?_⟩
        cases there : w.outer.bindings.find? name with
        | none =>
          rw [nothing there] at grown
          change _ < (w.outer.script.graveyard ++ #[]).size at grown
          rw [Array.append_empty] at grown
          exact (Nat.lt_irrefl _ grown).elim
        | some x => exact Nat.zero_lt_one
      · rw [run_raises n body] at ran
        cases (Prod.mk.inj ran).1
    | @failed f _ _ _ found ran _ left =>
      obtain body | body := forgetful r f found
      · rw [run_forgets n body] at ran
        cases (Prod.mk.inj ran).1
      · rw [run_raises n body] at ran
        obtain rfl := (Prod.mk.inj ran).2
        rw [(untouched_refl (finalizing f r w)).buries_nothing left, returned_finalizing]
        exact ⟨forgetful, Nat.le_refl _, fun more => (Nat.lt_irrefl _ more).elim⟩

/-! ## Collecting where there is room -/

/-- Where the limits of the scripts leave room for a call, a collection finalizes everything that
waits, once each and in turn, also what comes to wait meanwhile, and it leaves nothing waiting and the
stack and the frames as they are, as long as finalizers succeed or fail and make more garbage only
finitely often. If all have the finalizers of the bridge, the handles of what waited are released by
that, and no others. -/
theorem collect_of_room (run : Runner) {w : World Engine} (fits : w.outer.script.Fits)
    (room : ¬ Full w.outer.script) (n : Nat) :
    (∀ (I : List Remains → World Engine → Prop) (budget : World Engine → Nat) (rounds : Nat),
      Finitely run I budget → I [] w → budget w + 1 < rounds →
      ∃ all v, collect run rounds n w = (.ok (n + all.length), v) ∧ Collected run w all v ∧
        w.outer.script.graveyard.toList <+: all ∧ v.outer.script.graveyard = #[] ∧
        v.outer.script.stack = w.outer.script.stack ∧
        v.outer.script.frames = w.outer.script.frames) ∧
    ∀ (inner : Runner) (rounds : Nat), Serves run inner → Owned [] w → 1 < rounds →
      ∃ v, collect run rounds n w = (.ok (n + w.outer.script.graveyard.size), v) ∧
        Collected run w w.outer.script.graveyard.toList v ∧ v.outer.script.graveyard = #[] ∧
        v.outer.script.stack = w.outer.script.stack ∧
        v.outer.script.frames = w.outer.script.frames ∧
        ∀ k, v.outer.bridge.registry.isIssued k = true ↔
          w.outer.bridge.registry.isIssued k = true ∧
            ∀ r ∈ w.outer.script.graveyard.toList, r.handle ≠ k := by
  refine ⟨fun I budget rounds finitely given enough => ?_, fun inner rounds serves owned enough => ?_⟩
  · obtain ⟨all, v, ran, collected, nothing, alike⟩ := collect_collects finitely given fits room
      (Nat.zero_lt_of_lt enough) (fun _ => enough) n
    refine ⟨all, v, ran, collected, ?_, nothing, alike.stack, alike.frames⟩
    cases collected with
    | done nothing => simp [nothing]
    | round some first rest => exact List.prefix_append ..
  · obtain ⟨all, v, ran, collected, nothing, alike⟩ := collect_collects (finitely_owned serves) owned
      fits room (Nat.zero_lt_of_lt enough) (fun _ => enough) n
    obtain ⟨rfl, issued⟩ := owned.collected serves collected
    rw [Array.length_toList] at ran
    exact ⟨v, ran, collected, nothing, alike.stack, alike.frames, issued⟩

/-- A wrapper whose finalizer drops another one, whose finalizer fails. -/
def chest : World Engine where
  host := {}
  journal := #[]
  pins := []
  outer :=
    { Engine.ofOptions {} with
      script := {
        maxStack := 16
        maxDepth := 4
        behaviours := #[
          { name := "Chest", gc := some ⟨0, "spill", none, .block (forgets "gem")⟩ },
          { name := "Gem", gc := some ⟨1, "fail", none, .block (raises "no")⟩ }]
        graveyard := #[⟨0, 7⟩] }
      bindings := ({} : Table String Value).insert "gem" (.handle ⟨2, 11, 1⟩) }

theorem forgetful_chest : Forgetful "gem" "no" chest := by
  rintro ⟨behaviour, slot⟩ f found
  match behaviour with
  | 0 =>
    cases found
    exact .inl rfl
  | 1 =>
    cases found
    exact .inr rfl
  | _ + 2 => cases found

/-- An object comes to scripts, and they let it go. -/
def abandoning : List (Script.Step Session.Command) := [
  { action := .action (.domain (.define [⟨"Gem", none, false, [], []⟩])) },
  { action := .action (.domain (.instantiate (.named "Gem") "gem")) },
  { action := .action (.bridge (.toScript (.object "gem"))), names := ["w"] },
  { action := .action (.stack (.forget "w")) }]

/-- The world after that in a session in which one function may be active at a time. -/
def abandoned : World Engine :=
  (Session.runAll abandoning (Session.start { maxCallDepth := 1 } true)).2

theorem owned_abandoned : Owned [] abandoned := by
  have shallow : Session.Shallow abandoning (Session.start { maxCallDepth := 1 } true) := by
    decide +kernel
  have reached : Session.Reached { maxCallDepth := 1 } true abandoned :=
    Session.Reached.start.runAll shallow
  exact owned_of_balanced reached.sound.2
    (.of_nil (by decide +kernel) (by decide +kernel) (by decide +kernel))

/-- Both wrappers are finalized, the second one after the first. The handle of an abandoned object is
released when no function is active. -/
theorem collect_of_room_chest :
    (∃ all v, collect (interpreter 9).function 3 0 chest = (.ok all.length, v) ∧
      Collected (interpreter 9).function chest all v ∧ all.length = 2 ∧
      v.outer.script.graveyard = #[]) ∧
    ∃ v, collect (interpreter 9).function 2 0 abandoned = (.ok 1, v) ∧
      abandoned.outer.bridge.registry.isIssued ⟨0, 0⟩ = true ∧
      v.outer.bridge.registry.isIssued ⟨0, 0⟩ = false := by
  have fits : abandoned.outer.script.Fits := by
    unfold Fits
    decide +kernel
  have room : ¬ Full abandoned.outer.script := by
    unfold Full
    decide +kernel
  have waiting : abandoned.outer.script.graveyard = #[⟨0, 0⟩] := by decide +kernel
  obtain ⟨finalizes, -⟩ := collect_of_room (interpreter 9).function (w := chest)
    (Nat.le_refl 0) (by unfold Full; decide) 0
  obtain ⟨-, releases⟩ := collect_of_room (interpreter 9).function fits room 0
  obtain ⟨all, v, ran, collected, -, nothing, -⟩ :=
    finalizes _ _ 3 (finitely_forgetful 8 "gem" "no") forgetful_chest (by decide)
  obtain ⟨u, ran', -, -, -, -, issued⟩ :=
    releases _ 2 (Session.serves_interpreter 8) owned_abandoned (by decide)
  have counted : (collect (interpreter 9).function 3 0 chest).1.toOption = some 2 := by
    decide +kernel
  rw [Nat.zero_add] at ran ran'
  rw [ran] at counted
  rw [waiting] at ran' issued
  refine ⟨⟨all, v, ran, collected, Option.some.inj counted, nothing⟩, u, ran', by decide +kernel,
    Bool.eq_false_iff.2 fun still => ?_⟩
  exact ((issued ⟨0, 0⟩).1 still).2 ⟨0, 0⟩ (by simp) rfl

/-- The same world while a function is active. -/
def cramped : World Engine :=
  withScript abandoned (abandoned.outer.script.enter ⟨0, "f"⟩)

theorem Owned.enter (owned : Owned remains w) (frame : Script.Frame) :
    Owned remains (withScript w (w.outer.script.enter frame)) :=
  ⟨owned.bridge, owned.finalizes⟩

/-- No other function may be active then, so that the finalizer is refused. The handle is never
released, though nothing waits any more. -/
theorem collect_of_full :
    Serves (interpreter 9).function (interpreter 8).function ∧
      Owned [] cramped ∧ cramped.outer.script.Fits ∧ Full cramped.outer.script ∧
      cramped.outer.script.graveyard = #[⟨0, 0⟩] ∧
      ∃ v, collect (interpreter 9).function 2 0 cramped = (.ok 1, v) ∧
        v.outer.script.graveyard = #[] ∧
        v.outer.bridge.registry.isIssued (Script.Remains.handle ⟨0, 0⟩) = true := by
  have counted : (collect (interpreter 9).function 2 0 cramped).1.toOption = some 1 := by
    decide +kernel
  have nothing : (collect (interpreter 9).function 2 0 cramped).2.outer.script.graveyard =
      #[] := by decide +kernel
  have issued : (collect (interpreter 9).function 2 0 cramped).2.outer.bridge.registry.isIssued
      (Script.Remains.handle ⟨0, 0⟩) = true := by decide +kernel
  refine ⟨Session.serves_interpreter 8, owned_abandoned.enter ⟨0, "f"⟩, ?_, ?_, by decide +kernel, ?_⟩
  · unfold Fits
    decide +kernel
  · unfold Full
    decide +kernel
  · rcases ran : collect (interpreter 9).function 2 0 cramped with ⟨_ | count, v⟩
    · rw [ran] at counted
      cases counted
    · rw [ran] at counted nothing issued
      obtain rfl := Option.some.inj counted
      exact ⟨v, rfl, nothing, issued⟩

end ScriptHost.Run

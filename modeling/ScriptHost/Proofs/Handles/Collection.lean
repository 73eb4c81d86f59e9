import ScriptHost.Proofs.Handles.Calls
/-!
Finalizing what wrappers left behind. The finalizer of a wrapper releases the handle of that wrapper,
unless it was released before, and it does nothing else.
-/
namespace ScriptHost

open Bridge (Handle Registry)
open Host (World)
open Script (FunctionRef Remains Value)

variable {ε α : Type} {w v : World Engine} {r : Remains}

/-- The engine once a finalizer is done: the handle is released if it was issued. Without a bridge
there is nothing to release. -/
def Engine.finalized (e : Engine) (r : Remains) : Engine :=
  if e.bridgeDropped then e
  else
    match e.bridge.registry.release? r.handle with
    | some registry =>
      { e with bridge := { e.bridge with registry }, ledger := .finalized r.handle :: e.ledger }
    | none => e

/-! ## Releases by finalizers -/

section

variable {e : Engine}

theorem finalized_of_dropped (dropped : e.bridgeDropped = true) : e.finalized r = e := by
  unfold Engine.finalized
  rw [if_pos dropped]

theorem finalized_of_issued (there : e.bridgeDropped = false)
    (issued : e.bridge.registry.isIssued r.handle = true) :
    e.finalized r = { e with
      bridge := { e.bridge with
        registry := Registry.Operation.apply e.bridge.registry (.release r.handle) }
      ledger := .finalized r.handle :: e.ledger } := by
  unfold Engine.finalized Registry.Operation.apply Registry.release?
  simp [there, issued]

theorem finalized_of_dead (dead : e.bridge.registry.isIssued r.handle = false) :
    e.finalized r = e := by
  unfold Engine.finalized Registry.release?
  simp [dead]

/-- A release by a finalizer changes nothing but the registry and the books. -/
theorem exists_finalized (e : Engine) (r : Remains) :
    ∃ registry ledger, e.finalized r =
      { e with bridge := { e.bridge with registry }, ledger } := by
  unfold Engine.finalized
  split
  · exact ⟨e.bridge.registry, e.ledger, rfl⟩
  · split
    · exact ⟨_, _, rfl⟩
    · exact ⟨e.bridge.registry, e.ledger, rfl⟩

/-- An engine was regular before a finalizer ran. -/
theorem Engine.Regular.of_finalized (regular : (e.finalized r).Regular) : e.Regular := by
  cases there : e.bridgeDropped with
  | true => rwa [finalized_of_dropped there] at regular
  | false =>
    cases issued : e.bridge.registry.isIssued r.handle with
    | false => rwa [finalized_of_dead issued] at regular
    | true =>
      rw [finalized_of_issued there issued] at regular
      exact regular.earlier rfl rfl (Registry.size_le_apply _ _)

/-- The handle of a wrapper is released by its finalizer, or it was released before. -/
theorem Sound.finalized {queue : List Remains} {s : Host.State}
    (sound : Sound (r :: queue) [] s e) : Sound queue [] s (e.finalized r) := by
  cases there : e.bridgeDropped with
  | true =>
    rw [finalized_of_dropped there]
    exact sound.irregular fun regular => by simp [regular.bridge] at there
  | false =>
    cases issued : e.bridge.registry.isIssued r.handle with
    | false =>
      rw [finalized_of_dead issued]
      exact ⟨sound.typed, sound.names, sound.entries, sound.globals, sound.bindings, sound.classes,
        sound.furnished, fun regular => (sound.custody regular).pass issued⟩
    | true =>
      have before : (e.finalized r).Regular → e.Regular := Engine.Regular.of_finalized
      rw [finalized_of_issued there issued] at before ⊢
      refine ⟨sound.typed, sound.names, ?_, sound.globals, sound.bindings, sound.classes,
        sound.furnished, fun later => ?_⟩
      · refine sound.entries.release? (h := r.handle) ?_
        rw [Registry.apply_release issued]
        simp [Registry.release?, issued]
      · exact (sound.custody (before later)).finalize issued (later.counts r.handle.index)

end

/-- What waits is taken out of the queue to be finalized. -/
theorem Balanced.emptied (balanced : Balanced [] w) :
    Sound w.outer.script.graveyard.toList [] w.host
      (Run.withScript w { w.outer.script with graveyard := #[] }).outer := by
  refine ⟨balanced.typed, balanced.names, balanced.entries, balanced.globals, balanced.bindings,
    balanced.classes, balanced.furnished, fun regular => ?_⟩
  have custody := balanced.custody (regular.congr rfl rfl rfl)
  change Custody w.outer.fixtures (w.outer.script.graveyard.toList ++ []) (w.outer.Has [])
  rwa [List.append_nil]

namespace Run

/-! ## Values that are no wrappers -/

/-- Values that are no wrappers go without consequences. -/
theorem discard_plain {going : List Value} (plain : ∀ x ∈ going, x.wrapper? = none) (e : Engine)
    (inUse : List Value) : e.discard inUse going = e := by
  unfold Engine.discard
  rw [if_pos]
  rw [List.all_eq_true]
  intro x member
  rw [plain x member]
  rfl

theorem cutStack_plain {pos : Nat} (inUse : List Value)
    (plain : ∀ x ∈ (w.outer.script.takeFrom pos).1, x.wrapper? = none) :
    (cutStack pos inUse : Run ε Unit) w =
      (.ok (), withScript w { w.outer.script with stack := w.outer.script.stack.take pos }) := by
  unfold cutStack
  rw [bind_apply, onScript_apply]
  dsimp only
  unfold discard
  rw [modifyEngine_apply]
  dsimp only
  rw [discard_plain plain]
  rfl

theorem takeFrom_size (s : Script.State) : s.takeFrom s.stack.size = ([], s) := by
  unfold Script.State.takeFrom
  rw [Array.take_eq_extract, Array.extract_size]
  simp

theorem pushAll_nil (s : Script.State) : s.pushAll [] = s := by
  simp [Script.State.pushAll]

/-- Values that are no wrappers may be held or not. -/
theorem holding_plain {values : List Value} (inUse : α → List Value) {m : Run ε α}
    {r : Except (Stop ε) α} (plain : ∀ x ∈ values, x.wrapper? = none)
    (step : m (keeping values w) = (r, keeping values v)) : holding values inUse m w = (r, v) := by
  rw [holding_apply, step]
  cases r <;>
  · dsimp only
    rw [discard_plain plain]
    rfl

/-! ## Finalizers -/

theorem releaseRemains_apply (there : w.outer.bridgeDropped = false) :
    releaseRemains (.pointer r.slot) w = (.ok (), { w with outer := w.outer.finalized r }) := by
  have read : releaseRemains (.pointer r.slot) w =
      (match w.outer.bridge.registry.release? r.handle with
        | some registry => (do
            modifyBridge ({ · with registry })
            note (.finalized r.handle))
        | none => pure () : Run Bridge.Error Unit) w := rfl
  rw [read]
  unfold Engine.finalized
  rw [if_neg (by simp [there])]
  cases w.outer.bridge.registry.release? r.handle with
  | none => rfl
  | some registry => rfl

/-- A release has nothing to do with what is held. -/
theorem keeping_finalized (values : List Value) (w : World Engine) (r : Remains) :
    { keeping values w with outer := (keeping values w).outer.finalized r } =
      keeping values { w with outer := w.outer.finalized r } := by
  unfold Engine.finalized keeping
  dsimp only
  split
  · rfl
  · cases w.outer.bridge.registry.release? r.handle <;> rfl

theorem script_finalized (e : Engine) (r : Remains) : (e.finalized r).script = e.script := by
  obtain ⟨_, _, same⟩ := exists_finalized e r
  rw [same]

theorem held_finalized (e : Engine) (r : Remains) : (e.finalized r).held = e.held := by
  obtain ⟨_, _, same⟩ := exists_finalized e r
  rw [same]

/-- A finalizer called with the slot of a wrapper. -/
theorem runFinalizer_apply (run : Runner) (type : Host.TypeId)
    (values : w.outer.script.frameValues = [.pointer r.slot]) :
    runBridgeFunction run (.ofType .finalize type) w =
      (.ok 0, { w with outer := w.outer.finalized r }) := by
  cases there : w.outer.bridgeDropped with
  | true =>
    have read : runBridgeFunction run (.ofType .finalize type) w =
        (if w.outer.bridgeDropped then pure 0 else _ : Run Script.Error Nat) w := rfl
    rw [read, if_pos there]
    unfold Engine.finalized
    rw [if_pos there]
    rfl
  | false =>
    have read : runBridgeFunction run (.ofType .finalize type) w =
        (if w.outer.bridgeDropped then _ else _ : Run Script.Error Nat) w := rfl
    rw [read, if_neg (by simp [there])]
    change holding w.outer.script.frameValues (fun _ => []) (do
      let results ← (applyBridgeFunction run (.ofType .finalize type)
        w.outer.script.frameValues).mapError (·.toScript)
      modifyScript (·.pushAll results)
      return results.length) w = _
    rw [values]
    have plain : ∀ x ∈ [Value.pointer r.slot], x.wrapper? = none := by simp [Value.wrapper?]
    have released := releaseRemains_apply (r := r) (w := keeping [.pointer r.slot] w) there
    rw [keeping_finalized] at released
    have applied : applyBridgeFunction run (.ofType .finalize type) [.pointer r.slot]
        (keeping [.pointer r.slot] w) =
          (.ok [], keeping [.pointer r.slot] { w with outer := w.outer.finalized r }) := by
      change ((releaseRemains (.pointer r.slot) >>= fun _ => pure []) : Run Bridge.Error _) _ = _
      rw [bind_apply, released]
      rfl
    refine holding_plain _ plain ?_
    rw [bind_apply, mapError_apply, applied]
    generalize keeping [.pointer r.slot] { w with outer := w.outer.finalized r } = u
    change (Except.ok 0, withScript u (u.outer.script.pushAll [])) = (Except.ok 0, u)
    rw [pushAll_nil]
    rfl

/-- A finalizer gives no results, and its frame holds no wrappers. -/
theorem finish_plain {pos : Nat}
    (plain : ∀ x ∈ (w.outer.script.takeFrom pos).1, x.wrapper? = none) :
    (finish pos 0 0 : Run ε Unit) w =
      (.ok (), withScript w { w.outer.script with stack := w.outer.script.stack.take pos }) := by
  have empty : adjust [] 0 = [] := rfl
  have idle : ∀ u : World Engine, (discard [] [] : Run ε Unit) u = (.ok (), u) := fun u => by
    unfold discard
    rw [modifyEngine_apply, discard_plain (by simp)]
  unfold finish
  rw [script_bind_apply]
  dsimp only
  rw [Nat.zero_min, Nat.sub_zero, bind_apply, onScript_apply, takeFrom_size]
  dsimp only
  rw [bind_apply, cutStack_plain _ plain]
  dsimp only
  rw [bind_apply, empty, List.drop_nil, idle]
  generalize withScript w _ = u
  change (Except.ok (), withScript u (u.outer.script.pushAll [])) = (Except.ok (), u)
  rw [pushAll_nil]
  rfl

/-- A release has nothing to do with the scripts. -/
theorem withScript_finalized (w : World Engine) (s : Script.State) (r : Remains) :
    { withScript w s with outer := (withScript w s).outer.finalized r } =
      withScript { w with outer := w.outer.finalized r } s := by
  unfold Engine.finalized withScript
  dsimp only
  split
  · rfl
  · cases w.outer.bridge.registry.release? r.handle <;> rfl

section

variable {run run' : Runner} {f : FunctionRef} {type : Host.TypeId}

/-- Whether the limits of the scripts refuse a call with one argument. -/
def Full (s : Script.State) : Prop :=
  s.maxDepth ≤ s.frames.length ∨ s.maxStack ≤ s.stack.size + 2

/-- Entering a finalizer with the slot of a wrapper. -/
theorem enter_finalizer (agrees : Agrees run run')
    (body : f.body = .bridge (.ofType .finalize type))
    {s : Script.State} (scripts : w.outer.script = s.pushAll [.function f, .pointer r.slot]) :
    (enter run s.stack.size f 0 w).1 = .error .exhausted ∨
      (∃ e, Full s ∧ enter run s.stack.size f 0 w = (.error (.failed e), withScript w s)) ∨
      enter run s.stack.size f 0 w =
        (.ok (), withScript { w with outer := w.outer.finalized r } s) := by
  have stack : w.outer.script.stack = s.stack ++ #[.function f, .pointer r.slot] := by
    rw [scripts]
    rfl
  have below : w.outer.script.stack.take s.stack.size = s.stack := by
    rw [stack]
    simp [Array.take_eq_extract]
  have plain : ∀ x ∈ (w.outer.script.takeFrom s.stack.size).1, x.wrapper? = none := by
    simp [Script.State.takeFrom, stack, Value.wrapper?]
  have size : w.outer.script.stack.size = s.stack.size + 2 := by
    rw [stack, Array.size_append]
    rfl
  have back : { w.outer.script with stack := w.outer.script.stack.take s.stack.size } = s := by
    rw [below, scripts]
    rfl
  unfold enter
  rw [script_bind_apply]
  split
  · rename_i refused
    refine .inr (.inl ?_)
    rw [bind_apply, cutStack_plain [] plain, back]
    refine ⟨_, ?_, rfl⟩
    unfold Full
    rw [← size]
    simpa [scripts, Script.State.pushAll] using refused
  · generalize inside : withScript w (w.outer.script.enter ⟨s.stack.size + 1, f.name⟩) = u
    have step : ∀ rest : Unit → Run Script.Error Unit,
        (modifyScript (·.enter ⟨s.stack.size + 1, f.name⟩) >>= rest) w = rest () u := by
      intro rest
      rw [← inside]
      rfl
    rw [step, bind_apply, outcome_apply]
    obtain ⟨-, deep | ⟨inner, runs⟩⟩ := agrees.finalizer f type body u
    · left
      cases result : run f u with
      | mk outcome v =>
        rw [result] at deep
        dsimp only at deep ⊢
        subst deep
        rfl
    · refine .inr (.inr ?_)
      have values : u.outer.script.frameValues = [.pointer r.slot] := by
        rw [← inside]
        change (w.outer.script.stack.extract (s.stack.size + 1)).toList = _
        rw [stack]
        simp [Array.extract_append]
      rw [runs, runFinalizer_apply inner type values, ← inside]
      dsimp only
      rw [withScript_finalized, bind_apply, finish_plain (by exact plain)]
      dsimp only
      change (Except.ok (), withScript { w with outer := w.outer.finalized r }
        { w.outer.script with stack := w.outer.script.stack.take s.stack.size }) = _
      rw [back]

/-- A script state, perhaps with the finalizer and its argument left on the stack. -/
def Burdened (f : FunctionRef) (slot : UInt64) (s t : Script.State) : Prop :=
  t = s ∨ t = s.pushAll [.function f, .pointer slot]

/-- What is left on the stack is cut off. -/
theorem Burdened.cutStack {slot : UInt64} {s : Script.State}
    (burdened : Burdened f slot s w.outer.script) :
    (cutStack s.stack.size : Run ε Unit) w = (.ok (), withScript w s) := by
  have plain : ∀ x ∈ (w.outer.script.takeFrom s.stack.size).1, x.wrapper? = none := by
    rcases burdened with same | same <;> rw [same] <;>
      simp [Script.State.takeFrom, Script.State.pushAll, Value.wrapper?]
  have back : { w.outer.script with stack := w.outer.script.stack.take s.stack.size } = s := by
    rcases burdened with same | same <;> rw [same]
    · exact congrArg Prod.snd (takeFrom_size s)
    · simp [Script.State.pushAll, Array.take_eq_extract]
  rw [cutStack_plain [] plain, back]

/-- Calling a finalizer that stands on the stack with the slot of a wrapper. -/
theorem call_finalizer (agrees : Agrees run run') (body : f.body = .bridge (.ofType .finalize type))
    {s : Script.State} (scripts : w.outer.script = s.pushAll [.function f, .pointer r.slot]) :
    (call run 1 0 w).1 = .error .exhausted ∨
      (∃ e t, (s.Fits → Full s) ∧ Burdened f r.slot s t ∧
        call run 1 0 w = (.error (.failed e), withScript w t)) ∨
      call run 1 0 w = (.ok (), withScript { w with outer := w.outer.finalized r } s) := by
  have size : w.outer.script.stack.size = s.stack.size + 2 := by
    rw [scripts]
    exact size_pushAll s _
  unfold call
  rw [script_bind_apply]
  split
  · -- The current frame starts above the stack.
    rename_i few
    refine .inr (.inl ⟨_, _, fun fits => ?_, .inr scripts, rfl⟩)
    have base : w.outer.script.base = s.base := by
      rw [scripts]
      rfl
    unfold Script.State.Fits at fits
    unfold Script.State.top at few
    omega
  · have callee : w.outer.script.stack.getD s.stack.size .nil = .function f := by
      rw [scripts]
      simp [Script.State.pushAll]
    have place : w.outer.script.stack.size - 1 - 1 = s.stack.size := by omega
    rw [place]
    dsimp only
    rw [callee]
    have plain : ∀ x ∈ [Value.function f], x.wrapper? = none := by simp [Value.wrapper?]
    have entered := enter_finalizer (w := keeping [.function f] w) (r := r) agrees body scripts
    rcases entered with deep | ⟨e, full, refused⟩ | done
    · left
      rw [holding_fst]
      exact deep
    · exact .inr (.inl ⟨e, s, fun _ => full, .inl rfl, holding_plain _ plain refused⟩)
    · rw [keeping_finalized] at done
      exact .inr (.inr (holding_plain _ plain done))

/-- Calling a finalizer with the slot of a wrapper, and taking off the results that it has not. -/
theorem callFunction_finalizer (agrees : Agrees run run')
    (body : f.body = .bridge (.ofType .finalize type)) :
    (callFunction run f [.pointer r.slot] 0 w).1 = .error .exhausted ∨
      (∃ e t, (w.outer.script.Fits → Full w.outer.script) ∧ Burdened f r.slot w.outer.script t ∧
        callFunction run f [.pointer r.slot] 0 w = (.error (.failed e), withScript w t)) ∨
      callFunction run f [.pointer r.slot] 0 w =
        (.ok [], { w with outer := w.outer.finalized r }) := by
  have called := call_finalizer (r := r) agrees body
    (w := withScript w (w.outer.script.pushAll [.function f, .pointer r.slot])) rfl
  have step : callFunction run f [.pointer r.slot] 0 w =
      (do
        call run 1 0
        onScript (·.takeFrom w.outer.script.stack.size) : Run Script.Error (List Value))
        (withScript w (w.outer.script.pushAll [.function f, .pointer r.slot])) := rfl
  rw [step, bind_apply]
  rcases called with deep | ⟨e, t, full, burdened, refused⟩ | done
  · left
    generalize call run 1 0 _ = ended at deep
    obtain ⟨result, v⟩ := ended
    dsimp only at deep
    subst deep
    rfl
  · rw [refused]
    exact .inr (.inl ⟨e, t, full, burdened, rfl⟩)
  · rw [done, withScript_finalized]
    refine .inr (.inr ?_)
    have script : w.outer.script = (w.outer.finalized r).script := (script_finalized ..).symm
    change (Except.ok (w.outer.script.takeFrom w.outer.script.stack.size).1,
      withScript { w with outer := w.outer.finalized r }
        (w.outer.script.takeFrom w.outer.script.stack.size).2) = _
    rw [takeFrom_size, script]
    rfl

/-- Only what runs the function itself matters for a call of a function. -/
theorem callFunction_congr (same : run f = run' f) (arguments : List Value) (wanted : Int) :
    callFunction run f arguments wanted = callFunction run' f arguments wanted := by
  funext w
  have entered : ∀ pos, enter run pos f wanted = enter run' pos f wanted := fun pos => by
    unfold enter
    rw [same]
  have called : ∀ u : World Engine,
      u.outer.script = w.outer.script.pushAll (.function f :: arguments) →
        call run arguments.length wanted u = call run' arguments.length wanted u := by
    intro u scripts
    have callee : u.outer.script.stack.getD (u.outer.script.stack.size - arguments.length - 1) .nil
        = .function f := by
      have place : u.outer.script.stack.size - arguments.length - 1 =
          w.outer.script.stack.size := by
        rw [scripts, size_pushAll, List.length_cons]
        omega
      rw [place, scripts]
      simp [Script.State.pushAll]
    unfold call
    rw [script_bind_apply, script_bind_apply]
    split
    · rfl
    · dsimp only
      rw [callee]
      dsimp only
      rw [entered]
  unfold callFunction
  rw [script_bind_apply, script_bind_apply]
  change (call run arguments.length wanted >>= _) _ = (call run' arguments.length wanted >>= _) _
  rw [bind_apply, bind_apply, called _ rfl]

/-- Finalizing what is left of a wrapper of the bridge. -/
theorem finalize_apply (agrees : Agrees run run')
    (finalizes : w.outer.fixtures.Finalizes type r.behaviour) :
    (finalize run r w).1 = .error .exhausted ∨
      (∃ entry, (w.outer.script.Fits → Full w.outer.script) ∧ finalize run r w = (.ok (),
        { w with
          journal := w.journal.push entry
          outer := { w.outer with ledger := .refused r.slot :: w.outer.ledger } })) ∨
      finalize run r w = (.ok (), { w with outer := w.outer.finalized r }) := by
  obtain ⟨b, f, there, gc, body⟩ := finalizes
  have found : w.outer.script.behaviours[r.behaviour]?.bind (·.gc) = some f := by
    change w.outer.script.behaviours[r.behaviour]? = some b at there
    rw [there]
    exact gc
  unfold finalize
  rw [script_bind_apply, found]
  dsimp only
  rw [bind_apply, outcome_apply]
  dsimp only
  rcases callFunction_finalizer (w := w) (r := r) agrees body with
    deep | ⟨e, t, full, burdened, refused⟩ | done
  · left
    generalize callFunction run f [.pointer r.slot] 0 w = ended at deep
    obtain ⟨result, v⟩ := ended
    dsimp only at deep
    subst deep
    rfl
  · right
    left
    rw [refused]
    refine ⟨.log .error ("finalizer for slot 0x" ++ Text.hexDigits r.slot.toNat ++ " failed: " ++
      e.message), full, ?_⟩
    dsimp only
    rw [bind_apply]
    change (cutStack w.outer.script.stack.size : Run Script.Error Unit) _ = _
    rw [Burdened.cutStack (by exact burdened)]
    rfl
  · right
    right
    rw [done]
    dsimp only
    rw [(show Burdened f r.slot w.outer.script _ from .inl (script_finalized ..)).cutStack]
    refine Prod.ext rfl ?_
    rw [← script_finalized w.outer r]
    rfl

theorem finalize_congr (agrees : Agrees run run')
    (finalizes : w.outer.fixtures.Finalizes type r.behaviour) :
    finalize run r w = finalize run' r w := by
  obtain ⟨b, f, there, gc, body⟩ := finalizes
  have found : w.outer.script.behaviours[r.behaviour]?.bind (·.gc) = some f := by
    change w.outer.script.behaviours[r.behaviour]? = some b at there
    rw [there]
    exact gc
  have same : run f = run' f := funext fun w => (agrees.finalizer f type body w).1
  unfold finalize
  rw [script_bind_apply, script_bind_apply, found]
  dsimp only
  rw [callFunction_congr same]

/-! ## Collecting -/

/-- Finalizing in a world of which little is known. -/
theorem balances_finalize_irregular (agrees : Agrees run run') (balanced : Balanced [] w)
    (irregular : ¬ w.outer.Regular) :
    Balances w (finalize run r) (finalize run' r) fun _ => Balanced [] := by
  unfold finalize
  refine .script ?_
  cases w.outer.script.behaviours[r.behaviour]?.bind (·.gc) with
  | none => exact .pure balanced
  | some f =>
    dsimp only
    have waiting : Balanced [.function f, .pointer r.slot] w := Sound.irregular balanced irregular
    have called := balances_callFunction agrees waiting 0
    refine called.attempt (fun results v passes given => ?_) (fun e v passes given => ?_) ?_ rfl rfl
    · have rest : Balanced [] v := given.1.irregular fun later => irregular (passes.regular later)
      exact balances_cutStack rest _
    · have before : ¬ v.outer.Regular := fun later => irregular (passes.regular later)
      have noted := Passes.note v (.refused r.slot)
      refine .after rfl noted (Balances.bind (P := fun _ => Balanced []) (.report _ ?_) ?_)
      · exact ⟨given.typed, given.names, given.entries, given.globals, given.bindings, given.classes,
          given.furnished, fun later => (before (noted.regular later)).elim⟩
      · exact fun _ u _ given => balances_cutStack given _
    · exact fun message v _ given => .breakOff given message

theorem balances_finalize (agrees : Agrees run run') {queue : List Remains}
    (sound : Sound (r :: queue) [] w.host w.outer) :
    Balances w (finalize run r) (finalize run' r) fun _ v => Sound queue [] v.host v.outer := by
  by_cases regular : w.outer.Regular
  · have custody := sound.custody regular
    obtain ⟨type, ⟨keys, exposed, same⟩, _⟩ := custody.queued r List.mem_cons_self
    have finalizes := (custody.fair.finalizes type keys exposed).1
    rw [← same] at finalizes
    refine ⟨finalize_congr agrees finalizes, ?_⟩
    rcases finalize_apply agrees finalizes with deep | ⟨entry, _, refused⟩ | done
    · rw [deep]
      trivial
    · rw [refused]
      refine ⟨⟨rfl, .refl, (Passes.note w (.refused r.slot)).regular⟩, ?_⟩
      refine ⟨sound.typed, sound.names, sound.entries, sound.globals, sound.bindings, sound.classes,
        sound.furnished, fun later => (later.finalized r.slot List.mem_cons_self).elim⟩
    · rw [done]
      exact ⟨⟨held_finalized .., .refl, Engine.Regular.of_finalized⟩, sound.finalized⟩
  · refine (balances_finalize_irregular agrees (sound.irregular regular) regular).weaken ?_
    exact fun _ v passes given => Sound.irregular given fun later => regular (passes.regular later)

/-- Finalizing the first of what waits, in order. -/
theorem balances_finalizeAll (agrees : Agrees run run') {remains rest : List Remains}
    (sound : Sound (remains ++ rest) [] w.host w.outer) :
    Balances w (remains.forM (finalize run)) (remains.forM (finalize run'))
      fun _ v => Sound rest [] v.host v.outer := by
  induction remains generalizing w with
  | nil => exact .pure sound
  | cons r others ih => exact (balances_finalize agrees sound).bind fun _ _ _ given => ih given

theorem balances_collect (agrees : Agrees run run') (balanced : Balanced [] w)
    (rounds finalized : Nat) :
    Balances w (collect run rounds finalized) (collect run' rounds finalized)
      fun _ => Balanced [] := by
  induction rounds generalizing w finalized with
  | zero => exact .exhausted
  | succ rounds ih =>
    refine .script ?_
    dsimp only
    split
    · exact .pure balanced
    · refine .afterScript
        (Balances.bind (P := fun _ => Balanced []) ?_ fun _ _ _ given => ih given _)
      obtain ⟨remains, there⟩ : ∃ remains, w.outer.script.graveyard = ⟨remains⟩ := ⟨_, rfl⟩
      rw [there, List.forM_toArray' remains _ rfl, List.forM_toArray' remains _ rfl]
      have emptied := balanced.emptied
      rw [there] at emptied
      exact balances_finalizeAll agrees (by rwa [List.append_nil])

end

end Run

end ScriptHost

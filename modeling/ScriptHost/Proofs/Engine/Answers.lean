import ScriptHost.Proofs.Engine.Patches
/-!
What asking a patch comes to: it takes the place of the method, or it declines and leaves what the
method needs as it was.
-/
namespace ScriptHost.Run

open Host (ObjectRef PatchRequest World)
open Script (FunctionRef Value)

variable {ε α : Type} {hidden : Nat → Prop} {run : Runner} {w : World Engine} {r : PatchRequest}

/-! ## Questions without consequences -/

/-- A question that is orderly unless it is answered with yes. -/
def Refrains (hidden : Nat → Prop) (m : Run ε Bool) : Prop :=
  ∀ w, Proper hidden w → (m w).1 ≠ .ok true → Leads hidden .still (broke (m w).1) w (m w).2

namespace Refrains

theorem bind {P : α → Prop} {m : Run ε α} {f : α → Run ε Bool}
    (first : Orderly hidden .still P m) (second : ∀ a, P a → Refrains hidden (f a)) :
    Refrains hidden (m >>= f) := by
  intro w proper notYes
  obtain ⟨leads, given⟩ := first w proper
  rw [bind_apply] at notYes ⊢
  cases result : m w with
  | mk outcome v =>
    rw [result] at leads given notYes
    cases outcome with
    | error stop => cases stop <;> exact leads
    | ok a => exact leads.trans proper (second a (given a rfl) v (leads.proper proper) notYes)

theorem holding {m : Run ε Bool} (refrains : Refrains hidden m) (values : List Value)
    (inUse : Bool → List Value) : Refrains hidden (holding values inUse m) := by
  intro w proper notYes
  rw [holding_fst] at notYes
  exact leads_holding inUse (refrains _ (proper_keeping proper values) notYes)

theorem guarded {m : Run ε Bool} (refrains : Refrains hidden m) :
    Refrains hidden (guarded m) := by
  intro w proper notYes
  rw [guarded_fst] at notYes
  exact leads_guarded proper (refrains w proper notYes)

end Refrains

/-! ## Taking over what a patch gave -/

/-- A host with some values stored into the slots of an object. -/
def storeAll (ref : ObjectRef) (staged : List (Nat × Host.Value)) (s : Host.State) : Host.State :=
  staged.foldl (fun s entry => (s.setSlot ref entry.1 entry.2).2) s

/-- Storing always succeeds. -/
theorem store_apply (ref : ObjectRef) (staged : List (Nat × Host.Value)) (w : World Engine) :
    (staged.forM fun (slot, v) => do
      let _ ← onHost (·.setSlot ref slot v) : Run ε Unit) w =
      (.ok (), { w with host := storeAll ref staged w.host }) := by
  induction staged generalizing w with
  | nil => rfl
  | cons entry rest ih =>
    rw [List.forM, bind_apply]
    exact ih { w with host := (w.host.setSlot ref entry.1 entry.2).2 }

/-- What is accepted has been converted before anything is stored. -/
theorem accept_apply (r : PatchRequest) (results : List Value) (w : World Engine) :
    accept r results w =
      if (results.headD .nil).truthy then
        match stage (patchedSlots r) results.tail w with
        | (.ok staged, v) => (.ok true, { v with host := storeAll r.carrier staged v.host })
        | (.error stop, v) => (.error stop, v)
      else (.ok false, w) := by
  unfold accept
  split
  · rw [bind_apply]
    cases stage (patchedSlots r) results.tail w with
    | mk outcome v =>
      cases outcome with
      | error stop => rfl
      | ok staged =>
        dsimp only
        rw [bind_apply, store_apply]
        rfl
  · rfl

theorem refrains_accept (r : PatchRequest) (results : List Value) :
    Refrains hidden (accept r results) := by
  intro w proper notYes
  obtain ⟨leads, _⟩ := orderly_stage (patchedSlots r) results.tail w proper
  rw [accept_apply] at notYes ⊢
  split
  · rename_i truthy
    rw [if_pos truthy] at notYes
    cases staged : stage (patchedSlots r) results.tail w with
    | mk outcome v =>
      rw [staged] at leads notYes
      cases outcome with
      | ok values => exact absurd rfl notYes
      | error stop => cases stop <;> exact leads
  · exact proper.leads

theorem refrains_runPatch (orderly : OrderlyRunner hidden run) (f : FunctionRef)
    (target : ∀ ref, r.target = some ref → ref.Open hidden) :
    Refrains hidden (runPatch run f r) := by
  refine .bind (orderly_patchArguments target) fun arguments _ => .holding ?_ _ _
  refine .bind ((orderly_callValue orderly _ _).mapError _) fun results _ => ?_
  exact (refrains_accept r results).holding _ _

/-! ## Asking -/

theorem bridge_bind_apply (f : Bridge.State → Run ε α) (w : World Engine) :
    (bridge >>= f) w = f w.outer.bridge w := rfl

/-- What a patch that is there answers. -/
theorem dispatchPatch_apply {f : FunctionRef}
    (found : w.outer.bridge.patches.find? r.signature = some f) :
    dispatchPatch run r w =
      match guarded (runPatch run f r) w with
      | (.ok replaced, v) => (.ok replaced, v)
      | (.error (.failed e), v) => (.ok false, { v with journal := v.journal.push (.log .error
          ((Bridge.Error.patchFailed r.signature e.message).message ++ "\n" ++ tracebackOf e)) })
      | (.error (.panicked message), v) => (.error (.panicked message), v)
      | (.error .exhausted, v) => (.error .exhausted, v) := by
  unfold dispatchPatch
  rw [bridge_bind_apply, found]
  dsimp only
  rw [bind_apply, outcome_apply]
  cases guarded (runPatch run f r) w with
  | mk outcome v =>
    cases outcome with
    | ok replaced => rfl
    | error stop => cases stop <;> rfl

theorem dispatchPatch_absent (absent : w.outer.bridge.patches.find? r.signature = none) :
    dispatchPatch run r w = (.ok false, w) := by
  unfold dispatchPatch
  rw [bridge_bind_apply, absent]
  rfl

theorem refrains_dispatchPatch (orderly : OrderlyRunner hidden run)
    (target : ∀ ref, r.target = some ref → ref.Open hidden) :
    Refrains hidden (dispatchPatch run r) := by
  intro w proper notYes
  cases found : w.outer.bridge.patches.find? r.signature with
  | none =>
    rw [dispatchPatch_absent found]
    exact proper.leads
  | some f =>
    have asked := (refrains_runPatch orderly f target).guarded w proper
    rw [dispatchPatch_apply found] at notYes ⊢
    cases result : (runPatch run f r).guarded w with
    | mk outcome v =>
      rw [result] at asked notYes
      cases outcome with
      | ok replaced => exact asked notYes
      | error stop =>
        have leads := asked fun same => (nomatch same)
        cases stop with
        | failed e => exact ⟨leads.host, leads.engine, leads.script, leads.posts⟩
        | panicked message => exact leads
        | exhausted => exact leads

/-! ## What keeps a patch from breaking off -/

/-- A computation that never breaks off with a message. -/
def Calm (m : Run ε α) : Prop :=
  ∀ w message, (m w).1 ≠ .error (.panicked message)

namespace Calm

variable {β δ : Type} {m : Run ε α}

theorem pure (a : α) : Calm (pure a : Run ε α) :=
  fun _ _ same => (nomatch same)

theorem fail (e : ε) : Calm (fail e : Run ε α) :=
  fun _ _ same => (nomatch same)

theorem ofExcept (r : Except ε α) : Calm (ofExcept r) := by
  cases r with
  | ok a => exact .pure a
  | error e => exact .fail e

theorem bind {f : α → Run ε β} (first : Calm m) (second : ∀ a, Calm (f a)) : Calm (m >>= f) := by
  intro w message
  rw [bind_apply]
  cases result : m w with
  | mk outcome v =>
    cases outcome with
    | ok a => exact second a v message
    | error stop =>
      have same := first w message
      rw [result] at same
      intro stopped
      cases stopped
      exact same rfl

theorem mapError (calm : Calm m) (f : ε → δ) : Calm (m.mapError f) := by
  intro w message
  rw [mapError_apply]
  have same := calm w message
  cases result : (m w).1 with
  | ok a => exact fun stopped => (nomatch stopped)
  | error stop =>
    rw [result] at same
    cases stop with
    | panicked other =>
      intro stopped
      cases stopped
      exact same rfl
    | failed e => exact fun stopped => (nomatch stopped)
    | exhausted => exact fun stopped => (nomatch stopped)

theorem holding (calm : Calm m) (values : List Value) (inUse : α → List Value) :
    Calm (holding values inUse m) := by
  intro w message
  rw [holding_fst]
  exact calm _ message

theorem guarded (calm : Calm m) : Calm (guarded m) := by
  intro w message
  rw [guarded_fst]
  exact calm w message

theorem mapM {f : α → Run ε β} (each : ∀ a, Calm (f a)) (as : List α) : Calm (as.mapM f) := by
  induction as with
  | nil => exact .pure []
  | cons a rest ih =>
    rw [List.mapM_cons]
    exact (each a).bind fun _ => ih.bind fun _ => .pure _

theorem foldlM {f : β → α → Run ε β} (each : ∀ b a, Calm (f b a)) (as : List α) (b : β) :
    Calm (as.foldlM f b) := by
  induction as generalizing b with
  | nil => exact .pure b
  | cons a rest ih => exact (each b a).bind ih

theorem host : Calm (host : Run ε Host.State) :=
  fun _ _ same => (nomatch same)

theorem domain : Calm (domain : Run ε Host.Domain) :=
  fun _ _ same => (nomatch same)

theorem bridge : Calm (bridge : Run ε Bridge.State) :=
  fun _ _ same => (nomatch same)

theorem modifyBridge (f : Bridge.State → Bridge.State) : Calm (modifyBridge f : Run ε Unit) :=
  fun _ _ same => (nomatch same)

theorem onScript (f : Script.State → α × Script.State) : Calm (onScript f : Run ε α) :=
  fun _ _ same => (nomatch same)

theorem onHost (f : Host.State → α × Host.State) : Calm (onHost f : Run ε α) :=
  fun _ _ same => (nomatch same)

end Calm

theorem calm_typeInfo (type : Host.TypeId) : Calm (typeInfo type) := by
  refine Calm.domain.bind fun d => ?_
  split
  · exact .pure _
  · exact .fail _

theorem calm_registerType (type : Host.TypeId) : Calm (registerType type) := by
  have part : ∀ b p, Calm (addTypeFunction type b p : Run Bridge.Error _) := fun b p =>
    (Calm.onScript _).bind fun _ => .pure _
  refine Calm.bridge.bind fun b => ?_
  split
  · exact .pure _
  · refine (calm_typeInfo type).bind fun info => ?_
    refine (Calm.foldlM part _ _).bind fun ofInstance => ?_
    refine (Calm.foldlM part _ _).bind fun ofClass => ?_
    refine (Calm.onScript _).bind fun instanceKey => (Calm.onScript _).bind fun classKey => ?_
    exact (Calm.modifyBridge _).bind fun _ => .pure _

theorem calm_copyIfStruct (ref : ObjectRef) : Calm (copyIfStruct ref : Run ε ObjectRef) := by
  refine Calm.domain.bind fun d => ?_
  split
  · split
    · exact .onHost _
    · exact .pure _
  · exact .pure _

theorem calm_toScript (v : Host.Value) : Calm (toScript v) := by
  cases v with
  | object ref =>
    refine (calm_copyIfStruct ref).bind fun copy => (calm_registerType _).bind fun keys => ?_
    refine Calm.bind (m := issue _) ?_ fun h => .onScript _
    exact Calm.bridge.bind fun b => (Calm.modifyBridge _).bind fun _ => .pure _
  | _ => exact .pure _

theorem calm_toHostSlot (v : Value) (type : Host.ValueType) (mode : Host.ParamMode) :
    Calm (toHostSlot v type mode) := by
  have plain : ∀ v, Calm (do ofExcept (plainToHost (← domain) v type)) := fun v =>
    Calm.domain.bind fun d => .ofExcept _
  unfold toHostSlot
  split
  · exact .pure _
  · cases v with
    | handle h =>
      refine Calm.bind (m := resolveHandle _) (fun _ message => ?_) fun referent => ?_
      · exact Calm.ofExcept _ _ message
      · cases referent with
        | type id => exact .fail _
        | object ref =>
          refine Calm.domain.bind fun d => ?_
          split
          · exact (calm_copyIfStruct ref).bind fun _ => .pure _
          · exact .fail _
    | _ => exact plain _

theorem calm_patchArguments (r : PatchRequest) : Calm (patchArguments r) :=
  Calm.host.bind fun _ => .mapM calm_toScript _

theorem calm_stage (slots : List (Nat × Host.ValueType)) (values : List Value) :
    Calm (stage slots values) := by
  induction slots generalizing values with
  | nil => exact .pure _
  | cons slot rest ih =>
    exact (calm_toHostSlot _ _ _).bind fun v => (ih values.tail).bind fun _ => .pure _

theorem calm_accept (r : PatchRequest) (results : List Value) : Calm (accept r results) := by
  intro w message
  have staged := calm_stage (patchedSlots r) results.tail w message
  rw [accept_apply]
  split
  · cases result : stage (patchedSlots r) results.tail w with
    | mk outcome v =>
      rw [result] at staged
      cases outcome with
      | ok values => exact fun same => (nomatch same)
      | error stop =>
        intro stopped
        cases stopped
        exact staged rfl
  · exact fun same => (nomatch same)

/-- A protected call never breaks off: what does becomes an error. -/
theorem calm_protectedCall (arguments : Nat) (wanted : Int) :
    Calm (protectedCall run arguments wanted) := by
  intro w message
  unfold protectedCall
  rw [script_bind_apply, bind_apply, outcome_apply]
  dsimp only
  cases (call run arguments wanted w).1 with
  | ok _ => exact fun same => (nomatch same)
  | error stop =>
    cases stop with
    | failed e => exact fun same => (nomatch same)
    | exhausted => exact fun same => (nomatch same)
    | panicked other =>
      generalize (call run arguments wanted w).2 = u
      dsimp only
      obtain ⟨s, cut, _⟩ := retouches_cutStack (ε := Script.Error)
        (w.outer.script.stack.size - (arguments + 1)) []
        (withScript u (u.outer.script.leaveTo w.outer.script.frames.length))
      rw [script_bind_apply, (Retouches.modifyScript _).andThen, cut.andThen]
      exact fun same => (nomatch same)

theorem calm_callValue (callee : Value) (arguments : List Value) :
    Calm (callValue run callee arguments) := by
  intro w message
  unfold callValue
  rw [script_bind_apply]
  have pushed : Calm (modifyScript (·.pushAll (callee :: arguments)) : Run Script.Error Unit) :=
    fun _ _ same => (nomatch same)
  refine (pushed.bind fun _ => ?_) w message
  exact (calm_protectedCall _ _).bind fun _ => .onScript _

theorem calm_runPatch (f : FunctionRef) (r : PatchRequest) : Calm (runPatch run f r) :=
  (calm_patchArguments r).bind fun _ => Calm.holding (((calm_callValue _ _).mapError _).bind
    fun results => (calm_accept r results).holding _ _) _ _

/-! ## Declining -/

/-- What a patch answers: its arguments are made, it is called, and what it gives is taken over. -/
theorem runPatch_fst (f : FunctionRef) (r : PatchRequest) (w : World Engine) :
    (runPatch run f r w).1 =
      match patchArguments r w with
      | (.error stop, _) => .error stop
      | (.ok arguments, v) =>
        match callValue run (.function f) arguments (keeping arguments v) with
        | (.error stop, _) => .error (stop.map .script)
        | (.ok results, u) => (accept r results (keeping results u)).1 := by
  unfold runPatch
  rw [bind_apply]
  cases patchArguments r w with
  | mk made v =>
    cases made with
    | error stop => rfl
    | ok arguments =>
      dsimp only
      rw [holding_fst, bind_apply, mapError_apply]
      cases callValue run (.function f) arguments (keeping arguments v) with
      | mk outcome u =>
        cases outcome with
        | error stop => rfl
        | ok results => exact holding_fst _ _ _ _

/-- What patches may do instead of taking the place of a method. A function that breaks off, or that
the limits of the scripts refuse, fails with an error. -/
inductive Declines (run : Runner) (r : PatchRequest) (w : World Engine) : Prop
  | absent (noPatch : w.outer.bridge.patches.find? r.signature = none)
  | unwrapped {f : FunctionRef} {e : Bridge.Error} {v : World Engine}
      (found : w.outer.bridge.patches.find? r.signature = some f)
      (given : patchArguments r w = (.error (.failed e), v))
  | failed {f : FunctionRef} {arguments : List Value} {e : Script.Error} {v u : World Engine}
      (found : w.outer.bridge.patches.find? r.signature = some f)
      (given : patchArguments r w = (.ok arguments, v))
      (called : callValue run (.function f) arguments (keeping arguments v) =
        (.error (.failed e), u))
  | refused {f : FunctionRef} {arguments results : List Value} {v u : World Engine}
      (found : w.outer.bridge.patches.find? r.signature = some f)
      (given : patchArguments r w = (.ok arguments, v))
      (called : callValue run (.function f) arguments (keeping arguments v) = (.ok results, u))
      (falsy : (results.headD .nil).truthy = false)
  | unconverted {f : FunctionRef} {arguments results : List Value} {e : Bridge.Error}
      {v u t : World Engine}
      (found : w.outer.bridge.patches.find? r.signature = some f)
      (given : patchArguments r w = (.ok arguments, v))
      (called : callValue run (.function f) arguments (keeping arguments v) = (.ok results, u))
      (truthy : (results.headD .nil).truthy = true)
      (staged : stage (patchedSlots r) results.tail (keeping results u) = (.error (.failed e), t))

/-- The answer of a patch that is there, by what running it comes to. -/
theorem dispatchPatch_fst {f : FunctionRef}
    (found : w.outer.bridge.patches.find? r.signature = some f) :
    (dispatchPatch run r w).1 =
      match (runPatch run f r w).1 with
      | .ok replaced => .ok replaced
      | .error (.failed _) => .ok false
      | .error stop => .error stop := by
  rw [dispatchPatch_apply found, ← guarded_fst (runPatch run f r) w]
  cases guarded (runPatch run f r) w with
  | mk outcome v =>
    cases outcome with
    | ok replaced => rfl
    | error stop => cases stop <;> rfl

/-- The answer of patches that decline is no. -/
theorem Declines.answer (declines : Declines run r w) : (dispatchPatch run r w).1 = .ok false := by
  cases declines with
  | absent noPatch => rw [dispatchPatch_absent noPatch]
  | unwrapped found given => rw [dispatchPatch_fst found, runPatch_fst, given]
  | failed found given called =>
    rw [dispatchPatch_fst found, runPatch_fst, given]
    dsimp only
    rw [called]
    rfl
  | refused found given called falsy =>
    rw [dispatchPatch_fst found, runPatch_fst, given]
    dsimp only
    rw [called]
    dsimp only
    rw [accept_apply, falsy]
    rfl
  | unconverted found given called truthy staged =>
    rw [dispatchPatch_fst found, runPatch_fst, given]
    dsimp only
    rw [called]
    dsimp only
    rw [accept_apply, if_pos truthy, staged]

/-- Patches decline or take the place of the method, unless calls are nested too deeply. -/
theorem declines_or_accepts (run : Runner) (r : PatchRequest) (w : World Engine) :
    Declines run r w ∨ (dispatchPatch run r w).1 = .ok true ∨
      (dispatchPatch run r w).1 = .error .exhausted := by
  cases found : w.outer.bridge.patches.find? r.signature with
  | none => exact .inl (.absent found)
  | some f =>
    have calm : ∀ message, (runPatch run f r w).1 ≠ .error (.panicked message) :=
      calm_runPatch f r w
    rw [dispatchPatch_fst found, runPatch_fst] at *
    cases given : patchArguments r w with
    | mk made v =>
      rw [given] at calm
      cases made with
      | error stop =>
        cases stop with
        | failed e => exact .inl (.unwrapped found given)
        | panicked message => exact absurd rfl (calm message)
        | exhausted => exact .inr (.inr rfl)
      | ok arguments =>
        dsimp only at calm ⊢
        cases called : callValue run (.function f) arguments (keeping arguments v) with
        | mk outcome u =>
          rw [called] at calm
          cases outcome with
          | error stop =>
            cases stop with
            | failed e => exact .inl (.failed found given called)
            | panicked message => exact absurd rfl (calm message)
            | exhausted => exact .inr (.inr rfl)
          | ok results =>
            dsimp only at calm ⊢
            rw [accept_apply] at *
            split at calm
            · rename_i truthy
              rw [if_pos truthy]
              cases staged : stage (patchedSlots r) results.tail (keeping results u) with
              | mk outcome t =>
                rw [staged] at calm
                cases outcome with
                | ok values => exact .inr (.inl rfl)
                | error stop =>
                  cases stop with
                  | failed e => exact .inl (.unconverted found given called truthy staged)
                  | panicked message => exact absurd rfl (calm message)
                  | exhausted => exact .inr (.inr rfl)
            · rename_i falsy
              exact .inl (.refused found given called (eq_false_of_ne_true falsy))

end ScriptHost.Run

import ScriptHost.Proofs.Host.Calls
import ScriptHost.Proofs.Host.HostM
/-!
Faults: the exceptions that tell of a body that was not checked. Nothing outside such bodies raises
one.
-/
namespace ScriptHost.Host

variable {α β ε : Type}

/-- The exceptions that checked bodies never raise. -/
def HostException.isFault : HostException → Bool
  | .stackUnderflow | .noSlot _ | .noReceiver | .unknownToken _ | .argumentCount .. | .ranOffEnd _ =>
    true
  | _ => false

theorem Value.isFault_of_toObject {v : Value} {e : HostException} (raised : v.toObject = .error e) :
    e.isFault = false := by
  cases v <;> cases raised <;> rfl

theorem Value.isFault_of_toIndex {v : Value} {e : HostException} (raised : v.toIndex = .error e) :
    e.isFault = false := by
  unfold toIndex at raised
  cases index : v.asNat? with
  | none =>
    rw [index] at raised
    cases raised
    rfl
  | some i =>
    rw [index] at raised
    cases raised

theorem ArithOp.isFault_of_apply {op : ArithOp} {x y : Value} {e : HostException}
    (raised : op.apply x y = .error e) : e.isFault = false := by
  unfold apply at raised
  dsimp only at raised
  split at raised
  · cases raised
  · split at raised
    · split at raised <;> cases raised
      rfl
    · split at raised
      · cases raised
      · split at raised <;> cases raised
        rfl

/-! ## Computations on the host -/

/-- A computation that raises no fault. -/
def HostM.NoFault (m : HostM α) : Prop :=
  ∀ (s : State) (e : HostException), (m s).1 = .error e → e.isFault = false

namespace HostM.NoFault

theorem pure (a : α) : HostM.NoFault (pure a : HostM α) := fun _ _ raised => nomatch raised

theorem throw {e : HostException} (noFault : e.isFault = false) :
    HostM.NoFault (throw e : HostM α) := fun _ _ raised => by
  cases raised
  exact noFault

theorem lift {r : Except HostException α} (noFault : ∀ e, r = .error e → e.isFault = false) :
    HostM.NoFault (liftM r : HostM α) := fun _ e raised => noFault e raised

theorem get : HostM.NoFault (get : HostM State) := fun _ _ raised => nomatch raised

theorem modifyGet (f : State → α × State) : HostM.NoFault (modifyGet f : HostM α) :=
  fun _ _ raised => nomatch raised

theorem bind {m : HostM α} {f : α → HostM β} (first : HostM.NoFault m)
    (second : ∀ a, HostM.NoFault (f a)) : HostM.NoFault (m >>= f) := by
  intro s e raised
  rw [HostM.bind_apply] at raised
  cases result : m s with
  | mk outcome t =>
    rw [result] at raised
    cases outcome with
    | error cause =>
      have same : cause = e := Except.error.inj raised
      exact first s e (by rw [result, same])
    | ok a => exact second a t e raised

theorem discard {m : HostM α} (noFault : HostM.NoFault m) : HostM.NoFault (discard m) :=
  noFault.bind fun _ => pure _

end HostM.NoFault

theorem NativeFrame.isFault_of_integer {f : NativeFrame} {i : Nat} {e : HostException}
    (raised : f.integer i = .error e) : e.isFault = false := by
  unfold integer at raised
  split at raised <;> cases raised
  rfl

theorem NativeFrame.isFault_of_setArg {f : NativeFrame} {i : Nat} {v : Value} {e : HostException}
    (raised : f.setArg i v = .error e) : e.isFault = false := by
  unfold setArg at raised
  split at raised <;> cases raised
  rfl

theorem isFault_of_requireThis {method : Method} {this : Option ObjectRef} {e : HostException}
    (raised : requireThis method this = .error e) : e.isFault = false := by
  unfold requireThis at raised
  split at raised <;> cases raised
  rfl

/-- Carrying out an action of a method that is not made of instructions. -/
theorem noFault_perform (method : Method) (this : Option ObjectRef) (f : NativeFrame)
    (action : NativeAction) : HostM.NoFault (action.perform method this f) := by
  cases action <;> simp only [NativeAction.perform]
  all_goals
    repeat' first
      | with_reducible exact .pure _
      | with_reducible exact .throw rfl
      | with_reducible exact .lift fun _ => NativeFrame.isFault_of_integer
      | with_reducible exact .lift fun _ => NativeFrame.isFault_of_setArg
      | with_reducible exact .lift fun _ => isFault_of_requireThis
      | with_reducible exact .get
      | with_reducible exact .modifyGet _
      | with_reducible refine .bind ?_ fun _ => ?_
      | with_reducible refine .discard ?_
      | split

/-- Making the object that a method runs on. -/
theorem noFault_receiver (method : Method) (this : Option ObjectRef) :
    HostM.NoFault (receiver method this) := by
  have made : HostM.NoFault (fun s => pure (s.instantiate method.declaring)) := by
    intro s e raised
    change (s.instantiate method.declaring).1 = .error e at raised
    unfold State.instantiate at raised
    cases found : s.domain.get? method.declaring with
    | none =>
      rw [found] at raised
      cases raised
      rfl
    | some info =>
      rw [found] at raised
      dsimp only at raised
      split at raised
      · cases raised
        rfl
      · cases raised
  unfold receiver
  cases method.kind with
  | constructor => exact made.bind fun _ => .pure _
  | ofInstance => cases this with
    | none => exact .throw rfl
    | some ref => exact .pure _
  | static => exact .pure _

/-! ## Calls -/

/-- An ending that is no fault. -/
def Ending.NoFault (ending : Ending) : Prop :=
  ∀ e, ending = .threw e → e.isFault = false

theorem Ending.noFault_returned (v : Value) : Ending.NoFault (.returned v) :=
  fun _ threw => nomatch threw

theorem Ending.noFault_interrupted (i : Interrupt) : Ending.NoFault (.interrupted i) :=
  fun _ threw => nomatch threw

theorem Ending.noFault_threw {e : HostException} (noFault : e.isFault = false) :
    Ending.NoFault (.threw e) := fun _ threw => by
  cases threw
  exact noFault

theorem noFault_ofAnswer (answer : Except Interrupt Bool) : (Ending.ofAnswer answer).NoFault := by
  cases answer with
  | ok replaced => exact Ending.noFault_returned _
  | error i => exact Ending.noFault_interrupted i

/-- A method of actions. -/
theorem noFault_runNative (method : Method) (this : Option ObjectRef)
    (actions : List NativeAction) (f : NativeFrame) (w : World ε) :
    (runNative method this actions f w).1.ending.NoFault := by
  induction actions generalizing f w with
  | nil => exact Ending.noFault_returned _
  | cons action rest ih =>
    have performed := noFault_perform method this f action w.host
    cases action with
    | trace message => exact ih f _
    | panic message => exact Ending.noFault_interrupted _
    | _ =>
      rw [runNative_cons (by simp) (by simp), World.onHost_apply]
      revert performed
      generalize NativeAction.perform _ _ _ _ w.host = result
      obtain ⟨outcome, after⟩ := result
      intro performed
      cases outcome with
      | ok g => exact ih g _
      | error e => exact Ending.noFault_threw (performed e rfl)

/-- Reading the arguments of the patch hub. -/
theorem isFault_of_ofArgs {args : Array Value} {e : HostException}
    (raised : HubQuery.ofArgs args = .error e) : e.isFault = false := by
  unfold HubQuery.ofArgs at raised
  split at raised
  · rename_i signature token target carrier _
    cases text : signature.asBytes? with
    | none =>
      rw [text] at raised
      cases raised
      rfl
    | some bytes =>
      rw [text] at raised
      simp only [Option.elim, bind, Except.bind, pure, Except.pure, throw, throwThe,
        MonadExceptOf.throw] at raised
      cases number : token.asNat? with
      | none =>
        rw [number] at raised
        cases raised
        rfl
      | some t =>
        rw [number] at raised
        dsimp only at raised
        by_cases small : t < 0x100000000
        · rw [if_pos small] at raised
          cases object : carrier.asObject? with
          | none =>
            rw [object] at raised
            cases raised
            rfl
          | some ref =>
            rw [object] at raised
            cases raised
        · rw [if_neg small] at raised
          cases raised
          rfl
  · cases raised
    rfl

/-- Consulting the patches. -/
theorem noFault_consultPatches (ctx : Context ε) (args : Array Value) (w : World ε) :
    (consultPatches ctx args w).1.NoFault := by
  cases read : HubQuery.ofArgs args with
  | error e =>
    rw [consultPatches_error read]
    exact Ending.noFault_threw (isFault_of_ofArgs read)
  | ok query =>
    cases known : w.host.domain.method? query.token with
    | none =>
      rw [consultPatches_unknown read known]
      exact Ending.noFault_returned _
    | some method =>
      by_cases fits : w.host.heap.size query.carrier = method.params.length + 1
      · rw [consultPatches_asked read known fits]
        exact noFault_ofAnswer _
      · rw [consultPatches_size read known fits]
        exact Ending.noFault_threw rfl

/-- A call that ends as its method does. -/
theorem noFault_ofCall {method : Method} {this : Option ObjectRef} {c : Completion}
    (noFault : c.ending.NoFault) : (c.ofCall method this).ending.NoFault :=
  fun e threw => noFault e (Completion.threw_ofCall.1 threw)

end ScriptHost.Host

import ScriptHost.Proofs.Engine.Patches
import ScriptHost.Proofs.Handles.Calls
import ScriptHost.Proofs.Handles.Values
/-!
Calls of methods of the host keep a world balanced if the patches do that they consult. Patches, and
calls from scripts into the host, keep it balanced if the functions do that they run.
-/
namespace ScriptHost

open Host (AllWithin Completion Conduct Context Method ObjectRef PatchRequest TypeId World)
open Script (FunctionRef Value)

variable {ε α : Type} {w v : World Engine}

/-! ## Calls of the host -/

/-- A completion whose objects are of the first `n` types. -/
structure Host.Completion.Within (n : Nat) (c : Completion) : Prop where
  args : AllWithin n c.args.toList
  value : ∀ v, c.ending = .returned v → v.Within n

/-- What a call that kept a world balanced ends with. -/
def CallEnds (w : World Engine) (c : Completion) (v : World Engine) : Prop :=
  c.ending = .interrupted .exhausted ∨ (Passes w v ∧ Balanced [] v ∧ c.Within v.host.types)

/-- Two calls do the same on a world, and they keep it balanced. -/
def CallBalances (w : World Engine) (m m' : StateM (World Engine) Completion) : Prop :=
  m w = m' w ∧ CallEnds w (m w).1 (m w).2

/-- A question about a method that is not about an object of an unknown type. -/
def Host.PatchRequest.Within (n : Nat) (r : PatchRequest) : Prop :=
  ∀ ref, r.target = some ref → (Host.Value.object ref).Within n

/-- Patches that give the same answers, and keep a world balanced. -/
structure AlikeAnswers (ctx ctx' : Context Engine) : Prop where
  stepLimit : ctx.stepLimit = ctx'.stepLimit
  dispatch : ∀ (r : PatchRequest) (w : World Engine), r.Within w.host.types → Balanced [] w →
    ctx.dispatch r w = ctx'.dispatch r w ∧
      ((ctx.dispatch r w).1 = .error .exhausted ∨
        (Passes w (ctx.dispatch r w).2 ∧ Balanced [] (ctx.dispatch r w).2))

/-- Calls that keep a world balanced, unless levels run out. -/
def balancedCalls : Conduct Engine where
  toRegime := .typed
  Fits := Balanced []
  Becomes := fun _ w v => Passes w v ∧ Balanced [] v
  Excuses := (· = .exhausted)
  host := Sound.typed
  fits := fun _ => And.right
  leads := fun ⟨passes, balanced⟩ => ⟨passes.types, balanced.typed⟩
  stay := fun _ balanced => ⟨.refl _, balanced⟩
  rehost := fun balanced types => ⟨.rehost types, Sound.rehost balanced types⟩
  since := fun _ first second => ⟨first.1.trans second.1, second.2⟩
  aside := fun _ _ => id
  surface := fun _ _ ⟨passes, balanced⟩ => ⟨⟨passes.held, passes.types, passes.regular⟩, balanced⟩

/-- Calling a method, at whatever depth. -/
theorem balances_invoke {ctx ctx' : Context Engine} (answers : AlikeAnswers ctx ctx') (depth : Nat)
    (method : Method) (this : Option ObjectRef) (args : Array Host.Value) (balanced : Balanced [] w)
    (target : ∀ ref, this = some ref → (Host.Value.object ref).Within w.host.types)
    (known : AllWithin w.host.types args.toList) :
    CallBalances w (Host.invoke ctx depth method this args)
      (Host.invoke ctx' depth method this args) := by
  have allows : balancedCalls.Allows .same ctx ctx' := by
    refine ⟨answers.stepLimit.symm, fun r w v beside balanced target _ => ?_⟩
    cases beside
    obtain ⟨same, ends⟩ := answers.dispatch r w target balanced
    rw [← same]
    exact ⟨rfl, rfl, ends.imp_left fun deep => ⟨_, deep, rfl⟩⟩
  obtain ⟨same, beside, ends⟩ :=
    Conduct.covers_invoke allows depth method this args rfl balanced target known
  refine ⟨(Prod.ext same beside).symm, ?_⟩
  cases ends with
  | excused interrupted excuses => exact .inl (excuses ▸ interrupted)
  | told becomes holds => exact .inr ⟨becomes.1, becomes.2, holds.args, holds.value⟩

namespace Run

variable {run run' : Runner}

/-! ## Computations -/

/-- The stack is cut back at the end of a computation, whatever the end. -/
theorem balances_guarded {m m' : Run ε α}
    (inner : Balances w m m' fun _ => Balanced []) :
    Balances w (guarded m) (guarded m') fun _ => Balanced [] := by
  obtain ⟨same, ends⟩ := inner
  unfold Balances guarded
  rw [script_bind_apply, script_bind_apply, bind_apply, bind_apply, outcome_apply, outcome_apply,
    ← same]
  refine ⟨rfl, ?_⟩
  dsimp only
  have cut : ∀ {u : World Engine} {r : Except (Stop ε) α}, Passes w u → Balanced [] u →
      (∀ x, Balanced [] x → Ends x (fun _ => Balanced []) r x) →
      Ends w (fun _ => Balanced [])
        ((truncate w.outer.script.stack.size >>= fun _ => guarded.ofResult r : Run ε α) u).1
        ((truncate w.outer.script.stack.size >>= fun _ => guarded.ofResult r : Run ε α) u).2 := by
    intro u r passes balanced rest
    have truncated := balances_truncate (ε := ε) balanced w.outer.script.stack.size
    refine (Balances.bind (f := fun _ => guarded.ofResult r) (g := fun _ => guarded.ofResult r)
      truncated fun _ x _ given => ?_).2.since passes
    have ended : (guarded.ofResult r : Run ε α) x = (r, x) := by
      cases r <;> rfl
    refine ⟨rfl, ?_⟩
    rw [ended]
    exact rest x given
  generalize m w = ended at ends
  match ended, ends with
  | (.ok a, u), ⟨passes, given⟩ =>
    exact cut passes given fun x balanced => ⟨.refl x, balanced⟩
  | (.error (.failed e), u), ⟨passes, given⟩ =>
    exact cut passes given fun x balanced => ⟨.refl x, balanced⟩
  | (.error (.panicked message), u), ⟨passes, given⟩ =>
    exact cut passes given fun x balanced => ⟨.refl x, balanced⟩
  | (.error .exhausted, u), _ =>
    obtain ⟨_, truncated, _⟩ := retouches_truncate (ε := ε) w.outer.script.stack.size u
    rw [truncated.andThen]
    trivial

/-! ## Patches -/

theorem balances_patchArguments {r : PatchRequest} (balanced : Balanced [] w)
    (known : r.Within w.host.types) :
    Balances w (patchArguments r) (patchArguments r) Balanced := by
  refine .host (balances_mapM_toScript balanced fun u member => ?_)
  rcases List.mem_append.1 member with target | passed
  · obtain ⟨ref, same, rfl⟩ : ∃ ref, r.target = some ref ∧ Host.Value.object ref = u := by
      simpa using target
    exact known ref same
  · obtain ⟨⟨p, i⟩, _, same⟩ := List.mem_filterMap.1 passed
    dsimp only at same
    split at same <;> cases same
    exact AllWithin.getD (balanced.typed.slot r.carrier) i

/-- What is stored later on is typed. -/
def Staged (staged : List (Nat × Host.Value)) (w : World Engine) : Prop :=
  Balanced [] w ∧ ∀ entry ∈ staged, entry.2.Within w.host.types

theorem balances_stage (slots : List (Nat × Host.ValueType)) (values : List Value)
    (balanced : Balanced [] w) :
    Balances w (stage slots values) (stage slots values) Staged := by
  induction slots generalizing values w with
  | nil => exact .pure ⟨balanced, fun _ member => (List.not_mem_nil member).elim⟩
  | cons slot rest ih =>
    refine (balances_toHostSlot balanced _ _ _).bind fun u v _ ⟨one, known⟩ => ?_
    refine (ih values.tail one).bind fun staged v passes ⟨all, others⟩ => .pure ⟨all, ?_⟩
    exact List.forall_mem_cons.2 ⟨known.mono passes.grown, others⟩

theorem balances_accept (r : PatchRequest) (results : List Value) (balanced : Balanced [] w) :
    Balances w (accept r results) (accept r results) fun _ => Balanced [] := by
  unfold accept
  split
  · refine (balances_stage _ _ balanced).bind fun staged v _ known => ?_
    refine Balances.bind (P := fun _ => Staged staged) (.forM known fun entry member u stored => ?_)
      fun _ u _ stored => .pure stored.1
    have types := stored.1.typed.setSlot (stored.2 entry member) r.carrier entry.1
    refine Balances.bind (P := fun _ => Staged staged) (.onHost types ?_) fun _ _ _ given =>
      .pure given
    exact ⟨Sound.rehost stored.1 types, fun other there => (stored.2 other there).mono types.grown⟩
  · exact .pure balanced

section

variable (agrees : Agrees run run')
include agrees

theorem balances_runPatch {f : FunctionRef} (fair : w.outer.Regular → f.Fair) {r : PatchRequest}
    (balanced : Balanced [] w) (known : r.Within w.host.types) :
    Balances w (runPatch run f r) (runPatch run' f r) fun _ => Balanced [] := by
  refine (balances_patchArguments balanced known).bind fun arguments v passes given => ?_
  refine Balances.holds (fun _ => []) ?_
  have ready : Balanced (.function f :: arguments) (keeping arguments v) :=
    (given.keeping.held fun _ => id).withFunction fun regular =>
      fair (passes.regular (regular.congr rfl rfl rfl))
  refine ((balances_callValue agrees ready).mapError _).bind fun results u _ given => ?_
  exact Balances.holds (fun _ => []) (balances_accept r results given.keeping)

theorem balances_dispatchPatch {r : PatchRequest} (balanced : Balanced [] w)
    (known : r.Within w.host.types) :
    Balances w (dispatchPatch run r) (dispatchPatch run' r) fun _ => Balanced [] := by
  refine .bridge ?_
  cases found : w.outer.bridge.patches.find? r.signature with
  | none => exact .pure balanced
  | some f =>
    have fair : w.outer.Regular → f.Fair := fun regular =>
      (balanced.custody regular).fair.patches r.signature f found
    have ran := balances_guarded (balances_runPatch agrees fair balanced known)
    refine ran.attempt (fun replaced v _ given => .pure given)
      (fun e v _ given => ?_) (fun message v _ given => .breakOff given message) rfl rfl
    refine Balances.bind (P := fun _ => Balanced []) (.report _ ?_) fun _ _ _ given =>
      .pure given
    exact given

/-- Patches give the same answers if functions do the same. -/
theorem alike_patchedContext (stepLimit : Nat) :
    AlikeAnswers (patchedContext run stepLimit) (patchedContext run' stepLimit) where
  stepLimit := rfl
  dispatch := fun r w known balanced => by
    obtain ⟨same, ends⟩ := balances_dispatchPatch agrees balanced known
    unfold patchedContext
    dsimp only
    rw [← same]
    generalize dispatchPatch run r w = ended at ends
    match ended, ends with
    | (.ok replaced, v), ends => exact ⟨rfl, .inr ends⟩
    | (.error (.failed e), v), ends => exact ⟨rfl, .inr ends⟩
    | (.error (.panicked message), v), ends => exact ⟨rfl, .inr ends⟩
    | (.error .exhausted, v), _ => exact ⟨rfl, .inl rfl⟩

end

/-! ## Calls into the host -/

theorem balances_invokeHost {ctx ctx' : Host.Context Engine} (answers : AlikeAnswers ctx ctx')
    (m : Method) {this : Option ObjectRef} {arguments : List Host.Value} (balanced : Balanced [] w)
    (target : ∀ ref, this = some ref → (Host.Value.object ref).Within w.host.types)
    (known : AllWithin w.host.types arguments) :
    Balances w (invokeHost ctx m this arguments) (invokeHost ctx' m this arguments)
      fun r v => Balanced [] v ∧ r.1.Within v.host.types ∧ AllWithin v.host.types r.2 := by
  have known : AllWithin w.host.types arguments.toArray.toList := known
  obtain ⟨same, ends⟩ := balances_invoke answers Host.callDepth m this _ balanced target known
  unfold Balances
  rw [invokeHost_apply, invokeHost_apply, ← same]
  refine ⟨rfl, ?_⟩
  generalize Host.invoke ctx Host.callDepth m this arguments.toArray w = ended at ends
  obtain ⟨⟨ending, left⟩, v⟩ := ended
  rcases ends with deep | ⟨passes, given, within⟩
  · dsimp only at deep
    subst deep
    trivial
  · match ending with
    | .returned u => exact ⟨passes, given, within.value u rfl, within.args⟩
    | .threw e => exact ⟨passes, given⟩
    | .interrupted (.panicked message) => exact ⟨passes, given⟩
    | .interrupted .exhausted => trivial

section

variable (agrees : Agrees run run')
include agrees

theorem balances_invokeMethod (m : Method) {this : Option ObjectRef} (arguments : List Value)
    (balanced : Balanced [] w)
    (target : ∀ ref, this = some ref → (Host.Value.object ref).Within w.host.types) :
    Balances w (invokeMethod run m this arguments) (invokeMethod run' m this arguments)
      Balanced := by
  refine (balances_marshalArguments _ _ balanced).bind fun passed v passes ⟨given, known⟩ => ?_
  refine .bridge (Balances.bind ((balances_invokeHost (alike_patchedContext agrees _) m given
    (fun ref same => (target ref same).mono passes.grown) known).mapError _) ?_)
  exact fun r u _ ⟨left, within, others⟩ => balances_marshalResults m left within others

theorem balances_callMember (type : TypeId) (member : String) (shape : Bridge.CallShape)
    {this : Option ObjectRef} (arguments : List Value) (balanced : Balanced [] w)
    (target : ∀ ref, this = some ref → (Host.Value.object ref).Within w.host.types) :
    Balances w (callMember run type member shape this arguments)
      (callMember run' type member shape this arguments) Balanced := by
  refine (balances_resolveMethod balanced _ _ _ _).bind fun m v _ ⟨given, same⟩ => ?_
  exact balances_invokeMethod agrees m arguments given fun ref is => same ▸ target ref is

theorem balances_callHandle (h : Bridge.Handle) (member : String) (arguments : List Value)
    (balanced : Balanced [] w) :
    Balances w (callHandle run h member arguments) (callHandle run' h member arguments)
      Balanced := by
  refine (balances_resolveHandle balanced h).look fun referent known => ?_
  cases referent with
  | object ref =>
    exact balances_callMember agrees _ _ _ _ balanced fun _ is => Option.some.inj is ▸ known
  | type id => exact balances_callMember agrees _ _ _ _ balanced nofun

end

end Run

end ScriptHost

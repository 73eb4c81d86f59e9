import ScriptHost.Engine.Invoke
import ScriptHost.Proofs.Engine.Calls
import ScriptHost.Proofs.Engine.HostCalls
import ScriptHost.Proofs.Engine.Values
/-!
Patches, and calls from scripts into the host, are orderly if the functions are that they run.
-/
namespace ScriptHost.Run

open Host (AllOpen Completion Method ObjectRef PatchRequest World)
open Script (Discipline FunctionRef Value)

variable {ε : Type} {hidden : Nat → Prop} {run : Runner}

/-! ## Patches -/

theorem orderly_patchArguments {r : PatchRequest}
    (target : ∀ ref, r.target = some ref → ref.Open hidden) :
    Orderly hidden .still (fun _ => True) (patchArguments r) := by
  refine Orderly.host.bind fun s isSealed => orderly_mapM_toScript ?_
  refine AllOpen.append ?_ fun v member => ?_
  · intro v member
    cases is : r.target with
    | none =>
      rw [is] at member
      cases member
    | some ref =>
      rw [is] at member
      cases List.mem_singleton.1 member
      exact target ref is
  · obtain ⟨⟨p, i⟩, _, same⟩ := List.mem_filterMap.1 member
    dsimp only at same
    split at same <;> cases same
    exact (isSealed.slot r.carrier).getD i

theorem orderly_stage (slots : List (Nat × Host.ValueType)) (values : List Value) :
    Orderly hidden .still (fun staged => ∀ entry ∈ staged, entry.2.Open hidden)
      (stage slots values) := by
  induction slots generalizing values with
  | nil => exact .pure fun _ member => (List.not_mem_nil member).elim
  | cons slot rest ih =>
    refine (orderly_toHostSlot _ _ _).bind fun v known => ?_
    exact (ih values.tail).bind fun staged others => .pure (List.forall_mem_cons.2 ⟨known, others⟩)

/-- Storing what a patch gave. -/
theorem orderly_store {carrier : ObjectRef} (known : carrier.Open hidden)
    {staged : List (Nat × Host.Value)} (values : ∀ entry ∈ staged, entry.2.Open hidden) :
    Orderly hidden .still (fun _ => True) (staged.forM fun (slot, v) => do
      let _ ← onHost (·.setSlot carrier slot v) : Run ε Unit) :=
  .forM fun entry member => Orderly.bind (P := fun _ => True)
    (.onHost fun _ isSealed => ⟨trivial, isSealed.setSlot known (values entry member) entry.1⟩)
    fun _ _ => .pure trivial

theorem orderly_accept {r : PatchRequest} (known : r.carrier.Open hidden) (results : List Value) :
    Orderly hidden .still (fun _ => True) (accept r results) := by
  unfold accept
  split
  · refine (orderly_stage _ _).bind fun staged values => ?_
    exact (orderly_store known values).bind fun _ _ => .pure trivial
  · exact .pure trivial

theorem orderly_runPatch (orderly : OrderlyRunner hidden run) (f : FunctionRef) {r : PatchRequest}
    (known : r.Open hidden) : Orderly hidden .still (fun _ => True) (runPatch run f r) := by
  refine (orderly_patchArguments known.target).bind fun arguments _ => ?_
  refine Orderly.holding ?_ _ _
  refine ((orderly_callValue orderly _ _).mapError _).bind fun results _ => ?_
  exact (orderly_accept known.carrier results).holding _ _

theorem orderly_dispatchPatch (orderly : OrderlyRunner hidden run) {r : PatchRequest}
    (known : r.Open hidden) : Orderly hidden .still (fun _ => True) (dispatchPatch run r) := by
  refine Orderly.bridge.bind fun b _ => ?_
  split
  · exact .pure trivial
  · rename_i f _
    exact (orderly_guarded (orderly_runPatch orderly f known)).attempt (fun _ _ => .pure trivial)
      (fun e => (Orderly.report _).bind fun _ _ => .pure trivial) (fun _ => rfl) rfl

/-- Patches are orderly if functions are. -/
theorem orderly_patchedContext (orderly : OrderlyRunner hidden run) (stepLimit : Nat) :
    OrderlyContext hidden (patchedContext run stepLimit) := by
  intro r known w proper
  obtain ⟨leads, _⟩ := orderly_dispatchPatch orderly known w proper
  unfold patchedContext
  dsimp only
  cases result : dispatchPatch run r w with
  | mk outcome v =>
    rw [result] at leads
    cases outcome with
    | ok replaced => exact leads
    | error stop => cases stop <;> exact leads

/-! ## Calls into the host -/

/-- What a call of the host gives to a computation. -/
theorem invokeHost_apply (ctx : Host.Context Engine) (m : Method) (this : Option ObjectRef)
    (arguments : List Host.Value) (w : World Engine) :
    invokeHost ctx m this arguments w =
      match Host.invoke ctx Host.callDepth m this arguments.toArray w with
      | (⟨.returned v, left⟩, u) => (.ok (v, left.toList), u)
      | (⟨.threw e, _⟩, u) => (.error (.failed e), u)
      | (⟨.interrupted (.panicked message), _⟩, u) => (.error (.panicked message), u)
      | (⟨.interrupted .exhausted, _⟩, u) => (.error .exhausted, u) := by
  have lifted : (liftM (Host.invoke ctx Host.callDepth m this arguments.toArray) :
      Run Host.HostException Completion) w =
        (.ok (Host.invoke ctx Host.callDepth m this arguments.toArray w).1,
          (Host.invoke ctx Host.callDepth m this arguments.toArray w).2) := rfl
  unfold invokeHost
  rw [bind_apply, lifted]
  dsimp only
  cases Host.invoke ctx Host.callDepth m this arguments.toArray w with
  | mk c u =>
    obtain ⟨ending, left⟩ := c
    cases ending with
    | returned v => rfl
    | threw e => rfl
    | interrupted i => cases i <;> rfl

theorem orderly_invokeHost {ctx : Host.Context Engine} (orderly : OrderlyContext hidden ctx)
    (m : Method) {this : Option ObjectRef} {arguments : List Host.Value}
    (target : ∀ ref, this = some ref → ref.Open hidden) (known : AllOpen hidden arguments) :
    Orderly hidden .still (fun r => r.1.Open hidden ∧ AllOpen hidden r.2)
      (invokeHost ctx m this arguments) := by
  intro w proper
  have known' : AllOpen hidden arguments.toArray.toList := known
  obtain ⟨leads, completed⟩ :=
    orderly_invoke orderly Host.callDepth m target known' w proper
  rw [invokeHost_apply]
  cases result : Host.invoke ctx Host.callDepth m this arguments.toArray w with
  | mk c u =>
    rw [result] at leads completed
    obtain ⟨ending, left⟩ := c
    cases ending with
    | returned v =>
      refine ⟨leads, fun r same => ?_⟩
      cases same
      exact ⟨completed.value v rfl, completed.args⟩
    | threw e => exact ⟨leads, fun r same => (nomatch same)⟩
    | interrupted i => cases i <;> exact ⟨leads, fun r same => (nomatch same)⟩

variable (orderly : OrderlyRunner hidden run)
include orderly

theorem orderly_invokeMethod (m : Method) {this : Option ObjectRef} (arguments : List Value)
    (target : ∀ ref, this = some ref → ref.Open hidden) :
    Orderly hidden .still (fun _ => True) (invokeMethod run m this arguments) := by
  refine (orderly_marshalArguments _ _).bind fun passed known => ?_
  refine Orderly.bridge.bind fun b _ => ?_
  refine ((orderly_invokeHost (orderly_patchedContext orderly _) m target known).mapError _).bind
    fun r given => ?_
  exact orderly_marshalResults m given.1 given.2

theorem orderly_callMember (type : Host.TypeId) (member : String) (shape : Bridge.CallShape)
    {this : Option ObjectRef} (arguments : List Value)
    (target : ∀ ref, this = some ref → ref.Open hidden) :
    Orderly hidden .still (fun _ => True) (callMember run type member shape this arguments) :=
  (orderly_resolveMethod _ _ _ _).bind fun m _ => orderly_invokeMethod orderly m arguments target

theorem orderly_callHandle (h : Bridge.Handle) (member : String) (arguments : List Value) :
    Orderly hidden .still (fun _ => True) (callHandle run h member arguments) := by
  refine (orderly_resolveHandle h).bind fun referent known => ?_
  cases referent with
  | object ref =>
    exact orderly_callMember orderly _ _ _ _ fun other same => Option.some.inj same ▸ known
  | type id => exact orderly_callMember orderly _ _ _ _ fun _ same => (nomatch same)

end ScriptHost.Run

import ScriptHost.Engine.Resolve
import ScriptHost.Proofs.Bridge.Entries
import ScriptHost.Proofs.Engine.Conduct
/-!
Taking values across between scripts and host, and finding methods, is orderly: neither the stack
nor the frames change, and what arrives in the host is open.
-/
namespace ScriptHost

open Host (AllOpen Domain ObjectRef Param ParamMode TypeId ValueType)
open Bridge (Handle Referent Registry)
open Script (Discipline)

variable {ε α : Type} {hidden : Nat → Prop}

/-! ## Handles -/

/-- A referent that is no hidden object. -/
def Bridge.Referent.Open (hidden : Nat → Prop) : Bridge.Referent → Prop
  | .object ref => ref.Open hidden
  | .type _ => True

namespace Bridge.Registry.Sealed

variable {r : Registry}

theorem entry? (isSealed : r.Sealed hidden) {h : Handle} {entry : Registry.Entry}
    (found : r.entry? h = some entry) : entry.Open hidden :=
  Registry.All.entry? isSealed found

theorem resolve (isSealed : r.Sealed hidden) {alive : ObjectRef → Bool} {h : Handle}
    {referent : Referent} (resolved : r.resolve alive h = .ok referent) : referent.Open hidden := by
  unfold Registry.resolve at resolved
  cases found : r.entry? h with
  | none =>
    rw [found] at resolved
    cases resolved
  | some entry =>
    have known := isSealed.entry? found
    rw [found] at resolved
    cases entry with
    | strong ref =>
      cases resolved
      exact known
    | weak ref =>
      dsimp only at resolved
      split at resolved <;> cases resolved
      exact known
    | type id =>
      cases resolved
      trivial

theorem insert (isSealed : r.Sealed hidden) {entry : Registry.Entry} (known : entry.Open hidden) :
    (r.insert entry).2.Sealed hidden :=
  Registry.All.insert isSealed known

theorem release? {released : Registry} (isSealed : r.Sealed hidden) {h : Handle}
    (result : r.release? h = some released) : released.Sealed hidden :=
  Registry.All.release? isSealed result

end Bridge.Registry.Sealed

namespace Run

theorem orderly_resolveHandle (h : Handle) :
    Orderly hidden .still (Referent.Open hidden) (resolveHandle h) :=
  Orderly.get.bind fun _ proper => .ofExcept fun _ resolved => proper.engine.registry.resolve resolved

theorem orderly_resolveValue (v : Script.Value) :
    Orderly hidden .still (Referent.Open hidden) (resolveValue v) := by
  cases v with
  | handle w => exact orderly_resolveHandle _
  | _ => exact .fail _

theorem orderly_typeInfo (type : TypeId) :
    Orderly hidden .still (fun _ => True) (typeInfo type) := by
  refine Orderly.domain.bind fun d _ => ?_
  split
  · exact .pure trivial
  · exact .fail _

theorem orderly_copyIfStruct {ref : ObjectRef} (known : ref.Open hidden) :
    Orderly hidden .still (ObjectRef.Open hidden) (copyIfStruct ref : Run ε ObjectRef) := by
  refine Orderly.domain.bind fun d _ => ?_
  split
  · split
    · exact .onHost fun s isSealed => isSealed.duplicate ref
    · exact .pure known
  · exact .pure known

/-! ## To the host -/

/-- No object comes of a value that is no handle. -/
theorem open_plainToHost {d : Domain} {v : Script.Value} {type : ValueType} {u : Host.Value}
    (converted : plainToHost d v type = .ok u) : u.Open hidden := by
  have narrowed : ∀ {x : Float} {kind : Host.NumericKind}, narrow x kind = .ok u →
      u.Open hidden := by
    intro x kind narrowed
    unfold narrow at narrowed
    dsimp only at narrowed
    repeat' split at narrowed
    all_goals first
      | cases narrowed; trivial
      | cases narrowed
  unfold plainToHost at converted
  dsimp only at converted
  repeat' split at converted
  all_goals first
    | exact narrowed converted
    | cases converted; trivial
    | cases converted

theorem orderly_toHost (v : Script.Value) (type : ValueType) :
    Orderly hidden .still (Host.Value.Open hidden) (toHost v type) := by
  have plain : ∀ v : Script.Value, Orderly hidden .still (Host.Value.Open hidden)
      (do ofExcept (plainToHost (← domain) v type)) := fun v =>
    Orderly.domain.bind fun d _ => .ofExcept fun u => open_plainToHost
  cases v with
  | handle w =>
    refine (orderly_resolveHandle _).bind fun referent known => ?_
    cases referent with
    | type _ => exact .fail _
    | object ref =>
      refine Orderly.domain.bind fun d _ => ?_
      split
      · exact (orderly_copyIfStruct known).bind fun copied isOpen => .pure isOpen
      · exact .fail _
  | _ => exact plain _

theorem orderly_toHostSlot (v : Script.Value) (type : ValueType) (mode : ParamMode) :
    Orderly hidden .still (Host.Value.Open hidden) (toHostSlot v type mode) := by
  unfold toHostSlot
  split
  · exact .pure (Host.Value.open_defaultFor type)
  · exact orderly_toHost v type

theorem orderly_marshalArguments (params : List Param) (arguments : List Script.Value) :
    Orderly hidden .still (AllOpen hidden) (marshalArguments params arguments) := by
  induction params generalizing arguments with
  | nil => exact .pure .nil
  | cons p rest ih =>
    unfold marshalArguments
    split
    · refine (orderly_toHostSlot _ _ _).bind fun v known => ?_
      exact (ih arguments.tail).bind fun vs others => .pure (others.cons known)
    · refine (ih arguments).bind fun vs others => ?_
      exact .pure (others.cons (Host.Value.open_defaultFor p.type))

/-! ## To scripts -/

theorem orderly_registerType (type : TypeId) :
    Orderly hidden .still (fun _ => True) (registerType type) := by
  have part : ∀ b p, Orderly hidden .still (fun _ => True)
      (addTypeFunction type b p : Run Bridge.Error _) := fun b p =>
    Orderly.bind (.onScript fun _ _ => ⟨rfl, rfl⟩) fun _ _ => .pure trivial
  refine Orderly.bridge.bind fun b _ => ?_
  split
  · exact .pure trivial
  · refine (orderly_typeInfo type).bind fun info _ => ?_
    refine (Orderly.foldlM part).bind fun ofInstance _ => ?_
    refine (Orderly.foldlM part).bind fun ofClass _ => ?_
    refine Orderly.bind (.onScript fun _ _ => ⟨rfl, rfl⟩) fun instanceKey _ => ?_
    refine Orderly.bind (.onScript fun _ _ => ⟨rfl, rfl⟩) fun classKey _ => ?_
    exact Orderly.bind (.modifyBridge fun _ isSealed => isSealed) fun _ _ => .pure trivial

theorem orderly_issue {entry : Registry.Entry} (known : entry.Open hidden) :
    Orderly hidden .still (fun _ => True) (issue entry : Run ε Handle) := by
  refine Orderly.bridge.bind fun b isSealed => ?_
  exact Orderly.bind (.modifyBridge fun _ _ => isSealed.insert known) fun _ _ => .pure trivial

theorem orderly_wrapObject {ref : ObjectRef} (known : ref.Open hidden) (weak : Bool) :
    Orderly hidden .still (fun _ => True) (wrapObject ref weak) := by
  refine (orderly_registerType ref.type).bind fun keys _ => ?_
  have entry : Registry.Entry.Open hidden (if weak then .weak ref else .strong ref) := by
    cases weak <;> exact known
  exact (orderly_issue entry).bind fun h _ => .onScript fun _ _ => ⟨rfl, rfl⟩

theorem orderly_toScript {v : Host.Value} (known : v.Open hidden) :
    Orderly hidden .still (fun _ => True) (toScript v) := by
  cases v with
  | object ref => exact (orderly_copyIfStruct known).bind fun copy isOpen => orderly_wrapObject isOpen _
  | _ => exact .pure trivial

theorem orderly_classValue (type : TypeId) :
    Orderly hidden .still (fun _ => True) (classValue type) := by
  refine Orderly.bridge.bind fun b _ => ?_
  split
  · exact .pure trivial
  · refine (orderly_registerType type).bind fun keys _ => ?_
    have entry : Registry.Entry.Open hidden (.type type) := trivial
    refine (orderly_issue entry).bind fun h _ => ?_
    refine Orderly.bind (.onScript fun _ _ => ⟨rfl, rfl⟩) fun v _ => ?_
    exact Orderly.bind (.modifyBridge fun _ isSealed => isSealed) fun _ _ => .pure trivial

theorem orderly_mapM_toScript {values : List Host.Value} (known : AllOpen hidden values) :
    Orderly hidden .still (fun _ => True) (values.mapM toScript) :=
  (Orderly.mapM fun v member => orderly_toScript (known v member)).any

theorem orderly_marshalResults (m : Host.Method) {v : Host.Value} {arguments : List Host.Value}
    (known : v.Open hidden) (others : AllOpen hidden arguments) :
    Orderly hidden .still (fun _ => True) (marshalResults m v arguments) := by
  have received : AllOpen hidden ((m.params.zip arguments).filterMap fun pair =>
      if pair.1.isByRef then some pair.2 else none) := by
    intro u member
    obtain ⟨⟨p, argument⟩, pair, same⟩ := List.mem_filterMap.1 member
    have given := others argument (List.of_mem_zip pair).2
    dsimp only at same
    split at same <;> cases same
    exact given
  refine orderly_mapM_toScript ?_
  split
  · exact received.cons known
  · exact received

/-! ## Methods -/

theorem orderly_resolveMethod (type : TypeId) (member : String) (shape : Bridge.CallShape)
    (tags : List Script.Tag) :
    Orderly hidden .still (fun _ => True) (resolveMethod type member shape tags) := by
  refine (orderly_typeInfo type).bind fun info _ => ?_
  refine Orderly.bridge.bind fun b _ => ?_
  refine Orderly.bind (.modifyBridge fun _ isSealed => isSealed) fun _ _ => ?_
  split
  · exact .pure trivial
  · refine Orderly.domain.bind fun d _ => ?_
    refine Orderly.bind (P := fun _ => True) (.ofExcept fun _ _ => trivial) fun m _ => ?_
    split
    · exact Orderly.bind (.modifyBridge fun _ isSealed => isSealed) fun _ _ => .pure trivial
    · exact .breakOff _

end Run

end ScriptHost

import ScriptHost.Engine.Provided
import ScriptHost.Proofs.Engine.Patches
/-!
Members of objects and types, and the functions that the bridge provides, are orderly.
-/
namespace ScriptHost.Run

open Host (Method ObjectRef TypeId World)
open Script (BridgeFunction Discipline TypeFunction Value)

variable {ε α : Type} {hidden : Nat → Prop} {run : Runner}

/-! ## Members -/

theorem orderly_firstOf (values : List Value) :
    Orderly hidden .still (fun _ => True) (firstOf values) := by
  cases values with
  | nil => exact .pure trivial
  | cons v rest => exact (Orderly.discard _ _).bind fun _ _ => .pure trivial

theorem orderly_methodWrapper (type : TypeId) (member : String) :
    Orderly hidden .still (fun _ => True) (methodWrapper type member) := by
  refine Orderly.bridge.bind fun b _ => ?_
  split
  · exact .pure trivial
  · refine (orderly_typeInfo type).bind fun info _ => ?_
    refine Orderly.bind (P := fun _ => True) (.onScript fun _ _ => ⟨rfl, rfl⟩) fun f _ => ?_
    exact Orderly.bind (.modifyBridge fun _ isSealed => isSealed) fun _ _ => .pure trivial

theorem orderly_elementIndex (ref : ObjectRef) (x : Float) :
    Orderly hidden .still (fun _ => True) (elementIndex ref x) := by
  refine Orderly.host.bind fun s _ => ?_
  dsimp only
  split
  · split
    · exact .pure trivial
    · exact .fail _
  · exact .fail _

theorem orderly_noMember {P : α → Prop} (type : TypeId) (key : Value) :
    Orderly hidden .still P (noMember type key : Run Bridge.Error α) :=
  Orderly.domain.bind fun _ _ => .fail _

theorem open_slot {s : Host.State} (isSealed : s.Sealed hidden) (ref : ObjectRef) (i : Nat) :
    ((s.heap.get? ref i).getD .null).Open hidden := by
  cases found : s.heap.get? ref i with
  | none => exact trivial
  | some v => exact isSealed.slot ref v (Array.mem_toList_iff.2 (Array.mem_of_getElem? found))

theorem orderly_staticSlot (type : TypeId) (slot : Nat) :
    Orderly hidden .still (Host.Value.Open hidden) (staticSlot type slot) := by
  refine Orderly.host.bind fun s isSealed => .pure ?_
  cases found : s.static? type slot with
  | none => exact trivial
  | some v => exact isSealed.static? found

theorem orderly_setStaticSlot (type : TypeId) (slot : Nat) {v : Host.Value} (known : v.Open hidden) :
    Orderly hidden .still (fun _ => True) (setStaticSlot type slot v) :=
  .onHost fun _ isSealed => ⟨trivial, isSealed.setStatic known type slot⟩

theorem accessorThis_eq_some {m : Method} {ref other : ObjectRef}
    (same : accessorThis m ref = some other) : other = ref := by
  unfold accessorThis at same
  split at same
  · exact (Option.some.inj same).symm
  · cases same

section

variable (orderly : OrderlyRunner hidden run)
include orderly

theorem orderly_readProperty (getter : Method) {this : Option ObjectRef} (keys : List Value)
    (target : ∀ ref, this = some ref → ref.Open hidden) :
    Orderly hidden .still (fun _ => True) (readProperty run getter this keys) :=
  (orderly_invokeMethod orderly getter keys target).bind fun results _ => orderly_firstOf results

theorem orderly_writeProperty (setter : Method) {this : Option ObjectRef} (values : List Value)
    (target : ∀ ref, this = some ref → ref.Open hidden) :
    Orderly hidden .still (fun _ => True) (writeProperty run setter this values) :=
  (orderly_invokeMethod orderly setter values target).bind fun _ _ => .discard _ _

theorem orderly_getMember {ref : ObjectRef} (known : ref.Open hidden) (key : Value) :
    Orderly hidden .still (fun _ => True) (getMember run ref key) := by
  have slot : ∀ i, Orderly hidden .still (fun _ => True)
      (do toScript (((← host).heap.get? ref i).getD .null)) := fun i =>
    Orderly.host.bind fun s isSealed => orderly_toScript (open_slot isSealed ref i)
  refine (orderly_typeInfo _).bind fun info _ => ?_
  split
  · exact (orderly_elementIndex ref _).bind fun i _ => slot i
  · refine Orderly.domain.bind fun d _ => ?_
    dsimp only
    split
    · split
      · exact (orderly_staticSlot _ _).bind fun v isOpen => orderly_toScript isOpen
      · exact slot _
    · exact orderly_readProperty orderly _ _ fun other same => accessorThis_eq_some same ▸ known
    · exact (orderly_methodWrapper _ _).bind fun f _ => .pure trivial
    · split
      · exact orderly_readProperty orderly _ _ fun other same => Option.some.inj same ▸ known
      · exact orderly_noMember _ _

theorem orderly_setMember {ref : ObjectRef} (known : ref.Open hidden) (key v : Value) :
    Orderly hidden .still (fun _ => True) (setMember run ref key v) := by
  have store : ∀ i {stored : Host.Value}, stored.Open hidden → Orderly hidden .still (fun _ => True)
      (do let _ ← onHost (·.setSlot ref i stored) : Run Bridge.Error Unit) := fun i _ isOpen =>
    Orderly.bind (P := fun _ => True)
      (.onHost fun _ isSealed => ⟨trivial, isSealed.setSlot known isOpen i⟩) fun _ _ => .pure trivial
  refine (orderly_typeInfo _).bind fun info _ => ?_
  split
  · refine (orderly_elementIndex ref _).bind fun i _ => ?_
    exact (orderly_toHost v _).bind fun stored isOpen => store i isOpen
  · refine Orderly.domain.bind fun d _ => ?_
    dsimp only
    split
    · refine (orderly_toHost v _).bind fun stored isOpen => ?_
      split
      · exact orderly_setStaticSlot _ _ isOpen
      · exact store _ isOpen
    · exact orderly_writeProperty orderly _ _ fun other same => accessorThis_eq_some same ▸ known
    · exact .fail _
    · split
      · exact orderly_writeProperty orderly _ _ fun other same => Option.some.inj same ▸ known
      · exact orderly_noMember _ _

theorem orderly_getStatic (type : TypeId) (key : Value) :
    Orderly hidden .still (fun _ => True) (getStatic run type key) := by
  refine Orderly.domain.bind fun d _ => ?_
  dsimp only
  split
  · exact (orderly_staticSlot _ _).bind fun v isOpen => orderly_toScript isOpen
  · exact orderly_readProperty orderly _ _ fun _ same => (nomatch same)
  · exact (orderly_methodWrapper _ _).bind fun f _ => .pure trivial
  · exact orderly_noMember _ _

theorem orderly_setStatic (type : TypeId) (key v : Value) :
    Orderly hidden .still (fun _ => True) (setStatic run type key v) := by
  refine Orderly.domain.bind fun d _ => ?_
  dsimp only
  split
  · exact (orderly_toHost v _).bind fun stored isOpen => orderly_setStaticSlot _ _ isOpen
  · exact orderly_writeProperty orderly _ _ fun _ same => (nomatch same)
  · exact orderly_noMember _ _

omit orderly in
/-- Looking up what a value refers to changes nothing. -/
theorem resolveValue_world (v : Value) (w : World Engine) : (resolveValue v w).2 = w := by
  cases v with
  | handle h =>
    show (ofExcept (w.outer.bridge.registry.resolve (aliveIn w) (.ofWord h.slot)) w).2 = w
    cases w.outer.bridge.registry.resolve (aliveIn w) (.ofWord h.slot) <;> rfl
  | _ => rfl

omit orderly in
theorem orderly_receiver? (type : TypeId) (v : Value) :
    Orderly hidden .still (fun this => ∀ ref, this = some ref → ref.Open hidden)
      (callWrapped.receiver? type v) := by
  intro w proper
  obtain ⟨_, known⟩ := orderly_resolveValue v w proper
  have none_open : ∀ ref : ObjectRef, none = some ref → ref.Open hidden := fun _ same => (nomatch same)
  unfold callWrapped.receiver?
  rw [bind_apply, outcome_apply, resolveValue_world]
  dsimp only
  cases found : (resolveValue v w).1 with
  | error stop => exact Orderly.pure none_open w proper
  | ok referent =>
    cases referent with
    | type id => exact Orderly.pure none_open w proper
    | object ref =>
      refine Orderly.domain.bind (fun d _ => Orderly.pure ?_) w proper
      intro other same
      split at same
      · exact Option.some.inj same ▸ known _ found
      · cases same

theorem orderly_callWrapped (type : TypeId) (member : String) (arguments : List Value) :
    Orderly hidden .still (fun _ => True) (callWrapped run type member arguments) := by
  refine (orderly_receiver? type _).bind fun this known => ?_
  cases this with
  | none =>
    exact (orderly_resolveMethod _ _ _ _).bind fun m _ =>
      orderly_invokeMethod orderly m arguments fun _ same => (nomatch same)
  | some ref =>
    have isOpen : ref.Open hidden := known ref rfl
    refine (orderly_resolveMethod _ _ _ _).attempt
      (fun m _ => orderly_invokeMethod orderly m _ fun other same => Option.some.inj same ▸ isOpen)
      (fun e => ?_) (fun _ => rfl) rfl
    exact (orderly_resolveMethod _ _ _ _).attempt
      (fun m _ => orderly_invokeMethod orderly m arguments fun _ same => (nomatch same))
      (fun _ => .fail e) (fun _ => rfl) rfl

theorem orderly_describe {ref : ObjectRef} (known : ref.Open hidden) (h : Bridge.Handle) :
    Orderly hidden .still (fun _ => True) (describe run ref h) := by
  have unnamed : ∀ other : Option Value, Orderly hidden .still (fun _ => True) (do
      discard [] other.toList
      return (← typeInfo ref.type).name ++ ": " ++ h.text : Run Bridge.Error String) := fun other =>
    (Orderly.discard _ _).bind fun _ _ => (orderly_typeInfo _).bind fun _ _ => .pure trivial
  refine Orderly.domain.bind fun d _ => ?_
  dsimp only
  split
  · rename_i m _
    refine (orderly_invokeMethod orderly m [] fun other same => ?_).bind fun results _ => ?_
    · exact Option.some.inj same ▸ known
    · refine (orderly_firstOf results).bind fun own _ => ?_
      cases own with
      | string bytes => exact .pure trivial
      | _ => exact unnamed (some _)
  · exact unnamed none

/-! ## Provided functions -/

omit orderly in
theorem orderly_importType (name : String) :
    Orderly hidden .still (fun _ => True) (importType name) := by
  refine Orderly.domain.bind fun d _ => ?_
  split
  · exact orderly_classValue _
  · exact .fail _

omit orderly in
theorem orderly_textArgument (arguments : List Value) (name : String) :
    Orderly hidden .still (fun _ => True) (textArgument arguments name) := by
  unfold textArgument
  split
  · exact .pure trivial
  · exact .fail _

omit orderly in
theorem orderly_addPatch (signature : String) (f : Script.FunctionRef) :
    Orderly hidden .still (fun _ => True) (addPatch signature f : Run ε Unit) :=
  .modifyBridge fun _ isSealed => isSealed

omit orderly in
theorem orderly_removePatch (signature : String) :
    Orderly hidden .still (fun _ => True) (removePatch signature : Run ε Bool) :=
  Orderly.bridge.bind fun _ _ =>
    Orderly.bind (.modifyBridge fun _ isSealed => isSealed) fun _ _ => .pure trivial

omit orderly in
theorem orderly_objectOf (v : Value) :
    Orderly hidden .still (ObjectRef.Open hidden) (objectOf v) := by
  refine (orderly_resolveValue v).bind fun referent known => ?_
  cases referent with
  | object ref => exact .pure known
  | type id => exact .fail _

omit orderly in
theorem orderly_releaseRemains (v : Value) :
    Orderly hidden .still (fun _ => True) (releaseRemains v) := by
  unfold releaseRemains
  split
  · refine Orderly.bridge.bind fun b isSealed => ?_
    split
    · rename_i found
      refine Orderly.bind (.modifyBridge fun _ _ => isSealed.release? found) fun _ _ => ?_
      exact .note _
    · exact .pure trivial
  · exact .pure trivial

theorem orderly_applyTypeFunction (type : TypeId) (f : TypeFunction) (arguments : List Value) :
    Orderly hidden .still (fun _ => True) (applyTypeFunction run type f arguments) := by
  cases f with
  | instanceIndex =>
    refine (orderly_objectOf _).bind fun ref known => ?_
    exact (orderly_getMember orderly known _).bind fun _ _ => .pure trivial
  | instanceNewindex =>
    refine (orderly_objectOf _).bind fun ref known => ?_
    exact (orderly_setMember orderly known _ _).bind fun _ _ => .pure trivial
  | instanceText =>
    refine (orderly_objectOf _).bind fun ref known => ?_
    exact (orderly_describe orderly known _).bind fun _ _ => .pure trivial
  | classCall =>
    have noTarget : ∀ ref, (none : Option ObjectRef) = some ref → ref.Open hidden :=
      fun _ same => (nomatch same)
    have called := orderly_callMember orderly type Host.constructorName .constructor
      arguments.tail noTarget
    exact called.bind fun _ _ => (Orderly.discard _ _).bind fun _ _ => .pure trivial
  | classIndex => exact (orderly_getStatic orderly _ _).bind fun _ _ => .pure trivial
  | classNewindex => exact (orderly_setStatic orderly _ _ _).bind fun _ _ => .pure trivial
  | classText => exact (orderly_typeInfo _).bind fun _ _ => .pure trivial
  | finalize => exact (orderly_releaseRemains _).bind fun _ _ => .pure trivial

theorem orderly_applyBridgeFunction (f : BridgeFunction) (arguments : List Value) :
    Orderly hidden .still (fun _ => True) (applyBridgeFunction run f arguments) := by
  cases f with
  | importType =>
    refine (orderly_textArgument _ _).bind fun name _ => ?_
    exact (orderly_importType name).bind fun _ _ => .pure trivial
  | patch =>
    refine (orderly_textArgument _ _).bind fun signature _ => ?_
    split
    · exact (orderly_addPatch _ _).bind fun _ _ => .pure trivial
    · exact .fail _
  | unpatch =>
    refine (orderly_textArgument _ _).bind fun signature _ => ?_
    exact (orderly_removePatch _).bind fun _ _ => .pure trivial
  | findPatch =>
    refine (orderly_textArgument _ _).bind fun signature _ => ?_
    exact Orderly.bridge.bind fun _ _ => .pure trivial
  | ofType f type => exact orderly_applyTypeFunction orderly type f arguments
  | member type name => exact orderly_callWrapped orderly type name arguments

/-- A function of the bridge pushes its results in its frame. -/
theorem orderly_runBridgeFunction (f : BridgeFunction) :
    Orderly hidden .framed (fun _ => True) (runBridgeFunction run f) := by
  refine Orderly.engine.bind fun e _ => ?_
  dsimp only
  split
  · split
    · exact .pure trivial
    · exact orderly_failHere _
  · refine Orderly.script.bind fun s _ => ?_
    refine Orderly.holding ?_ _ _
    refine ((orderly_applyBridgeFunction orderly f _).mapError _).of_still.bind fun results _ => ?_
    refine Orderly.bind (.modifyScript fun s fits => ⟨rfl, ?_⟩) fun _ _ => .pure trivial
    exact .of_append rfl fits

end

end ScriptHost.Run

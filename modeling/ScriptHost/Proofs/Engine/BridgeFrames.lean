import ScriptHost.Proofs.Engine.Members
import ScriptHost.Proofs.Engine.Unwinding
/-!
The functions of the bridge leave the frames that they find, also when they break off: whatever they
call of scripts they call protected.
-/
namespace ScriptHost.Run

open Host (Method ObjectRef PatchRequest TypeId World)
open Script (Discipline Frame FunctionRef Value)

variable {ε α : Type} {d : Discipline} {run : Runner}

/-! ## Values on their way -/

theorem unwinds_resolveHandle (h : Bridge.Handle) : Unwinds d (resolveHandle h) :=
  Unwinds.bind (.of_eq fun _ => rfl) fun _ => .ofExcept _

theorem unwinds_resolveValue (v : Value) : Unwinds d (resolveValue v) := by
  cases v with
  | handle w => exact unwinds_resolveHandle _
  | _ => exact .fail _

theorem unwinds_typeInfo (type : TypeId) : Unwinds d (typeInfo type) := by
  refine Unwinds.bind (.of_eq fun _ => rfl) fun domain => ?_
  split
  · exact .pure _
  · exact .fail _

theorem unwinds_copyIfStruct (ref : ObjectRef) :
    Unwinds d (copyIfStruct ref : Run ε ObjectRef) := by
  refine Unwinds.bind (.of_eq fun _ => rfl) fun domain => ?_
  split
  · split
    · exact .of_eq fun _ => rfl
    · exact .pure _
  · exact .pure _

theorem unwinds_toHost (v : Value) (type : Host.ValueType) : Unwinds d (toHost v type) := by
  unfold toHost
  split
  · refine (unwinds_resolveHandle _).bind fun referent => ?_
    split
    · exact .fail _
    · refine Unwinds.bind (.of_eq fun _ => rfl) fun domain => ?_
      split
      · exact (unwinds_copyIfStruct _).bind fun _ => .pure _
      · exact .fail _
  · exact Unwinds.bind (.of_eq fun _ => rfl) fun _ => .ofExcept _

theorem unwinds_toHostSlot (v : Value) (type : Host.ValueType) (mode : Host.ParamMode) :
    Unwinds d (toHostSlot v type mode) := by
  unfold toHostSlot
  split
  · exact .pure _
  · exact unwinds_toHost v type

theorem unwinds_marshalArguments (params : List Host.Param) (arguments : List Value) :
    Unwinds d (marshalArguments params arguments) := by
  induction params generalizing arguments with
  | nil => exact .pure _
  | cons p rest ih =>
    unfold marshalArguments
    split
    · exact (unwinds_toHostSlot _ _ _).bind fun _ => (ih _).bind fun _ => .pure _
    · exact (ih _).bind fun _ => .pure _

theorem unwinds_registerType (type : TypeId) : Unwinds d (registerType type) := by
  have part : ∀ b p, Unwinds d (addTypeFunction type b p : Run Bridge.Error _) := fun b p =>
    Unwinds.bind (.of_eq fun _ => rfl) fun _ => .pure _
  refine Unwinds.bind (.of_eq fun _ => rfl) fun b => ?_
  split
  · exact .pure _
  · refine (unwinds_typeInfo type).bind fun info => ?_
    generalize instanceParts = instanceParts
    generalize classParts = classParts
    refine (Unwinds.foldlM part _ _).bind fun ofInstance => ?_
    refine (Unwinds.foldlM part _ _).bind fun ofClass => ?_
    refine Unwinds.bind (.of_eq fun _ => rfl) fun instanceKey => ?_
    refine Unwinds.bind (.of_eq fun _ => rfl) fun classKey => ?_
    exact Unwinds.bind (.of_eq fun _ => rfl) fun _ => .pure _

theorem unwinds_issue (entry : Bridge.Registry.Entry) :
    Unwinds d (issue entry : Run ε Bridge.Handle) :=
  Unwinds.bind (.of_eq fun _ => rfl) fun _ => Unwinds.bind (.of_eq fun _ => rfl) fun _ => .pure _

theorem unwinds_wrapObject (ref : ObjectRef) (weak : Bool) : Unwinds d (wrapObject ref weak) :=
  (unwinds_registerType _).bind fun _ => (unwinds_issue _).bind fun _ => .of_eq fun _ => rfl

theorem unwinds_toScript (v : Host.Value) : Unwinds d (toScript v) := by
  cases v with
  | object ref => exact (unwinds_copyIfStruct ref).bind fun copy => unwinds_wrapObject copy false
  | _ => exact .pure _

theorem unwinds_mapM_toScript (values : List Host.Value) : Unwinds d (values.mapM toScript) :=
  .mapM unwinds_toScript values

theorem unwinds_classValue (type : TypeId) : Unwinds d (classValue type) := by
  refine Unwinds.bind (.of_eq fun _ => rfl) fun b => ?_
  split
  · exact .pure _
  · refine (unwinds_registerType type).bind fun keys => (unwinds_issue _).bind fun h => ?_
    refine Unwinds.bind (.of_eq fun _ => rfl) fun v => ?_
    exact Unwinds.bind (.of_eq fun _ => rfl) fun _ => .pure _

theorem unwinds_marshalResults (m : Method) (v : Host.Value) (arguments : List Host.Value) :
    Unwinds d (marshalResults m v arguments) :=
  unwinds_mapM_toScript _

/-- A method that is found twice breaks off, in the frame that asked for it. -/
theorem unwinds_resolveMethod (type : TypeId) (member : String) (shape : Bridge.CallShape)
    (tags : List Script.Tag) : Unwinds d (resolveMethod type member shape tags) := by
  refine (unwinds_typeInfo type).bind fun info => ?_
  refine Unwinds.bind (.of_eq fun _ => rfl) fun b => ?_
  refine Unwinds.bind (.of_eq fun _ => rfl) fun _ => ?_
  split
  · exact .pure _
  · refine Unwinds.bind (.of_eq fun _ => rfl) fun domain => (Unwinds.ofExcept _).bind fun m => ?_
    split
    · exact Unwinds.bind (.of_eq fun _ => rfl) fun _ => .pure _
    · exact .of_eq fun _ => rfl

/-! ## Patches, and calls of methods -/

theorem unwinds_patchArguments (r : PatchRequest) : Unwinds d (patchArguments r) :=
  Unwinds.bind (.of_eq fun _ => rfl) fun _ => unwinds_mapM_toScript _

theorem unwinds_stage (slots : List (Nat × Host.ValueType)) (values : List Value) :
    Unwinds d (stage slots values) := by
  induction slots generalizing values with
  | nil => exact .pure _
  | cons slot rest ih =>
    exact (unwinds_toHostSlot _ _ _).bind fun _ => (ih _).bind fun _ => .pure _

theorem unwinds_accept (r : PatchRequest) (results : List Value) :
    Unwinds d (accept r results) := by
  unfold accept
  split
  · refine (unwinds_stage _ _).bind fun staged => ?_
    refine Unwinds.bind (.forM (fun entry => ?_) staged) fun _ => .pure _
    exact Unwinds.bind (.of_eq fun _ => rfl) fun _ => .pure _
  · exact .pure _

section

variable (unwinds : UnwindsRunner run)
include unwinds

theorem unwinds_runPatch (f : FunctionRef) (r : PatchRequest) :
    Unwinds .still (runPatch run f r) := by
  refine (unwinds_patchArguments r).bind fun arguments => Unwinds.holding ?_ _ _
  refine ((unwinds_callValue unwinds _ _).mapError _).bind fun results => ?_
  exact (unwinds_accept r results).holding _ _

theorem unwinds_dispatchPatch (r : PatchRequest) : Unwinds .still (dispatchPatch run r) := by
  refine Unwinds.bind (.of_eq fun _ => rfl) fun b => ?_
  split
  · exact .pure _
  · rename_i f _
    exact (unwinds_runPatch unwinds f r).guarded.attempt (fun _ => .pure _)
      (fun _ => Unwinds.bind (.of_eq fun _ => rfl) fun _ => .pure _) (fun _ => rfl) rfl

/-- Whatever patches do, the frames are those that the call of the method found. -/
theorem upholds_patchedContext (stepLimit : Nat) (fs : List Frame) :
    (patchedContext run stepLimit).Upholds fun e => e.script.frames = fs := by
  intro r w is inTime
  have unwound := unwinds_dispatchPatch unwinds r w
  unfold patchedContext at inTime ⊢
  dsimp only at inTime ⊢
  cases result : dispatchPatch run r w with
  | mk outcome v =>
    rw [result] at unwound inTime
    match outcome with
    | .ok replaced => exact Eq.trans unwound is
    | .error (.failed e) => exact Eq.trans unwound is
    | .error (.panicked message) => exact Eq.trans unwound is
    | .error .exhausted => exact absurd rfl inTime

theorem unwinds_invokeHost (stepLimit : Nat) (m : Method) (this : Option ObjectRef)
    (arguments : List Host.Value) :
    Unwinds .still (invokeHost (patchedContext run stepLimit) m this arguments) := by
  intro w
  have upheld := Host.upholds_invoke
    (upholds_patchedContext unwinds stepLimit w.outer.script.frames) Host.callDepth m this
    arguments.toArray w rfl
  rw [invokeHost_apply]
  generalize Host.invoke (patchedContext run stepLimit) Host.callDepth m this arguments.toArray w =
    called at upheld ⊢
  obtain ⟨⟨ending, left⟩, u⟩ := called
  match ending with
  | .returned v => exact upheld nofun
  | .threw e => exact upheld nofun
  | .interrupted (.panicked message) => exact upheld nofun
  | .interrupted .exhausted => trivial

theorem unwinds_invokeMethod (m : Method) (this : Option ObjectRef) (arguments : List Value) :
    Unwinds .still (invokeMethod run m this arguments) := by
  refine (unwinds_marshalArguments _ _).bind fun passed => ?_
  refine Unwinds.bind (.of_eq fun _ => rfl) fun b => ?_
  refine ((unwinds_invokeHost unwinds _ m this passed).mapError _).bind fun r => ?_
  exact unwinds_marshalResults m r.1 r.2

theorem unwinds_callMember (type : TypeId) (member : String) (shape : Bridge.CallShape)
    (this : Option ObjectRef) (arguments : List Value) :
    Unwinds .still (callMember run type member shape this arguments) :=
  (unwinds_resolveMethod _ _ _ _).bind fun m => unwinds_invokeMethod unwinds m this arguments

/-! ## Members -/

omit unwinds in
theorem unwinds_firstOf (values : List Value) : Unwinds d (firstOf values) := by
  cases values with
  | nil => exact .pure _
  | cons v rest => exact (Unwinds.discard _ _).bind fun _ => .pure _

omit unwinds in
theorem unwinds_methodWrapper (type : TypeId) (member : String) :
    Unwinds d (methodWrapper type member) := by
  refine Unwinds.bind (.of_eq fun _ => rfl) fun b => ?_
  split
  · exact .pure _
  · refine (unwinds_typeInfo type).bind fun info => Unwinds.bind (.of_eq fun _ => rfl) fun f => ?_
    exact Unwinds.bind (.of_eq fun _ => rfl) fun _ => .pure _

omit unwinds in
theorem unwinds_elementIndex (ref : ObjectRef) (x : Float) : Unwinds d (elementIndex ref x) := by
  refine Unwinds.bind (.of_eq fun _ => rfl) fun s => ?_
  dsimp only
  split
  · split
    · exact .pure _
    · exact .fail _
  · exact .fail _

omit unwinds in
theorem unwinds_noMember (type : TypeId) (key : Value) :
    Unwinds d (noMember type key : Run Bridge.Error α) :=
  Unwinds.bind (.of_eq fun _ => rfl) fun _ => .fail _

theorem unwinds_readProperty (getter : Method) (this : Option ObjectRef) (keys : List Value) :
    Unwinds .still (readProperty run getter this keys) :=
  (unwinds_invokeMethod unwinds getter this keys).bind unwinds_firstOf

theorem unwinds_writeProperty (setter : Method) (this : Option ObjectRef) (values : List Value) :
    Unwinds .still (writeProperty run setter this values) :=
  (unwinds_invokeMethod unwinds setter this values).bind fun _ => .discard _ _

theorem unwinds_getMember (ref : ObjectRef) (key : Value) :
    Unwinds .still (getMember run ref key) := by
  have slot : ∀ i, Unwinds .still (do toScript (((← host).heap.get? ref i).getD .null)) :=
    fun i => Unwinds.bind (.of_eq fun _ => rfl) fun _ => unwinds_toScript _
  refine (unwinds_typeInfo _).bind fun info => ?_
  split
  · exact (unwinds_elementIndex ref _).bind slot
  · refine Unwinds.bind (.of_eq fun _ => rfl) fun domain => ?_
    dsimp only
    split
    · split
      · exact Unwinds.bind (.of_eq fun _ => rfl) fun _ => unwinds_toScript _
      · exact slot _
    · exact unwinds_readProperty unwinds _ _ _
    · exact (unwinds_methodWrapper _ _).bind fun _ => .pure _
    · split
      · exact unwinds_readProperty unwinds _ _ _
      · exact unwinds_noMember _ _

theorem unwinds_setMember (ref : ObjectRef) (key v : Value) :
    Unwinds .still (setMember run ref key v) := by
  have store : ∀ i stored, Unwinds .still
      (do let _ ← onHost (·.setSlot ref i stored) : Run Bridge.Error Unit) := fun i stored =>
    Unwinds.bind (.of_eq fun _ => rfl) fun _ => .pure _
  refine (unwinds_typeInfo _).bind fun info => ?_
  split
  · exact (unwinds_elementIndex ref _).bind fun i => (unwinds_toHost v _).bind (store i)
  · refine Unwinds.bind (.of_eq fun _ => rfl) fun domain => ?_
    dsimp only
    split
    · refine (unwinds_toHost v _).bind fun stored => ?_
      split
      · exact .of_eq fun _ => rfl
      · exact store _ stored
    · exact unwinds_writeProperty unwinds _ _ _
    · exact .fail _
    · split
      · exact unwinds_writeProperty unwinds _ _ _
      · exact unwinds_noMember _ _

theorem unwinds_getStatic (type : TypeId) (key : Value) :
    Unwinds .still (getStatic run type key) := by
  refine Unwinds.bind (.of_eq fun _ => rfl) fun domain => ?_
  dsimp only
  split
  · exact Unwinds.bind (.of_eq fun _ => rfl) fun _ => unwinds_toScript _
  · exact unwinds_readProperty unwinds _ _ _
  · exact (unwinds_methodWrapper _ _).bind fun _ => .pure _
  · exact unwinds_noMember _ _

theorem unwinds_setStatic (type : TypeId) (key v : Value) :
    Unwinds .still (setStatic run type key v) := by
  refine Unwinds.bind (.of_eq fun _ => rfl) fun domain => ?_
  dsimp only
  split
  · exact (unwinds_toHost v _).bind fun _ => .of_eq fun _ => rfl
  · exact unwinds_writeProperty unwinds _ _ _
  · exact unwinds_noMember _ _

theorem unwinds_callWrapped (type : TypeId) (member : String) (arguments : List Value) :
    Unwinds .still (callWrapped run type member arguments) := by
  have receiver : Unwinds .still (callWrapped.receiver? type (arguments.headD .nil)) := by
    refine Unwinds.bind (.of_eq fun w => ?_) fun referent => ?_
    · exact congrArg (·.outer.script.frames) (resolveValue_world _ w)
    · split
      · exact Unwinds.bind (.of_eq fun _ => rfl) fun _ => .pure _
      · exact .pure _
  refine receiver.bind fun this => ?_
  cases this with
  | none => exact (unwinds_resolveMethod _ _ _ _).bind fun m => unwinds_invokeMethod unwinds m _ _
  | some ref =>
    refine (unwinds_resolveMethod _ _ _ _).attempt (fun m => unwinds_invokeMethod unwinds m _ _)
      (fun e => ?_) (fun _ => rfl) rfl
    exact (unwinds_resolveMethod _ _ _ _).attempt (fun m => unwinds_invokeMethod unwinds m _ _)
      (fun _ => .fail e) (fun _ => rfl) rfl

theorem unwinds_describe (ref : ObjectRef) (h : Bridge.Handle) :
    Unwinds .still (describe run ref h) := by
  have unnamed : ∀ other : Option Value, Unwinds .still (do
      Run.discard [] other.toList
      return (← typeInfo ref.type).name ++ ": " ++ h.text : Run Bridge.Error String) := fun other =>
    (Unwinds.discard _ _).bind fun _ => (unwinds_typeInfo _).bind fun _ => .pure _
  refine Unwinds.bind (.of_eq fun _ => rfl) fun domain => ?_
  dsimp only
  split
  · refine (unwinds_invokeMethod unwinds _ _ _).bind fun results => ?_
    refine (unwinds_firstOf results).bind fun own => ?_
    cases own with
    | string bytes => exact .pure _
    | _ => exact unnamed (some _)
  · exact unnamed none

/-! ## Functions of the bridge -/

omit unwinds in
theorem unwinds_textArgument (arguments : List Value) (name : String) :
    Unwinds d (textArgument arguments name) := by
  unfold textArgument
  split
  · exact .pure _
  · exact .fail _

omit unwinds in
theorem unwinds_objectOf (v : Value) : Unwinds d (objectOf v) := by
  refine (unwinds_resolveValue v).bind fun referent => ?_
  cases referent with
  | object ref => exact .pure _
  | type id => exact .fail _

omit unwinds in
theorem unwinds_releaseRemains (v : Value) : Unwinds d (releaseRemains v) := by
  unfold releaseRemains
  split
  · refine Unwinds.bind (.of_eq fun _ => rfl) fun b => ?_
    split
    · exact Unwinds.bind (.of_eq fun _ => rfl) fun _ => .of_eq fun _ => rfl
    · exact .pure _
  · exact .pure _

theorem unwinds_applyTypeFunction (type : TypeId) (f : Script.TypeFunction)
    (arguments : List Value) : Unwinds .still (applyTypeFunction run type f arguments) := by
  cases f with
  | instanceIndex =>
    refine (unwinds_objectOf _).bind fun ref => ?_
    exact (unwinds_getMember unwinds ref _).bind fun _ => .pure _
  | instanceNewindex =>
    refine (unwinds_objectOf _).bind fun ref => ?_
    exact (unwinds_setMember unwinds ref _ _).bind fun _ => .pure _
  | instanceText =>
    refine (unwinds_objectOf _).bind fun ref => ?_
    exact (unwinds_describe unwinds ref _).bind fun _ => .pure _
  | classCall =>
    refine (unwinds_callMember unwinds _ _ _ _ _).bind fun results => ?_
    exact (Unwinds.discard _ _).bind fun _ => .pure _
  | classIndex => exact (unwinds_getStatic unwinds _ _).bind fun _ => .pure _
  | classNewindex => exact (unwinds_setStatic unwinds _ _ _).bind fun _ => .pure _
  | classText => exact (unwinds_typeInfo _).bind fun _ => .pure _
  | finalize => exact (unwinds_releaseRemains _).bind fun _ => .pure _

theorem unwinds_applyBridgeFunction (f : Script.BridgeFunction) (arguments : List Value) :
    Unwinds .still (applyBridgeFunction run f arguments) := by
  cases f with
  | importType =>
    refine (unwinds_textArgument _ _).bind fun name => Unwinds.bind ?_ fun _ => .pure _
    refine Unwinds.bind (.of_eq fun _ => rfl) fun domain => ?_
    split
    · exact unwinds_classValue _
    · exact .fail _
  | patch =>
    refine (unwinds_textArgument _ _).bind fun signature => ?_
    split
    · exact Unwinds.bind (.of_eq fun _ => rfl) fun _ => .pure _
    · exact .fail _
  | unpatch =>
    refine (unwinds_textArgument _ _).bind fun signature => Unwinds.bind ?_ fun _ => .pure _
    refine Unwinds.bind (.of_eq fun _ => rfl) fun b => ?_
    exact Unwinds.bind (.of_eq fun _ => rfl) fun _ => .pure _
  | findPatch =>
    refine (unwinds_textArgument _ _).bind fun signature => ?_
    exact Unwinds.bind (.of_eq fun _ => rfl) fun _ => .pure _
  | ofType f type => exact unwinds_applyTypeFunction unwinds type f arguments
  | member type name => exact unwinds_callWrapped unwinds type name arguments

/-- A function of the bridge leaves the frames that it finds, also when it breaks off. -/
theorem unwinds_runBridgeFunction (f : Script.BridgeFunction) :
    Unwinds .still (runBridgeFunction run f) := by
  refine Unwinds.bind (.of_eq fun _ => rfl) fun e => ?_
  dsimp only
  split
  · split
    · exact .pure _
    · exact unwinds_failHere _
  · refine Unwinds.bind (.of_eq fun _ => rfl) fun s => Unwinds.holding ?_ _ _
    refine ((unwinds_applyBridgeFunction unwinds f _).mapError _).bind fun results => ?_
    exact Unwinds.bind (.of_eq fun _ => rfl) fun _ => .pure _

end

end ScriptHost.Run

import ScriptHost.Proofs.Image.Loaded
import ScriptHost.Proofs.Session.Actions
import ScriptHost.Session.Interpreter
/-!
The actions on the domain and on the bridge are orderly if the functions are that they run. So functions
and bodies are orderly, however deep they nest.
-/
namespace ScriptHost

variable {hidden : Nat → Prop}

/-! ## Loading images -/

namespace Host.State.Sealed

variable {s : State}

/-- Defining the types of an image brings no hidden object to light. -/
theorem defineAll (isSealed : s.Sealed hidden) (decls : List (Nat × TypeDecl)) :
    s.Keeps hidden (Image.defineAll s decls).2 := by
  induction decls generalizing s with
  | nil => exact isSealed.keeps
  | cons entry rest ih =>
    obtain ⟨i, decl⟩ := entry
    have keeps := isSealed.define decl
    unfold Image.defineAll
    cases defined : s.define decl with
    | mk outcome after =>
      rw [defined] at keeps
      cases outcome with
      | error e => exact keeps
      | ok id => exact keeps.trans (ih keeps.isSealed)

theorem reserveTokens (isSealed : s.Sealed hidden) (count : Nat) :
    s.Keeps hidden { s with domain := (s.domain.reserveTokens count).2 } :=
  isSealed.retype (Domain.Evolves.refl.reserveTokens count) isSealed.statics

/-- Loading an image brings no hidden object to light. -/
theorem load (isSealed : s.Sealed hidden) (image : Image) : s.Keeps hidden (image.load s).2 := by
  have keeps : s.Keeps hidden (image.reserved s) := isSealed.reserveTokens image.methods.length
  rcases Image.load_cases image s with
    ⟨e, refused⟩ | ⟨order, _, ⟨e, _, refused⟩ | ⟨decls, _, result⟩⟩
  · rw [refused]
    exact isSealed.keeps
  · rw [refused]
    exact keeps
  · rw [result]
    exact keeps.trans (keeps.isSealed.defineAll decls)

end Host.State.Sealed

namespace Session

open Host (AllOpen ObjectRef TypeId)
open Run

variable {run : Runner}

/-! ## The domain -/

theorem orderly_refuse {α : Type} {ok : α → Prop} (panic : Option String) (e : StepError) :
    Orderly hidden .still ok (refuse (α := α) panic e) := by
  unfold refuse
  cases panic with
  | some message => exact .breakOff message
  | none => exact .fail e

theorem orderly_defineAll (decls : List Host.TypeDecl) :
    Orderly hidden .still (fun _ => True) (defineAll decls) := by
  refine (Orderly.mapM (P := fun _ => True) fun decl _ => ?_).any
  refine Orderly.bind (P := fun _ => True) (.onHost fun s isSealed => ?_) fun result _ => ?_
  · exact ⟨trivial, isSealed.define decl⟩
  · split
    · exact .pure trivial
    · exact orderly_refuse _ _

theorem orderly_loadImage (text : String) (inject : Bool) :
    Orderly hidden .still (fun _ => True) (loadImage text inject) := by
  have loading : ∀ (image : Image) {rest : _ → StepRun (List TypeId)},
      (∀ ids, Orderly hidden .still (fun _ => True) (rest (.ok ids))) →
      (∀ e, Orderly hidden .still (fun _ => True) (rest (.error e))) →
        Orderly hidden .still (fun _ => True) (onHost image.load >>= rest) := by
    intro image rest ok error
    refine Orderly.bind (P := fun _ => True) (.onHost fun s isSealed => ?_) fun result _ => ?_
    · exact ⟨trivial, isSealed.load image⟩
    · cases result with
      | ok ids => exact ok ids
      | error e => exact error e
  unfold loadImage
  split
  · exact .fail _
  · dsimp only
    split
    · split
      · refine Orderly.bind (P := fun _ => True) (.pure trivial) fun image _ => ?_
        exact loading image (fun _ => .pure trivial) fun _ => orderly_refuse _ _
      · refine Orderly.bind (P := fun _ => True) (orderly_refuse _ _) fun image _ => ?_
        exact loading image (fun _ => .pure trivial) fun _ => orderly_refuse _ _
    · refine Orderly.bind (P := fun _ => True) (.pure trivial) fun image _ => ?_
      exact loading image (fun _ => .pure trivial) fun _ => orderly_refuse _ _

theorem orderly_slotsReport (ref : ObjectRef) :
    Orderly hidden .still (fun _ => True) (slotsReport ref) := by
  refine Orderly.host.bind fun s _ => ?_
  exact (Orderly.mapM fun v _ => orderly_hostReport v).bind fun _ _ => .pure trivial

theorem orderly_direct (stepLimit : Nat) : OrderlyContext hidden (.direct stepLimit) :=
  fun _ _ _ proper => proper.leads

theorem orderly_hostCall {ctx : Host.Context Engine} (orderly : OrderlyContext hidden ctx)
    (m : Host.Method) {this : Option ObjectRef} {arguments : List Host.Value} (name : Option String)
    (target : ∀ ref, this = some ref → ref.Open hidden) (known : AllOpen hidden arguments) :
    Orderly hidden .still (fun _ => True) (hostCall ctx m this arguments name) := by
  refine ((orderly_invokeHost orderly m target known).mapError _).bind fun result given => ?_
  refine (orderly_nameValue name given.1).bind fun _ _ => ?_
  refine (orderly_hostReport _).bind fun _ _ => ?_
  exact (Orderly.mapM fun v _ => orderly_hostReport v).bind fun _ _ => orderly_answer _

theorem orderly_madeObject (name : String) {ref : ObjectRef} (known : ref.Open hidden) :
    Orderly hidden .still (fun _ => True) (madeObject name ref) := by
  refine (orderly_nameObject name known).bind fun _ _ => ?_
  exact (orderly_hostReport _).bind fun _ _ => orderly_answer _

theorem orderly_storeStatic (type : TypeId) (slot : Nat) {v : Host.Value} (known : v.Open hidden) :
    Orderly hidden .still (fun _ => True) (storeStatic type slot v) :=
  Orderly.host.bind fun _ _ => .onHost fun _ isSealed => ⟨trivial, isSealed.setStatic known type slot⟩

section

variable (orderly : OrderlyRunner hidden run)
include orderly

theorem orderly_performDomain (a : Script.DomainAction) :
    Orderly hidden .still (fun _ => True) (performDomain run a) := by
  cases a with
  | define types => exact (orderly_defineAll types).bind fun _ _ => orderly_answer _
  | loadImage text inject => exact (orderly_loadImage text inject).bind fun _ _ => orderly_answer _
  | lookup name => exact Orderly.domain.bind fun _ _ => orderly_answer _
  | types => exact Orderly.domain.bind fun _ _ => orderly_answer _
  | describe type => exact Orderly.domain.bind fun _ _ => orderly_answer _
  | describeToken token => exact Orderly.domain.bind fun _ _ => orderly_answer _
  | reserve count =>
    refine Orderly.bind (P := fun _ => True) (.onHost fun s isSealed => ?_) fun result _ => ?_
    · exact ⟨trivial, isSealed.reserveTokens count⟩
    · cases result with
      | ok first => exact orderly_answer _
      | error e => exact orderly_refuse _ _
  | chain type =>
    exact (orderly_typeId type).bind fun _ _ => Orderly.domain.bind fun _ _ => orderly_answer _
  | subtype sub sup =>
    refine (orderly_typeId sub).bind fun _ _ => (orderly_typeId sup).bind fun _ _ => ?_
    exact Orderly.domain.bind fun _ _ => orderly_answer _
  | accepts type name =>
    exact (orderly_object name).bind fun _ _ => Orderly.domain.bind fun _ _ => orderly_answer _
  | arrayType element =>
    refine Orderly.bind (P := fun _ => True) (.onHost fun s isSealed => ?_) fun _ _ =>
      orderly_answer _
    exact ⟨trivial, isSealed.arrayType element⟩
  | instantiate type name =>
    refine (orderly_typeId type).bind fun id _ => ?_
    refine Orderly.bind (P := fun made => ∀ ref, made = .ok ref → ref.Open hidden)
      (.onHost fun s isSealed => isSealed.instantiate id) fun result made => ?_
    cases result with
    | ok ref => exact orderly_madeObject name (made ref rfl)
    | error e => exact .fail _
  | newArray element values name =>
    refine (orderly_hostValues values).bind fun values known => ?_
    have known : AllOpen hidden values.toArray.toList := known
    refine Orderly.bind (P := ObjectRef.Open hidden)
      (.onHost fun s isSealed => isSealed.newArray element known) fun _ isOpen => ?_
    exact orderly_madeObject name isOpen
  | duplicate source name =>
    refine (orderly_object source).bind fun ref _ => ?_
    refine Orderly.bind (P := ObjectRef.Open hidden)
      (.onHost fun s isSealed => isSealed.duplicate ref) fun _ isOpen => ?_
    exact orderly_madeObject name isOpen
  | slots name =>
    refine (orderly_object name).bind fun ref _ => ?_
    exact (orderly_slotsReport ref).bind fun _ _ => orderly_answer _
  | setSlot name slot v =>
    refine (orderly_object name).bind fun ref known => ?_
    refine (orderly_hostValue v).bind fun v isOpen => ?_
    refine Orderly.bind (P := fun _ => True) (.onHost fun s isSealed => ?_) fun _ _ =>
      orderly_answer _
    exact ⟨trivial, isSealed.setSlot known isOpen slot⟩
  | forget name =>
    refine Orderly.engine.bind fun e _ => ?_
    refine Orderly.bind (.modifyEngine fun e isSealed fits =>
      ⟨⟨?_, isSealed.registry⟩, .refl fits, .refl _, rfl⟩) fun _ _ => orderly_answer _
    exact fun entry member => isSealed.names entry (List.mem_filter.1 member).1
  | static type slot =>
    refine (orderly_typeId type).bind fun id _ => Orderly.host.bind fun s _ => ?_
    split
    · exact (orderly_hostReport _).bind fun _ _ => orderly_answer _
    · exact orderly_answer _
  | setStatic type slot v =>
    refine (orderly_typeId type).bind fun id _ => (orderly_hostValue v).bind fun v isOpen => ?_
    exact (orderly_storeStatic id slot isOpen).bind fun _ _ => orderly_answer _
  | call type method position this arguments patched stepLimit name =>
    refine (orderly_typeId type).bind fun id _ => (orderly_overload id _ _).bind fun m _ => ?_
    refine (orderly_object? this).bind fun this target => ?_
    refine (orderly_hostValues arguments).bind fun arguments known => ?_
    refine Orderly.bridge.bind fun b _ => orderly_hostCall ?_ m name target known
    cases patched with
    | true => exact orderly_patchedContext orderly _
    | false => exact orderly_direct _
  | debug => exact Orderly.domain.bind fun _ _ => orderly_answer _

end

/-! ## The bridge -/

theorem orderly_release (h : Bridge.Handle) :
    Orderly hidden .still (fun _ => True) (release h) := by
  refine Orderly.bridge.bind fun b isSealed => ?_
  split
  · rename_i found
    refine Orderly.bind (.modifyBridge fun _ _ => isSealed.release? found) fun _ _ => ?_
    exact .note _
  · exact .breakOff _

theorem orderly_unwrapHandle (h : Bridge.Handle) :
    Orderly hidden .still (ObjectRef.Open hidden) (unwrapHandle h) := by
  refine Orderly.get.bind fun w proper => .ofExcept fun ref found => ?_
  unfold Bridge.Registry.unwrap at found
  split at found
  · rename_i resolved
    cases found
    exact proper.engine.registry.resolve resolved
  · cases found
  · cases found

section

variable (orderly : OrderlyRunner hidden run)
include orderly

theorem orderly_performOnBridge (a : Script.BridgeAction) :
    Orderly hidden .still (fun _ => True) (performOnBridge run a) := by
  cases a with
  | importType name =>
    exact (orderly_ofBridge (orderly_importType name)).bind fun _ _ => orderly_single _
  | classValue type =>
    refine (orderly_typeId type).bind fun id _ => ?_
    exact (orderly_ofBridge (orderly_classValue id)).bind fun _ _ => orderly_single _
  | register type =>
    refine (orderly_typeId type).bind fun id _ => ?_
    exact (orderly_ofBridge (orderly_registerType id)).bind fun _ _ => orderly_answer _
  | registration type =>
    exact (orderly_typeId type).bind fun _ _ => Orderly.bridge.bind fun _ _ => orderly_answer _
  | wrap name weak =>
    refine (orderly_object name).bind fun ref known => ?_
    have entry : Bridge.Registry.Entry.Open hidden (if weak then .weak ref else .strong ref) := by
      cases weak <;> exact known
    refine (orderly_issue entry).bind fun h _ => ?_
    exact Orderly.bind (.note _) fun _ _ => orderly_answer _
  | unwrap h name =>
    refine (orderly_handle h).bind fun h _ => ?_
    refine (orderly_ofBridge (orderly_unwrapHandle h)).bind fun ref known => ?_
    refine (orderly_nameValue (v := .object ref) name known).bind fun _ _ => ?_
    exact (orderly_hostReport _).bind fun _ _ => orderly_answer _
  | release h =>
    exact (orderly_handle h).bind fun h _ => (orderly_release h).bind fun _ _ => orderly_answer _
  | handles => exact Orderly.bridge.bind fun _ _ => orderly_answer _
  | call h member arguments =>
    refine (orderly_handle h).bind fun h _ => (orderly_values arguments).bind fun arguments _ => ?_
    have called := orderly_ofBridge (d := .still) (orderly_callHandle orderly h member arguments)
    exact (called.holding _ _).bind fun _ _ => orderly_several _
  | resolve type member shape tags =>
    refine (orderly_typeId type).bind fun id _ => ?_
    exact (orderly_ofBridge (orderly_resolveMethod id _ _ _)).bind fun _ _ => orderly_answer _
  | callMember type member shape this arguments =>
    refine (orderly_typeId type).bind fun id _ => (orderly_object? this).bind fun this target => ?_
    refine (orderly_values arguments).bind fun arguments _ => ?_
    have called := orderly_ofBridge (d := .still) (orderly_callMember orderly id member shape arguments target)
    exact (called.holding _ _).bind fun _ _ => orderly_several _
  | invoke type method position this arguments =>
    refine (orderly_typeId type).bind fun id _ => (orderly_overload id _ _).bind fun m _ => ?_
    refine (orderly_object? this).bind fun this target => ?_
    refine (orderly_values arguments).bind fun arguments _ => ?_
    have called := orderly_ofBridge (d := .still) (orderly_invokeMethod orderly m arguments target)
    exact (called.holding _ _).bind fun _ _ => orderly_several _
  | marshal type method position arguments =>
    refine (orderly_typeId type).bind fun id _ => (orderly_overload id _ _).bind fun m _ => ?_
    refine (orderly_values arguments).bind fun arguments _ => ?_
    refine (orderly_ofBridge (orderly_marshalArguments m.params arguments)).bind fun _ _ => ?_
    exact (Orderly.mapM fun v _ => orderly_hostReport v).bind fun _ _ => orderly_answer _
  | methodWrapper type member =>
    refine (orderly_typeId type).bind fun id _ => ?_
    exact (orderly_ofBridge (orderly_methodWrapper id member)).bind fun _ _ => orderly_single _
  | cache => exact Orderly.bridge.bind fun _ _ => orderly_answer _
  | clearCache =>
    exact Orderly.bind (.modifyBridge fun _ isSealed => isSealed) fun _ _ => orderly_answer _
  | getMember name key =>
    refine (orderly_object name).bind fun ref known => (orderly_value key).bind fun key _ => ?_
    have read := orderly_ofBridge (d := .still) (orderly_getMember orderly known key)
    exact (read.holding _ _).bind fun _ _ => orderly_single _
  | setMember name key v =>
    refine (orderly_object name).bind fun ref known => (orderly_value key).bind fun key _ => ?_
    refine (orderly_value v).bind fun v _ => ?_
    have written := orderly_ofBridge (d := .still) (orderly_setMember orderly known key v)
    exact (written.holding _ _).bind fun _ _ => orderly_answer _
  | toHost v type mode name =>
    refine (orderly_value v).bind fun v _ => ?_
    refine (orderly_ofBridge (orderly_toHostSlot v type mode)).bind fun v known => ?_
    refine (orderly_nameValue name known).bind fun _ _ => ?_
    exact (orderly_hostReport _).bind fun _ _ => orderly_answer _
  | toScript v =>
    refine (orderly_hostValue v).bind fun v known => ?_
    exact (orderly_ofBridge (orderly_toScript known)).bind fun _ _ => orderly_single _
  | toScriptWeak name =>
    refine (orderly_object name).bind fun ref known => ?_
    exact (orderly_ofBridge (orderly_wrapObject known true)).bind fun _ _ => orderly_single _
  | patch signature f =>
    refine (orderly_function f).bind fun f _ => ?_
    exact (orderly_addPatch signature f).bind fun _ _ => orderly_answer _
  | unpatch signature => exact (orderly_removePatch signature).bind fun _ _ => orderly_answer _
  | findPatch signature => exact Orderly.bridge.bind fun _ _ => orderly_single _
  | patched => exact Orderly.bridge.bind fun _ _ => orderly_answer _
  | debug => exact Orderly.bridge.bind fun _ _ => orderly_answer _

theorem orderly_performBridge (a : Script.BridgeAction) :
    Orderly hidden .still (fun _ => True) (performBridge run a) := by
  refine Orderly.engine.bind fun e _ => ?_
  split
  · exact .fail _
  · exact orderly_performOnBridge orderly a

end

end Session

end ScriptHost

namespace ScriptHost.Session

/-! ## Functions and bodies -/

open Run
open Script (Block)

variable {hidden : Nat → Prop}

/-- Functions and bodies that are orderly. -/
structure Interpreter.IsOrderly (hidden : Nat → Prop) (i : Interpreter) : Prop where
  function : OrderlyRunner hidden i.function
  block : ∀ label body, Orderly hidden .framed (fun _ => True) (i.block label body)

section

variable {i : Interpreter}

theorem orderly_record {ε : Type} (label : Option String) (quiet : Bool)
    (result : Except Failure Report) :
    Orderly hidden .framed (fun _ => True) (record label quiet result : Run ε Unit) := by
  cases quiet with
  | true => exact .pure trivial
  | false => exact .report _

theorem orderly_postTask (body : Block) :
    Orderly hidden .framed (fun _ => True) (postTask body) := by
  refine Orderly.engine.bind fun e _ => ?_
  split
  · refine (Orderly.onTasks fun q => TaskQueue.gathers_post q body).bind fun result _ => ?_
    cases result with
    | ok _ => exact .pure trivial
    | error e => exact .fail _
  · exact .fail _

variable (orderly : i.IsOrderly hidden)
include orderly

theorem orderly_repeatBlock (body : Block) (count : Nat) :
    Orderly hidden .framed (fun _ => True) (repeatBlock i body count) := by
  induction count with
  | zero => exact .pure trivial
  | succ count ih =>
    refine (orderly.block _ _).bind fun returned _ => ?_
    cases returned with
    | some results => exact .pure trivial
    | none => exact ih

theorem orderly_guardBlock (body : Block) :
    Orderly hidden .framed (fun _ => True) (guardBlock i body) := by
  refine Orderly.script.bind fun s _ => ?_
  refine Orderly.bind (P := fun _ => True) (orderly_guarded ?_) fun inside _ => ?_
  · refine (orderly_ofScript (orderly.block _ _)).bind fun _ _ => ?_
    exact Orderly.script.bind fun _ _ => .pure trivial
  · exact Orderly.script.bind fun _ _ => orderly_answer _

theorem orderly_perform (a : Script.Action) :
    Orderly hidden .framed (fun _ => True) (perform i a) := by
  cases a with
  | choose condition yes no =>
    refine (orderly_value condition).bind fun v _ => ?_
    exact (orderly_ofScript (orderly.block _ _)).bind fun _ _ => .pure trivial
  | loop count body =>
    exact (orderly_ofScript (orderly_repeatBlock orderly body count)).bind fun _ _ => .pure trivial
  | guarded body => exact orderly_guardBlock orderly body
  | ret values count =>
    refine (orderly_values values).bind fun values _ => ?_
    refine Orderly.bind (.modifyScript fun s fits => ⟨rfl, ?_⟩) fun _ _ => .pure trivial
    exact .of_append rfl fits
  | define name body binding =>
    refine Orderly.bind (P := fun _ => True) (.onScript fun _ fits => .of_eq rfl rfl fits)
      fun f _ => ?_
    refine (orderly_bindAll _ _).bind fun _ _ => ?_
    exact Orderly.script.bind fun _ _ => orderly_answer _
  | register name body =>
    refine Orderly.bind (P := fun _ => True) (.onScript fun _ fits => .of_eq rfl rfl fits)
      fun f _ => ?_
    exact (orderly_setGlobal _ _).bind fun _ _ => orderly_answer _
  | prototype name body =>
    refine Orderly.bind (.modifyScript fun _ fits => ?_) fun _ _ => orderly_answer _
    exact .of_eq rfl rfl fits
  | post body => exact (orderly_postTask body).bind fun _ _ => orderly_answer _
  | stack a => exact orderly_performStack orderly.function a
  | domain a => exact (orderly_performDomain orderly.function a).of_still
  | bridge a => exact (orderly_performBridge orderly.function a).of_still

theorem orderly_runStep (label : String) (s : Script.Step Script.Action) :
    Orderly hidden .framed (fun _ => True) (runStep i label s) := by
  refine (orderly_perform orderly s.action).attempt (fun o _ => ?_) (fun e => ?_) (fun _ => rfl) rfl
  · refine (orderly_record _ _ _).bind fun _ _ => ?_
    exact ((orderly_bindAll _ _).mapError _).bind fun _ _ => .pure trivial
  · refine (orderly_record _ _ _).bind fun _ _ => ?_
    split
    · exact .pure trivial
    · exact .fail _

theorem orderly_runBlock (label : String) (body : Block) :
    Orderly hidden .framed (fun _ => True) (runBlock i label body) := by
  induction body with
  | nil => exact .pure trivial
  | cons s rest ih =>
    refine (orderly_runStep orderly label s).bind fun returned _ => ?_
    cases returned with
    | some results => exact .pure trivial
    | none => exact ih

end

/-- Code is orderly, however deep it nests. -/
theorem orderly_execute (levels : Nat) (code : Code) :
    Orderly hidden .framed (fun _ => True) (execute levels code) := by
  induction levels generalizing code with
  | zero => exact .throw _
  | succ levels ih =>
    have inner : (interpreter levels).IsOrderly hidden :=
      ⟨fun f => (ih _).bind fun _ _ => .pure trivial, fun _ _ => ih _⟩
    cases code with
    | block label body => exact orderly_runBlock inner label body
    | function f =>
      unfold execute
      dsimp only
      split
      · exact orderly_runBlock inner f.name _
      · exact (orderly_runBridgeFunction inner.function _).bind fun _ _ => .pure trivial

/-- The functions of a session are orderly. -/
theorem orderly_interpreter (levels : Nat) : OrderlyRunner hidden (interpreter levels).function :=
  fun _ => (orderly_execute levels _).bind fun _ _ => .pure trivial

end ScriptHost.Session

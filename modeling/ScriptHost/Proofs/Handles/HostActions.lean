import ScriptHost.Proofs.Handles.Actions
import ScriptHost.Session.BridgeActions
import ScriptHost.Session.DomainActions
/-!
Actions on the host, and on what joins it to scripts, keep a world balanced. Handles that the host is
given and those that it releases are entered in the books.
-/
namespace ScriptHost.Session

open Bridge (Handle Registry releaseCount)
open Bridge.Registry (Entry Operation)
open Host (AllWithin ObjectRef TypeId World)
open Run
open Script (Value)

variable {ε α : Type} {w v : World Engine} {run run' : Runner}

/-! ## The domain -/

theorem balances_refuse {P : α → World Engine → Prop} (balanced : Balanced [] w)
    (panic : Option String) (e : StepError) :
    Balances w (refuse panic e : StepRun α) (refuse panic e) P := by
  unfold refuse
  cases panic with
  | some message => exact .breakOff balanced message
  | none => exact .fail balanced e

theorem balances_defineAll (decls : List Host.TypeDecl) (balanced : Balanced [] w) :
    Balances w (defineAll decls) (defineAll decls) fun _ => Balanced [] := by
  induction decls generalizing w with
  | nil => exact .pure balanced
  | cons decl rest ih =>
    unfold defineAll
    rw [List.mapM_cons]
    refine Balances.bind (P := fun _ => Balanced []) ?_ fun _ _ _ given => ?_
    · refine (balances_store balanced (balanced.typed.define decl)).bind fun defined v _ given => ?_
      split
      · exact .pure given
      · exact balances_refuse given _ _
    · exact (ih given).bind fun _ _ _ later => .pure later

theorem balances_loadImage (text : String) (inject : Bool) (balanced : Balanced [] w) :
    Balances w (loadImage text inject) (loadImage text inject) fun _ => Balanced [] := by
  have loading : ∀ {m : StepRun Image} {rest : Image → _ → StepRun (List TypeId)},
      (Balances w m m fun _ v => v = w ∧ True) →
      (∀ image ids {v}, Balanced [] v → Balances v (rest image (.ok ids)) (rest image (.ok ids))
        fun _ => Balanced []) →
      (∀ image e {v}, Balanced [] v → Balances v (rest image (.error e)) (rest image (.error e))
        fun _ => Balanced []) →
      Balances w (m >>= fun image => onHost image.load >>= rest image)
        (m >>= fun image => onHost image.load >>= rest image) fun _ => Balanced [] := by
    intro m rest made ok error
    refine made.look fun image _ => ?_
    refine (balances_store balanced (balanced.typed.load image)).bind fun result v _ given => ?_
    cases result with
    | ok ids => exact ok image ids given
    | error e => exact error image e given
  have finish : ∀ (image : Image) (ids : List TypeId) {v : World Engine}, Balanced [] v →
      Balances v (pure ids : StepRun _) (pure ids) fun _ => Balanced [] :=
    fun _ _ _ given => .pure given
  have fails : ∀ (image : Image) (e : Image.Error) {v : World Engine}, Balanced [] v →
      Balances v (refuse e.panic? (.image e) : StepRun (List TypeId)) (refuse e.panic? (.image e))
        fun _ => Balanced [] := fun _ _ _ given => balances_refuse given _ _
  unfold loadImage
  split
  · exact .fail balanced _
  · dsimp only
    split
    · split
      · exact loading (.pure ⟨rfl, trivial⟩) finish fails
      · exact loading (balances_refuse balanced _ _) finish fails
    · exact loading (.pure ⟨rfl, trivial⟩) finish fails

theorem balances_slotsReport (w : World Engine) (ref : ObjectRef) :
    Balances w (slotsReport ref) (slotsReport ref) fun _ v => v = w ∧ True :=
  .host ((balances_hostReports w _).look fun _ _ => .pure ⟨rfl, trivial⟩)

theorem alike_direct (stepLimit : Nat) :
    AlikeAnswers (.direct stepLimit : Host.Context Engine) (.direct stepLimit) where
  stepLimit := rfl
  dispatch := fun _ w _ balanced => ⟨rfl, .inr ⟨.refl w, balanced⟩⟩

theorem balances_hostCall {ctx ctx' : Host.Context Engine} (answers : AlikeAnswers ctx ctx')
    (m : Host.Method) {this : Option ObjectRef} {arguments : List Host.Value} (name : Option String)
    (balanced : Balanced [] w)
    (target : ∀ ref, this = some ref → (Host.Value.object ref).Within w.host.types)
    (known : AllWithin w.host.types arguments) :
    Balances w (hostCall ctx m this arguments name) (hostCall ctx' m this arguments name) Gives := by
  refine ((balances_invokeHost answers m balanced target known).mapError _).bind
    fun r v _ ⟨given, within, _⟩ => ?_
  refine (balances_nameValue given name within).bind fun _ u _ named => ?_
  refine (balances_hostReport u _).look fun result _ => ?_
  refine (balances_hostReports u _).look fun left _ => ?_
  exact balances_answer named _

/-- An object that is made, named and shown. -/
theorem balances_madeObject {m : StepRun ObjectRef} (name : String)
    (made : Balances w m m fun ref v => Balanced [] v ∧ (Host.Value.object ref).Within v.host.types) :
    Balances w (m >>= madeObject name) (m >>= madeObject name) Gives := by
  refine made.bind fun ref v _ ⟨given, known⟩ => ?_
  refine (balances_nameObject given name known).bind fun _ u _ named => ?_
  exact (balances_hostReport u _).look fun _ _ => balances_answer named _

/-- An object that the host makes is typed. -/
theorem balances_made {g : Host.State → ObjectRef × Host.State} (balanced : Balanced [] w)
    (made : (Host.Value.object (g w.host).1).Within (g w.host).2.types ∧
      w.host.Types (g w.host).2) :
    Balances w (onHost g : Run ε ObjectRef) (onHost g)
      fun ref v => Balanced [] v ∧ (Host.Value.object ref).Within v.host.types :=
  .onHost made.2 ⟨Sound.rehost balanced made.2, made.1⟩

section

variable (agrees : Agrees run run')
include agrees

theorem balances_performDomain (balanced : Balanced [] w) (a : Script.DomainAction) :
    Balances w (performDomain run a) (performDomain run' a) Gives := by
  cases a with
  | define types =>
    exact (balances_defineAll types balanced).bind fun _ _ _ given => balances_answer given _
  | loadImage text inject =>
    exact (balances_loadImage text inject balanced).bind fun _ _ _ given => balances_answer given _
  | lookup name | types | describe type | describeToken token | debug =>
    exact .domain (balances_answer balanced _)
  | reserve count =>
    have types := balanced.typed.retain (Host.Domain.Evolves.refl.reserveTokens count)
    refine (balances_store balanced types).bind fun reserved v _ given => ?_
    cases reserved with
    | ok first => exact balances_answer given _
    | error e => exact balances_refuse given _ _
  | chain type =>
    exact (balances_typeId balanced type).look fun _ _ => .domain (balances_answer balanced _)
  | subtype sub sup =>
    refine (balances_typeId balanced sub).look fun _ _ => ?_
    exact (balances_typeId balanced sup).look fun _ _ => .domain (balances_answer balanced _)
  | accepts type name =>
    exact (balances_object balanced name).look fun _ _ => .domain (balances_answer balanced _)
  | arrayType element =>
    exact (balances_store balanced (balanced.typed.arrayType element).2).bind fun _ _ _ given =>
      balances_answer given _
  | instantiate type name =>
    refine (balances_typeId balanced type).look fun id _ => ?_
    obtain ⟨within, types⟩ := balanced.typed.instantiate id
    refine Balances.bind (P := fun made v => Balanced [] v ∧
        ∀ ref, made = .ok ref → (Host.Value.object ref).Within v.host.types)
      (.onHost types ⟨Sound.rehost balanced types, fun ref same => ?_⟩)
      fun made v _ ⟨given, known⟩ => ?_
    · exact (within ref same).mono types.grown
    · cases made with
      | ok ref =>
        exact balances_madeObject (m := pure ref) name (.pure ⟨given, known ref rfl⟩)
      | error e => exact .fail given _
  | newArray element values name =>
    refine (balances_hostValues balanced values).look fun values known => ?_
    have known : AllWithin w.host.types values.toArray.toList := known
    exact balances_madeObject name (balances_made balanced (balanced.typed.newArray element known))
  | duplicate source name =>
    refine (balances_object balanced source).look fun ref known => ?_
    obtain ⟨within, types⟩ := balanced.typed.duplicate known
    exact balances_madeObject name (balances_made balanced ⟨within.mono types.grown, types⟩)
  | slots name =>
    refine (balances_object balanced name).look fun ref _ => ?_
    exact (balances_slotsReport w ref).look fun _ _ => balances_answer balanced _
  | setSlot name slot t =>
    refine (balances_object balanced name).look fun ref _ => ?_
    refine (balances_hostValue balanced t).look fun u known => ?_
    exact (balances_store balanced (balanced.typed.setSlot known ref slot)).bind
      fun _ _ _ given => balances_answer given _
  | forget name =>
    have others : ∀ entry ∈ w.outer.names.unbind name, entry ∈ w.outer.names :=
      fun entry member => (List.mem_filter.1 member).1
    have forgotten := balanced.rename fun entry member => balanced.names entry (others entry member)
    exact .engine (.after rfl ⟨rfl, .refl, fun later => later.congr rfl rfl rfl⟩
      (balances_answer forgotten _))
  | static type slot =>
    refine (balances_typeId balanced type).look fun id _ => .host ?_
    split
    · exact (balances_hostReport w _).look fun _ _ => balances_answer balanced _
    · exact balances_answer balanced _
  | setStatic type slot t =>
    refine (balances_typeId balanced type).look fun id _ => ?_
    refine (balances_hostValue balanced t).look fun u known => ?_
    refine Balances.bind (P := fun _ => Balanced []) (.host ?_) fun _ _ _ given =>
      balances_answer given _
    exact balances_store balanced (balanced.typed.setStatic known id slot)
  | call type method position this arguments patched stepLimit name =>
    refine (balances_typeId balanced type).look fun id _ => ?_
    refine (balances_overload balanced id _ _).look fun m _ => ?_
    refine (balances_object? balanced this).look fun this target => ?_
    refine (balances_hostValues balanced arguments).look fun arguments known => .bridge ?_
    cases patched with
    | true =>
      exact balances_hostCall (alike_patchedContext agrees _) m name balanced target known
    | false => exact balances_hostCall (alike_direct stepLimit) m name balanced target known

end

/-! ## Handles of the host -/

/-- The host is given a handle. -/
theorem balances_give (balanced : Balanced [] w) {entry : Entry}
    (within : entry.Within w.host.types) :
    Balances w (do
        let h ← issue entry
        note (.given h)
        pure h : Run ε Handle)
      (do
        let h ← issue entry
        note (.given h)
        pure h) fun _ => Balanced [] := by
  have passes := Passes.book (w := w) (.given (w.outer.bridge.registry.insert entry).1)
    (Registry.size_le_apply w.outer.bridge.registry (.issue entry))
  refine .last rfl passes ⟨balanced.typed, balanced.names, balanced.entries.insert within,
    balanced.globals, balanced.bindings, balanced.classes, balanced.furnished, fun later => ?_⟩
  exact (balanced.custody (passes.regular later)).give entry later.room

/-- The host releases a handle. -/
theorem balances_release (balanced : Balanced [] w) (h : Handle) :
    Balances w (release h) (release h) fun _ => Balanced [] := by
  refine .bridge ?_
  cases issued : w.outer.bridge.registry.isIssued h with
  | false =>
    have dead : w.outer.bridge.registry.release? h = none := by
      unfold Registry.release?
      rw [issued]
      rfl
    rw [dead]
    exact .breakOff balanced _
  | true =>
    have released : w.outer.bridge.registry.release? h =
        some (Operation.apply w.outer.bridge.registry (.release h)) := by
      rw [Registry.apply_release issued]
      simp [Registry.release?, issued]
    rw [released]
    have passes := Passes.book (w := w) (.revoked h)
      (Registry.size_le_apply w.outer.bridge.registry (.release h))
    refine .last rfl passes ⟨balanced.typed, balanced.names, balanced.entries.release? released,
      balanced.globals, balanced.bindings, balanced.classes, balanced.furnished, fun later => ?_⟩
    exact (balanced.custody (passes.regular later)).revoke issued (later.counts h.index)

theorem balances_unwrapHandle (balanced : Balanced [] w) (h : Handle) :
    Balances w (unwrapHandle h) (unwrapHandle h)
      fun ref v => v = w ∧ (Host.Value.object ref).Within w.host.types := by
  refine .get (.ofExcept balanced fun ref found => ⟨rfl, ?_⟩)
  unfold Registry.unwrap at found
  split at found
  · rename_i resolved
    cases found
    exact balanced.entries.resolve resolved
  · cases found
  · cases found

/-! ## The bridge -/

/-- What a step gives that asks the bridge for some values while it holds others. -/
theorem balances_asked {m m' : Run Bridge.Error (List Value)} {arguments : List Value}
    (had : ∀ x ∈ arguments, Had w x) (balanced : Balanced [] w)
    (asked : ∀ v, v.host = w.host → Balanced [] v → Balances v m m' Balanced) :
    Balances w (holding arguments id (ofBridge m) >>= several)
      (holding arguments id (ofBridge m') >>= several) Gives := by
  refine Balances.bind (P := Balanced) (.holds id ?_) fun _ _ _ given =>
    balances_several given
  exact (asked (keeping arguments w) rfl (Had.keep had balanced)).mapError _

section

variable (agrees : Agrees run run')
include agrees

theorem balances_performOnBridge (balanced : Balanced [] w) (a : Script.BridgeAction) :
    Balances w (performOnBridge run a) (performOnBridge run' a) Gives := by
  cases a with
  | importType name =>
    exact ((balances_importType balanced name).mapError _).bind fun _ _ _ given =>
      balances_single given
  | classValue type =>
    refine (balances_typeId balanced type).look fun id _ => ?_
    exact ((balances_classValue balanced id).mapError _).bind fun _ _ _ given =>
      balances_single given
  | register type =>
    refine (balances_typeId balanced type).look fun id _ => ?_
    exact ((balances_registerType balanced id).mapError _).bind fun _ _ _ ⟨given, _⟩ =>
      balances_answer given _
  | registration type =>
    exact (balances_typeId balanced type).look fun _ _ => .bridge (balances_answer balanced _)
  | wrap name weak =>
    refine (balances_object balanced name).look fun ref known => ?_
    have within : (if weak then Entry.weak ref else .strong ref).Within w.host.types := by
      cases weak <;> exact known
    exact (balances_give balanced within).bind (f := fun h => answer (.text h.text))
      (g := fun h => answer (.text h.text)) fun _ _ _ given => balances_answer given _
  | unwrap h name =>
    refine (balances_handle balanced h).look fun h _ => ?_
    refine ((balances_unwrapHandle balanced h).mapError _).look fun ref known => ?_
    refine (balances_nameValue balanced name known).bind fun _ v _ named => ?_
    exact (balances_hostReport v _).look fun _ _ => balances_answer named _
  | release h =>
    refine (balances_handle balanced h).look fun h _ => ?_
    exact (balances_release balanced h).bind fun _ _ _ given => balances_answer given _
  | handles | cache | patched | debug => exact .bridge (balances_answer balanced _)
  | call h member arguments =>
    refine (balances_handle balanced h).look fun h _ => ?_
    refine (balances_values balanced arguments).look fun arguments had => ?_
    exact balances_asked had balanced fun _ _ given =>
      balances_callHandle agrees h member arguments given
  | resolve type member shape tags =>
    refine (balances_typeId balanced type).look fun id _ => ?_
    exact ((balances_resolveMethod balanced id _ _ _).mapError _).bind fun _ _ _ ⟨given, _⟩ =>
      balances_answer given _
  | callMember type member shape this arguments =>
    refine (balances_typeId balanced type).look fun id _ => ?_
    refine (balances_object? balanced this).look fun this target => ?_
    refine (balances_values balanced arguments).look fun arguments had => ?_
    exact balances_asked had balanced fun _ same given =>
      balances_callMember agrees id member shape arguments given (same ▸ target)
  | invoke type method position this arguments =>
    refine (balances_typeId balanced type).look fun id _ => ?_
    refine (balances_overload balanced id _ _).look fun m _ => ?_
    refine (balances_object? balanced this).look fun this target => ?_
    refine (balances_values balanced arguments).look fun arguments had => ?_
    exact balances_asked had balanced fun _ same given =>
      balances_invokeMethod agrees m arguments given (same ▸ target)
  | marshal type method position arguments =>
    refine (balances_typeId balanced type).look fun id _ => ?_
    refine (balances_overload balanced id _ _).look fun m _ => ?_
    refine (balances_values balanced arguments).look fun arguments _ => ?_
    refine ((balances_marshalArguments m.params arguments balanced).mapError _).bind
      fun passed v _ ⟨given, _⟩ => ?_
    exact (balances_hostReports v passed).look fun _ _ => balances_answer given _
  | methodWrapper type member =>
    refine (balances_typeId balanced type).look fun id _ => ?_
    exact ((balances_methodWrapper balanced id member).mapError _).bind fun _ _ _ given =>
      balances_single given
  | clearCache =>
    refine .after rfl ⟨rfl, .refl, fun later => later.congr rfl rfl rfl⟩ ?_
    exact balances_answer (balanced.withCache {}) _
  | getMember name key =>
    refine (balances_object balanced name).look fun ref known => ?_
    refine (balances_value balanced key).look fun key had => ?_
    have kept : Balanced [] (keeping [key] w) := Had.keep (by simpa using had) balanced
    refine Balances.bind (P := fun x => Balanced [x]) (.holds (fun x => [x]) ?_)
      fun _ _ _ given => balances_single given
    exact (balances_getMember agrees kept known key).mapError _
  | setMember name key t =>
    refine (balances_object balanced name).look fun ref known => ?_
    refine (balances_value balanced key).look fun key hadKey => ?_
    refine (balances_value balanced t).look fun x had => ?_
    have kept : Balanced [] (keeping [x, key] w) := Had.keep (by simp [hadKey, had]) balanced
    refine Balances.bind (P := fun _ => Balanced []) (.holds (fun _ => []) ?_)
      fun _ _ _ given => balances_answer given _
    exact (balances_setMember agrees kept known key x).mapError _
  | toHost t type mode name =>
    refine (balances_value balanced t).look fun x _ => ?_
    refine ((balances_toHostSlot balanced x type mode).mapError _).bind
      fun u v _ ⟨given, known⟩ => ?_
    refine (balances_nameValue given name known).bind fun _ v _ named => ?_
    exact (balances_hostReport v _).look fun _ _ => balances_answer named _
  | toScript t =>
    refine (balances_hostValue balanced t).look fun u known => ?_
    exact ((balances_toScript balanced known).mapError _).bind fun _ _ _ given =>
      balances_single given
  | toScriptWeak name =>
    refine (balances_object balanced name).look fun ref known => ?_
    exact ((yields_wrapObject balanced known true).balances.mapError _).bind fun _ _ _ given =>
      balances_single given
  | patch signature t =>
    refine (balances_function balanced t).look fun f fair => ?_
    exact (balances_addPatch balanced signature fair).bind fun _ _ _ given =>
      balances_answer given _
  | unpatch signature =>
    exact (balances_removePatch balanced signature).bind fun _ _ _ given => balances_answer given _
  | findPatch signature =>
    exact .bridge (balances_single (balanced.findPatch signature))

theorem balances_performBridge (balanced : Balanced [] w) (a : Script.BridgeAction) :
    Balances w (performBridge run a) (performBridge run' a) Gives := by
  refine .engine ?_
  split
  · exact .fail balanced _
  · exact balances_performOnBridge agrees balanced a

end

end ScriptHost.Session

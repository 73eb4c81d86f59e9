import ScriptHost.Proofs.Engine.Members
import ScriptHost.Proofs.Handles.Invocation
/-!
Members of objects and types, and the functions that the bridge provides, keep a world balanced. What
they give is at hand, and a function among it is no finalizer.
-/
namespace ScriptHost

open Host (Method ObjectRef TypeId World)
open Script (BridgeFunction FunctionRef TypeFunction Value)

variable {ε α : Type} {w v : World Engine}

theorem Script.State.mem_stack_of_mem_frameValues {s : Script.State} {x : Value}
    (member : x ∈ s.frameValues) :
    x ∈ s.stack := by
  obtain ⟨i, _, same⟩ := (Array.mem_extract_iff_getElem ..).1 (Array.mem_toList_iff.1 member)
  exact same ▸ Array.getElem_mem _

/-- The patch of a signature can be had by anyone. -/
theorem Balanced.findPatch (balanced : Balanced [] w) (signature : String) :
    Balanced [(w.outer.bridge.patches.find? signature).elim .nil .function] w := by
  refine Sound.adopt balanced fun regular => .inr ?_
  cases found : w.outer.bridge.patches.find? signature with
  | none => trivial
  | some f => exact (balanced.custody regular).fair.patches signature f found

namespace Run

variable {run run' : Runner} {ref : ObjectRef}

/-! ## Members -/

theorem balances_firstOf {values : List Value} (balanced : Balanced values w) :
    Balances w (firstOf values) (firstOf values) fun x => Balanced [x] := by
  cases values with
  | nil => exact .pure (Sound.adopt balanced fun _ => .inr trivial)
  | cons x rest =>
    refine (Balances.discarded [x] (balanced.reorder fun y => ?_)).bind
      fun _ v _ given => .pure given
    have parts : y ∈ rest.getLast?.toList ++ rest.dropLast ↔ y ∈ rest := by
      rcases List.eq_nil_or_concat rest with rfl | ⟨front, last, rfl⟩
      · simp
      · simp [or_comm]
    rw [List.singleton_append, List.mem_cons, List.mem_cons, parts]

/-- The function that calls a member is no finalizer. -/
theorem balances_methodWrapper (balanced : Balanced [] w) (type : TypeId) (member : String) :
    Balances w (methodWrapper type member) (methodWrapper type member)
      fun f => Balanced [.function f] := by
  refine .bridge ?_
  cases found : w.outer.bridge.wrappers.find? (type, member) with
  | some f =>
    refine .pure (Sound.adopt balanced fun regular => .inr ?_)
    exact (balanced.custody regular).fair.members (type, member) f found
  | none =>
    refine (balances_typeInfo balanced type).look fun info _ => ?_
    have fair : FunctionRef.Fair ⟨w.outer.script.nextId, info.name ++ "." ++ member, none,
        .bridge (.member type member)⟩ := fun _ body => nomatch body
    refine .last rfl ⟨rfl, .refl, fun regular => regular.congr rfl rfl rfl⟩ ?_
    refine Sound.adopt (Sound.refit balanced (fun _ _ => id)
      (balanced.furnished.insertMember rfl) fun _ known => ?_) fun _ => .inr fair
    exact known.insertMember (type, member) fair

theorem balances_elementIndex (balanced : Balanced [] w) (ref : ObjectRef) (x : Float) :
    Balances w (elementIndex ref x) (elementIndex ref x) fun _ v => v = w ∧ True := by
  refine .host ?_
  dsimp only
  split
  · split
    · exact .pure ⟨rfl, trivial⟩
    · exact .fail balanced _
  · exact .fail balanced _

theorem balances_noMember {P : α → World Engine → Prop} (balanced : Balanced [] w) (type : TypeId)
    (key : Value) :
    Balances w (noMember type key : Run Bridge.Error α) (noMember type key) P :=
  .domain (.fail balanced _)

theorem balances_toScript {u : Host.Value} (balanced : Balanced [] w)
    (known : u.Within w.host.types) : Balances w (toScript u) (toScript u) fun x => Balanced [x] :=
  (yields_toScript balanced known).balances

theorem balances_staticSlot (balanced : Balanced [] w) (type : TypeId) (slot : Nat) :
    Balances w (staticSlot type slot >>= toScript) (staticSlot type slot >>= toScript)
      fun x => Balanced [x] :=
  Balances.look (R := (·.Within w.host.types)) (.host (.pure ⟨rfl, balanced.typed.static type slot⟩))
    fun _ known => balances_toScript balanced known

/-- What is stored into the host is typed. -/
theorem balances_store {β : Type} {g : Host.State → β × Host.State} (balanced : Balanced [] w)
    (types : w.host.Types (g w.host).2) :
    Balances w (onHost g : Run ε β) (onHost g) fun _ => Balanced [] :=
  .onHost types (Sound.rehost balanced types)

section

variable (agrees : Agrees run run')
include agrees

theorem balances_readProperty (getter : Method) {this : Option ObjectRef} (keys : List Value)
    (balanced : Balanced [] w)
    (target : ∀ ref, this = some ref → (Host.Value.object ref).Within w.host.types) :
    Balances w (readProperty run getter this keys) (readProperty run' getter this keys)
      fun x => Balanced [x] :=
  (balances_invokeMethod agrees getter keys balanced target).bind fun _ _ _ given =>
    balances_firstOf given

theorem balances_writeProperty (setter : Method) {this : Option ObjectRef} (values : List Value)
    (balanced : Balanced [] w)
    (target : ∀ ref, this = some ref → (Host.Value.object ref).Within w.host.types) :
    Balances w (writeProperty run setter this values) (writeProperty run' setter this values)
      fun _ => Balanced [] :=
  (balances_invokeMethod agrees setter values balanced target).bind fun _ _ _ given =>
    .discarded _ given

theorem balances_getMember (balanced : Balanced [] w)
    (known : (Host.Value.object ref).Within w.host.types) (key : Value) :
    Balances w (getMember run ref key) (getMember run' ref key) fun x => Balanced [x] := by
  have slot : ∀ i, Balances w (do toScript (((← host).heap.get? ref i).getD .null))
      (do toScript (((← host).heap.get? ref i).getD .null)) fun x => Balanced [x] := fun i =>
    .host (balances_toScript balanced (balanced.typed.getD ref i))
  refine (balances_typeInfo balanced _).look fun info _ => ?_
  split
  · refine (balances_elementIndex balanced ref _).look fun i _ => ?_
    exact slot i
  · refine .domain ?_
    dsimp only
    split
    · split
      · exact balances_staticSlot balanced _ _
      · exact slot _
    · exact balances_readProperty agrees _ _ balanced fun _ same => accessorThis_eq_some same ▸ known
    · exact (balances_methodWrapper balanced _ _).bind fun f _ _ given => .pure given
    · split
      · exact balances_readProperty agrees _ _ balanced fun _ same => Option.some.inj same ▸ known
      · exact balances_noMember balanced _ _

theorem balances_setMember (balanced : Balanced [] w)
    (known : (Host.Value.object ref).Within w.host.types) (key x : Value) :
    Balances w (setMember run ref key x) (setMember run' ref key x) fun _ => Balanced [] := by
  have store : ∀ i {stored : Host.Value} {u : World Engine}, Arrives stored u →
      Balances u (do let _ ← onHost (·.setSlot ref i stored) : Run Bridge.Error Unit)
        (do let _ ← onHost (·.setSlot ref i stored)) fun _ => Balanced [] := by
    intro i stored u ⟨given, within⟩
    exact (balances_store given (given.typed.setSlot within ref i)).bind fun _ _ _ later =>
      .pure later
  refine (balances_typeInfo balanced _).look fun info _ => ?_
  split
  · refine (balances_elementIndex balanced ref _).look fun i _ => ?_
    exact (balances_toHost balanced x _).bind fun stored _ _ arrived => store i arrived
  · refine .domain ?_
    dsimp only
    split
    · refine (balances_toHost balanced x _).bind fun stored u _ arrived => ?_
      split
      · exact balances_store arrived.1 (arrived.1.typed.setStatic arrived.2 _ _)
      · exact store _ arrived
    · exact balances_writeProperty agrees _ _ balanced fun _ same => accessorThis_eq_some same ▸ known
    · exact .fail balanced _
    · split
      · exact balances_writeProperty agrees _ _ balanced fun _ same => Option.some.inj same ▸ known
      · exact balances_noMember balanced _ _

theorem balances_getStatic (balanced : Balanced [] w) (type : TypeId) (key : Value) :
    Balances w (getStatic run type key) (getStatic run' type key) fun x => Balanced [x] := by
  refine .domain ?_
  dsimp only
  split
  · exact balances_staticSlot balanced _ _
  · exact balances_readProperty agrees _ _ balanced nofun
  · exact (balances_methodWrapper balanced _ _).bind fun f _ _ given => .pure given
  · exact balances_noMember balanced _ _

theorem balances_setStatic (balanced : Balanced [] w) (type : TypeId) (key x : Value) :
    Balances w (setStatic run type key x) (setStatic run' type key x) fun _ => Balanced [] := by
  refine .domain ?_
  dsimp only
  split
  · refine (balances_toHost balanced x _).bind fun stored u _ ⟨given, within⟩ => ?_
    exact balances_store given (given.typed.setStatic within _ _)
  · exact balances_writeProperty agrees _ _ balanced nofun
  · exact balances_noMember balanced _ _

omit agrees in
/-- Looking for a receiver changes nothing, and one that is found is an object of a known type. -/
theorem exists_receiver? (balanced : Balanced [] w) (type : TypeId) (x : Value) :
    ∃ this, callWrapped.receiver? type x w = (.ok this, w) ∧
      ∀ ref, this = some ref → (Host.Value.object ref).Within w.host.types := by
  obtain ⟨-, ends⟩ := balances_resolveValue balanced x
  have world := resolveValue_world x w
  unfold callWrapped.receiver?
  rw [bind_apply, outcome_apply]
  generalize resolveValue x w = ended at ends world
  obtain ⟨outcome, v⟩ := ended
  dsimp only at ends world ⊢
  subst world
  match outcome, ends with
  | .ok (.object ref), ⟨_, _, known⟩ =>
    refine ⟨_, rfl, fun other same => ?_⟩
    split at same
    · exact Option.some.inj same ▸ known
    · cases same
  | .ok (.type id), _ => exact ⟨none, rfl, nofun⟩
  | .error stop, _ => exact ⟨none, rfl, nofun⟩

theorem balances_callWrapped (balanced : Balanced [] w) (type : TypeId) (member : String)
    (arguments : List Value) :
    Balances w (callWrapped run type member arguments) (callWrapped run' type member arguments)
      Balanced := by
  obtain ⟨this, looked, known⟩ := exists_receiver? balanced type (arguments.headD .nil)
  refine .after looked (.refl w) ?_
  cases this with
  | none =>
    refine (balances_resolveMethod balanced _ _ _ _).bind fun m v _ ⟨given, _⟩ => ?_
    exact balances_invokeMethod agrees m arguments given nofun
  | some ref =>
    refine (balances_resolveMethod balanced _ _ _ _).attempt (fun m v _ ⟨given, same⟩ => ?_)
      (fun e v _ given => ?_) (fun message v _ given => .breakOff given message) rfl rfl
    · exact balances_invokeMethod agrees m _ given fun other is => same ▸ known other is
    · refine (balances_resolveMethod given _ _ _ _).attempt (fun m u _ ⟨later, _⟩ => ?_)
        (fun _ u _ later => .fail later e) (fun message u _ later => .breakOff later message) rfl rfl
      exact balances_invokeMethod agrees m arguments later nofun

theorem balances_describe (balanced : Balanced [] w)
    (known : (Host.Value.object ref).Within w.host.types) (h : Bridge.Handle) :
    Balances w (describe run ref h) (describe run' ref h) fun _ => Balanced [] := by
  have unnamed : ∀ (other : Option Value) {v : World Engine}, Balanced other.toList v →
      Balances v (do
        discard [] other.toList
        return (← typeInfo ref.type).name ++ ": " ++ h.text : Run Bridge.Error String)
        (do
        discard [] other.toList
        return (← typeInfo ref.type).name ++ ": " ++ h.text) fun _ => Balanced [] := by
    intro other v given
    refine (Balances.discarded [] given).bind fun _ u _ gone => ?_
    refine (balances_typeInfo gone _).look fun info _ => ?_
    exact .pure gone
  refine .domain ?_
  dsimp only
  split
  · rename_i m _
    refine (balances_invokeMethod agrees m [] balanced fun _ same => ?_).bind
      fun results v _ given => ?_
    · exact Option.some.inj same ▸ known
    · refine (balances_firstOf given).bind fun own u _ first => ?_
      cases own with
      | string bytes => exact .pure (first.forget (by simp))
      | _ => exact unnamed (some _) first
  · exact unnamed none balanced

end

/-! ## Provided functions -/

theorem balances_importType (balanced : Balanced [] w) (name : String) :
    Balances w (importType name) (importType name) fun x => Balanced [x] := by
  refine .domain ?_
  split
  · exact balances_classValue balanced _
  · exact .fail balanced _

theorem balances_textArgument (balanced : Balanced [] w) (arguments : List Value) (name : String) :
    Balances w (textArgument arguments name) (textArgument arguments name)
      fun _ v => v = w ∧ True := by
  unfold textArgument
  split
  · exact .pure ⟨rfl, trivial⟩
  · exact .fail balanced _

/-- Only functions that are no finalizers become patches. -/
theorem balances_addPatch (balanced : Balanced [] w) (signature : String) {f : FunctionRef}
    (fair : w.outer.Regular → f.Fair) :
    Balances w (addPatch signature f : Run ε Unit) (addPatch signature f) fun _ => Balanced [] := by
  refine .last rfl ⟨rfl, .refl, fun regular => regular.congr rfl rfl rfl⟩ ?_
  refine Sound.refit balanced (fun _ _ => id) balanced.furnished fun regular known => ?_
  exact known.insertPatch signature (fair regular)

theorem balances_removePatch (balanced : Balanced [] w) (signature : String) :
    Balances w (removePatch signature : Run ε Bool) (removePatch signature)
      fun _ => Balanced [] := by
  refine .last rfl ⟨rfl, .refl, fun regular => regular.congr rfl rfl rfl⟩ ?_
  exact Sound.refit balanced (fun _ _ => id) balanced.furnished
    fun _ known => known.erasePatch signature

theorem balances_objectOf (balanced : Balanced [] w) (x : Value) :
    Balances w (objectOf x) (objectOf x)
      fun ref v => v = w ∧ (Host.Value.object ref).Within w.host.types := by
  refine (balances_resolveValue balanced x).look fun referent known => ?_
  cases referent with
  | object ref => exact .pure ⟨rfl, known⟩
  | type id => exact .fail balanced _

/-- A release in a world of which little is known. -/
theorem balances_releaseRemains (balanced : Balanced [] w) (irregular : ¬ w.outer.Regular)
    (x : Value) :
    Balances w (releaseRemains x) (releaseRemains x) fun _ => Balanced [] := by
  unfold releaseRemains
  split
  · rename_i slot
    refine .bridge ?_
    cases found : w.outer.bridge.registry.release? (.ofWord slot) with
    | none => exact .pure balanced
    | some registry =>
      have entries := balanced.entries.release? found
      have slots : w.outer.bridge.registry.slots.size ≤ registry.slots.size := by
        have same := Bridge.Registry.size_le_apply w.outer.bridge.registry (.release (.ofWord slot))
        unfold Bridge.Registry.Operation.apply at same
        dsimp only at same
        rwa [found] at same
      have before : Engine.Regular { w.outer with
          bridge := { w.outer.bridge with registry }
          ledger := .finalized (.ofWord slot) :: w.outer.ledger } → w.outer.Regular :=
        fun later => later.earlier rfl rfl slots
      refine .last rfl ⟨rfl, .refl, before⟩ ?_
      exact ⟨balanced.typed, balanced.names, entries, balanced.globals, balanced.bindings,
        balanced.classes, balanced.furnished, fun later => (irregular (before later)).elim⟩
  · exact .pure balanced

section

variable (agrees : Agrees run run')
include agrees

theorem balances_applyTypeFunction (balanced : Balanced [] w) (type : TypeId) {f : TypeFunction}
    (fair : w.outer.Regular → f ≠ .finalize) (arguments : List Value) :
    Balances w (applyTypeFunction run type f arguments) (applyTypeFunction run' type f arguments)
      Balanced := by
  have anyone : ∀ {x : Value} {v : World Engine}, Balanced [] v → x.Plain → Balanced [x] v :=
    fun given plain => Sound.adopt given fun _ => .inr plain
  cases f with
  | instanceIndex =>
    refine (balances_objectOf balanced _).look fun ref known => ?_
    exact (balances_getMember agrees balanced known _).bind fun _ _ _ given => .pure given
  | instanceNewindex =>
    refine (balances_objectOf balanced _).look fun ref known => ?_
    exact (balances_setMember agrees balanced known _ _).bind fun _ _ _ given => .pure given
  | instanceText =>
    refine (balances_objectOf balanced _).look fun ref known => ?_
    exact (balances_describe agrees balanced known _).bind fun _ _ _ given =>
      .pure (anyone given trivial)
  | classCall =>
    have noTarget : ∀ ref, (none : Option ObjectRef) = some ref →
        (Host.Value.object ref).Within w.host.types := nofun
    refine (balances_callMember agrees type _ _ _ balanced noTarget).bind fun results v _ given => ?_
    rw [← List.take_append_drop 1 results] at given
    exact (Balances.discarded _ given).bind fun _ _ _ kept => .pure kept
  | classIndex =>
    exact (balances_getStatic agrees balanced _ _).bind fun _ _ _ given => .pure given
  | classNewindex =>
    exact (balances_setStatic agrees balanced _ _ _).bind fun _ _ _ given => .pure given
  | classText =>
    refine (balances_typeInfo balanced _).look fun info _ => ?_
    exact .pure (anyone balanced trivial)
  | finalize =>
    refine (balances_releaseRemains balanced (fun regular => fair regular rfl) _).bind ?_
    exact fun _ _ _ given => .pure given

theorem balances_applyBridgeFunction (balanced : Balanced [] w) {f : BridgeFunction}
    (fair : w.outer.Regular → ∀ type, f ≠ .ofType .finalize type) {arguments : List Value}
    (held : ∀ x ∈ arguments, x ∈ w.outer.held.flatten) :
    Balances w (applyBridgeFunction run f arguments) (applyBridgeFunction run' f arguments)
      Balanced := by
  cases f with
  | importType =>
    refine (balances_textArgument balanced _ _).look fun name _ => ?_
    exact (balances_importType balanced name).bind fun _ _ _ given => .pure given
  | patch =>
    refine (balances_textArgument balanced _ _).look fun signature _ => ?_
    split
    · rename_i f second
      have member : Value.function f ∈ arguments := by
        rw [List.getD_eq_getElem?_getD] at second
        cases found : arguments[1]? with
        | none =>
          rw [found] at second
          cases second
        | some x =>
          rw [found] at second
          cases second
          exact List.mem_of_getElem? found
      refine (balances_addPatch balanced signature (f := f) ?_).bind fun _ _ _ given => .pure given
      exact balanced.fair (.inl (Engine.mem_values_of_held (held _ member)))
    · exact .fail balanced _
  | unpatch =>
    refine (balances_textArgument balanced _ _).look fun signature _ => ?_
    refine (balances_removePatch balanced signature).bind fun _ _ _ given => .pure ?_
    exact Sound.adopt given fun _ => .inr trivial
  | findPatch =>
    refine (balances_textArgument balanced _ _).look fun signature _ => ?_
    exact .bridge (.pure (balanced.findPatch signature))
  | ofType f type =>
    refine balances_applyTypeFunction agrees balanced type (fun regular same => ?_) arguments
    exact fair regular type (same ▸ rfl)
  | member type name => exact balances_callWrapped agrees balanced type name arguments

/-- A function of the bridge that is no finalizer keeps a world balanced. -/
theorem balances_runBridgeFunction (balanced : Balanced [] w) {f : BridgeFunction}
    (fair : w.outer.Regular → ∀ type, f ≠ .ofType .finalize type) :
    Balances w (runBridgeFunction run f) (runBridgeFunction run' f) fun _ => Balanced [] := by
  refine .engine ?_
  dsimp only
  split
  · split
    · exact .pure balanced
    · exact .failHere balanced _
  · refine .script (Balances.holds (fun _ => []) ?_)
    have kept : Balanced [] (keeping w.outer.script.frameValues w) :=
      (balanced.regain fun _ x member => .inl (Engine.mem_values_of_stack
        (Script.State.mem_stack_of_mem_frameValues member))).keeping
    refine Balances.bind ((balances_applyBridgeFunction agrees kept (fun regular => ?_)
      fun x member => List.mem_append_left _ member).mapError _) fun results v _ given => ?_
    · exact fair (regular.congr rfl rfl rfl)
    · refine .afterScript (.pure ?_)
      exact Balanced.pushAll (by rwa [List.append_nil])

end

end Run

end ScriptHost

import ScriptHost.Proofs.Engine.Delivery
import ScriptHost.Proofs.Tables
import ScriptHost.Session.Interpreter
/-!
Instances of value types are passed by copy. A method that gets at such an instance only as an
argument works on the copy, and the slots of the instance itself stay as they are. The copy is not
deep: what a slot refers to is shared by the instance and its copy.
-/
namespace ScriptHost

open Host (AllOpen Context Domain Method ObjectRef Param ParamMode TypeId ValueType World)
open Bridge (Handle Referent Registry)

variable {ε δ α β : Type} {hidden : Nat → Prop} {I : Engine → Prop} {w v : World Engine}

/-! ## What may be passed -/

/-- An object that can be passed without giving away a hidden one: it is not hidden itself, or it is
an instance of a value type, of which a copy is passed, and none of its slots refers to a hidden
object. -/
def Host.State.Lends (hidden : Nat → Prop) (s : Host.State) (ref : ObjectRef) : Prop :=
  ref.Open hidden ∨
    (∃ info, s.domain.get? ref.type = some info ∧ info.isValueType) ∧
      AllOpen hidden (s.heap.slots ref).toList

/-- A script value that can be passed without giving away a hidden object. -/
def Lends (hidden : Nat → Prop) (w : World Engine) (v : Script.Value) : Prop :=
  ∀ wrapper, v = .handle wrapper → ∀ entry ref,
    w.outer.bridge.registry.entry? (.ofWord wrapper.slot) = some entry → entry.object? = some ref →
      w.host.Lends hidden ref

/-- A hidden object keeps its slots. -/
theorem Host.State.Shields.slots {s t : Host.State} (shields : s.Shields hidden t) {ref : ObjectRef}
    (isHidden : hidden ref.id) : t.heap.slots ref = s.heap.slots ref := by
  unfold Host.Heap.slots
  rw [Array.getD_eq_getD_getElem?, Array.getD_eq_getD_getElem?,
    shields.leads.unseen ref.id isHidden]

/-- What can be passed can be passed later. -/
theorem Host.State.Lends.later {s t : Host.State} {ref : ObjectRef} (lends : s.Lends hidden ref)
    (shields : s.Shields hidden t) : t.Lends hidden ref := by
  by_cases isHidden : hidden ref.id
  · obtain ⟨⟨info, found, isValue⟩, slots⟩ := lends.resolve_left fun isOpen => isOpen isHidden
    refine .inr ⟨⟨info, shields.leads.types.extends.get? found, isValue⟩, ?_⟩
    rw [shields.slots isHidden]
    exact slots
  · exact .inl isHidden

/-- A copy refers to what the object refers to. -/
theorem Host.State.Veiled.duplicate {s : Host.State} (isVeiled : s.Veiled hidden) {ref : ObjectRef}
    (slots : AllOpen hidden (s.heap.slots ref).toList) :
    (s.duplicate ref).1.Open hidden ∧ s.Shields hidden (s.duplicate ref).2 :=
  isVeiled.allocate ref.type slots

namespace Run

/-! ## Computations that leave hidden objects alone -/

/-- A computation that leaves hidden objects alone wherever a world may have led. What it gives has
a property. -/
def Spares (hidden : Nat → Prop) (I : Engine → Prop) (w : World Engine) (P : α → Prop)
    (m : Run ε α) : Prop :=
  ∀ v, w.Shields hidden I v → w.Shields hidden I (m v).2 ∧ ∀ a, (m v).1 = .ok a → P a

namespace Spares

variable {P : α → Prop} {Q : β → Prop}

theorem pure {a : α} (given : P a) : Spares hidden I w P (pure a : Run ε α) :=
  fun _ shields => ⟨shields, fun _ same => Except.ok.inj same ▸ given⟩

theorem fail (e : ε) : Spares hidden I w P (fail e : Run ε α) :=
  fun _ shields => ⟨shields, fun _ same => (nomatch same)⟩

theorem ofExcept {r : Except ε α} (given : ∀ a, r = .ok a → P a) :
    Spares hidden I w P (ofExcept r) := by
  cases r with
  | ok a => exact .pure (given a rfl)
  | error e => exact .fail e

theorem bind {m : Run ε α} {f : α → Run ε β} (first : Spares hidden I w P m)
    (second : ∀ a, P a → Spares hidden I w Q (f a)) : Spares hidden I w Q (m >>= f) := by
  intro v shields
  obtain ⟨reached, given⟩ := first v shields
  rw [bind_apply]
  cases result : m v with
  | mk outcome u =>
    rw [result] at reached given
    cases outcome with
    | error stop => exact ⟨reached, fun _ same => (nomatch same)⟩
    | ok a => exact second a (given a rfl) u reached

theorem mapError {m : Run ε α} (spares : Spares hidden I w P m) (f : ε → δ) :
    Spares hidden I w P (m.mapError f) := by
  intro v shields
  obtain ⟨reached, given⟩ := spares v shields
  rw [mapError_apply]
  refine ⟨reached, fun a same => ?_⟩
  cases result : (m v).1 with
  | ok b =>
    rw [result] at same given
    cases same
    exact given _ rfl
  | error stop =>
    rw [result] at same
    cases same

theorem get : Spares hidden I w (w.Shields hidden I) (get : Run ε (World Engine)) :=
  fun _ shields => ⟨shields, fun _ same => Except.ok.inj same ▸ shields⟩

theorem domain : Spares hidden I w (w.host.domain.Evolves ·) (domain : Run ε Domain) :=
  get.bind fun _ shields => .pure shields.host.leads.types

theorem onHost {f : Host.State → α × Host.State}
    (changes : ∀ s, w.host.Shields hidden s → P (f s).1 ∧ s.Shields hidden (f s).2) :
    Spares hidden I w P (onHost f : Run ε α) := by
  intro v shields
  obtain ⟨given, later⟩ := changes v.host shields.host
  exact ⟨⟨shields.host.trans later, shields.outer⟩, fun _ same => Except.ok.inj same ▸ given⟩

/-- A change to the engine that its surroundings allow for. -/
theorem modifyEngine {f : Engine → Engine} (kept : ∀ e, I e → I (f e)) :
    Spares hidden I w (fun _ => True) (modifyEngine f : Run ε Unit) :=
  fun v shields => ⟨⟨shields.host, kept v.outer shields.outer⟩, fun _ _ => trivial⟩

theorem mapM {f : α → Run ε β} {as : List α} (each : ∀ a ∈ as, Spares hidden I w Q (f a)) :
    Spares hidden I w (fun bs => ∀ b ∈ bs, Q b) (as.mapM f) := by
  induction as with
  | nil => exact .pure fun _ member => (List.not_mem_nil member).elim
  | cons a rest ih =>
    rw [List.mapM_cons]
    refine (each a List.mem_cons_self).bind fun b known => ?_
    refine (ih fun x member => each x (List.mem_cons_of_mem a member)).bind fun bs others => ?_
    exact .pure (List.forall_mem_cons.2 ⟨known, others⟩)

theorem foldlM {f : β → α → Run ε β} {as : List α} {b : β}
    (each : ∀ b a, Spares hidden I w (fun _ => True) (f b a)) :
    Spares hidden I w (fun _ => True) (as.foldlM f b) := by
  induction as generalizing b with
  | nil => exact .pure trivial
  | cons a rest ih => exact Spares.bind (each b a) fun c _ => ih

end Spares

/-! ## To the host -/

/-- What is passed for an object is not hidden. -/
theorem spares_copyIfStruct {ref : ObjectRef} (lends : w.host.Lends hidden ref) :
    Spares hidden I w (ObjectRef.Open hidden) (copyIfStruct ref : Run ε ObjectRef) := by
  have copies : ∀ s, w.host.Shields hidden s →
      (s.duplicate ref).1.Open hidden ∧ s.Shields hidden (s.duplicate ref).2 := fun s shields => by
    refine shields.isVeiled.duplicate ?_
    rcases lends.later shields with isOpen | ⟨_, slots⟩
    · exact shields.isVeiled.slot isOpen
    · exact slots
  refine Spares.domain.bind fun d evolves => ?_
  rcases lends with isOpen | ⟨⟨info, found, isValue⟩, slots⟩
  · split
    · split
      · exact .onHost copies
      · exact .pure isOpen
    · exact .pure isOpen
  · rw [evolves.extends.get? found]
    dsimp only
    rw [if_pos isValue]
    exact .onHost copies

/-- What arrives in the host is open, as long as the engine stays as it is. -/
theorem spares_toHost {x : Script.Value} (lends : Lends hidden w x) (type : ValueType) :
    Spares hidden (· = w.outer) w (Host.Value.Open hidden) (toHost x type) := by
  have plain : ∀ x : Script.Value, Spares hidden (· = w.outer) w (Host.Value.Open hidden)
      (do ofExcept (plainToHost (← domain) x type)) := fun x =>
    Spares.domain.bind fun d _ => .ofExcept fun u => open_plainToHost
  cases x with
  | handle h =>
    refine Spares.bind (P := fun referent => ∀ ref, referent = Referent.object ref →
        w.host.Lends hidden ref) ?_ fun referent known => ?_
    · refine Spares.get.bind fun v shields => .ofExcept fun referent resolved ref same => ?_
      rw [same, shields.outer] at resolved
      obtain ⟨entry, found, object⟩ := Registry.entry?_of_resolve resolved
      exact lends h rfl entry ref found object
    · cases referent with
      | type _ => exact .fail _
      | object ref =>
        refine Spares.domain.bind fun d _ => ?_
        split
        · exact (spares_copyIfStruct (known ref rfl)).bind fun copied isOpen => .pure isOpen
        · exact .fail _
  | _ => exact plain _

theorem spares_marshalArguments (params : List Param) {arguments : List Script.Value}
    (lends : ∀ x ∈ arguments, Lends hidden w x) :
    Spares hidden (· = w.outer) w (AllOpen hidden) (marshalArguments params arguments) := by
  induction params generalizing arguments with
  | nil => exact .pure .nil
  | cons p rest ih =>
    have tail : ∀ x ∈ arguments.tail, Lends hidden w x := fun x member =>
      lends x (List.mem_of_mem_tail member)
    have head : Lends hidden w (arguments.headD .nil) := by
      cases arguments with
      | nil => exact fun wrapper same => (nomatch same)
      | cons x _ => exact lends x List.mem_cons_self
    have slot : Spares hidden (· = w.outer) w (Host.Value.Open hidden)
        (toHostSlot (arguments.headD .nil) p.type p.mode) := by
      unfold toHostSlot
      split
      · exact .pure (Host.Value.open_defaultFor p.type)
      · exact spares_toHost head p.type
    unfold marshalArguments
    split
    · refine slot.bind fun u known => ?_
      exact (ih tail).bind fun us others => .pure (others.cons known)
    · refine (ih lends).bind fun us others => ?_
      exact .pure (others.cons (Host.Value.open_defaultFor p.type))

/-! ## To scripts -/

/-- Making a value for scripts out of an open one changes nothing else of the host. -/
theorem spares_toScript {u : Host.Value} (known : u.Open hidden) :
    Spares hidden (fun _ => True) w (fun _ => True) (toScript u) := by
  have changes : ∀ (f : Engine → Engine) (w : World Engine),
      Spares hidden (fun _ => True) w (fun _ => True) (modifyEngine f : Run Bridge.Error Unit) :=
    fun f w => .modifyEngine fun _ _ => trivial
  have scripts : ∀ {γ : Type} (f : Script.State → γ × Script.State),
      Spares hidden (fun _ => True) w (fun _ => True) (onScript f : Run Bridge.Error γ) :=
    fun f => Spares.get.bind fun _ _ => (changes _ w).bind fun _ _ => .pure trivial
  have registers : ∀ type, Spares hidden (fun _ => True) w (fun _ => True) (registerType type) := by
    intro type
    have part : ∀ b p, Spares hidden (fun _ => True) w (fun _ => True)
        (addTypeFunction type b p : Run Bridge.Error _) := fun b p =>
      (scripts _).bind fun _ _ => .pure trivial
    refine Spares.get.bind fun _ _ => ?_
    split
    · exact .pure trivial
    · refine Spares.bind (P := fun _ => True) ?_ fun info _ => ?_
      · refine Spares.domain.bind fun d _ => ?_
        split
        · exact .pure trivial
        · exact .fail _
      refine (Spares.foldlM part).bind fun ofInstance _ => ?_
      refine (Spares.foldlM part).bind fun ofClass _ => ?_
      refine (scripts _).bind fun instanceKey _ => (scripts _).bind fun classKey _ => ?_
      exact (changes _ w).bind fun _ _ => .pure trivial
  cases u with
  | object ref =>
    refine (spares_copyIfStruct (.inl known)).bind fun copied _ => ?_
    refine (registers copied.type).bind fun keys _ => ?_
    refine Spares.bind (P := fun _ => True) ?_ fun h _ => scripts _
    exact Spares.get.bind fun _ _ => (changes _ w).bind fun _ _ => .pure trivial
  | _ => exact .pure trivial

theorem spares_marshalResults (m : Method) {u : Host.Value} {left : List Host.Value}
    (known : u.Open hidden) (others : AllOpen hidden left) :
    Spares hidden (fun _ => True) w (fun _ => True) (marshalResults m u left) := by
  have values : ∀ {us : List Host.Value}, AllOpen hidden us →
      Spares hidden (fun _ => True) w (fun _ => True) (us.mapM toScript) := fun known v shields =>
    ⟨((Spares.mapM fun u member => spares_toScript (known u member)) v shields).1,
      fun _ _ => trivial⟩
  have received : AllOpen hidden ((m.params.zip left).filterMap fun pair =>
      if pair.1.isByRef then some pair.2 else none) := by
    intro x member
    obtain ⟨⟨p, argument⟩, pair, same⟩ := List.mem_filterMap.1 member
    have given := others argument (List.of_mem_zip pair).2
    dsimp only at same
    split at same <;> cases same
    exact given
  refine values ?_
  split
  · exact received.cons known
  · exact received

/-! ## Calls -/

theorem spares_invokeHost {ctx : Context Engine} (confined : ctx.Confined hidden I) (m : Method)
    {this : Option ObjectRef} {passed : List Host.Value}
    (target : ∀ ref, this = some ref → ref.Open hidden) (known : AllOpen hidden passed) :
    Spares hidden I w (fun given => given.1.Open hidden ∧ AllOpen hidden given.2)
      (invokeHost ctx m this passed) := by
  refine Spares.bind (P := fun c : Host.Completion => c.Open hidden) ?_ fun c completed => ?_
  · intro v shields
    have listed : AllOpen hidden passed.toArray.toList := known
    obtain ⟨later, completed⟩ :=
      Host.confined_invoke confined Host.callDepth m target listed v shields.isVeiled
    exact ⟨shields.trans later, fun c same => Except.ok.inj same ▸ completed⟩
  · cases ending : c.ending with
    | returned u => exact .pure ⟨completed.value u ending, completed.args⟩
    | threw e => exact .fail e
    | interrupted i => cases i <;> exact fun _ shields => ⟨shields, fun _ same => (nomatch same)⟩

theorem shields_invokeMethod (run : Runner) (m : Method) {this : Option ObjectRef}
    {arguments : List Script.Value} (isVeiled : w.Veiled hidden I)
    (confined : (patchedContext run w.outer.bridge.options.stepLimit).Confined hidden I)
    (target : ∀ ref, this = some ref → ref.Open hidden)
    (lends : ∀ x ∈ arguments, Lends hidden w x) :
    w.Shields hidden (fun _ => True) (invokeMethod run m this arguments w).2 := by
  obtain ⟨before, given⟩ := spares_marshalArguments m.params lends w ⟨isVeiled.host.shields, rfl⟩
  unfold invokeMethod
  rw [bind_apply]
  cases marshalled : marshalArguments m.params arguments w with
  | mk outcome v =>
    rw [marshalled] at before given
    cases outcome with
    | error stop => exact ⟨before.host, trivial⟩
    | ok passed =>
      have reached : w.Shields hidden I v := ⟨before.host, before.outer ▸ isVeiled.outer⟩
      dsimp only
      rw [bridge_bind_apply, before.outer]
      obtain ⟨called, completed⟩ := (spares_invokeHost confined m target (given passed rfl)).mapError
        Bridge.Error.host v reached
      rw [bind_apply]
      cases result : (invokeHost (patchedContext run w.outer.bridge.options.stepLimit) m this
          passed).mapError Bridge.Error.host v with
      | mk outcome u =>
        rw [result] at called completed
        cases outcome with
        | error stop => exact ⟨called.host, trivial⟩
        | ok given =>
          obtain ⟨value, others⟩ := completed given rfl
          exact (spares_marshalResults m value others u ⟨called.host, trivial⟩).1

/-- Where nothing is patched, patches disturb nothing. -/
theorem confined_patchedContext (run : Runner) (limit : Nat) :
    (patchedContext run limit).Confined hidden (·.bridge.patches.isEmpty = true) := by
  intro r _ v isVeiled
  have absent : dispatchPatch run r v = (.ok false, v) :=
    dispatchPatch_absent (Table.find?_of_isEmpty isVeiled.outer r.signature)
  unfold patchedContext
  dsimp only
  rw [absent]
  exact isVeiled.shields

/-- A call leaves the slots of hidden objects as they are. Hidden are objects to which nothing else
of the host refers. The call may be given script values that stand for hidden instances of value
types, since it gets copies, as long as these do not refer to hidden objects in their turn. -/
theorem slots_of_invokeMethod (run : Runner) (m : Method) (this : Option ObjectRef)
    (arguments : List Script.Value) (w : World Engine) (isVeiled : w.Veiled hidden I)
    (confined : (patchedContext run w.outer.bridge.options.stepLimit).Confined hidden I)
    (target : ∀ ref, this = some ref → ref.Open hidden)
    (lends : ∀ x ∈ arguments, Lends hidden w x) (ref : ObjectRef) (isHidden : hidden ref.id) :
    (invokeMethod run m this arguments w).2.host.heap.slots ref = w.host.heap.slots ref :=
  (shields_invokeMethod run m isVeiled confined target lends).host.slots isHidden

/-! ### A value type in a value type -/

/-- A method with a parameter of a value type. -/
def takesOuter (name : String) (code : Array Host.Instr) : Host.MethodDecl :=
  ⟨name, .static, [⟨"o", .named "Outer", .input⟩], .void, .code ⟨#[], code⟩, none⟩

/-- Stores into its parameter. -/
def markDecl : Host.MethodDecl :=
  takesOuter "Mark" #[.ldArg 0, .ldBool true, .stFld 1, .ret]

/-- Stores into what is stored in its parameter. -/
def pokeDecl : Host.MethodDecl :=
  takesOuter "Poke" #[.ldArg 0, .ldFld 0, .ldBool true, .stFld 0, .ret]

/-- A value type, and another one with a field of it. -/
def nestedTypes : List Host.TypeDecl :=
  [⟨"Inner", none, true, [⟨"seen", .bool, false⟩], []⟩,
    ⟨"Outer", none, true, [⟨"inner", .named "Inner", false⟩, ⟨"seen", .bool, false⟩],
      [markDecl, pokeDecl]⟩]

/-- A host with an instance of each, one stored in the other. -/
def nestedHost : Host.State :=
  let types : Host.State := nestedTypes.foldl (fun s decl => (s.define decl).2) {}
  let (inner, s) := types.allocate ⟨1⟩ #[.bool false]
  (s.allocate ⟨2⟩ #[.object inner, .bool false]).2

/-- The outer instance is given to scripts: they hold object 2, a copy, by the handle of slot 0. -/
def lent : World Engine :=
  (toScript (.object ⟨1, ⟨2⟩⟩) ⟨nestedHost, #[], [], .ofOptions {}⟩).2

theorem veiled_lent : lent.Veiled (· = 2) (·.bridge.patches.isEmpty = true) := by
  have objects : lent.host.heap.objects =
      #[#[.bool false], #[.object ⟨0, ⟨1⟩⟩, .bool false], #[.object ⟨0, ⟨1⟩⟩, .bool false]] := by
    decide +kernel
  have statics : lent.host.statics = #[#[], #[], #[]] := by decide +kernel
  have inner : Host.Value.Open (· = 2) (.object ⟨0, ⟨1⟩⟩) := by
    intro same
    cases same
  have outer : AllOpen (· = 2) [.object ⟨0, ⟨1⟩⟩, .bool false] := .cons inner (.cons trivial .nil)
  refine ⟨⟨fun id same => ?_, fun id slots _ found => ?_, fun slots member => ?_⟩, by decide +kernel⟩
  · rw [objects, same]
    decide
  · have member := Array.mem_of_getElem? found
    rw [objects] at member
    simp only [List.mem_toArray, List.mem_cons, List.not_mem_nil, or_false] at member
    rcases member with rfl | rfl | rfl
    · exact .cons trivial .nil
    · exact outer
    · exact outer
  · rw [statics] at member
    simp only [List.mem_toArray, List.mem_cons, List.not_mem_nil, or_false, or_self] at member
    rw [member]
    exact .nil

theorem lends_lent : Lends (· = 2) lent (.handle ⟨9, 0, 0⟩) := by
  have entry : lent.outer.bridge.registry.entry? (.ofWord 0) = some (.strong ⟨2, ⟨2⟩⟩) := by
    decide +kernel
  have slots : lent.host.heap.slots ⟨2, ⟨2⟩⟩ = #[.object ⟨0, ⟨1⟩⟩, .bool false] := by decide +kernel
  have isValue : ((lent.host.domain.get? ⟨2⟩).map (·.isValueType)) = some true := by decide +kernel
  intro wrapper same found ref known object
  cases same
  rw [entry] at known
  cases known
  cases object
  obtain ⟨info, there, value⟩ := Option.map_eq_some_iff.1 isValue
  refine .inr ⟨⟨info, there, value⟩, ?_⟩
  rw [slots]
  exact .cons (fun same => nomatch same) (.cons trivial .nil)

/-- What a method stores into its parameter goes to the copy. -/
theorem slots_of_mark :
    let after := (invokeMethod (Session.interpreter 9).function (markDecl.toMethod ⟨1⟩ ⟨2⟩ "Outer")
      none [.handle ⟨9, 0, 0⟩] lent).2.host.heap
    after.slots ⟨2, ⟨2⟩⟩ = lent.host.heap.slots ⟨2, ⟨2⟩⟩ ∧
      after.slots ⟨3, ⟨2⟩⟩ = #[.object ⟨0, ⟨1⟩⟩, .bool true] :=
  ⟨slots_of_invokeMethod (Session.interpreter 9).function (markDecl.toMethod ⟨1⟩ ⟨2⟩ "Outer") none
    [.handle ⟨9, 0, 0⟩] lent veiled_lent (confined_patchedContext _ _) (fun _ same => nomatch same)
    (List.forall_mem_singleton.2 lends_lent) ⟨2, ⟨2⟩⟩ rfl, by decide +kernel⟩

/-- What a method stores into an instance that is stored in its parameter, scripts read from theirs. -/
theorem inner_of_poke :
    let poke := pokeDecl.toMethod ⟨2⟩ ⟨2⟩ "Outer"
    let after := (invokeMethod (Session.interpreter 9).function poke none [.handle ⟨9, 0, 0⟩]
      lent).2.host.heap
    lent.host.domain.method? ⟨2⟩ = some poke ∧
      lent.host.heap.get? ⟨2, ⟨2⟩⟩ 0 = some (.object ⟨0, ⟨1⟩⟩) ∧
      lent.host.heap.get? ⟨0, ⟨1⟩⟩ 0 = some (.bool false) ∧
      after.get? ⟨2, ⟨2⟩⟩ 0 = some (.object ⟨0, ⟨1⟩⟩) ∧
      after.get? ⟨0, ⟨1⟩⟩ 0 = some (.bool true) := by
  decide +kernel

end Run

end ScriptHost

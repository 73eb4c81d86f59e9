import ScriptHost.Proofs.Engine.Patches
import ScriptHost.Proofs.Engine.Resolving
import ScriptHost.Proofs.Host.Conduct
/-!
Calls into the host from two engines. Where handles refer to the same and types are known under the
same keys, arguments arrive alike in the host, and as long as patches answer the same, results come
back alike: the wrappers among them may have different numbers, but they stand for the same.
-/
namespace ScriptHost

open Host (Concur World)
open Script (Value)

variable {ε δ α β α' β' : Type} {S : Engine → Engine → Prop} {w v : World Engine}

/-- Two engines in which handles refer to the same, and types are known to scripts under the same
keys. -/
structure Engine.Agrees (e e' : Engine) : Prop where
  names : e'.names = e.names
  options : e'.bridge.options = e.bridge.options
  registry : e'.bridge.registry = e.bridge.registry
  exposed : e'.bridge.exposed = e.bridge.exposed
  behaviours : e'.script.behaviours.size = e.script.behaviours.size

namespace Engine.Agrees

theorem refl (e : Engine) : e.Agrees e :=
  ⟨rfl, rfl, rfl, rfl, rfl⟩

theorem trans {e e' e'' : Engine} (first : e.Agrees e') (second : e'.Agrees e'') : e.Agrees e'' :=
  ⟨second.names.trans first.names, second.options.trans first.options,
    second.registry.trans first.registry, second.exposed.trans first.exposed,
    second.behaviours.trans first.behaviours⟩

end Engine.Agrees

theorem Host.World.Beside.trans {u : World Engine} (first : World.Beside Engine.Agrees w v)
    (second : World.Beside Engine.Agrees v u) : World.Beside Engine.Agrees w u :=
  ⟨second.host.trans first.host, second.pins.trans first.pins, first.outer.trans second.outer⟩

/-- A value without the number of its wrapper: what it stands for, and what can be done with it. -/
def Script.Value.meaning : Value → Value
  | .handle w => .handle { w with id := 0 }
  | v => v

namespace Run

/-! ## Computations on two engines -/

/-- Two computations end alike: with results that are related, or with the same reason. -/
inductive EndsLike (P : α → α' → Prop) : Except (Stop ε) α → Except (Stop ε) α' → Prop
  | ok {a : α} {b : α'} (related : P a b) : EndsLike P (.ok a) (.ok b)
  | error (stop : Stop ε) : EndsLike P (.error stop) (.error stop)

theorem EndsLike.eq {r r' : Except (Stop ε) α} (alike : EndsLike Eq r r') : r' = r := by
  cases alike with
  | ok same => rw [same]
  | error stop => rfl

/-- Two computations that end alike in worlds that stand side by side, and leave such worlds. -/
def Likewise (S : Engine → Engine → Prop) (P : α → α' → Prop) (m : Run ε α) (n : Run ε α') : Prop :=
  ∀ w v, World.Beside S w v → EndsLike P (m w).1 (n v).1 ∧ World.Beside S (m w).2 (n v).2

namespace Likewise

variable {P : α → α' → Prop} {Q : β → β' → Prop}

theorem pure {a : α} {b : α'} (related : P a b) : Likewise S P (pure a : Run ε α) (pure b) :=
  fun _ _ beside => ⟨.ok related, beside⟩

theorem fail (e : ε) : Likewise S P (fail e) (fail e) :=
  fun _ _ beside => ⟨.error _, beside⟩

/-- What comes later may relate the engines more loosely. -/
theorem bind_weaker {T : Engine → Engine → Prop} {m : Run ε α} {n : Run ε α'} {f : α → Run ε β}
    {g : α' → Run ε β'} (first : Likewise S P m n) (weaker : ∀ e e', S e e' → T e e')
    (second : ∀ a b, P a b → ∀ w v, World.Beside S w v →
      EndsLike Q (f a w).1 (g b v).1 ∧ World.Beside T (f a w).2 (g b v).2)
    (beside : World.Beside S w v) :
    EndsLike Q ((m >>= f) w).1 ((n >>= g) v).1 ∧
      World.Beside T ((m >>= f) w).2 ((n >>= g) v).2 := by
  obtain ⟨alike, after⟩ := first w v beside
  rw [bind_apply, bind_apply]
  generalize m w = left at alike after
  generalize n v = right at alike after
  obtain ⟨result, w⟩ := left
  obtain ⟨result', v⟩ := right
  cases alike with
  | ok related => exact second _ _ related w v after
  | error stop => exact ⟨.error stop, after.host, after.pins, weaker _ _ after.outer⟩

theorem bind {m : Run ε α} {n : Run ε α'} {f : α → Run ε β} {g : α' → Run ε β'}
    (first : Likewise S P m n) (second : ∀ a b, P a b → Likewise S Q (f a) (g b)) :
    Likewise S Q (m >>= f) (n >>= g) :=
  fun _ _ beside => first.bind_weaker (fun _ _ => id) second beside

/-- What comes after two computations that give the same. -/
theorem andThen {m n : Run ε α} {f : α → Run ε β} {g : α → Run ε β'} (first : Likewise S Eq m n)
    (second : ∀ a, Likewise S Q (f a) (g a)) : Likewise S Q (m >>= f) (n >>= g) :=
  first.bind fun a _ same => same ▸ second a

theorem ofExcept (r : Except ε α) : Likewise S Eq (ofExcept r) (ofExcept r) := by
  cases r with
  | ok a => exact .pure rfl
  | error e => exact .fail e

theorem domain : Likewise S Eq (domain : Run ε Host.Domain) domain :=
  fun _ _ beside => ⟨.ok (congrArg Host.State.domain beside.host.symm), beside⟩

theorem onHost (f : Host.State → α × Host.State) :
    Likewise S Eq (onHost f : Run ε α) (onHost f) := by
  intro w v beside
  have same : v.host = w.host := beside.host
  refine ⟨.ok (congrArg (fun s => (f s).1) same.symm), ?_, beside.pins, beside.outer⟩
  exact congrArg (fun s => (f s).2) same

theorem mapError {m n : Run ε α} (likewise : Likewise S Eq m n) (f : ε → δ) :
    Likewise S Eq (m.mapError f) (n.mapError f) := by
  intro w v beside
  obtain ⟨alike, after⟩ := likewise w v beside
  rw [mapError_apply, mapError_apply]
  refine ⟨?_, after⟩
  generalize (m w).1 = result at alike
  generalize (n v).1 = result' at alike
  cases alike with
  | ok same =>
    cases same
    exact .ok rfl
  | error stop => exact .error (stop.map f)

/-- Changing both engines in ways that keep them related. -/
theorem modifyEngine {f g : Engine → Engine} (kept : ∀ e e', S e e' → S (f e) (g e')) :
    Likewise S Eq (modifyEngine f : Run ε Unit) (modifyEngine g) :=
  fun _ _ beside => ⟨.ok rfl, beside.host, beside.pins, kept _ _ beside.outer⟩

theorem mapM {f : β → Run ε α} {g : β → Run ε α'} (each : ∀ b, Likewise S P (f b) (g b))
    (values : List β) : Likewise S (List.Forall₂ P) (values.mapM f) (values.mapM g) := by
  induction values with
  | nil => exact .pure .nil
  | cons b rest ih =>
    rw [List.mapM_cons, List.mapM_cons]
    exact (each b).bind fun _ _ related => ih.bind fun _ _ others => .pure (.cons related others)

end Likewise

/-! ## To the host -/

section

variable (agrees : ∀ e e', S e e' → e.Agrees e')
include agrees

theorem likewise_resolveHandle (h : Bridge.Handle) :
    Likewise S Eq (resolveHandle h) (resolveHandle h) := by
  intro w v beside
  obtain ⟨names, -, registry, -, -⟩ := agrees _ _ beside.outer
  have alive : aliveIn v = aliveIn w := by
    funext ref
    unfold aliveIn
    rw [beside.host, beside.pins, names, registry]
  have same : v.outer.bridge.registry.resolve (aliveIn v) h =
      w.outer.bridge.registry.resolve (aliveIn w) h := by rw [alive, registry]
  change EndsLike Eq (ofExcept (w.outer.bridge.registry.resolve (aliveIn w) h) w).1
      (ofExcept (v.outer.bridge.registry.resolve (aliveIn v) h) v).1 ∧
    World.Beside S (ofExcept (w.outer.bridge.registry.resolve (aliveIn w) h) w).2
      (ofExcept (v.outer.bridge.registry.resolve (aliveIn v) h) v).2
  rw [same]
  exact Likewise.ofExcept _ w v beside

omit agrees in
theorem likewise_copyIfStruct (ref : Host.ObjectRef) :
    Likewise S Eq (copyIfStruct ref : Run ε _) (copyIfStruct ref) := by
  refine Likewise.domain.andThen fun d => ?_
  cases d.get? ref.type with
  | none => exact .pure rfl
  | some info =>
    dsimp only
    split
    · exact .onHost _
    · exact .pure rfl

theorem likewise_toHost (x : Value) (type : Host.ValueType) :
    Likewise S Eq (toHost x type) (toHost x type) := by
  unfold toHost
  cases x with
  | handle h =>
    refine (likewise_resolveHandle agrees _).andThen fun referent => ?_
    cases referent with
    | type id => exact .fail _
    | object ref =>
      refine Likewise.domain.andThen fun d => ?_
      split
      · exact (likewise_copyIfStruct ref).andThen fun copy => .pure rfl
      · exact .fail _
  | nil | bool | number | string | pointer | function =>
    exact Likewise.domain.andThen fun d => .ofExcept _

theorem likewise_toHostSlot (x : Value) (type : Host.ValueType) (mode : Host.ParamMode) :
    Likewise S Eq (toHostSlot x type mode) (toHostSlot x type mode) := by
  unfold toHostSlot
  split
  · exact .pure rfl
  · exact likewise_toHost agrees x type

/-- Arguments arrive alike in the host. -/
theorem likewise_marshalArguments (params : List Host.Param) (arguments : List Value) :
    Likewise S Eq (marshalArguments params arguments) (marshalArguments params arguments) := by
  induction params generalizing arguments with
  | nil => exact .pure rfl
  | cons p rest ih =>
    unfold marshalArguments
    split
    · refine (likewise_toHostSlot agrees _ p.type p.mode).andThen fun x => ?_
      exact (ih _).andThen fun others => .pure rfl
    · exact (ih _).andThen fun others => .pure rfl

end

/-! ## To scripts -/

theorem Likewise.onScript {f g : Script.State → α × Script.State}
    {P : α → α → Prop} (related : ∀ s t, t.behaviours.size = s.behaviours.size →
      P (f s).1 (g t).1 ∧ (g t).2.behaviours.size = (f s).2.behaviours.size) :
    Likewise Engine.Agrees P (onScript f : Run ε α) (onScript g) := by
  intro w v beside
  obtain ⟨names, options, registry, exposed, behaviours⟩ := beside.outer
  obtain ⟨given, size⟩ := related w.outer.script v.outer.script behaviours
  exact ⟨.ok given, beside.host, beside.pins, names, options, registry, exposed, size⟩

theorem likewise_typeInfo (type : Host.TypeId) :
    Likewise S Eq (typeInfo type) (typeInfo type) := by
  refine Likewise.domain.andThen fun d => ?_
  cases d.get? type with
  | some info => exact .pure rfl
  | none => exact .fail _

/-- Functions are put into behaviours that are being made. -/
theorem likewise_addTypeFunctions (type : Host.TypeId)
    (parts : List (Script.BehaviourPart × String × Script.TypeFunction)) (b c : Script.Behaviour) :
    Likewise Engine.Agrees (fun _ _ => True) (parts.foldlM (addTypeFunction type) b : Run ε _)
      (parts.foldlM (addTypeFunction type) c) := by
  induction parts generalizing b c with
  | nil => exact .pure trivial
  | cons part rest ih =>
    have added : Likewise Engine.Agrees (fun _ _ => True) (addTypeFunction type b part : Run ε _)
        (addTypeFunction type c part) :=
      Likewise.bind (P := fun _ _ => True) (.onScript fun s t size => ⟨trivial, size⟩)
        fun _ _ _ => .pure trivial
    exact added.bind fun b c _ => ih b c

/-- A type becomes known under the same keys. -/
theorem likewise_registerType (type : Host.TypeId) :
    Likewise Engine.Agrees Eq (registerType type) (registerType type) := by
  intro w v beside
  unfold registerType
  rw [bridge_bind_apply, bridge_bind_apply, beside.outer.exposed]
  cases w.outer.bridge.exposed.find? type with
  | some keys => exact Likewise.pure rfl w v beside
  | none =>
    refine Likewise.andThen (likewise_typeInfo type) (fun info => ?_) w v beside
    refine (likewise_addTypeFunctions type _ _ _).bind fun ofInstance ofInstance' _ => ?_
    refine (likewise_addTypeFunctions type _ _ _).bind fun ofClass ofClass' _ => ?_
    have pushed : ∀ b c : Script.Behaviour, Likewise Engine.Agrees Eq
        (onScript (·.addBehaviour b) : Run Bridge.Error Nat) (onScript (·.addBehaviour c)) := by
      refine fun b c => .onScript fun s t size => ⟨size.symm, ?_⟩
      exact (Array.size_push ..).trans ((congrArg (· + 1) size).trans (Array.size_push ..).symm)
    refine (pushed _ _).andThen fun instanceKey => ?_
    refine (pushed _ _).andThen fun classKey => ?_
    refine Likewise.andThen (.modifyEngine fun e e' agrees => ?_) fun _ => .pure rfl
    exact ⟨agrees.names, agrees.options, agrees.registry,
      congrArg (Table.insert · type _) agrees.exposed, agrees.behaviours⟩

/-- An object gets wrappers that stand for it under the same handle. -/
theorem likewise_wrapObject (ref : Host.ObjectRef) (weak : Bool) :
    Likewise Engine.Agrees (fun a b => b.meaning = a.meaning) (wrapObject ref weak)
      (wrapObject ref weak) := by
  refine (likewise_registerType ref.type).andThen fun keys => ?_
  have issued : ∀ entry, Likewise Engine.Agrees Eq (issue entry : Run Bridge.Error Bridge.Handle)
      (issue entry) := by
    intro entry w v beside
    obtain ⟨names, options, registry, exposed, behaviours⟩ := beside.outer
    refine ⟨.ok ?_, beside.host, beside.pins, names, options, ?_, exposed, behaviours⟩
    · exact congrArg (fun r => (Bridge.Registry.insert r entry).1) registry.symm
    · exact congrArg (fun r => (Bridge.Registry.insert r entry).2) registry
  refine (issued _).andThen fun h => ?_
  exact .onScript fun s t size => ⟨rfl, size⟩

theorem likewise_toScript (x : Host.Value) :
    Likewise Engine.Agrees (fun a b => b.meaning = a.meaning) (toScript x) (toScript x) := by
  cases x with
  | object ref =>
    exact (likewise_copyIfStruct ref).andThen fun copy => likewise_wrapObject copy false
  | null | bool | int | uint | float | str | pointer => exact .pure rfl

/-- Results come back alike. -/
theorem likewise_marshalResults (m : Host.Method) (x : Host.Value) (arguments : List Host.Value) :
    Likewise Engine.Agrees (List.Forall₂ fun a b => b.meaning = a.meaning)
      (marshalResults m x arguments) (marshalResults m x arguments) :=
  .mapM likewise_toScript _

/-! ## Calls -/

theorem likewise_invokeHost {ctx ctx' : Host.Context Engine} (concur : ctx.Concur S ctx')
    (m : Host.Method) (this : Option Host.ObjectRef) (arguments : List Host.Value) :
    Likewise S Eq (invokeHost ctx m this arguments) (invokeHost ctx' m this arguments) := by
  intro w v beside
  obtain ⟨same, after⟩ :=
    Host.concur_invoke concur Host.callDepth m this arguments.toArray w v beside
  rw [invokeHost_apply, invokeHost_apply]
  generalize Host.invoke ctx Host.callDepth m this arguments.toArray w = left at same after
  generalize Host.invoke ctx' Host.callDepth m this arguments.toArray v = right at same after
  obtain ⟨⟨ending, left⟩, w⟩ := left
  obtain ⟨_, v⟩ := right
  cases same
  match ending with
  | .returned x => exact ⟨.ok rfl, after⟩
  | .threw e => exact ⟨.error _, after⟩
  | .interrupted (.panicked message) => exact ⟨.error _, after⟩
  | .interrupted .exhausted => exact ⟨.error _, after⟩

/-- Two engines that patches cannot tell apart, with what runs the functions of each of them: there
is a relation that patches keep up, giving the same answers, and related engines agree. -/
def Indistinct (run run' : Runner) (e e' : Engine) : Prop :=
  ∃ S : Engine → Engine → Prop, S e e' ∧ (∀ a b, S a b → a.Agrees b) ∧
    ∀ limit, (patchedContext run limit).Concur S (patchedContext run' limit)

/-- A method that is called from engines which patches cannot tell apart gives results that stand
for the same, or fails in the same way, and leaves the same host. -/
theorem invokeMethod_of_indistinct {run run' : Runner} (host : v.host = w.host)
    (pins : v.pins = w.pins) (indistinct : Indistinct run run' w.outer v.outer) (m : Host.Method)
    (this : Option Host.ObjectRef) (arguments : List Value) :
    EndsLike (List.Forall₂ fun a b => b.meaning = a.meaning)
        (invokeMethod run m this arguments w).1 (invokeMethod run' m this arguments v).1 ∧
      World.Beside Engine.Agrees (invokeMethod run m this arguments w).2
        (invokeMethod run' m this arguments v).2 := by
  obtain ⟨S, related, agrees, concur⟩ := indistinct
  refine (likewise_marshalArguments agrees m.params arguments).bind_weaker agrees
    (fun passed _ same w v beside => ?_) ⟨host, pins, related⟩
  subst same
  rw [bridge_bind_apply, bridge_bind_apply, (agrees _ _ beside.outer).options]
  have called := (likewise_invokeHost (concur w.outer.bridge.options.stepLimit) m this
    passed).mapError Bridge.Error.host
  refine called.bind_weaker agrees (fun r _ same w v beside => ?_) beside
  subst same
  exact likewise_marshalResults m r.1 r.2 w v
    ⟨beside.host, beside.pins, agrees _ _ beside.outer⟩

end Run

end ScriptHost

import ScriptHost.Proofs.Engine.Resolving
import ScriptHost.Proofs.Handles.Pairs
/-!
Taking values across between scripts and host keeps a world balanced. An object of a type that the
host has always gets its wrapper, so that of several objects either all are taken across or none.
-/
namespace ScriptHost

open Bridge (BehaviourKeys Handle PatchTable Referent Registry)
open Bridge.Registry (Entry)
open Host (AllWithin ObjectRef Param ParamMode TypeId ValueType World)
open Script (Behaviour BehaviourPart FunctionRef Remains TypeFunction Value Wrapper)

variable {ε α β : Type} {queue : List Remains} {loose : List Value} {s : Host.State} {e : Engine}
  {w v : World Engine} {n : Nat} {type : TypeId}

/-! ## What the bridge knows -/

theorem Engine.Regular.smaller {e' : Engine} (regular : e'.Regular)
    (dropped : e'.bridgeDropped = e.bridgeDropped) (ledger : e'.ledger = e.ledger)
    (slots : e.bridge.registry.slots.size ≤ e'.bridge.registry.slots.size) : e.Regular := by
  obtain ⟨bridge, owned, finalized, counts, room⟩ := regular
  rw [ledger] at owned finalized counts
  exact ⟨dropped ▸ bridge, owned, finalized, counts, Nat.le_trans slots room⟩

namespace Sound

/-- Whatever becomes of the functions that scripts can have from the bridge, as long as they are
fair. -/
theorem refit (sound : Sound queue loose s e) {exposed : Table TypeId BehaviourKeys}
    {patches : PatchTable FunctionRef} {wrappers : Table (TypeId × String) FunctionRef}
    {behaviours : Array Behaviour} {nextId : Nat}
    (kept : ∀ type keys, e.bridge.exposed.find? type = some keys → exposed.find? type = some keys)
    (furnished : Furnished exposed wrappers behaviours)
    (fair : e.Regular → e.fixtures.Fair →
      Fixtures.Fair { e.fixtures with exposed, patches, members := wrappers, behaviours }) :
    Sound queue loose s { e with
      script := { e.script with behaviours, nextId }
      bridge := { e.bridge with exposed, patches, wrappers } } where
  typed := sound.typed
  names := sound.names
  entries := sound.entries
  globals := sound.globals
  bindings := sound.bindings
  classes := sound.classes
  furnished := furnished
  custody := fun later => by
    have regular : e.Regular := later.congr rfl rfl rfl
    have custody := sound.custody regular
    exact custody.refit kept (fair regular custody.fair)

/-- A wrapper is made for an object of a type that scripts know. -/
theorem wrap (sound : Sound queue loose s e) {entry : Entry} (within : entry.Within s.types)
    (isOf : entry.IsOf type) {keys : BehaviourKeys}
    (known : e.bridge.exposed.find? type = some keys) :
    Sound queue
      (.handle ⟨e.script.nextId, (e.bridge.registry.insert entry).1.toWord, keys.ofInstance⟩ :: loose)
      s { e with
        script := { e.script with nextId := e.script.nextId + 1 }
        bridge := { e.bridge with registry := (e.bridge.registry.insert entry).2 } } where
  typed := sound.typed
  names := sound.names
  entries := sound.entries.insert within
  globals := sound.globals
  bindings := sound.bindings
  classes := sound.classes
  furnished := sound.furnished
  custody := fun later => by
    have regular : e.Regular := later.smaller rfl rfl (Registry.size_le_apply _ (.issue entry))
    refine ((sound.custody regular).carryObject isOf later.room
      (w := ⟨e.script.nextId, (e.bridge.registry.insert entry).1.toWord, keys.ofInstance⟩)
      (Bridge.Handle.ofWord_toWord _) known rfl).move ?_ ?_
    · rintro x (there | there)
      · exact .inl (.inr (.inl there))
      · rcases List.mem_cons.1 there with rfl | there
        · exact .inl (.inl rfl)
        · exact .inl (.inr (.inr there))
    · rintro h (same | there | there)
      · exact .inr (same ▸ List.mem_cons_self)
      · exact .inl there
      · exact .inr (List.mem_cons_of_mem _ there)

/-- A wrapper is made for a type that scripts know and that had none. -/
theorem wrapClass (sound : Sound queue loose s e) {keys : BehaviourKeys}
    (known : e.bridge.exposed.find? type = some keys) (none : e.bridge.classes.find? type = none) :
    Sound queue loose s { e with
      script := { e.script with nextId := e.script.nextId + 1 }
      bridge := { e.bridge with
        registry := (e.bridge.registry.insert (.type type)).2
        classes := e.bridge.classes.insert type (.handle
          ⟨e.script.nextId, (e.bridge.registry.insert (.type type)).1.toWord, keys.ofClass⟩) } } where
  typed := sound.typed
  names := sound.names
  entries := sound.entries.insert trivial
  globals := sound.globals
  bindings := sound.bindings
  classes := Table.nodup_insert sound.classes _ _
  furnished := sound.furnished
  custody := fun later => by
    have regular : e.Regular := later.smaller rfl rfl (Registry.size_le_apply _ (.issue (.type type)))
    obtain ⟨only, self, others⟩ := Table.mem_values_insert sound.classes type (.handle
      ⟨e.script.nextId, (e.bridge.registry.insert (.type type)).1.toWord, keys.ofClass⟩)
    refine ((sound.custody regular).carryClass later.room
      (w := ⟨e.script.nextId, (e.bridge.registry.insert (.type type)).1.toWord, keys.ofClass⟩)
      (Bridge.Handle.ofWord_toWord _) known rfl none).move (fun x => ?_) fun h => ?_
    · simp only [Engine.has_iff]
      have new := only x
      tauto
    · simp only [Engine.has_iff]
      have old := others (.handle h)
      rw [none] at old
      rintro (same | there)
      · exact .inr (.inr (.inr (.inl (same ▸ self))))
      · have kept : Value.handle h ∈ e.bridge.classes.values → _ :=
          fun there => (old there).resolve_right nofun
        tauto

end Sound

/-- What was found for calls does not matter. -/
theorem Balanced.withCache (balanced : Balanced loose w) (cache : Bridge.MethodCache Host.Method) :
    Balanced loose (withCache w cache) :=
  ⟨balanced.typed, balanced.names, balanced.entries, balanced.globals, balanced.bindings,
    balanced.classes, balanced.furnished, fun later => balanced.custody (later.congr rfl rfl rfl)⟩

/-! ## Computations that always give something -/

namespace Run

/-- A computation gives something, and nothing else can become of it. -/
def Yields (w : World Engine) (m : Run ε α) (post : α → World Engine → Prop) : Prop :=
  ∃ a v, m w = (.ok a, v) ∧ Passes w v ∧ post a v

namespace Yields

variable {m : Run ε α} {f : α → Run ε β} {P : α → World Engine → Prop}
  {Q : β → World Engine → Prop} {a : α}

theorem pure (given : P a w) : Yields w (pure a : Run ε α) P :=
  ⟨a, w, rfl, .refl w, given⟩

theorem bind (first : Yields w m P)
    (second : ∀ a v, Passes w v → P a v → Yields v (f a) Q) : Yields w (m >>= f) Q := by
  obtain ⟨a, v, step, passes, given⟩ := first
  obtain ⟨b, u, rest, later, known⟩ := second a v passes given
  refine ⟨b, u, ?_, passes.trans later, known⟩
  rw [bind_apply, step]
  exact rest

/-- What comes after a step of which the outcome is known. -/
theorem after (step : m w = (.ok a, v)) (passes : Passes w v) (rest : Yields v (f a) Q) :
    Yields w (m >>= f) Q :=
  bind (P := fun b u => b = a ∧ u = v) ⟨a, v, step, passes, rfl, rfl⟩
    fun _ _ _ ⟨same, there⟩ => same ▸ there ▸ rest

theorem discarded {inUse going : List Value} (balanced : Balanced (inUse ++ going) w) :
    Yields w (discard inUse going : Run ε Unit) fun _ => Balanced inUse :=
  ⟨(), { w with outer := w.outer.discard inUse going }, rfl, .discard .., balanced.discard⟩

theorem balances (yields : Yields w m P) : Balances w m m P := by
  obtain ⟨a, v, step, passes, given⟩ := yields
  exact .last step passes given

end Yields

end Run

/-! ## What types can do -/

theorem Script.Behaviour.part_setPart (b : Behaviour) (f : FunctionRef) (p q : BehaviourPart) :
    (b.setPart f p).part q = if q = p then some f else b.part q := by
  cases p <;> cases q <;> rfl

/-- A behaviour of which only the finalizer finalizes. -/
structure Script.Behaviour.OfType (type : TypeId) (b : Behaviour) : Prop where
  fair : ∀ part, part ≠ .gc → ∀ f, b.part part = some f → f.Fair
  gc : ∀ f, b.part .gc = some f → f.body = .bridge (.ofType .finalize type)

namespace Run

/-- Functions of a type are put into a behaviour. -/
theorem addTypeFunctions_apply (parts : List (BehaviourPart × String × TypeFunction))
    (proper : ∀ entry ∈ parts, entry.2.2 = .finalize ↔ entry.1 = .gc) {b : Behaviour}
    (isOf : b.OfType type) (w : World Engine) :
    ∃ c nextId, (parts.foldlM (addTypeFunction type) b : Run ε Behaviour) w =
        (.ok c, withScript w { w.outer.script with nextId }) ∧ c.OfType type ∧
      (∀ part, part ∈ parts.map (·.1) ∨ (b.part part).isSome → (c.part part).isSome) ∧
      ∀ part f, c.part part = some f → b.part part = some f ∨
        ∃ entry ∈ parts, entry.1 = part ∧ f.body = .bridge (.ofType entry.2.2 type) := by
  induction parts generalizing b w with
  | nil =>
    exact ⟨b, w.outer.script.nextId, rfl, isOf,
      fun _ there => there.resolve_left List.not_mem_nil, fun _ _ => .inl⟩
  | cons entry rest ih =>
    obtain ⟨part, name, function⟩ := entry
    generalize new :
      FunctionRef.mk w.outer.script.nextId name none (.bridge (.ofType function type)) = f
    have finalizes := proper _ List.mem_cons_self
    have next : (b.setPart f part).OfType type := by
      refine ⟨fun other apart g found => ?_, fun g found => ?_⟩
      · rw [Script.Behaviour.part_setPart] at found
        split at found
        · rename_i same
          cases found
          rw [← new]
          intro id body
          cases body
          exact apart (same.trans (finalizes.1 rfl))
        · exact isOf.fair other apart g found
      · rw [Script.Behaviour.part_setPart] at found
        split at found
        · rename_i same
          cases found
          rw [← new]
          have finalize : function = .finalize := finalizes.2 same.symm
          rw [finalize]
        · exact isOf.gc g found
    obtain ⟨c, nextId, ran, made, has, origin⟩ :=
      ih (fun entry member => proper entry (List.mem_cons_of_mem _ member))
      next (withScript w { w.outer.script with nextId := w.outer.script.nextId + 1 })
    refine ⟨c, nextId, ?_, made, fun other there => has other ?_, fun other g found => ?_⟩
    · subst new
      exact ran
    · rw [Script.Behaviour.part_setPart]
      split
      · exact .inr rfl
      · rename_i apart
        refine there.imp_left fun member => ?_
        rw [List.map_cons, List.mem_cons] at member
        exact member.resolve_left apart
    · rcases origin other g found with before | ⟨entry, member, same, body⟩
      · rw [Script.Behaviour.part_setPart] at before
        split at before
        · rename_i same
          cases before
          exact .inr ⟨_, List.mem_cons_self, same.symm, by rw [← new]⟩
        · exact .inl before
      · exact .inr ⟨entry, List.mem_cons_of_mem _ member, same, body⟩

theorem Behaviour.ofType_named (name : String) : Behaviour.OfType type { name } := by
  constructor
  · intro part _ f found
    cases part <;> cases found
  · exact fun _ found => nomatch found

/-- What making a type known to scripts leaves. -/
def Exposes (type : TypeId) (w v : World Engine) (keys : BehaviourKeys) : Prop :=
  v.outer.bridge.exposed.find? type = some keys ∧
    v.outer.bridge.classes = w.outer.bridge.classes ∧ v.host = w.host

/-- A type of the host is made known to scripts. -/
theorem yields_registerType (balanced : Balanced loose w) (there : type.index < w.host.types) :
    Yields w (registerType type) fun keys v => Balanced loose v ∧ Exposes type w v keys := by
  cases found : w.outer.bridge.exposed.find? type with
  | some keys =>
    refine ⟨keys, w, ?_, .refl w, balanced, found, rfl, rfl⟩
    unfold registerType
    rw [bridge_bind_apply, found]
    rfl
  | none =>
    have info : w.host.domain.get? type = some w.host.domain.types[type.index] :=
      Array.getElem?_eq_getElem there
    generalize w.host.domain.types[type.index] = t at info
    obtain ⟨ofInstance, firstId, first, instanceOf, instanceHas, instanceFrom⟩ :=
      addTypeFunctions_apply (ε := Bridge.Error) instanceParts (by decide)
        (Behaviour.ofType_named t.name) w
    obtain ⟨ofClass, secondId, second, classOf, classHas, -⟩ :=
      addTypeFunctions_apply (ε := Bridge.Error) classParts (by decide)
        (Behaviour.ofType_named ("class " ++ t.name))
        (withScript w { w.outer.script with nextId := firstId })
    obtain ⟨f, gc⟩ := Option.isSome_iff_exists.1 (instanceHas .gc (.inl (by decide)))
    obtain ⟨g, classGc⟩ := Option.isSome_iff_exists.1 (classHas .gc (.inl (by decide)))
    obtain ⟨reads, index⟩ := Option.isSome_iff_exists.1 (instanceHas .index (.inl (by decide)))
    have reading : reads.body = .bridge (.ofType .instanceIndex type) := by
      rcases instanceFrom .index reads index with before | ⟨entry, member, part, body⟩
      · cases before
      · have only : ∀ entry ∈ instanceParts, entry.1 = .index → entry.2.2 = .instanceIndex := by
          decide
        rw [body, only entry member part]
    have size := w.outer.script.behaviours.size_push (v := ofInstance)
    refine ⟨⟨w.outer.script.behaviours.size, w.outer.script.behaviours.size + 1⟩,
      { w with outer := { w.outer with
        script := { w.outer.script with
          behaviours := w.outer.script.behaviours ++ #[ofInstance, ofClass], nextId := secondId }
        bridge := { w.outer.bridge with
          exposed := w.outer.bridge.exposed.insert type
            ⟨w.outer.script.behaviours.size, w.outer.script.behaviours.size + 1⟩ } } },
      ?_, ⟨rfl, .refl, fun regular => regular.congr rfl rfl rfl⟩, ?_, ?_, rfl, rfl⟩
    · unfold registerType
      rw [bridge_bind_apply, found]
      dsimp only
      rw [bind_apply, typeInfo_apply, info]
      dsimp only
      rw [bind_apply, first]
      dsimp only
      rw [bind_apply, second]
      dsimp only
      have pushed : w.outer.script.behaviours ++ #[ofInstance, ofClass] =
          (w.outer.script.behaviours.push ofInstance).push ofClass := Array.toList_inj.1 (by simp)
      rw [pushed, ← size]
      rfl
    · refine Sound.refit balanced (fun other keys known => ?_)
        (balanced.furnished.expose index reading) fun _ fair => ?_
      · rw [Table.find?_insert, if_neg]
        · exact known
        · rintro rfl
          rw [found] at known
          cases known
      · refine fair.expose gc classGc (instanceOf.gc f gc) (classOf.gc g classGc) fun b member => ?_
        rcases List.mem_cons.1 (Array.mem_toList_iff.2 member) with rfl | member
        · exact instanceOf.fair
        · rw [List.mem_singleton.1 member]
          exact classOf.fair
    · exact Table.find?_insert_self ..

theorem balances_typeInfo (balanced : Balanced [] w) (type : TypeId) :
    Balances w (typeInfo type) (typeInfo type)
      fun info v => v = w ∧ w.host.domain.get? type = some info := by
  refine .domain ?_
  cases found : w.host.domain.get? type with
  | none => exact .fail balanced _
  | some info => exact .pure ⟨rfl, rfl⟩

theorem balances_registerType (balanced : Balanced [] w) (type : TypeId) :
    Balances w (registerType type) (registerType type)
      fun keys v => Balanced [] v ∧ Exposes type w v keys := by
  by_cases there : type.index < w.host.types
  · exact (yields_registerType balanced there).balances
  · refine .bridge ?_
    cases found : w.outer.bridge.exposed.find? type with
    | some keys => exact .pure ⟨balanced, found, rfl, rfl⟩
    | none =>
      refine (balances_typeInfo balanced type).bind fun info v _ known => ?_
      obtain ⟨inBounds, _⟩ := Array.getElem?_eq_some_iff.1 known.2
      exact (there inBounds).elim

/-! ## To scripts -/

/-- An object gets a wrapper. -/
theorem yields_wrapObject {ref : ObjectRef} (balanced : Balanced loose w)
    (known : (Host.Value.object ref).Within w.host.types) (weak : Bool) :
    Yields w (wrapObject ref weak) fun x => Balanced (x :: loose) := by
  refine (yields_registerType balanced known).bind fun keys v passes ⟨made, exposed, _, same⟩ => ?_
  generalize sort : (if weak then Entry.weak ref else Entry.strong ref) = entry
  have within : entry.Within v.host.types := by
    rw [← sort, same]
    cases weak <;> exact known
  have isOf : entry.IsOf ref.type := by
    rw [← sort]
    cases weak <;> rfl
  refine ⟨_, _, rfl, ?_, Sound.wrap made within isOf exposed⟩
  exact ⟨rfl, .refl, fun later => later.smaller rfl rfl (Registry.size_le_apply _ (.issue entry))⟩

theorem yields_copyIfStruct {ref : ObjectRef} (balanced : Balanced loose w)
    (known : (Host.Value.object ref).Within w.host.types) :
    Yields w (copyIfStruct ref : Run ε ObjectRef) fun copy v =>
      Balanced loose v ∧ (Host.Value.object copy).Within v.host.types := by
  unfold Yields copyIfStruct
  rw [domain_bind_apply]
  cases w.host.domain.get? ref.type with
  | none => exact ⟨_, _, rfl, .refl w, balanced, known⟩
  | some info =>
    dsimp only
    split
    · obtain ⟨within, types⟩ := balanced.typed.duplicate known
      exact ⟨_, _, rfl, .rehost types, Sound.rehost balanced types, within.mono types.grown⟩
    · exact ⟨_, _, rfl, .refl w, balanced, known⟩

/-- Whatever is typed can be taken across to scripts. -/
theorem yields_toScript {u : Host.Value} (balanced : Balanced loose w)
    (known : u.Within w.host.types) : Yields w (toScript u) fun x => Balanced (x :: loose) := by
  cases u with
  | object ref =>
    exact (yields_copyIfStruct balanced known).bind fun copy v _ ⟨copied, within⟩ =>
      yields_wrapObject copied within _
  | null | bool | int | uint | float | str | pointer =>
    exact .pure (Sound.adopt balanced fun _ => .inr trivial)

/-- Either all of some values are taken across or none. -/
theorem yields_mapM_toScript {values : List Host.Value} (balanced : Balanced loose w)
    (known : AllWithin w.host.types values) :
    Yields w (values.mapM toScript) fun xs => Balanced (xs ++ loose) := by
  induction values generalizing loose w with
  | nil => exact .pure balanced
  | cons u rest ih =>
    rw [List.mapM_cons]
    refine (yields_toScript balanced (known u List.mem_cons_self)).bind fun x v passes one => ?_
    have others : AllWithin v.host.types rest := fun y member =>
      (known y (List.mem_cons_of_mem u member)).mono passes.grown
    refine (ih one others).bind fun xs v _ all => .pure ?_
    exact Sound.trade all (fun _ y member => .inl (.inr (by simp_all; tauto))) fun h there =>
      .inr (by simp_all; tauto)

theorem balances_mapM_toScript {values : List Host.Value} (balanced : Balanced [] w)
    (known : AllWithin w.host.types values) :
    Balances w (values.mapM toScript) (values.mapM toScript) Balanced :=
  (yields_mapM_toScript balanced known).balances.weaken fun xs v _ all => by
    rwa [List.append_nil] at all

/-- The wrapper that stands for a type, made on first use. -/
theorem balances_classValue (balanced : Balanced [] w) (type : TypeId) :
    Balances w (classValue type) (classValue type) fun x => Balanced [x] := by
  refine .bridge ?_
  cases found : w.outer.bridge.classes.find? type with
  | some x => exact .pure (Sound.adopt balanced fun _ => .inl (Engine.mem_values_of_class found))
  | none =>
    refine (balances_registerType balanced type).bind fun keys v _ ⟨made, exposed, classes, _⟩ => ?_
    have new : v.outer.bridge.classes.find? type = none := classes ▸ found
    refine .last rfl ?_ (Sound.adopt (Sound.wrapClass made exposed new) fun _ => .inl ?_)
    · exact ⟨rfl, .refl, fun later =>
        later.smaller rfl rfl (Registry.size_le_apply _ (.issue (.type type)))⟩
    · exact Engine.mem_values_of_class (Table.find?_insert_self _ type _)

/-- What a finished call gives. -/
theorem balances_marshalResults (m : Host.Method) {u : Host.Value} {arguments : List Host.Value}
    (balanced : Balanced [] w) (known : u.Within w.host.types)
    (others : AllWithin w.host.types arguments) :
    Balances w (marshalResults m u arguments) (marshalResults m u arguments) Balanced := by
  have received : AllWithin w.host.types ((m.params.zip arguments).filterMap fun pair =>
      if pair.1.isByRef then some pair.2 else none) := by
    intro x member
    obtain ⟨⟨p, argument⟩, pair, same⟩ := List.mem_filterMap.1 member
    have given := others argument (List.of_mem_zip pair).2
    dsimp only at same
    split at same <;> cases same
    exact given
  refine balances_mapM_toScript balanced ?_
  split
  · exact .cons known received
  · exact received

end Run

/-! ## Handles -/

/-- A referent that is no object of an unknown type. -/
def Bridge.Referent.Within (n : Nat) : Referent → Prop
  | .object ref => (Host.Value.object ref).Within n
  | .type _ => True

theorem Bridge.Registry.All.resolve {r : Registry} (all : r.All (·.Within n))
    {alive : ObjectRef → Bool} {h : Handle} {referent : Referent}
    (resolved : r.resolve alive h = .ok referent) : referent.Within n := by
  unfold Registry.resolve at resolved
  cases found : r.entry? h with
  | none =>
    rw [found] at resolved
    cases resolved
  | some entry =>
    have known := all.entry? found
    rw [found] at resolved
    cases entry with
    | strong ref =>
      cases resolved
      exact known
    | weak ref =>
      dsimp only at resolved
      split at resolved <;> cases resolved
      exact known
    | type id =>
      cases resolved
      trivial

namespace Run

theorem balances_resolveHandle (balanced : Balanced [] w) (h : Handle) :
    Balances w (resolveHandle h) (resolveHandle h)
      fun referent v => v = w ∧ referent.Within w.host.types :=
  Balances.get (.ofExcept balanced fun _ resolved => ⟨rfl, balanced.entries.resolve resolved⟩)

theorem balances_resolveValue (balanced : Balanced [] w) (x : Value) :
    Balances w (resolveValue x) (resolveValue x)
      fun referent v => v = w ∧ referent.Within w.host.types := by
  cases x with
  | handle h => exact balances_resolveHandle balanced _
  | _ => exact .fail balanced _

/-! ## To the host -/

/-- No object comes of a value that is no handle. -/
theorem within_plainToHost {d : Host.Domain} {x : Value} {type : ValueType} {u : Host.Value}
    (converted : plainToHost d x type = .ok u) : u.Within n := by
  have isOpen : u.Open fun _ => True := open_plainToHost converted
  cases u with
  | object ref => exact (isOpen trivial).elim
  | _ => trivial

/-- What arrives in the host is typed. -/
def Arrives (u : Host.Value) (v : World Engine) : Prop :=
  Balanced [] v ∧ u.Within v.host.types

theorem balances_toHost (balanced : Balanced [] w) (x : Value) (type : ValueType) :
    Balances w (toHost x type) (toHost x type) Arrives := by
  have plain : ∀ x : Value, Balances w (do ofExcept (plainToHost (← domain) x type))
      (do ofExcept (plainToHost (← domain) x type)) Arrives := fun x =>
    .domain (.ofExcept balanced fun u converted => ⟨balanced, within_plainToHost converted⟩)
  cases x with
  | handle h =>
    refine (balances_resolveHandle balanced _).look fun referent known => ?_
    cases referent with
    | type _ => exact .fail balanced _
    | object ref =>
      refine .domain ?_
      split
      · exact (yields_copyIfStruct balanced known).balances.bind fun copy u _ ⟨copied, within⟩ =>
          .pure ⟨copied, within⟩
      · exact .fail balanced _
  | _ => exact plain _

theorem balances_toHostSlot (balanced : Balanced [] w) (x : Value) (type : ValueType)
    (mode : ParamMode) :
    Balances w (toHostSlot x type mode) (toHostSlot x type mode) Arrives := by
  unfold toHostSlot
  split
  · exact .pure ⟨balanced, Host.Value.within_defaultFor type⟩
  · exact balances_toHost balanced x type

theorem balances_marshalArguments (params : List Param) (arguments : List Value)
    (balanced : Balanced [] w) :
    Balances w (marshalArguments params arguments) (marshalArguments params arguments)
      fun us v => Balanced [] v ∧ AllWithin v.host.types us := by
  induction params generalizing arguments w with
  | nil => exact .pure ⟨balanced, .nil⟩
  | cons p rest ih =>
    unfold marshalArguments
    split
    · refine (balances_toHostSlot balanced _ _ _).bind ?_
      rintro u v - ⟨one, known⟩
      refine (ih arguments.tail one).bind ?_
      rintro us v passes ⟨all, others⟩
      exact .pure ⟨all, .cons (known.mono passes.grown) others⟩
    · refine (ih arguments balanced).bind ?_
      rintro us v - ⟨all, others⟩
      exact .pure ⟨all, .cons (Host.Value.within_defaultFor p.type) others⟩

/-! ## Methods -/

/-- What was found for calls does not matter to what comes after it. -/
theorem remembers (cache : Bridge.MethodCache Host.Method) {f f' : Unit → Run ε β}
    {Q : β → World Engine → Prop} (rest : Balances (withCache w cache) (f ()) (f' ()) Q) :
    Balances w (modifyBridge ({ · with cache }) >>= f) (modifyBridge ({ · with cache }) >>= f') Q :=
  .after rfl ⟨rfl, .refl, fun later => later.congr rfl rfl rfl⟩ rest

theorem balances_resolveMethod (balanced : Balanced [] w) (type : TypeId) (member : String)
    (shape : Bridge.CallShape) (tags : List Script.Tag) :
    Balances w (resolveMethod type member shape tags) (resolveMethod type member shape tags)
      fun _ v => Balanced [] v ∧ v.host = w.host := by
  refine (balances_typeInfo balanced type).look fun info _ => ?_
  refine .bridge (remembers _ ?_)
  split
  · exact .pure ⟨balanced.withCache _, rfl⟩
  · refine .domain ?_
    refine Balances.look (R := fun _ => True)
      (.ofExcept (balanced.withCache _) fun _ _ => ⟨rfl, trivial⟩) fun m _ => ?_
    split
    · exact remembers _ (.pure ⟨(balanced.withCache _).withCache _, rfl⟩)
    · exact .breakOff (balanced.withCache _) _

end Run

end ScriptHost

import ScriptHost.Proofs.Engine.MethodCalls
import ScriptHost.Proofs.Engine.RoundTrip
import ScriptHost.Proofs.Host.Members
/-!
Fields and array elements as scripts write and read them. A write that ends in a place of the host
stores the host form of the value there and changes nothing else. A read of the same member then
gives the script form of what was stored: unless a type nearer than the one with the field declares
a method of that name, which a read comes to first and a write passes.
-/
namespace ScriptHost

open Host (Domain Field ObjectRef Place TypeId TypeInfo ValueType World)
open Script (Value)

/-- The place of a field that a type declares, for an object. -/
def Host.Field.place (f : Field) (owner : TypeId) (ref : ObjectRef) : Place :=
  if f.isStatic then .static owner f.slot else .slot ref.id f.slot

/-- A key of an object means a place for writing, where values of a type are stored: an element of
an array, or the field of the first type, on the way from that of the object to its bases, that has
a field or a property of that name. `before` are the types on the way to it. -/
inductive Host.Domain.StoresAt (d : Domain) (ref : ObjectRef) :
    Script.Value → Place → ValueType → (before : List TypeInfo) → Prop
  | element {info : TypeInfo} {x : Float} {i : Nat} (known : d.get? ref.type = some info)
      (isArray : info.isArray = true) (whole : Number.wholeNumber? x = some (.ofNat i)) :
      StoresAt d ref (.number x) (.slot ref.id i) (info.element.getD .object) []
  | field {key : Script.Value} {name : String} {before : List TypeInfo} {t : TypeInfo} {f : Field}
      (text : key.text? = some name) (walk : before ++ [t] <+: d.chain ref.type)
      (passed : ∀ s ∈ before, s.field? name = none ∧ s.property? name = none)
      (has : t.field? name = some f) : StoresAt d ref key (f.place t.id ref) f.type before

namespace Host

variable {d : Domain} {id : TypeId} {before : List TypeInfo} {t : TypeInfo}

/-- What has a way to its bases is a type of the domain. -/
theorem Domain.known_of_walk (walk : before ++ [t] <+: d.chain id) :
    ∃ info, d.get? id = some info := by
  cases found : d.get? id with
  | some info => exact ⟨info, rfl⟩
  | none =>
    rw [Domain.chain, found] at walk
    have none := List.prefix_nil.1 walk
    simp at none

/-- An object has the slots that are places of the host. -/
theorem State.isSome_at?_slot {s : State} {ref : ObjectRef} {i : Nat} :
    (s.at? (.slot ref.id i)).isSome ↔ i < s.heap.size ref := by
  unfold State.at? cell?
  rw [Option.isSome_iff_exists]
  constructor
  · rintro ⟨v, found⟩
    exact (Array.getElem?_eq_some_iff.1 found).1
  · intro inBounds
    exact ⟨_, Array.getElem?_eq_getElem inBounds⟩

end Host

/-- The conversion of a value leaves every place as it is. -/
theorem Becomes.at? {w v : World Engine} {x : Value} {type : ValueType} {h y : Host.Value}
    {q : Place} (becomes : Becomes w x type h v) (held : w.host.at? q = some y) :
    v.host.at? q = some y := by
  cases becomes with
  | plain => exact held
  | object => exact held
  | copy => exact w.host.at?_duplicate _ held

theorem Becomes.domain {w v : World Engine} {x : Value} {type : ValueType} {h : Host.Value}
    (becomes : Becomes w x type h v) : v.host.domain = w.host.domain := by
  cases becomes <;> rfl

/-- A bridge in use stays in use when something is stored. -/
theorem Serviceable.put {w : World Engine} (serviceable : Serviceable w) (place : Place)
    (h : Host.Value) : Serviceable { w with host := w.host.put place h } where
  tidy := serviceable.tidy
  made := fun slot member entry found ref object => by
    obtain ⟨there, typed⟩ := serviceable.made slot member entry found ref object
    unfold Host.State.types at typed ⊢
    exact ⟨(w.host.objects_put place h).symm ▸ there, (w.host.domain_put place h).symm ▸ typed⟩

namespace Run

variable {run : Runner} {w u : World Engine} {ref : ObjectRef} {key x : Value} {place : Place}
  {type : ValueType} {before : List TypeInfo} {h : Host.Value}

theorem elementIndex_apply {n : Float} {i : Nat} (whole : Number.wholeNumber? n = some (.ofNat i))
    (inside : i < w.host.heap.size ref) : elementIndex ref n w = (.ok i, w) := by
  unfold elementIndex
  refine (bind_apply _ _ w).trans ?_
  rw [whole]
  exact congrArg (fun m : Run Bridge.Error Nat => m w) (if_pos inside)

theorem elementIndex_refuses {n : Float} (nowhere : ∀ i, Number.wholeNumber? n ≠ some (.ofNat i)) :
    ∃ e, elementIndex ref n w = (.error (.failed e), w) := by
  unfold elementIndex
  cases whole : Number.wholeNumber? n with
  | none => exact ⟨_, rfl⟩
  | some i =>
    cases i with
    | ofNat i => exact (nowhere i whole).elim
    | negSucc i => exact ⟨_, rfl⟩

/-- A type without a field and without a property of a name is passed by what writes. -/
theorem writableAt_eq_none_iff {t : TypeInfo} {name : String} :
    writableAt t name = none ↔ t.field? name = none ∧ t.property? name = none := by
  unfold writableAt
  cases t.field? name with
  | some f => simp
  | none => simp

/-! ## Writing -/

/-- What writing does about a name, once it is known what the name means. -/
def writeNamed (run : Runner) (ref : ObjectRef) (key x : Value) (chain : List TypeInfo) :
    Option (String × Writable) → Run Bridge.Error Unit
  | some (_, .field f owner) => do
    let stored ← toHost x f.type
    if f.isStatic then setStaticSlot owner f.slot stored
    else
      let _ ← onHost (·.setSlot ref f.slot stored)
  | some (_, .property (some setter) _) => writeProperty run setter (accessorThis setter ref) [x]
  | some (name, .property none owner) =>
    fail (.host (.raised "MemberAccessException" s!"property {owner}.{name} has no setter"))
  | none =>
    match chain.findSome? fun t => (indexer? t).bind (·.setter) with
    | some setter => writeProperty run setter (some ref) [key, x]
    | none => noMember ref.type key

/-- Everything but an element of an array is written by its name. -/
theorem setMember_apply {info : TypeInfo} (known : w.host.domain.get? ref.type = some info)
    (noElement : info.isArray = true → ∀ n, key ≠ .number n) :
    setMember run ref key x w = writeNamed run ref key x (w.host.domain.chain ref.type)
      (key.text?.bind fun name =>
        ((w.host.domain.chain ref.type).findSome? (writableAt · name)).map (name, ·)) w := by
  unfold setMember
  rw [bind_apply, typeInfo_apply, known]
  dsimp only
  cases isArray : info.isArray with
  | false => rfl
  | true =>
    cases key with
    | number n => exact (noElement isArray n rfl).elim
    | _ => rfl

/-- Converting a value for a place and putting it there. -/
theorem stored_of_toHost {store : Host.Value → Run Bridge.Error Unit}
    (stores : ∀ h v, (v.host.at? place).isSome →
      store h v = (.ok (), { v with host := v.host.put place h }))
    (there : (w.host.at? place).isSome)
    (wrote : (do store (← toHost x type)) w = (.ok (), u)) :
    ∃ h v, toHost x type w = (.ok h, v) ∧ Becomes w x type h v ∧
      u = { v with host := v.host.put place h } := by
  rw [bind_apply] at wrote
  obtain ⟨-, h, v, converted, becomes⟩ | ⟨cause, refused, -⟩ := toHost_cases x type w
  · rw [converted] at wrote
    obtain ⟨old, held⟩ := Option.isSome_iff_exists.1 there
    have still : (v.host.at? place).isSome :=
      Option.isSome_iff_exists.2 ⟨old, becomes.at? held⟩
    exact ⟨h, v, converted, becomes, ((Prod.mk.inj (wrote.symm.trans (stores h v still))).2)⟩
  · rw [refused] at wrote
    cases (Prod.mk.inj wrote).1

/-- A member that is written to a place takes the host form of the value. -/
theorem setMember_stores (stores : w.host.domain.StoresAt ref key place type before)
    (there : (w.host.at? place).isSome) (wrote : setMember run ref key x w = (.ok (), u)) :
    ∃ h v, toHost x type w = (.ok h, v) ∧ Becomes w x type h v ∧
      u = { v with host := v.host.put place h } := by
  have slot : ∀ (i : Nat) (h : Host.Value) (v : World Engine),
      (v.host.at? (.slot ref.id i)).isSome →
      (do let _ ← onHost (·.setSlot ref i h) : Run Bridge.Error Unit) v =
        (.ok (), { v with host := v.host.put (.slot ref.id i) h }) := by
    intro i h v there
    rw [← Host.State.setSlot_eq_put there h]
    rfl
  cases stores with
  | @element info n i known isArray whole =>
    unfold setMember at wrote
    rw [bind_apply, typeInfo_apply, known] at wrote
    dsimp only at wrote
    rw [isArray] at wrote
    dsimp only at wrote
    rw [bind_apply, elementIndex_apply whole (Host.State.isSome_at?_slot.1 there)] at wrote
    exact stored_of_toHost (slot i) there wrote
  | @field key name before t f text walk passed has =>
    obtain ⟨info, known⟩ := Domain.known_of_walk walk
    have writable : (w.host.domain.chain ref.type).findSome? (writableAt · name) =
        some (.field f t.id) := by
      apply Domain.findSome?_chain walk
      · intro s there
        exact writableAt_eq_none_iff.2 (passed s there)
      · unfold writableAt
        rw [has]
    have noNumber : info.isArray = true → ∀ n, key ≠ .number n := by
      rintro - n rfl
      cases text
    rw [setMember_apply known noNumber, text, Option.bind_some, writable] at wrote
    unfold Field.place at there ⊢
    change (toHost x f.type >>= fun stored => _) w = _ at wrote
    cases isStatic : f.isStatic with
    | true =>
      rw [isStatic] at wrote there
      exact stored_of_toHost (fun _ _ _ => rfl) there wrote
    | false =>
      rw [isStatic] at wrote there
      exact stored_of_toHost (slot f.slot) there wrote

/-- How writing a member ends that is not stored in a place: as a setter ends, or refused. -/
inductive Elsewhere (run : Runner) (w : World Engine) :
    Except (Stop Bridge.Error) Unit × World Engine → Prop
  | setter (setter : Host.Method) (this : Option ObjectRef) (values : List Value) :
      Elsewhere run w (writeProperty run setter this values w)
  | refused (e : Bridge.Error) : Elsewhere run w (.error (.failed e), w)

theorem elsewhere_writeNamed_none (chain : List TypeInfo) :
    Elsewhere run w (writeNamed run ref key x chain none w) := by
  unfold writeNamed
  dsimp only
  cases chain.findSome? fun t => (indexer? t).bind (·.setter) with
  | some setter => exact .setter ..
  | none => exact .refused _

/-- A member is stored in a place that its key means, or it is left to a setter or refused. -/
theorem setMember_cases (run : Runner) (ref : ObjectRef) (key x : Value) (w : World Engine) :
    (∃ place type before, w.host.domain.StoresAt ref key place type before) ∨
      Elsewhere run w (setMember run ref key x w) := by
  cases known : w.host.domain.get? ref.type with
  | none =>
    unfold setMember
    rw [bind_apply, typeInfo_apply, known]
    exact .inr (.refused _)
  | some info =>
    by_cases element : info.isArray = true ∧ ∃ n, key = .number n
    · obtain ⟨isArray, n, rfl⟩ := element
      by_cases position : ∃ i, Number.wholeNumber? n = some (.ofNat i)
      · obtain ⟨i, whole⟩ := position
        exact .inl ⟨_, _, _, .element known isArray whole⟩
      · have nowhere : ∀ i, Number.wholeNumber? n ≠ some (.ofNat i) :=
          fun i whole => position ⟨i, whole⟩
        obtain ⟨e, refused⟩ : ∃ e, elementIndex ref n w = (.error (.failed e), w) :=
          elementIndex_refuses nowhere
        unfold setMember
        rw [bind_apply, typeInfo_apply, known]
        dsimp only
        rw [isArray]
        dsimp only
        rw [bind_apply, refused]
        exact .inr (.refused e)
    · have noElement : info.isArray = true → ∀ n, key ≠ .number n :=
        fun isArray n same => element ⟨isArray, n, same⟩
      rw [setMember_apply known noElement]
      cases text : key.text? with
      | none => exact .inr (elsewhere_writeNamed_none _)
      | some name =>
        rw [Option.bind_some]
        cases found : (w.host.domain.chain ref.type).findSome? (writableAt · name) with
        | none => exact .inr (elsewhere_writeNamed_none _)
        | some writable =>
          obtain ⟨before, t, after, walk, atType, passed⟩ := List.findSome?_eq_some_iff.1 found
          cases writable with
          | field f owner =>
            have has : t.field? name = some f := by
              unfold writableAt at atType
              cases own : t.field? name with
              | some g =>
                rw [own] at atType
                cases atType
                rfl
              | none =>
                rw [own] at atType
                cases property : t.property? name <;> rw [property] at atType <;> cases atType
            have begins : before ++ [t] <+: w.host.domain.chain ref.type :=
              ⟨after, by rw [walk, List.append_assoc, List.singleton_append]⟩
            exact .inl ⟨_, _, _, .field text begins
              (fun s there => writableAt_eq_none_iff.1 (passed s there)) has⟩
          | property setter owner =>
            cases setter with
            | some setter => exact .inr (.setter ..)
            | none => exact .inr (.refused _)

/-! ## Reading -/

/-- A member that is read from a place gives the script form of what is there. -/
theorem getMember_stored (stores : w.host.domain.StoresAt ref key place type before)
    (noMethod : ∀ name, key.text? = some name → ∀ s ∈ before, s.hasMethod name = false)
    (holds : w.host.at? place = some h) : getMember run ref key w = toScript h w := by
  have slot : ∀ i, w.host.at? (.slot ref.id i) = some h →
      (do toScript (((← host).heap.get? ref i).getD .null) : Run Bridge.Error Value) w =
        toScript h w := by
    intro i holds
    refine (bind_apply _ _ w).trans ?_
    change toScript ((w.host.at? (.slot ref.id i)).getD .null) w = _
    rw [holds]
    rfl
  unfold getMember
  rw [bind_apply, typeInfo_apply]
  cases stores with
  | @element info n i known isArray whole =>
    have inside := Host.State.isSome_at?_slot.1 (Option.isSome_iff_exists.2 ⟨h, holds⟩)
    rw [known]
    dsimp only
    rw [isArray]
    dsimp only
    rw [bind_apply, elementIndex_apply whole inside]
    exact slot i holds
  | @field key name before t f text walk passed has =>
    obtain ⟨info, known⟩ := Domain.known_of_walk walk
    rw [known]
    dsimp only
    have readable : (w.host.domain.chain ref.type).findSome? (readableAt · name) =
        some (.field f t.id) := by
      apply Domain.findSome?_chain walk
      · intro s there
        unfold readableAt
        rw [(passed s there).1, (passed s there).2, noMethod name text s there]
        rfl
      · unfold readableAt
        rw [has]
    cases key with
    | string bytes =>
      have reads : (if f.isStatic then (do toScript (← staticSlot t.id f.slot))
          else (do toScript (((← host).heap.get? ref f.slot).getD .null)) :
            Run Bridge.Error Value) w = toScript h w := by
        unfold Field.place at holds
        cases isStatic : f.isStatic with
        | true =>
          rw [isStatic] at holds
          change toScript ((w.host.at? (.static t.id f.slot)).getD .null) w = _
          rw [if_pos rfl] at holds
          rw [holds]
          rfl
        | false =>
          rw [isStatic] at holds
          exact slot f.slot holds
      cases info.isArray
      all_goals
        dsimp only
        rw [domain_bind_apply, text, Option.bind_some, readable]
        exact reads
    | _ => cases text

/-! ## Reading what was written -/

/-- What was stored in a place can be converted for scripts. -/
theorem toScript_stored (serviceable : Serviceable w) {v : World Engine}
    (becomes : Becomes w x type h v) (place : Place) :
    ∃ y z, toScript h { v with host := v.host.put place h } = (.ok y, z) := by
  have object : ∀ {v : World Engine} {other : ObjectRef}, Serviceable v →
      other.type.index < v.host.types → ∃ y z,
        toScript (.object other) { v with host := v.host.put place (.object other) } =
          (.ok y, z) := by
    intro v other serviceable typed
    have typed' : other.type.index < (v.host.put place (.object other)).types := by
      unfold Host.State.types at typed ⊢
      rw [Host.State.domain_put]
      exact typed
    obtain ⟨y, z, back, -⟩ := toScript_object (serviceable.put place (.object other)) typed'
    exact ⟨y, z, back⟩
  cases becomes with
  | plain noHandle converted =>
    obtain ⟨y, back, -⟩ := plainToHost_back noHandle converted
    exact ⟨y, _, back _⟩
  | object resolved _ _ => exact object serviceable (serviceable.made_of_referent resolved).2
  | copy resolved _ _ =>
    exact object (serviceable.copying _) (serviceable.made_of_referent resolved).2

/-- Reads of members see writes of members. If writing a member of an object stores the value in a
place that the host has, and no type nearer than the one of the place declares a method of the name,
then reading the member gives the script form of exactly what was stored, which can always be given
where the bridge is in use, and every other place holds what it held. -/
theorem getMember_setMember (stores : w.host.domain.StoresAt ref key place type before)
    (there : (w.host.at? place).isSome)
    (noMethod : ∀ name, key.text? = some name → ∀ s ∈ before, s.hasMethod name = false)
    (wrote : setMember run ref key x w = (.ok (), u)) (run' : Runner) :
    ∃ h v, toHost x type w = (.ok h, v) ∧ u.host.at? place = some h ∧
      (∀ q y, q ≠ place → w.host.at? q = some y → u.host.at? q = some y) ∧
      getMember run' ref key u = toScript h u ∧
      (Serviceable w → ∃ y z, toScript h u = (.ok y, z)) := by
  obtain ⟨h, v, converted, becomes, rfl⟩ := setMember_stores stores there wrote
  obtain ⟨old, held⟩ := Option.isSome_iff_exists.1 there
  have holds : (v.host.put place h).at? place = some h :=
    Host.State.at?_put_self h (Option.isSome_iff_exists.2 ⟨old, becomes.at? held⟩)
  refine ⟨h, v, converted, holds, ?_, ?_,
    fun serviceable => toScript_stored serviceable becomes place⟩
  · intro q y other held
    rw [Host.State.at?_put_of_ne h other]
    exact becomes.at? held
  · have still : (v.host.put place h).domain.StoresAt ref key place type before := by
      rw [Host.State.domain_put, becomes.domain]
      exact stores
    exact getMember_stored (w := { v with host := v.host.put place h }) still noMethod holds

/-! ## Types with a field and a method of one name -/

/-- A type with a field. -/
def coffer : Host.TypeDecl :=
  ⟨"Coffer", none, false, [⟨"lid", .bool, false⟩], []⟩

/-- A type that derives from it. -/
def crate : Host.TypeDecl :=
  ⟨"Crate", some "Coffer", false, [], []⟩

/-- Another one, with a method of the name of the field. -/
def trunk : Host.TypeDecl :=
  ⟨"Trunk", some "Coffer", false, [],
    [⟨"lid", .ofInstance, [], .bool, .native [.ret (.bool false)], none⟩]⟩

/-- A world with an instance of each of the two. -/
def luggage : World Engine :=
  let s := ((((({} : Host.State).define coffer).2.define crate).2.define trunk).2.instantiate ⟨2⟩).2
  ⟨(s.instantiate ⟨3⟩).2, #[], [], .ofOptions {}⟩

/-- The type with the field, as the host has it. -/
def cofferType : TypeInfo :=
  coffer.toType ⟨1⟩ ⟨Host.rootId, Host.rootName, none, .reference, none, [], [], [], []⟩ []

/-- What is written to the field of an instance of the first type is read there, and the instance of
the other keeps what it has. -/
theorem getMember_setMember_crate :
    let run : Runner := fun _ => throw .exhausted
    ∃ u, setMember run ⟨0, ⟨2⟩⟩ (.text "lid") (.bool true) luggage = (.ok (), u) ∧
      u.host.at? (.slot 0 0) = some (.bool true) ∧ u.host.at? (.slot 1 0) = some (.bool false) ∧
      getMember run ⟨0, ⟨2⟩⟩ (.text "lid") u = (.ok (.bool true), u) := by
  intro run
  have stores : luggage.host.domain.StoresAt ⟨0, ⟨2⟩⟩ (.text "lid") (.slot 0 0) .bool
      [crate.toType ⟨2⟩ cofferType []] :=
    .field (f := ⟨"lid", .bool, 0, false⟩) (t := cofferType) (Script.Value.text?_text "lid")
      (by decide +kernel) (by decide +kernel) rfl
  have plain : ∀ name, (Value.text "lid").text? = some name →
      ∀ s ∈ [crate.toType ⟨2⟩ cofferType []], s.hasMethod name = false := by
    intro name _ s there
    cases List.mem_singleton.1 there
    rfl
  have ok : (setMember run ⟨0, ⟨2⟩⟩ (.text "lid") (.bool true) luggage).1.isOk = true := by
    decide +kernel
  rcases wrote : setMember run ⟨0, ⟨2⟩⟩ (.text "lid") (.bool true) luggage with ⟨_ | _, u⟩
  · rw [wrote] at ok
    cases ok
  · obtain ⟨h, v, converted, held, others, read, -⟩ :=
      getMember_setMember stores (by decide +kernel) plain wrote run
    obtain rfl : .bool true = h := Except.ok.inj (Prod.mk.inj converted).1
    exact ⟨u, rfl, held, others _ _ (by decide) (by decide +kernel), read⟩

/-- What is written to the field of an instance of the other type is stored there, but reading comes
to the method. -/
theorem trunk_hides_lid :
    let run : Runner := fun _ => throw .exhausted
    let wrote := setMember run ⟨1, ⟨3⟩⟩ (.text "lid") (.bool true) luggage
    wrote.1.isOk = true ∧ luggage.host.at? (.slot 1 0) = some (.bool false) ∧
      wrote.2.host.at? (.slot 1 0) = some (.bool true) ∧
      (getMember run ⟨1, ⟨3⟩⟩ (.text "lid") wrote.2).1.toOption.map (·.tag) = some .function := by
  intro run wrote
  exact ⟨by decide +kernel, by decide +kernel, by decide +kernel, by decide +kernel⟩

end Run

end ScriptHost

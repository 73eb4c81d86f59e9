import ScriptHost.Proofs.Engine.Marshaling
import ScriptHost.Proofs.Handles.Sessions
import ScriptHost.Proofs.Handles.Values
/-!
From scripts to the host and back. A value that is no handle comes back as it was, and a handle comes
back as a new one for the same object, or for a copy of a copy if the object is an instance of a value
type.
-/
namespace ScriptHost

open Bridge (Handle Referent Registry)
open Host (NumericKind ObjectRef ValueType World)
open Script (Value Wrapper)

variable {w v : World Engine} {x : Value} {type : ValueType} {h : Host.Value}

/-! ## Numbers -/

/-- A number that was narrowed comes back as a number. That is equal to it, unless single precision
rounds it or it is no number at all. -/
theorem narrow_back {n : Float} {kind : NumericKind} (narrowed : narrow n kind = .ok h) :
    ∃ n', (∀ w, Run.toScript h w = (.ok (.number n'), w)) ∧
      (n.isNaN = false → kind ≠ .single → (n == n') = true) := by
  cases narrowed_of_narrow narrowed with
  | @word kind i denotes holds =>
    have word := holds.integer?_word
    unfold NumericKind.word at word ⊢
    split
    · rename_i unsigned
      rw [if_pos unsigned] at word
      have same : ((UInt64.ofNat i.toNat).toNat : Int) = i := Option.some.inj word
      refine ⟨_, fun _ => rfl, fun _ _ => Number.beq_ofUInt64 (denotes.trans ?_)⟩
      rw [← Int.cast_natCast, same]
    · rename_i signed
      rw [if_neg signed] at word
      have same : (Int64.ofInt i).toInt = i := Option.some.inj word
      refine ⟨_, fun _ => rfl, fun _ _ => Number.beq_ofInt64 (denotes.trans ?_)⟩
      rw [same]
  | single => exact ⟨_, fun _ => rfl, fun _ double => (double rfl).elim⟩
  | double =>
    refine ⟨n, fun _ => rfl, fun some _ => Float.beq_self_iff.2 ?_⟩
    rintro rfl
    simp at some

/-! ## Values that are no handles -/

/-- Whether a value has a host value that says all of it: a number does that is one, unless it is
rounded to single precision. -/
def Survives (x : Value) (type : ValueType) : Prop :=
  ∀ n, x = .number n → n.isNaN = false ∧ type ≠ .numeric .single

/-- A value that is no handle comes back as one of its kind, and as one equal to it if its host value
says all of it. -/
theorem plainToHost_back {d : Host.Domain} (noHandle : x.wrapper? = none)
    (converted : plainToHost d x type = .ok h) :
    ∃ y, (∀ w, Run.toScript h w = (.ok y, w)) ∧ y.tag = x.tag ∧
      (Survives x type → x.equals y = true) := by
  cases x with
  | handle wrapper => cases noHandle
  | function f => cases type <;> cases converted
  | nil =>
    have null : h = .null := by
      cases type with
      | named name =>
        unfold plainToHost at converted
        dsimp only at converted
        split at converted
        · split at converted <;> cases converted
          rfl
        · cases converted
          rfl
      | string | object | array _ =>
        cases converted
        rfl
      | _ => cases converted
    subst null
    exact ⟨.nil, fun _ => rfl, rfl, fun _ => rfl⟩
  | number n =>
    cases type with
    | numeric kind =>
      obtain ⟨n', back, equal⟩ := narrow_back converted
      refine ⟨.number n', back, rfl, fun survives => equal (survives n rfl).1 ?_⟩
      rintro rfl
      exact (survives n rfl).2 rfl
    | object =>
      cases converted
      refine ⟨.number n, fun _ => rfl, rfl, fun survives => Float.beq_self_iff.2 ?_⟩
      rintro rfl
      simpa using (survives _ rfl).1
    | _ => cases converted
  | bool b =>
    cases type with
    | bool | object =>
      cases converted
      exact ⟨.bool b, fun _ => rfl, rfl, fun _ => beq_self_eq_true b⟩
    | _ => cases converted
  | string bytes =>
    cases type with
    | string | object =>
      cases converted
      exact ⟨.string bytes, fun _ => rfl, rfl, fun _ => beq_self_eq_true bytes.data⟩
    | _ => cases converted
  | pointer address =>
    cases type with
    | pointer | object =>
      cases converted
      exact ⟨.pointer address, fun _ => rfl, rfl, fun _ => beq_self_eq_true address⟩
    | _ => cases converted

/-! ## Handles -/

/-- A bridge in use: its registry came about by issuing and releasing handles, and the objects that
handles were issued for are there, with types that the host has. -/
structure Serviceable (w : World Engine) : Prop where
  tidy : w.outer.bridge.registry.Tidy
  made : w.outer.bridge.registry.All fun entry => ∀ ref, entry.object? = some ref →
    ref.id < w.host.heap.objects.size ∧ ref.type.index < w.host.types

/-- Where the accounts are in order and nothing was broken, only that the objects are there is left to
see. -/
theorem Balanced.serviceable (balanced : Balanced [] w) (regular : w.outer.Regular)
    (there : w.outer.bridge.registry.All fun entry => ∀ ref, entry.object? = some ref →
      ref.id < w.host.heap.objects.size) : Serviceable w where
  tidy := (Sound.custody balanced regular).books.tidy
  made := fun slot member entry found ref object => by
    refine ⟨there slot member entry found ref object, ?_⟩
    have within := balanced.entries slot member entry found
    cases entry with
    | strong other | weak other =>
      obtain rfl := Option.some.inj object
      exact within
    | type => cases object

namespace Run

/-- A type of the host is known to scripts afterwards. Nothing comes to the host or to the registry
by that. -/
theorem registerType_ok {id : Host.TypeId} (there : id.index < w.host.types) :
    ∃ keys script exposed, registerType id w = (.ok keys, { w with outer := { w.outer with
      script, bridge := { w.outer.bridge with exposed } } }) := by
  cases found : w.outer.bridge.exposed.find? id with
  | some keys =>
    refine ⟨keys, w.outer.script, w.outer.bridge.exposed, ?_⟩
    unfold registerType
    rw [bridge_bind_apply, found]
    rfl
  | none =>
    have info : w.host.domain.get? id = some w.host.domain.types[id.index] :=
      Array.getElem?_eq_getElem there
    generalize w.host.domain.types[id.index] = t at info
    obtain ⟨ofInstance, firstId, first, -⟩ :=
      addTypeFunctions_apply (ε := Bridge.Error) instanceParts (by decide)
        (Behaviour.ofType_named t.name) w
    obtain ⟨ofClass, secondId, second, -⟩ :=
      addTypeFunctions_apply (ε := Bridge.Error) classParts (by decide)
        (Behaviour.ofType_named ("class " ++ t.name))
        (withScript w { w.outer.script with nextId := firstId })
    unfold registerType
    rw [bridge_bind_apply, found]
    dsimp only
    rw [bind_apply, typeInfo_apply, info]
    dsimp only
    rw [bind_apply, first]
    dsimp only
    rw [bind_apply, second]
    exact ⟨_, _, _, rfl⟩

/-- An object of a type of the host gets a wrapper with a handle that is issued for it. -/
theorem wrapObject_ok {ref : ObjectRef} (there : ref.type.index < w.host.types) :
    ∃ id behaviour u, wrapObject ref false w = (.ok (.handle
        ⟨id, (w.outer.bridge.registry.insert (.strong ref)).1.toWord, behaviour⟩), u) ∧
      u.host = w.host ∧
      u.outer.bridge.registry = (w.outer.bridge.registry.insert (.strong ref)).2 := by
  obtain ⟨keys, script, exposed, registered⟩ := registerType_ok there
  unfold wrapObject
  rw [bind_apply, registered]
  exact ⟨_, _, _, rfl, rfl, rfl⟩

end Run

/-- A handle that was issued for an object is a new one and unwraps to it, as long as there are no more
slots than words for them. -/
theorem unwrap_insert (serviceable : Serviceable w) (ref : ObjectRef) (alive : ObjectRef → Bool)
    (room : (w.outer.bridge.registry.insert (.strong ref)).2.slots.size ≤ UInt32.size) :
    w.outer.bridge.registry.isIssued (w.outer.bridge.registry.insert (.strong ref)).1 = false ∧
      Registry.unwrap (w.outer.bridge.registry.insert (.strong ref)).2 alive
        (w.outer.bridge.registry.insert (.strong ref)).1 = .ok ref := by
  have found := serviceable.tidy.lookup_insert (.strong ref) room
    (w.outer.bridge.registry.insert (.strong ref)).1
  rw [if_pos rfl] at found
  refine ⟨?_, ?_⟩
  · unfold Registry.isIssued
    rw [serviceable.tidy.fresh (.strong ref) room]
    rfl
  · unfold Registry.unwrap Registry.resolve
    rw [found]

/-- A copy holds what the object holds. -/
theorem slots_duplicate (s : Host.State) (ref : ObjectRef) :
    (s.duplicate ref).2.heap.slots (s.duplicate ref).1 = s.heap.slots ref := by
  show (s.heap.objects.push (s.heap.slots ref)).getD s.heap.objects.size #[] = s.heap.slots ref
  rw [Array.getD_eq_getD_getElem?, Array.getElem?_push_size]
  rfl

theorem Serviceable.copying (serviceable : Serviceable w) (ref : ObjectRef) :
    Serviceable (w.copying ref) where
  tidy := serviceable.tidy
  made := fun slot member entry found other object => by
    obtain ⟨there, typed⟩ := serviceable.made slot member entry found other object
    refine ⟨Nat.lt_of_lt_of_le there ?_, typed⟩
    exact (Array.size_push ..).symm ▸ Nat.le_succ _

theorem Serviceable.made_of_referent (serviceable : Serviceable w) {wrapper : Wrapper}
    {ref : ObjectRef} (resolved : referent w wrapper = .ok (.object ref)) :
    ref.id < w.host.heap.objects.size ∧ ref.type.index < w.host.types := by
  obtain ⟨entry, found, object⟩ := Registry.entry?_of_resolve resolved
  exact serviceable.made.entry? found ref object

/-- A script value is a wrapper with a handle that was not issued before and unwraps to an object, as
long as there are no more slots than words for them. -/
def NewHandle (w u : World Engine) (y : Value) (ref : ObjectRef) : Prop :=
  ∃ wrapper, y = .handle wrapper ∧ (u.outer.bridge.registry.slots.size ≤ UInt32.size →
    w.outer.bridge.registry.isIssued (.ofWord wrapper.slot) = false ∧
      u.outer.bridge.registry.unwrap (aliveIn u) (.ofWord wrapper.slot) = .ok ref)

/-- An object comes to scripts as a new handle, for a copy if it is an instance of a value type. -/
theorem toScript_object (serviceable : Serviceable w) {ref : ObjectRef}
    (there : ref.type.index < w.host.types) :
    ∃ y u, Run.toScript (.object ref) w = (.ok y, u) ∧
      if w.host.domain.isStruct ref then
        NewHandle w u y (w.host.duplicate ref).1 ∧ u.host = (w.host.duplicate ref).2
      else NewHandle w u y ref ∧ u.host = w.host := by
  have wraps : ∀ {v : World Engine} {other : ObjectRef}, Serviceable v →
      other.type.index < v.host.types → ∃ y u, Run.wrapObject other false v = (.ok y, u) ∧
        NewHandle v u y other ∧ u.host = v.host := by
    intro v other serviceable there
    obtain ⟨id, behaviour, u, wrapped, host, registry⟩ := Run.wrapObject_ok there
    refine ⟨_, u, wrapped, ⟨_, rfl, fun room => ?_⟩, host⟩
    rw [registry] at room ⊢
    rw [Handle.ofWord_toWord]
    exact unwrap_insert serviceable other (aliveIn u) room
  change ∃ y u, (Run.copyIfStruct ref >>= fun other => Run.wrapObject other false) w = (.ok y, u) ∧ _
  rw [Run.bind_apply, Run.copyIfStruct_apply]
  by_cases copied : w.host.domain.isStruct ref = true
  · rw [if_pos copied]
    have there' : (w.host.duplicate ref).1.type.index < (w.copying ref).host.types := there
    obtain ⟨y, u, wrapped, news⟩ := wraps (serviceable.copying ref) there'
    refine ⟨y, u, wrapped, ?_⟩
    rw [if_pos copied]
    exact news
  · rw [if_neg copied]
    obtain ⟨y, u, wrapped, news⟩ := wraps serviceable there
    refine ⟨y, u, wrapped, ?_⟩
    rw [if_neg copied]
    exact news

/-! ## Any value -/

/-- What the handle that comes back refers to: the object itself, or another one of its type with
the same in its slots if it is an instance of a value type. -/
inductive Returned (w u : World Engine) (ref : ObjectRef) : ObjectRef → Prop
  | itself (shared : w.host.domain.isStruct ref = false) : Returned w u ref ref
  | copy {other : ObjectRef} (copied : w.host.domain.isStruct ref = true)
      (apart : other.same ref = false) (type : other.type = ref.type)
      (slots : u.host.heap.slots other = w.host.heap.slots ref) : Returned w u ref other

/-- What is converted for the host can be converted back, to a value of the same kind. That equals
the one before if it is no handle and its host value says all of it. A handle comes back as a new
one, for the same object or for a copy. -/
theorem toScript_of_toHost (serviceable : Serviceable w)
    (converted : Run.toHost x type w = (.ok h, v)) :
    ∃ y u, Run.toScript h v = (.ok y, u) ∧ y.tag = x.tag ∧
      (x.wrapper? = none → Survives x type → x.equals y = true) ∧
      ∀ wrapper, x = .handle wrapper → ∃ ref other,
        referent w wrapper = .ok (.object ref) ∧ NewHandle w u y other ∧ Returned w u ref other := by
  obtain ⟨-, h', v', becomes, given⟩ | ⟨cause, refused, -⟩ := toHost_cases x type w
  · obtain ⟨same, rfl⟩ := Prod.mk.inj (converted.symm.trans becomes)
    obtain rfl := Except.ok.inj same
    cases given with
    | plain noHandle plain =>
      obtain ⟨y, back, tag, equal⟩ := plainToHost_back noHandle plain
      refine ⟨y, w, back w, tag, fun _ => equal, ?_⟩
      rintro wrapper rfl
      cases noHandle
    | @object wrapper _ ref resolved accepted shared =>
      obtain ⟨y, u, back, news⟩ :=
        toScript_object serviceable (serviceable.made_of_referent resolved).2
      rw [if_neg (by rw [shared]; decide)] at news
      obtain ⟨⟨wrapper', rfl, unwraps⟩, -⟩ := news
      refine ⟨_, u, back, rfl, nofun, ?_⟩
      rintro _ ⟨⟩
      exact ⟨ref, ref, resolved, ⟨wrapper', rfl, unwraps⟩, .itself shared⟩
    | @copy wrapper _ ref resolved accepted copied =>
      obtain ⟨there, typed⟩ := serviceable.made_of_referent resolved
      have typed' : (w.host.duplicate ref).1.type.index < (w.copying ref).host.types := typed
      obtain ⟨y, u, back, news⟩ := toScript_object (serviceable.copying ref) typed'
      have copiedAgain : (w.copying ref).host.domain.isStruct (w.host.duplicate ref).1 = true := copied
      rw [if_pos copiedAgain] at news
      obtain ⟨⟨wrapper', rfl, unwraps⟩, host⟩ := news
      refine ⟨_, u, back, rfl, nofun, ?_⟩
      rintro _ ⟨⟩
      refine ⟨ref, _, resolved, ⟨wrapper', rfl, unwraps⟩, .copy copied ?_ rfl ?_⟩
      · rw [ObjectRef.same, beq_eq_false_iff_ne]
        change (w.host.heap.objects.push _).size ≠ ref.id
        rw [Array.size_push]
        omega
      · rw [host, slots_duplicate]
        exact slots_duplicate w.host ref
  · rw [converted] at refused
    cases (Prod.mk.inj refused).1

/-- An instance of a value type, and a handle of it. -/
def pointing : List (Script.Step Session.Command) := [
  { action := .action (.domain (.define
      [⟨"Point", none, true, [⟨"x", .numeric .int32, false⟩], []⟩])) },
  { action := .action (.domain (.instantiate (.named "Point") "p")) },
  { action := .action (.bridge (.toScript (.object "p"))), names := ["point"] }]

/-- The world after that. -/
def pointed : World Engine :=
  (Session.runAll pointing (Session.start {} true)).2

theorem serviceable_pointed : Serviceable pointed := by
  have shallow : Session.Shallow pointing (Session.start {} true) := by decide +kernel
  have nothing : pointed.outer.ledger = [] := by decide +kernel
  have slots : pointed.outer.bridge.registry.slots = #[⟨0, some (.strong ⟨1, ⟨1⟩⟩)⟩] := by
    decide +kernel
  have objects : pointed.host.heap.objects.size = 2 := by decide +kernel
  have reached : Session.Reached {} true pointed := Session.Reached.start.runAll shallow
  have regular : pointed.outer.Regular :=
    .of_nil (by decide +kernel) nothing (by rw [slots]; decide)
  refine reached.sound.2.serviceable regular ?_
  intro slot member entry found ref object
  rw [slots, List.mem_toArray, List.mem_singleton] at member
  subst member
  cases found
  cases object
  rw [objects]
  decide

/-- The handle comes back for the second copy that is made on the way. -/
theorem toScript_of_toHost_pointed :
    let point : Wrapper := ⟨13, 0, 0⟩
    (pointed.outer.bindings.find? "point").bind (·.wrapper?) = some point ∧
      ∃ h v wrapper u other, Run.toHost (.handle point) .object pointed = (.ok h, v) ∧
        Run.toScript h v = (.ok (.handle wrapper), u) ∧
        u.outer.bridge.registry.unwrap (aliveIn u) (.ofWord wrapper.slot) = .ok other ∧
        Returned pointed u ⟨1, ⟨1⟩⟩ other ∧ other.same ⟨1, ⟨1⟩⟩ = false := by
  intro point
  have resolved : referent pointed point = .ok (.object ⟨1, ⟨1⟩⟩) := by decide +kernel
  have copied : pointed.host.domain.isStruct ⟨1, ⟨1⟩⟩ = true := by decide +kernel
  have converted : Run.toHost (.handle point) .object pointed =
      (.ok (.object (pointed.host.duplicate ⟨1, ⟨1⟩⟩).1), pointed.copying ⟨1, ⟨1⟩⟩) := by
    rw [Run.toHost_handle_apply, resolved]
    exact (if_pos rfl).trans (if_pos copied)
  have size : (Run.toScript (.object (pointed.host.duplicate ⟨1, ⟨1⟩⟩).1)
      (pointed.copying ⟨1, ⟨1⟩⟩)).2.outer.bridge.registry.slots.size = 2 := by decide +kernel
  obtain ⟨y, u, back, -, -, returns⟩ := toScript_of_toHost serviceable_pointed converted
  obtain ⟨ref, other, resolved', ⟨wrapper, rfl, unwraps⟩, returned⟩ := returns point rfl
  rw [back] at size
  cases resolved.symm.trans resolved'
  refine ⟨by decide +kernel, _, _, wrapper, u, other, converted, back,
    (unwraps (by rw [size]; decide)).2, returned, ?_⟩
  cases returned with
  | itself shared => cases shared.symm.trans copied
  | copy _ apart _ _ => exact apart

end ScriptHost

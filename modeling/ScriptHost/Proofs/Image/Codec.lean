import ScriptHost.Image.Codec
import ScriptHost.Proofs.Image.InjectedImage
import ScriptHost.Proofs.Json.Records
import ScriptHost.Proofs.Tables
/-!
The text of an image. Reading it gives the image back, unless the image nests too deep or loads
doubles.
-/
namespace ScriptHost

open Host
open Json (Codes Plain codes_bool codes_int64 codes_list codes_nullable codes_record codes_string
  codes_uint16 codes_uint32 depth_record_le)

/-! ## Alternatives -/

/-- A value that a table names is read back by its name. -/
theorem Json.codes_nameIn {α : Type} [DecidableEq α] {table : List (String × α)} {a : α}
    (distinct : (table.map (·.1)).Nodup) (named : a ∈ table.map (·.2)) :
    Codes (plainVariant? table) (nameIn table a) a := by
  obtain ⟨⟨name, b⟩, member, rfl⟩ := List.mem_map.1 named
  refine ⟨.str _, fun levels _ => ?_⟩
  cases found : table.find? (·.2 == b) with
  | none => exact absurd (beq_self_eq_true b) (List.find?_eq_none.1 found _ member)
  | some entry =>
    obtain ⟨written, c⟩ := entry
    obtain rfl : c = b := by simpa using List.find?_some found
    unfold nameIn plainVariant?
    rw [found]
    exact Table.lookup_of_mem distinct (List.mem_of_find?_eq_some found)

/-- An object of one member fits if its value fits one level further in. -/
theorem Json.depth_single_le {name : String} {value : Json} {levels : Nat} :
    (record [(name, value)]).depth ≤ levels ↔ ∃ inner, levels = inner + 1 ∧ value.depth ≤ inner := by
  rw [depth_record_le]
  simp only [List.forall_mem_singleton]

namespace Host

theorem NumericKind.codes (kind : NumericKind) :
    Codes (Json.plainVariant? names) (.nameIn names kind) kind :=
  Json.codes_nameIn (by decide) (by cases kind <;> decide)

theorem ParamMode.codes (mode : ParamMode) :
    Codes (Json.plainVariant? names) (.nameIn names mode) mode :=
  Json.codes_nameIn (by decide) (by cases mode <;> decide)

theorem MethodKind.codes (kind : MethodKind) :
    Codes (Json.plainVariant? names) (.nameIn names kind) kind :=
  Json.codes_nameIn (by decide) (by cases kind <;> decide)

theorem TypeKind.codes (kind : TypeKind) :
    Codes (Json.plainVariant? names) (.nameIn names kind) kind :=
  Json.codes_nameIn (by decide) (by cases kind <;> decide)

theorem Anchor.codes (a : Anchor) : Codes (Json.plainVariant? names) (.nameIn names a) a :=
  Json.codes_nameIn (by decide) (by cases a <;> decide)

theorem MethodToken.codes (t : MethodToken) :
    Codes (fun _ => MethodToken.ofJson?) (.nat t.id.toNat) t :=
  (codes_uint32 t.id).map MethodToken.mk

/-! ## Types -/

/-- A type of the host is read back. -/
theorem ValueType.codes (type : ValueType) : Codes ofJson? type.toJson type := by
  induction type with
  | numeric kind =>
    refine ⟨.record (List.forall_mem_singleton.2 kind.codes.plain), fun levels fits => ?_⟩
    obtain ⟨inner, rfl, inside⟩ := Json.depth_single_le.1 fits
    show (Json.plainVariant? NumericKind.names inner _).map numeric = _
    rw [kind.codes.back inner inside]
    rfl
  | named name =>
    refine ⟨.record (List.forall_mem_singleton.2 (.str name)), fun levels fits => ?_⟩
    obtain ⟨inner, rfl, _⟩ := Json.depth_single_le.1 fits
    rfl
  | array element ih =>
    refine ⟨.record (List.forall_mem_singleton.2 ih.plain), fun levels fits => ?_⟩
    obtain ⟨inner, rfl, inside⟩ := Json.depth_single_le.1 fits
    show (ofJson? inner element.toJson).map array = _
    rw [ih.back inner inside]
    rfl
  | _ => exact ⟨.str _, fun levels _ => by cases levels <;> rfl⟩

/-- A parameter is read back. -/
theorem Param.codes (p : Param) : Codes ofJson? p.toJson p := by
  refine codes_record ["name", "ty", "mode"] rfl (by decide) ?_ fun inner each opens => ?_
  · simp only [List.forall_mem_cons]
    exact ⟨.str _, p.type.codes.plain, p.mode.codes.plain, fun _ member => nomatch member⟩
  · simp only [List.forall_mem_cons] at each
    obtain ⟨_, type, mode, _⟩ := each
    unfold ofJson?
    rw [opens]
    simp only [List.map_cons, List.map_nil, Option.bind_eq_bind, Option.bind_some, Json.orDefault,
      p.type.codes.back inner type, p.mode.codes.back inner mode]
    rfl

/-! ## Bodies -/

theorem Instr.ofJson?_record (name : String) (j : Json) (inner : Nat) :
    ofJson? (inner + 1) (.record [(name, j)]) =
      match ofPayload? inner name j, j with
      | some instr, _ => some instr
      | none, .null => names.lookup name
      | none, _ => none := rfl

/-- An instruction that does not load a double is read back. -/
theorem Instr.codes {instr : Instr} (noDouble : ∀ x, instr ≠ .ldFloat x) :
    Codes ofJson? instr.toJson instr := by
  -- An instruction that carries something is an object of one member.
  have carries : ∀ {α : Type} {name : String} {read : Nat → Json → Option α} {j : Json} {a : α}
      {make : α → Instr}, Codes read j a →
      (∀ levels, ofPayload? levels name j = (read levels j).map make) →
      Codes ofJson? (.record [(name, j)]) (make a) := by
    intro α name read j a make codes payload
    refine ⟨.record (List.forall_mem_singleton.2 codes.plain), fun levels fits => ?_⟩
    obtain ⟨inner, rfl, inside⟩ := Json.depth_single_le.1 fits
    have given : ofPayload? inner name j = some (make a) := by
      rw [payload, codes.back inner inside]
      rfl
    rw [ofJson?_record, given]
  cases instr with
  | ldFloat x => exact absurd rfl (noDouble x)
  | anchor a => exact carries a.codes fun _ => rfl
  | ldBool b => exact carries (codes_bool b) fun _ => rfl
  | ldInt i => exact carries (codes_int64 i) fun _ => rfl
  | ldStr s => exact carries (codes_string s) fun _ => rfl
  | ldToken t => exact carries t.codes fun _ => rfl
  | ldArg i => exact carries (codes_uint16 i) fun _ => rfl
  | stArg i => exact carries (codes_uint16 i) fun _ => rfl
  | ldLoc i => exact carries (codes_uint16 i) fun _ => rfl
  | stLoc i => exact carries (codes_uint16 i) fun _ => rfl
  | ldFld i => exact carries (codes_uint16 i) fun _ => rfl
  | stFld i => exact carries (codes_uint16 i) fun _ => rfl
  | newArr element => exact carries element.codes fun _ => rfl
  | br target => exact carries (codes_uint32 target) fun _ => rfl
  | brTrue target => exact carries (codes_uint32 target) fun _ => rfl
  | brFalse target => exact carries (codes_uint32 target) fun _ => rfl
  | call t => exact carries t.codes fun _ => rfl
  | newObj t => exact carries t.codes fun _ => rfl
  | arith op => exact ⟨.str _, fun levels _ => by cases op <;> rfl⟩
  | _ => exact ⟨.str _, fun levels _ => rfl⟩

/-- A body without instructions that load doubles. -/
def Body.LoadsNoDouble (b : Body) : Prop :=
  ∀ instr ∈ b.code, ∀ x, instr ≠ .ldFloat x

/-- A body is read back. -/
theorem Body.codes {b : Body} (noDouble : b.LoadsNoDouble) : Codes ofJson? b.toJson b := by
  have localCodes := codes_list b.locals.toList fun type _ => type.codes
  have codeCodes := codes_list b.code.toList fun instr member =>
    Instr.codes (noDouble instr (Array.mem_toList_iff.1 member))
  refine codes_record ["locals", "code"] rfl (by decide) ?_ fun inner each opens => ?_
  · simp only [List.forall_mem_cons]
    exact ⟨localCodes.plain, codeCodes.plain, fun _ member => nomatch member⟩
  · simp only [List.forall_mem_cons] at each
    obtain ⟨locals, code, _⟩ := each
    unfold ofJson?
    rw [opens]
    simp only [List.map_cons, List.map_nil, Option.bind_eq_bind, Option.bind_some, Json.orDefault,
      localCodes.back inner locals, codeCodes.back inner code]
    rfl

/-- A field is read back. -/
theorem FieldDecl.codes (f : FieldDecl) : Codes ofJson? f.toJson f := by
  refine codes_record ["name", "ty", "is_static"] rfl (by decide) ?_ fun inner each opens => ?_
  · simp only [List.forall_mem_cons]
    exact ⟨.str _, f.type.codes.plain, .bool _, fun _ member => nomatch member⟩
  · simp only [List.forall_mem_cons] at each
    obtain ⟨_, type, _⟩ := each
    unfold ofJson?
    rw [opens]
    simp only [List.map_cons, List.map_nil, Option.bind_eq_bind, Option.bind_some, Json.orDefault,
      f.type.codes.back inner type]
    rfl

end Host

namespace Image

/-! ## Images -/

/-- A type of an image is read back. -/
theorem TypeDef.codes (t : TypeDef) : Codes ofJson? t.toJson t := by
  have base := codes_nullable t.base fun s _ => ⟨codes_string s, nofun⟩
  have fieldCodes := codes_list t.fields fun f _ => f.codes
  refine codes_record ["name", "base", "kind", "fields"] rfl (by decide) ?_
    fun inner each opens => ?_
  · simp only [List.forall_mem_cons]
    exact ⟨.str _, base.plain, t.kind.codes.plain, fieldCodes.plain, fun _ member => nomatch member⟩
  · simp only [List.forall_mem_cons] at each
    obtain ⟨_, ofBase, kind, fields, _⟩ := each
    unfold ofJson?
    rw [opens]
    simp only [List.map_cons, List.map_nil, Option.bind_eq_bind, Option.bind_some, Json.orDefault,
      base.back inner ofBase, t.kind.codes.back inner kind, fieldCodes.back inner fields]
    rfl

/-- The marks of a method are read back. -/
theorem MethodAttrs.codes (a : MethodAttrs) : Codes ofJson? a.toJson a := by
  refine codes_record ["patchable", "patch_hub", "injected"] rfl (by decide) ?_
    fun inner each opens => ?_
  · simp only [List.forall_mem_cons]
    exact ⟨.bool _, .bool _, .bool _, fun _ member => nomatch member⟩
  · unfold ofJson?
    rw [opens]
    rfl

/-- A method without instructions that load doubles. -/
def MethodDef.LoadsNoDouble (m : MethodDef) : Prop :=
  ∀ body, m.body = some body → body.LoadsNoDouble

/-- A method of an image is read back. -/
theorem MethodDef.codes {m : MethodDef} (noDouble : m.LoadsNoDouble) :
    Codes ofJson? m.toJson m := by
  have params := codes_list m.params fun p _ => p.codes
  have body := codes_nullable m.body fun b is => ⟨Body.codes (noDouble b is), nofun⟩
  refine codes_record ["token", "declaring", "name", "kind", "params", "ret", "attrs", "body"] rfl
    (by decide) ?_ fun inner each opens => ?_
  · simp only [List.forall_mem_cons]
    exact ⟨m.token.codes.plain, .str _, .str _, m.kind.codes.plain, params.plain, m.ret.codes.plain,
      m.attrs.codes.plain, body.plain, fun _ member => nomatch member⟩
  · simp only [List.forall_mem_cons] at each
    obtain ⟨token, _, _, kind, ofParams, ret, attrs, ofBody, _⟩ := each
    unfold ofJson?
    dsimp only
    rw [opens, Option.bind_eq_bind, Option.bind_some]
    simp only [List.map_cons, List.map_nil]
    dsimp only [Json.orDefault]
    rw [m.token.codes.back inner token, m.kind.codes.back inner kind, params.back inner ofParams,
      m.ret.codes.back inner ret, m.attrs.codes.back inner attrs, body.back inner ofBody]
    rfl

/-- An image without instructions that load doubles. -/
def LoadsNoDouble (image : Image) : Prop :=
  ∀ m ∈ image.methods, m.LoadsNoDouble

variable {image after : Image} {report : InjectReport}

/-- An image is read back. -/
theorem codes (noDouble : image.LoadsNoDouble) : Codes ofJson? image.toJson image := by
  have types := codes_list image.types fun t _ => t.codes
  have methods := codes_list image.methods fun m member => MethodDef.codes (noDouble m member)
  refine codes_record ["name", "types", "methods"] rfl (by decide) ?_ fun inner each opens => ?_
  · simp only [List.forall_mem_cons]
    exact ⟨.str _, types.plain, methods.plain, fun _ member => nomatch member⟩
  · simp only [List.forall_mem_cons] at each
    obtain ⟨_, ofTypes, ofMethods, _⟩ := each
    unfold ofJson?
    rw [opens]
    simp only [List.map_cons, List.map_nil, Option.bind_eq_bind, Option.bind_some, Json.orDefault,
      types.back inner ofTypes, methods.back inner ofMethods]
    rfl

theorem decode?_encode (noDouble : image.LoadsNoDouble)
    (shallow : image.toJson.depth ≤ Json.maxLevels) : decode? image.encode = some image := by
  have coded := codes noDouble
  unfold decode? encode
  rw [Json.parse?_pretty coded.plain]
  exact coded.back Json.maxLevels shallow

/-! ## Injected images -/

/-- A body with a prologue loads a double only if its own code does. -/
theorem Injected.loadsNoDouble {m : MethodDef} {hub : MethodToken} {own injected : Body}
    (shape : Injected m hub own injected) (noDouble : own.LoadsNoDouble) :
    injected.LoadsNoDouble := by
  intro instr member
  rw [shape.code, Array.mem_append, List.mem_toArray, Array.mem_map] at member
  rcases member with before | ⟨moved, inOwn, rfl⟩
  · unfold prologue at before
    simp only [List.mem_append, List.mem_singleton] at before
    rcases before with ((inFront | rfl) | inBack) | rfl
    · exact forall_front (P := fun instr => ∀ x, instr ≠ .ldFloat x) nofun nofun
        (fun _ _ _ plain => plain) instr inFront
    · exact nofun
    · exact forall_back (P := fun instr => ∀ x, instr ≠ .ldFloat x) (fun _ _ _ plain => plain)
        instr inBack
    · exact nofun
  · have plain := noDouble moved inOwn
    intro x same
    cases moved with
    | ldFloat y => exact plain y rfl
    | _ => cases same

/-- Injection adds no instructions that load doubles. -/
theorem loadsNoDouble_of_inject (noDouble : image.LoadsNoDouble)
    (result : image.inject = .ok (after, report)) : after.LoadsNoDouble := by
  obtain ⟨_, hub, _, _, _, _, mapped⟩ := turns_of_inject result
  obtain ⟨_, back⟩ := Results.mem_of_mapM mapped
  intro m' member
  obtain ⟨m, inImage, turned⟩ := back m' member
  by_cases patchable : m.attrs.patchable = true
  · rw [turn_of_patchable patchable] at turned
    obtain ⟨own, injected, gained⟩ := gains_of_injectMethod turned
    intro body is
    rw [gained.result] at is
    obtain rfl : injected = body := Option.some.inj is
    exact gained.shape.loadsNoDouble (noDouble m inImage own gained.shape.body)
  · rw [turn_of_unpatchable (eq_false_of_ne_true patchable)] at turned
    cases turned
    exact noDouble _ inImage

/-- The text of an image that loads no doubles is read as that image, as long as it does not nest
deeper than a text may. So is the text of what injection makes of it, under the same condition. -/
theorem encode_decode_inverse (image : Image) (noDouble : image.LoadsNoDouble) :
    (image.toJson.depth ≤ Json.maxLevels →
      decode? image.encode = some image ∧
        ∀ read, decode? image.encode = some read →
          read.encode = image.encode ∧ read.digest = image.digest) ∧
      ∀ after report, image.inject = .ok (after, report) → after.toJson.depth ≤ Json.maxLevels →
        decode? after.encode = some after := by
  refine ⟨fun shallow => ?_, fun after report result shallow => ?_⟩
  · have read := decode?_encode noDouble shallow
    refine ⟨read, fun other found => ?_⟩
    obtain rfl := Option.some.inj (read.symm.trans found)
    exact ⟨rfl, rfl⟩
  · exact decode?_encode (loadsNoDouble_of_inject noDouble result) shallow

theorem loadsNoDouble_wishes : wishes.LoadsNoDouble := by
  intro m member body is instr inside
  simp only [wishes, List.mem_cons, List.not_mem_nil, or_false] at member
  rcases member with rfl | rfl
  · cases is
  · cases is
    simp only [grantBody, List.mem_toArray, List.mem_cons, List.not_mem_nil, or_false] at inside
    intro x same
    rcases inside with rfl | rfl <;> cases same

/-- An image with a patchable method is read back, before and after injection. -/
theorem decode_encode_wishes :
    wishes.LoadsNoDouble ∧ wishes.toJson.depth ≤ Json.maxLevels ∧
      decode? wishes.encode = some wishes ∧ injectedWishes.toJson.depth ≤ Json.maxLevels ∧
      decode? injectedWishes.encode = some injectedWishes := by
  obtain ⟨report, injection⟩ := inject_wishes
  obtain ⟨own, injected⟩ := encode_decode_inverse wishes loadsNoDouble_wishes
  have shallow : wishes.toJson.depth ≤ Json.maxLevels := by decide +kernel
  have shallow' : injectedWishes.toJson.depth ≤ Json.maxLevels := by decide +kernel
  exact ⟨loadsNoDouble_wishes, shallow, (own shallow).1, shallow',
    injected injectedWishes report injection shallow'⟩

end Image

end ScriptHost

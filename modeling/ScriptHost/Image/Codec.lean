import ScriptHost.Checksum.Sha256
import ScriptHost.Image.Basic
import ScriptHost.Json.Decode
import ScriptHost.Json.Reader
import ScriptHost.Json.Writer
import ScriptHost.Number.Notation
/-!
Images as JSON text.
-/
namespace ScriptHost

open Host

/-! ## Names of alternatives -/

/-- The first name that a table gives to a value. -/
def Json.nameIn {α : Type} [BEq α] (table : List (String × α)) (a : α) : Json :=
  .str (((table.find? (·.2 == a)).map (·.1)).getD "")

namespace Host

/-- The written names of numeric kinds. -/
def NumericKind.names : List (String × NumericKind) :=
  [("I8", .int8), ("I16", .int16), ("I32", .int32), ("I64", .int64), ("U8", .uint8),
    ("U16", .uint16), ("U32", .uint32), ("U64", .uint64), ("F32", .single), ("F64", .double)]

/-- The written names of the types that carry nothing. -/
def ValueType.names : List (String × ValueType) :=
  [("Void", .void), ("Bool", .bool), ("String", .string), ("Pointer", .pointer),
    ("Object", .object)]

/-- The written names of parameter modes. -/
def ParamMode.names : List (String × ParamMode) :=
  [("In", .input), ("Ref", .byRef), ("Out", .output)]

/-- The written names of method kinds. -/
def MethodKind.names : List (String × MethodKind) :=
  [("Constructor", .constructor), ("Instance", .ofInstance), ("Static", .static)]

/-- The written names of type kinds. -/
def TypeKind.names : List (String × TypeKind) :=
  [("Class", .reference), ("Struct", .struct), ("Array", .array)]

/-- The written names of anchors. -/
def Anchor.names : List (String × Anchor) :=
  [("ArgMarshal", .argMarshal), ("HubCall", .hubCall), ("VetoBranch", .vetoBranch),
    ("RefOutWriteback", .refOutWriteback), ("Return", .ret), ("Original", .ownCode)]

/-- The written names of the instructions that carry nothing. -/
def Instr.names : List (String × Instr) :=
  [("Nop", .nop), ("LdNull", .ldNull), ("LdThis", .ldThis), ("LdElem", .ldElem),
    ("StElem", .stElem), ("Add", .arith .add), ("Sub", .arith .sub), ("Mul", .arith .mul),
    ("Ceq", .ceq), ("Clt", .clt), ("Dup", .dup), ("Pop", .pop), ("Throw", .throw), ("Ret", .ret)]

/-! ## Writing -/

/-- A type as JSON. -/
def ValueType.toJson : ValueType → Json
  | .numeric kind => .record [("Numeric", .nameIn NumericKind.names kind)]
  | .named name => .record [("Class", .str name)]
  | .array element => .record [("Array", element.toJson)]
  | other => .nameIn ValueType.names other

/-- A parameter as JSON. -/
def Param.toJson (p : Param) : Json :=
  .record [("name", .str p.name), ("ty", p.type.toJson), ("mode", .nameIn ParamMode.names p.mode)]

end Host

/-- A double as JSON. What is no finite number is written as null. -/
def Json.ofFloat (x : Float) : Json :=
  if x.isFinite then
    match Reader.literal? (Number.imageNumber.text x).toList with
    | some (n, _) => .number n
    | none => .null
  else .null

namespace Host

/-- An instruction as JSON. -/
def Instr.toJson : Instr → Json
  | .anchor a => .record [("Anchor", .nameIn Anchor.names a)]
  | .ldBool b => .record [("LdBool", .bool b)]
  | .ldInt i => .record [("LdInt", .int i.toInt)]
  | .ldFloat x => .record [("LdFloat", .ofFloat x)]
  | .ldStr s => .record [("LdStr", .str s)]
  | .ldToken t => .record [("LdToken", .nat t.id.toNat)]
  | .ldArg i => .record [("LdArg", .nat i.toNat)]
  | .stArg i => .record [("StArg", .nat i.toNat)]
  | .ldLoc i => .record [("LdLoc", .nat i.toNat)]
  | .stLoc i => .record [("StLoc", .nat i.toNat)]
  | .ldFld i => .record [("LdFld", .nat i.toNat)]
  | .stFld i => .record [("StFld", .nat i.toNat)]
  | .newArr element => .record [("NewArr", element.toJson)]
  | .br target => .record [("Br", .nat target.toNat)]
  | .brTrue target => .record [("BrTrue", .nat target.toNat)]
  | .brFalse target => .record [("BrFalse", .nat target.toNat)]
  | .call t => .record [("Call", .nat t.id.toNat)]
  | .newObj t => .record [("NewObj", .nat t.id.toNat)]
  | other => .nameIn Instr.names other

/-- A body as JSON. -/
def Body.toJson (b : Body) : Json :=
  .record [("locals", .list (b.locals.toList.map (·.toJson))),
    ("code", .list (b.code.toList.map (·.toJson)))]

/-- A field as JSON. -/
def FieldDecl.toJson (f : FieldDecl) : Json :=
  .record [("name", .str f.name), ("ty", f.type.toJson), ("is_static", .bool f.isStatic)]

end Host

namespace Image

/-- A type of an image as JSON. -/
def TypeDef.toJson (t : TypeDef) : Json :=
  .record [("name", .str t.name), ("base", t.base.elim .null .str),
    ("kind", .nameIn TypeKind.names t.kind), ("fields", .list (t.fields.map (·.toJson)))]

/-- The marks of a method as JSON. -/
def MethodAttrs.toJson (a : MethodAttrs) : Json :=
  .record [("patchable", .bool a.patchable), ("patch_hub", .bool a.patchHub),
    ("injected", .bool a.injected)]

/-- A method of an image as JSON. -/
def MethodDef.toJson (m : MethodDef) : Json :=
  .record [("token", .nat m.token.id.toNat), ("declaring", .str m.declaring), ("name", .str m.name),
    ("kind", .nameIn MethodKind.names m.kind), ("params", .list (m.params.map (·.toJson))),
    ("ret", m.ret.toJson), ("attrs", m.attrs.toJson),
    ("body", m.body.elim .null (·.toJson))]

/-- An image as JSON. -/
def toJson (image : Image) : Json :=
  .record [("name", .str image.name), ("types", .list (image.types.map (·.toJson))),
    ("methods", .list (image.methods.map (·.toJson)))]

/-- The text of an image. -/
def encode (image : Image) : String :=
  image.toJson.pretty

/-- The hash of the text of an image. -/
def digest (image : Image) : String :=
  Checksum.sha256 image.encode.toUTF8.toList

end Image

/-! ## Reading -/

namespace Host

/-- Reads a type. -/
def ValueType.ofJson? : Nat → Json → Option ValueType
  | _, .text (some name) => ValueType.names.lookup name
  | levels + 1, .object [(some "Array", value)] => (ofJson? levels value).map .array
  | _ + 1, .object [(some "Class", value)] => value.string?.map .named
  | levels + 1, .object [(some "Numeric", value)] =>
    (Json.plainVariant? NumericKind.names levels value).map .numeric
  | levels, j => Json.plainVariant? ValueType.names levels j

/-- Reads a token. -/
def MethodToken.ofJson? (j : Json) : Option MethodToken :=
  j.uint32?.map (⟨·⟩)

/-- Reads a parameter. -/
def Param.ofJson? (levels : Nat) (j : Json) : Option Param := do
  match ← j.record? ["name", "ty", "mode"] levels with
  | (levels, [some name, some type, mode]) =>
    pure ⟨← name.string?, ← ValueType.ofJson? levels type,
      ← Json.orDefault .input (Json.plainVariant? ParamMode.names levels) mode⟩
  | _ => none

/-- Reads an instruction that carries something. -/
def Instr.ofPayload? (levels : Nat) (name : String) (j : Json) : Option Instr :=
  match name with
  | "Anchor" => (Json.plainVariant? Anchor.names levels j).map .anchor
  | "LdBool" => j.bool?.map .ldBool
  | "LdInt" => j.int64?.map .ldInt
  | "LdFloat" => j.float?.map .ldFloat
  | "LdStr" => j.string?.map .ldStr
  | "LdToken" => (MethodToken.ofJson? j).map .ldToken
  | "LdArg" => j.uint16?.map .ldArg
  | "StArg" => j.uint16?.map .stArg
  | "LdLoc" => j.uint16?.map .ldLoc
  | "StLoc" => j.uint16?.map .stLoc
  | "LdFld" => j.uint16?.map .ldFld
  | "StFld" => j.uint16?.map .stFld
  | "NewArr" => (ValueType.ofJson? levels j).map .newArr
  | "Br" => j.uint32?.map .br
  | "BrTrue" => j.uint32?.map .brTrue
  | "BrFalse" => j.uint32?.map .brFalse
  | "Call" => (MethodToken.ofJson? j).map .call
  | "NewObj" => (MethodToken.ofJson? j).map .newObj
  | _ => none

/-- Reads an instruction. -/
def Instr.ofJson? (levels : Nat) (j : Json) : Option Instr := do
  match ← Json.variant? levels j with
  | (name, none) => Instr.names.lookup name
  | (name, some (levels, value)) =>
    match Instr.ofPayload? levels name value, value with
    | some instr, _ => pure instr
    | none, .null => Instr.names.lookup name
    | none, _ => none

/-- Reads a body. -/
def Body.ofJson? (levels : Nat) (j : Json) : Option Body := do
  match ← j.record? ["locals", "code"] levels with
  | (levels, [locals, some code]) =>
    let locals ← Json.orDefault [] (Json.listOf? ValueType.ofJson? levels) locals
    let code ← Json.listOf? Instr.ofJson? levels code
    pure ⟨locals.toArray, code.toArray⟩
  | _ => none

/-- Reads a field. -/
def FieldDecl.ofJson? (levels : Nat) (j : Json) : Option FieldDecl := do
  match ← j.record? ["name", "ty", "is_static"] levels with
  | (levels, [some name, some type, isStatic]) =>
    pure ⟨← name.string?, ← ValueType.ofJson? levels type,
      ← Json.orDefault false Json.bool? isStatic⟩
  | _ => none

end Host

namespace Image

/-- Reads a type of an image. -/
def TypeDef.ofJson? (levels : Nat) (j : Json) : Option TypeDef := do
  match ← j.record? ["name", "base", "kind", "fields"] levels with
  | (levels, [some name, base, kind, fields]) =>
    pure ⟨← name.string?, ← Json.orDefault none (Json.nullable? Json.string?) base,
      ← Json.orDefault .reference (Json.plainVariant? TypeKind.names levels) kind,
      ← Json.orDefault [] (Json.listOf? FieldDecl.ofJson? levels) fields⟩
  | _ => none

/-- Reads the marks of a method. -/
def MethodAttrs.ofJson? (levels : Nat) (j : Json) : Option MethodAttrs := do
  match ← j.record? ["patchable", "patch_hub", "injected"] levels with
  | (_, [patchable, patchHub, injected]) =>
    pure ⟨← Json.orDefault false Json.bool? patchable, ← Json.orDefault false Json.bool? patchHub,
      ← Json.orDefault false Json.bool? injected⟩
  | _ => none

/-- Reads a method of an image. -/
def MethodDef.ofJson? (levels : Nat) (j : Json) : Option MethodDef := do
  let names := ["token", "declaring", "name", "kind", "params", "ret", "attrs", "body"]
  match ← j.record? names levels with
  | (levels, [some token, some declaring, some name, some kind, params, ret, attrs, body]) =>
    pure {
      token := ← MethodToken.ofJson? token
      declaring := ← declaring.string?
      name := ← name.string?
      kind := ← Json.plainVariant? MethodKind.names levels kind
      params := ← Json.orDefault [] (Json.listOf? Param.ofJson? levels) params
      ret := ← Json.orDefault .void (ValueType.ofJson? levels) ret
      attrs := ← Json.orDefault {} (MethodAttrs.ofJson? levels) attrs
      body := ← Json.orDefault none (Json.nullable? (Body.ofJson? levels)) body }
  | _ => none

/-- Reads an image. -/
def ofJson? (levels : Nat) (j : Json) : Option Image := do
  match ← j.record? ["name", "types", "methods"] levels with
  | (levels, [some name, types, methods]) =>
    pure ⟨← name.string?, ← Json.orDefault [] (Json.listOf? TypeDef.ofJson? levels) types,
      ← Json.orDefault [] (Json.listOf? MethodDef.ofJson? levels) methods⟩
  | _ => none

/-- Reads the text of an image. -/
def decode? (text : String) : Option Image := do
  ofJson? Json.maxLevels (← Json.parse? text)

end Image

end ScriptHost

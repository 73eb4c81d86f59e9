import ScriptHost.Text.Hex
/-!
Declared types of slots, parameters and methods, and the signature that names a method.
-/
namespace ScriptHost.Host

/-- The widths of host numbers. -/
inductive NumericKind
  | int8
  | int16
  | int32
  | int64
  | uint8
  | uint16
  | uint32
  | uint64
  | single
  | double
  deriving DecidableEq, Repr

/-- Every numeric kind, in order of declaration. -/
def NumericKind.all : List NumericKind :=
  [.int8, .int16, .int32, .int64, .uint8, .uint16, .uint32, .uint64, .single, .double]

/-- The name that a numeric kind has in signatures and messages. -/
def NumericKind.name : NumericKind → String
  | .int8 => "SByte"
  | .int16 => "Int16"
  | .int32 => "Int32"
  | .int64 => "Int64"
  | .uint8 => "Byte"
  | .uint16 => "UInt16"
  | .uint32 => "UInt32"
  | .uint64 => "UInt64"
  | .single => "Single"
  | .double => "Double"

/-- Whether the kind holds whole numbers only. -/
def NumericKind.isInteger : NumericKind → Bool
  | .single | .double => false
  | _ => true

/-- Whether the kind holds whole numbers from zero on. -/
def NumericKind.isUnsigned : NumericKind → Bool
  | .uint8 | .uint16 | .uint32 | .uint64 => true
  | _ => false

/-- The bounds of a kind, as doubles: its least number, and the first whole number that is too large,
or the largest number if the kind does not hold whole numbers only. -/
def NumericKind.bounds : NumericKind → Float × Float
  | .int8 => (-128.0, 128.0)
  | .int16 => (-32768.0, 32768.0)
  | .int32 => (-2147483648.0, 2147483648.0)
  | .int64 => (-9.223372036854776e18, 9.223372036854776e18)
  | .uint8 => (0.0, 256.0)
  | .uint16 => (0.0, 65536.0)
  | .uint32 => (0.0, 4294967296.0)
  | .uint64 => (0.0, 1.8446744073709552e19)
  | .single => (-3.4028234663852886e38, 3.4028234663852886e38)
  | .double => (-1.7976931348623157e308, 1.7976931348623157e308)

/-- How many bits a number of the kind has. -/
def NumericKind.width : NumericKind → Nat
  | .int8 | .uint8 => 8
  | .int16 | .uint16 => 16
  | .int32 | .uint32 | .single => 32
  | .int64 | .uint64 | .double => 64

/-- Whether a whole number lies in the range of an integer kind. -/
def NumericKind.Holds (kind : NumericKind) (i : Int) : Prop :=
  if kind.isUnsigned then 0 ≤ i ∧ i < Nat.pow 2 kind.width
  else -Nat.pow 2 (kind.width - 1) ≤ i ∧ i < Nat.pow 2 (kind.width - 1)

instance (kind : NumericKind) (i : Int) : Decidable (kind.Holds i) := by
  unfold NumericKind.Holds; exact inferInstance

/-- The declared type of a field, parameter, local or result. -/
inductive ValueType
  | void
  | bool
  | numeric (kind : NumericKind)
  | string
  | pointer
  | object
  | named (name : String)
  | array (element : ValueType)
  deriving DecidableEq, Repr

/-- The text of a type in signatures and messages. -/
def ValueType.name : ValueType → String
  | .void => "Void"
  | .bool => "Boolean"
  | .numeric kind => kind.name
  | .string => "String"
  | .pointer => "IntPtr"
  | .object => "System.Object"
  | .named name => name
  | .array element => element.name ++ "[]"

/-- How an argument travels: into the method, both ways, or only out of it. -/
inductive ParamMode
  | input
  | byRef
  | output
  deriving DecidableEq, Repr

/-- A declared parameter. -/
structure Param where
  name : String
  type : ValueType
  mode : ParamMode := .input
  deriving DecidableEq, Repr

/-- Whether callers pass a value for the parameter. -/
def Param.isInput (p : Param) : Bool :=
  p.mode != .output

/-- Whether callers receive a value from the parameter. -/
def Param.isByRef (p : Param) : Bool :=
  p.mode != .input

/-- How a parameter stands in a signature. -/
def Param.signatureText (p : Param) : String :=
  let mark := match p.mode with
    | .input => ""
    | .byRef => "ref "
    | .output => "out "
  mark ++ p.type.name

/-- What a method is called on: nothing yet, an instance, or a type. -/
inductive MethodKind
  | constructor
  | ofInstance
  | static
  deriving DecidableEq, Repr

/-- What a type is. A value type is copied when it is passed. -/
inductive TypeKind
  | reference
  | struct
  | array
  deriving DecidableEq, Repr

/-- The number by which code refers to a method. -/
structure MethodToken where
  id : UInt32
  deriving DecidableEq, Repr, Hashable

/-- The text of a token: eight hexadecimal digits. -/
def MethodToken.text (t : MethodToken) : String :=
  "0x" ++ Text.hexPadded 8 t.id.toNat

/-- The name of every constructor. -/
def constructorName : String := ".ctor"

/-- The signature of a method: its type, its name and its parameter types. -/
def signature (declaring name : String) (params : List Param) : String :=
  declaring ++ "::" ++ name ++ "(" ++ ",".intercalate (params.map Param.signatureText) ++ ")"

/-- The parameters of the method that consults the patches. -/
def hubParams : List Param :=
  [⟨"signature", .string, .input⟩, ⟨"token", .numeric .int64, .input⟩, ⟨"target", .object, .input⟩,
    ⟨"args", .array .object, .input⟩]

/-- Whether a method can consult the patches: parameter names do not matter. -/
def isHubShape (kind : MethodKind) (params : List Param) (ret : ValueType) : Bool :=
  kind == .static && ret == .bool &&
    params.map (fun p => (p.type, p.mode)) == hubParams.map (fun p => (p.type, p.mode))

end ScriptHost.Host

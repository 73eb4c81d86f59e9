import ScriptHost.Host.Signature
import ScriptHost.Number.Notation
import ScriptHost.Text.Quoted
import ScriptHost.Text.Utf8
/-!
Host values and the objects they refer to.
-/
namespace ScriptHost.Host

/-- The position of a type in its domain. -/
structure TypeId where
  index : Nat
  deriving DecidableEq, Repr

/-- A reference to an object: which one, and of which type it was made. -/
structure ObjectRef where
  id : Nat
  type : TypeId
  deriving DecidableEq, Repr

/-- Whether two references are to one object. -/
def ObjectRef.same (a b : ObjectRef) : Bool :=
  a.id == b.id

/-- Byte strings are compared byte by byte. -/
instance decEqBytes : DecidableEq ByteArray := ByteArray.instDecidableEq

/-- What a slot of the host holds. -/
inductive Value
  | null
  | bool (b : Bool)
  | int (i : Int64)
  | uint (u : UInt64)
  | float (x : Float)
  | str (bytes : ByteArray)
  | pointer (address : UInt64)
  | object (ref : ObjectRef)
  deriving DecidableEq

instance : Inhabited Value := ⟨.null⟩

/-- A value that can be written down. Objects cannot: they are only referred to. -/
inductive Literal
  | null
  | bool (b : Bool)
  | int (i : Int64)
  | uint (u : UInt64)
  | float (x : Float)
  | str (bytes : ByteArray)
  | pointer (address : UInt64)
  deriving DecidableEq

/-- The byte string that holds a text. -/
def Literal.text (s : String) : Literal :=
  .str s.toUTF8

/-- The value that is written down. -/
def Literal.toValue : Literal → Value
  | .null => .null
  | .bool b => .bool b
  | .int i => .int i
  | .uint u => .uint u
  | .float x => .float x
  | .str bytes => .str bytes
  | .pointer address => .pointer address

namespace Value

/-- The byte string that holds a text. -/
def text (s : String) : Value :=
  .str s.toUTF8

/-- What a slot of a type holds before anything is stored. -/
def defaultFor : ValueType → Value
  | .bool => .bool false
  | .numeric kind =>
    if !kind.isInteger then .float 0 else if kind.isUnsigned then .uint 0 else .int 0
  | .pointer => .pointer 0
  | _ => .null

/-- The value as a signed word. A whole double beyond the range gives the nearest word. -/
def asInt64? : Value → Option Int64
  | .int i => some i
  | .uint u => if u.toNat < 0x8000000000000000 then some u.toInt64 else none
  | .float x => if Number.isWhole x then some (Number.toInt64 x) else none
  | _ => none

/-- The value as a double, rounded if it is a word that no double equals. -/
def asFloat? : Value → Option Float
  | .int i => some (Number.ofInt64 i)
  | .uint u => some (Number.ofUInt64 u)
  | .float x => some x
  | _ => none

/-- The value as a natural number, for use as an index or a length. -/
def asNat? (v : Value) : Option Nat :=
  v.asInt64?.bind fun i => if i < 0 then none else some i.toInt.toNat

/-- The object that the value refers to. -/
def asObject? : Value → Option ObjectRef
  | .object ref => some ref
  | _ => none

/-- The bytes of a byte string. -/
def asBytes? : Value → Option ByteArray
  | .str bytes => some bytes
  | _ => none

/-- Whether a condition holds: null, false and the zeros do not. -/
def truthy : Value → Bool
  | .null => false
  | .bool b => b
  | .int i => i != 0
  | .uint u => u != 0
  | .float x => x != 0
  | .pointer address => address != 0
  | .str _ | .object _ => true

/-- Equality as code sees it: objects by identity, numbers of different kinds as doubles. -/
def equals : Value → Value → Bool
  | .null, .null => true
  | .bool a, .bool b => a == b
  | .str a, .str b => a == b
  | .pointer a, .pointer b => a == b
  | .object a, .object b => a.same b
  | .int a, .int b => a == b
  | .uint a, .uint b => a == b
  | a, b =>
    match a.asFloat?, b.asFloat? with
    | some x, some y => x == y
    | _, _ => false

/-- The value in diagnostics. -/
def diagnostic : Value → String
  | .null => "null"
  | .bool b => toString b
  | .int i => toString i.toInt
  | .uint u => toString u.toNat ++ "u"
  | .float x => Number.diagnostic.text x
  | .str bytes => Text.quoted (Text.shown bytes)
  | .pointer address => "ptr(0x" ++ Text.hexDigits address.toNat ++ ")"
  | .object ref => "object(type=" ++ toString ref.type.index ++ ")"

/-- The value as part of a text. -/
def shown : Value → String
  | .null => ""
  | .bool b => if b then "True" else "False"
  | .int i => toString i.toInt
  | .uint u => toString u.toNat
  | .float x => Number.plain.text x
  | .str bytes => Text.shown bytes
  | .pointer address => "0x" ++ Text.hexDigits address.toNat
  | .object ref => "object#" ++ toString ref.type.index

end Value

/-- The slots of every object ever made, by object. -/
structure Heap where
  objects : Array (Array Value) := #[]

namespace Heap

/-- Makes an object. -/
def allocate (h : Heap) (type : TypeId) (slots : Array Value) : ObjectRef × Heap :=
  (⟨h.objects.size, type⟩, ⟨h.objects.push slots⟩)

/-- The slots of an object. -/
def slots (h : Heap) (ref : ObjectRef) : Array Value :=
  h.objects.getD ref.id #[]

/-- How many slots an object has. -/
def size (h : Heap) (ref : ObjectRef) : Nat :=
  (h.slots ref).size

/-- What a slot of an object holds, if it has that slot. -/
def get? (h : Heap) (ref : ObjectRef) (slot : Nat) : Option Value :=
  (h.slots ref)[slot]?

/-- Stores into a slot that the object has. -/
def set (h : Heap) (ref : ObjectRef) (slot : Nat) (v : Value) : Heap :=
  ⟨h.objects.modify ref.id (·.setIfInBounds slot v)⟩

/-- Stores into a slot, if the object has it. -/
def set? (h : Heap) (ref : ObjectRef) (slot : Nat) (v : Value) : Option Heap :=
  if slot < h.size ref then some (h.set ref slot v) else none

end Heap

end ScriptHost.Host

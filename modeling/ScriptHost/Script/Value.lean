import ScriptHost.Number.Notation
import ScriptHost.Script.Step
import ScriptHost.Text.Quoted
import ScriptHost.Text.Utf8
/-!
Script values. Wrappers and functions have an identity: two of them are one only if their numbers
agree.
-/
namespace ScriptHost.Script

open Host

/-- What the parts of a behaviour that the bridge makes do. -/
inductive TypeFunction
  | instanceIndex
  | instanceNewindex
  | instanceText
  | classCall
  | classIndex
  | classNewindex
  | classText
  | finalize
  deriving DecidableEq, Repr

/-- Functions that the bridge provides. -/
inductive BridgeFunction
  | importType
  | patch
  | unpatch
  | findPatch
  | ofType (f : TypeFunction) (type : TypeId)
  | member (type : TypeId) (name : String)
  deriving DecidableEq, Repr

/-- What a function runs. -/
inductive FunctionBody
  | block (steps : Block)
  | bridge (f : BridgeFunction)

/-- A function of a script. -/
structure FunctionRef where
  id : Nat
  name : String
  /-- The prototype that the function was made from. -/
  proto : Option String
  body : FunctionBody

/-- A script-side reference to a slot of the host, and the key of its behaviour. -/
structure Wrapper where
  id : Nat
  slot : UInt64
  behaviour : Nat
  deriving DecidableEq, Repr

/-- A script value. -/
inductive Value
  | nil
  | bool (b : Bool)
  | number (x : Float)
  | string (bytes : ByteArray)
  | pointer (address : UInt64)
  | handle (w : Wrapper)
  | function (f : FunctionRef)

instance : Inhabited Value := ⟨.nil⟩

namespace Value

/-- The byte string that holds a text. -/
def text (s : String) : Value :=
  .string s.toUTF8

/-- The kind of a value. -/
def tag : Value → Tag
  | .nil => .nil
  | .bool _ => .bool
  | .number _ => .number
  | .string _ => .string
  | .pointer _ => .pointer
  | .handle _ => .handle
  | .function _ => .function

/-- Whether a condition holds: only nil and false do not. -/
def truthy : Value → Bool
  | .nil | .bool false => false
  | _ => true

/-- Equality as scripts see it: wrappers and functions by identity. -/
def equals : Value → Value → Bool
  | .nil, .nil => true
  | .bool a, .bool b => a == b
  | .number a, .number b => a == b
  | .string a, .string b => a == b
  | .pointer a, .pointer b => a == b
  | .handle a, .handle b => a.id == b.id
  | .function a, .function b => a.id == b.id
  | _, _ => false

/-- The wrapper of a handle. -/
def wrapper? : Value → Option Wrapper
  | .handle w => some w
  | _ => none

/-- The function that a value is. -/
def function? : Value → Option FunctionRef
  | .function f => some f
  | _ => none

/-- The bytes of a byte string. -/
def bytes? : Value → Option ByteArray
  | .string b => some b
  | _ => none

/-- The text of a byte string that holds text. -/
def text? (v : Value) : Option String :=
  v.bytes?.bind String.fromUTF8?

/-- The value in diagnostics. -/
def diagnostic : Value → String
  | .nil => "nil"
  | .bool b => toString b
  | .number x => Number.plain.text x
  | .string bytes => Text.quoted (Text.shown bytes)
  | .pointer address => "lightpointer(0x" ++ Text.hexDigits address.toNat ++ ")"
  | .handle w => "handle(0x" ++ Text.hexDigits w.slot.toNat ++ s!", meta={w.behaviour})"
  | .function f => "function(" ++ f.name ++ ")"

/-- How a number is shown to a reader. A whole number below `10 ^ 15` is written as an integer, so
that zero has no sign. -/
def numberText (x : Float) : String :=
  match Number.wholeNumber? x with
  | some i => if i.natAbs < 1000000000000000 then toString i else Number.plain.text x
  | none => Number.plain.text x

/-- How a value is shown to a reader, unless its behaviour says otherwise. -/
def shown : Value → String
  | .nil => "nil"
  | .bool b => toString b
  | .number x => numberText x
  | .string bytes => Text.shown bytes
  | .pointer address => "lightpointer: 0x" ++ Text.hexDigits address.toNat
  | .handle w => "handle: 0x" ++ Text.hexDigits w.slot.toNat
  | .function f => "function: " ++ f.name

/-- The text by which a value names a member. -/
def keyText : Value → String
  | .string bytes => Text.shown bytes
  | .number x => Number.plain.text x
  | other => other.tag.name

end Value

end ScriptHost.Script

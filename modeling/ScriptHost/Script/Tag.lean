import ScriptHost.Host.Signature
/-!
The kinds of script values, and which of them may be passed where a host type is declared.
-/
namespace ScriptHost.Script

open Host (ValueType)

/-- The kind of a script value. -/
inductive Tag
  | nil
  | bool
  | number
  | string
  | pointer
  | handle
  | function
  deriving DecidableEq, Repr

namespace Tag

/-- Every kind. -/
def all : List Tag :=
  [.nil, .bool, .number, .string, .pointer, .handle, .function]

/-- The name of a kind in scripts and messages. -/
def name : Tag → String
  | .nil => "nil"
  | .bool => "boolean"
  | .number => "number"
  | .string => "string"
  | .pointer => "lightpointer"
  | .handle => "handle"
  | .function => "function"

/-- Whether a value of the kind may stand where a host type is declared. Handles may stand anywhere:
what they refer to is only known when they are converted. -/
def fits : Tag → ValueType → Bool
  | .handle, _ => true
  | .function, _ => false
  | .number, type => match type with
    | .numeric _ | .object => true
    | _ => false
  | .bool, type => type == .bool || type == .object
  | .string, type => type == .string || type == .object
  | .pointer, type => type == .pointer || type == .object
  | .nil, type => match type with
    | .string | .object | .named _ | .array _ => true
    | _ => false

end Tag

end ScriptHost.Script

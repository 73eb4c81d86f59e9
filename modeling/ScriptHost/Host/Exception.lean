import ScriptHost.Host.Value
/-!
What can go wrong while host code runs.
-/
namespace ScriptHost.Host

/-- The causes of a host exception. -/
inductive HostException
  /-- An instruction needs more operands than there are. -/
  | stackUnderflow
  /-- No argument or local has this slot. -/
  | noSlot (slot : UInt16)
  /-- The receiver is asked for where there is none. -/
  | noReceiver
  | noField (slot : UInt16)
  | unknownToken (token : MethodToken)
  | ranOffEnd (method : String)
  | stepLimit (limit : Nat) (method : String)
  | arrayLength
  | badIndex
  | indexOutside (index length : Nat)
  | notComparable
  | badOperands (a b : String)
  | notAnObject (found : String)
  | nullObject
  | argumentCount (method : String) (expected found : Nat)
  | missingInstance (method : String)
  | instanceRequired (method : String)
  | noBody (method : String)
  | noType (type : TypeId)
  | notConstructible (type : String)
  | hubArity
  | hubSignature
  | hubToken
  | hubCarrier
  | hubCarrierSize (method : String) (found expected : Nat)
  | argumentNotInteger (index : Nat)
  | noArgument (index : Nat)
  /-- Raised by the method itself. -/
  | raised (kind message : String)
  deriving DecidableEq, Repr

namespace HostException

/-- The class of an exception. -/
def kind : HostException → String
  | stackUnderflow | noSlot _ | noReceiver | noField _ | unknownToken _ | ranOffEnd _ | hubArity =>
    "InvalidProgramException"
  | stepLimit .. => "ExecutionEngineException"
  | arrayLength => "OverflowException"
  | badIndex | indexOutside .. => "IndexOutOfRangeException"
  | notComparable | badOperands .. | notAnObject _ => "InvalidCastException"
  | nullObject | missingInstance _ | instanceRequired _ => "NullReferenceException"
  | argumentCount .. => "TargetParameterCountException"
  | noBody _ => "NotImplementedException"
  | noType _ => "TypeLoadException"
  | notConstructible _ => "MissingMethodException"
  | hubSignature | hubToken | hubCarrier | hubCarrierSize .. | argumentNotInteger _
  | noArgument _ =>
    "ArgumentException"
  | raised kind _ => kind

/-- What an exception says. -/
def message : HostException → String
  | stackUnderflow => "stack underflow"
  | noSlot slot => s!"no slot {slot}"
  | noReceiver => "`this` in a static method"
  | noField slot => s!"no field slot {slot}"
  | unknownToken token => "unknown method token " ++ token.text
  | ranOffEnd method => method ++ " fell off its end"
  | stepLimit limit method => s!"step limit of {limit} exceeded in {method}"
  | arrayLength => "invalid array length"
  | badIndex => "invalid index"
  | indexOutside index length => s!"index {index} outside array of length {length}"
  | notComparable => "comparison of non-numbers"
  | badOperands a b => s!"invalid operands {a} and {b}"
  | notAnObject found => "expected an object, got " ++ found
  | nullObject => "object reference not set"
  | argumentCount method expected found => s!"{method} expects {expected} arguments, got {found}"
  | missingInstance method => method ++ " called without an instance"
  | instanceRequired method => method ++ " requires an instance"
  | noBody method => method ++ " has no body"
  | noType type => "no type " ++ toString type.index
  | notConstructible type => type ++ " cannot be constructed"
  | hubArity => "patch hub takes 4 arguments"
  | hubSignature => "patch hub: signature must be a string"
  | hubToken => "patch hub: invalid method token"
  | hubCarrier => "patch hub: missing argument carrier"
  | hubCarrierSize method found expected =>
    s!"patch hub: carrier for {method} has {found} slots, expected {expected}"
  | argumentNotInteger index => s!"argument {index} is not an integer"
  | noArgument index => s!"no argument {index}"
  | raised _ message => message

/-- The whole text of an exception. -/
def text (e : HostException) : String :=
  e.kind ++ ": " ++ e.message

/-- An exception for an unsuitable argument. -/
def argument (message : String) : HostException :=
  raised "ArgumentException" message

/-- An exception for a missing object. -/
def nullReference (message : String) : HostException :=
  raised "NullReferenceException" message

/-- An exception for a malformed program. -/
def invalidProgram (message : String) : HostException :=
  raised "InvalidProgramException" message

end HostException

end ScriptHost.Host

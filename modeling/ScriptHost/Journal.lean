/-!
What a run reports while it goes on: answers of steps, records of native methods, and log records.
Values in answers are views, taken when the answer is given.
-/
namespace ScriptHost

/-- A script value as an answer shows it. -/
inductive ScriptView
  | nil
  | bool (b : Bool)
  | number (x : Float)
  | bytes (b : ByteArray)
  | pointer (address : UInt64)
  /-- A handle and the name of its behaviour, if that is still known. -/
  | handle (slot : UInt64) (behaviour : Option String)
  /-- A function and the name of its prototype, if it has one. -/
  | function (name : String) (prototype : Option String)

/-- A host value as an answer shows it. -/
inductive HostView
  | null
  | bool (b : Bool)
  | int (i : Int64)
  | uint (u : UInt64)
  | float (x : Float)
  | bytes (b : ByteArray)
  | pointer (address : UInt64)
  /-- An object: the first of its names, if it has one, and its type. -/
  | object (name : Option String) (type : String)

/-- An answer. -/
inductive Report
  | nothing
  | flag (b : Bool)
  | count (n : Int)
  | text (s : String)
  | number (x : Float)
  | script (v : ScriptView)
  | host (v : HostView)
  | list (items : List Report)
  | record (fields : List (String × Report))

/-- A failed answer: the kind of the error, its text, and for script errors the active calls. -/
structure Failure where
  kind : String
  message : Option String
  traceback : Option String := none

/-- How much a log record matters. -/
inductive LogLevel
  | warn
  | error
  deriving DecidableEq, Repr

/-- One entry of a journal. -/
inductive JournalEntry
  /-- The answer of a step, with the body that it stands in, if any. -/
  | step (within : Option String) (outcome : Except Failure Report)
  | native (text method : String)
  | log (level : LogLevel) (message : String)

/-- What was reported so far, in order. -/
abbrev Journal := Array JournalEntry

end ScriptHost

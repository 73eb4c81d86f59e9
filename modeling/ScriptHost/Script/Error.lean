import ScriptHost.Journal
/-!
Errors that travel through scripts.
-/
namespace ScriptHost.Script

/-- An error with the calls that were active when it arose, as text. -/
structure Error where
  message : String
  traceback : String := ""
  deriving DecidableEq, Repr

/-- The error with a traceback, unless it has one already. -/
def Error.withTraceback (e : Error) (traceback : String) : Error :=
  if e.traceback.isEmpty then { e with traceback } else e

/-- An error as an answer. -/
def Error.failure (e : Error) : Failure :=
  ⟨"Script", some e.message, some e.traceback⟩

end ScriptHost.Script

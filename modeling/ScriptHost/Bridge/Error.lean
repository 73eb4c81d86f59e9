import ScriptHost.Bridge.Handle
import ScriptHost.Host.Describe
import ScriptHost.Script.Error
/-!
What can go wrong between scripts and the host.
-/
namespace ScriptHost.Bridge

open Host

/-- The causes of an error of the bridge. -/
inductive Error
  | conversion (expected found : String)
  | noMatch (type member shape : String)
  /-- The only member that takes the arguments is called the other way. -/
  | wrongShape (type member : String) (isStatic : Bool)
  | memberNotFound (type member : String)
  | stale (handle : Handle)
  | typeNotFound (type : String)
  | script (cause : Script.Error)
  | host (cause : HostException)
  | patchFailed (signature message : String)
  deriving DecidableEq, Repr

namespace Error

/-- What an error says. -/
def message : Error → String
  | .conversion expected found => s!"Conversion error: expected {expected}, got {found}"
  | .noMatch type member shape => s!"No matching member `{member}` on {type} for ({shape})"
  | .wrongShape type member isStatic =>
    s!"`{member}` on {type} must be called as " ++
      (if isStatic then "a static" else "an instance") ++ " method"
  | .memberNotFound type member => s!"Member `{member}` not found on {type}"
  | .stale handle => "Stale handle " ++ handle.text
  | .typeNotFound type => s!"Type `{type}` not found"
  | .script cause => cause.message
  | .host cause => cause.text
  | .patchFailed signature message => s!"Patch `{signature}` failed: {message}"

/-- The code of an error. -/
def code : Error → String
  | .conversion .. => "Conversion"
  | .noMatch .. => "NoMatchingMember"
  | .wrongShape .. => "AmbiguousStaticVsInstanceCall"
  | .memberNotFound .. => "MemberNotFound"
  | .stale _ => "StaleHandle"
  | .typeNotFound _ => "TypeNotFound"
  | .script _ => "Script"
  | .host _ => "Host"
  | .patchFailed .. => "PatchExecutionFailed"

/-- An error as an answer. -/
def failure (e : Error) : Failure :=
  match e with
  | .script cause => cause.failure
  | e => ⟨e.code, some e.message, none⟩

/-- An error as scripts see it. One that came from a script stays what it was. -/
def toScript : Error → Script.Error
  | .script cause => cause
  | e => ⟨e.message, ""⟩

end Error

end ScriptHost.Bridge

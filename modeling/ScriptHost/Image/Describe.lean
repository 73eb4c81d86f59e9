import ScriptHost.Host.Describe
import ScriptHost.Image.Inject
/-!
Refused images as answers show them.
-/
namespace ScriptHost.Image

open Host

/-- The code of a refusal of an image. -/
def Error.code : Error → String
  | .malformed => "Json"
  | .body .. => "Verify"
  | .domain cause => cause.code
  | _ => "InvalidImage"

/-- A refused image as an answer. -/
def Error.failure (e : Error) : Failure :=
  match e with
  | .malformed => ⟨e.code, none, none⟩
  | e => ⟨e.code, e.message, none⟩

/-- A refused injection as an answer. -/
def InjectError.failure (e : InjectError) : Failure :=
  match e with
  | .hubNotFound .. => ⟨"HubNotFound", e.message, none⟩
  | .alreadyInjected _ => ⟨"DoublePatchDetected", e.message, none⟩
  | .unpatchable _ .overflow => panicFailure Obstacle.overflow.message
  | .unpatchable .. => ⟨"Unpatchable", e.message, none⟩
  | .verify .. => ⟨"InjectVerify", e.message, none⟩
  | .refused cause => cause.failure

end ScriptHost.Image

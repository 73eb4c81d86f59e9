import ScriptHost.Session.DomainActions
/-!
Trying out how script values travel to the host and back, on a fresh engine.
-/
namespace ScriptHost.Session

open Host (ParamMode TypeDecl ValueType World)
open Script (Term)
open Run

/-- Sends a value to the host and back. Answers both and whether the value came back as it was. -/
def roundTrip (type : ValueType) (mode : ParamMode) (t : Term) : StepRun Report := do
  let v ← value t
  let there ← ofBridge (toHostSlot v type mode)
  let back ← ofBridge (toScript there)
  let shown ← hostReport there
  return .list [shown, back.report (← script), .flag (back.equals v)]

/-- Sends each of some values to the host and back, where a type is declared. -/
def roundTrips (types : List TypeDecl) (type : ValueType) (mode : ParamMode) (values : List Term) :
    List (Except Failure Report) :=
  let w : World Engine := ⟨{}, #[], [], .ofOptions {}⟩
  let (_, w) := (defineAll types) w
  let go := values.mapM fun t => (outcome (roundTrip type mode t) : StepRun _)
  match go w with
  | (.ok results, _) =>
    results.map fun
      | .ok r => .ok r
      | .error (.failed e) => .error e.failure
      | .error (.panicked message) => .error (Host.panicFailure message)
      | .error .exhausted => .error (Host.panicFailure "nested too deeply")
  | (.error _, _) => []

end ScriptHost.Session

import ScriptHost.Table
/-!
Patches: functions that take the place of methods, by the signatures of those.
-/
namespace ScriptHost.Bridge

/-- Functions by signature. -/
abbrev PatchTable (φ : Type) := Table String φ

namespace PatchTable

variable {φ : Type}

/-- The patched signatures, in the order of their characters. -/
def signatures (t : PatchTable φ) : List String :=
  t.keys.mergeSort fun a b => decide (a ≤ b)

end PatchTable

end ScriptHost.Bridge

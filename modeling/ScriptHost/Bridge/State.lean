import ScriptHost.Bridge.PatchTable
import ScriptHost.Bridge.Registry
import ScriptHost.Script.State
import ScriptHost.Settings.Options
/-!
What joins scripts and host: the handles, the methods found so far, the types that scripts know, and
the patches.
-/
namespace ScriptHost.Bridge

open Host
open Script (FunctionRef)

/-- The behaviours of the instances of a type and of the type itself. -/
structure BehaviourKeys where
  ofInstance : Nat
  ofClass : Nat
  deriving DecidableEq, Repr

/-- The state of the bridge. -/
structure State where
  options : Options
  registry : Registry := {}
  cache : MethodCache Method := {}
  exposed : Table TypeId BehaviourKeys := {}
  /-- The script value that stands for a type. -/
  classes : Table TypeId Script.Value := {}
  wrappers : Table (TypeId × String) FunctionRef := {}
  patches : PatchTable FunctionRef := {}

/-- The bridge in diagnostics. -/
def State.diagnostic (s : State) : String :=
  "Bridge \x7b registry: " ++ s.registry.diagnostic ++ ", cache: " ++ s.cache.diagnostic ++
    s!", registered: {s.exposed.size}, patches: {s.patches.size} \x7d"

end ScriptHost.Bridge

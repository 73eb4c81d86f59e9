import ScriptHost.Engine.Convert
/-!
Finding the method that a call means. The nearest type that has a fitting method wins, within a type
the one declared first; what was found is kept for the next call.
-/
namespace ScriptHost

open Host (Domain Method TypeId TypeInfo)
open Bridge (CallShape MethodKey)
open Script (Tag)

/-- The methods that a call of a member may mean, in the order in which they are tried. -/
def candidates (d : Domain) (info : TypeInfo) (member : String) (shape : CallShape) : List Method :=
  match shape with
  | .constructor => info.constructors
  | _ => (d.chain info.id).flatMap (·.methodsNamed member)

/-- The first method that takes the arguments and is called in the given way, or why there is
none. -/
def select (type member : String) (shape : CallShape) (tags : List Tag) (methods : List Method) :
    Except Bridge.Error Method :=
  let fitting := methods.filter (Bridge.takes · tags)
  match fitting.find? (·.kind == shape.kind), fitting with
  | some m, _ => .ok m
  | none, other :: _ => .error (.wrongShape type member (other.kind == .static))
  | none, [] => .error (.noMatch type member (", ".intercalate (tags.map Tag.name)))

namespace Run

/-- The method that a call of a member means. -/
def resolveMethod (type : TypeId) (member : String) (shape : CallShape) (tags : List Tag) :
    Run Bridge.Error Method := do
  let info ← typeInfo type
  let key := (MethodKey.mk info.name member shape tags).text
  let (hit, cache) := (← bridge).cache.get key
  modifyBridge ({ · with cache })
  match hit with
  | some m => return m
  | none =>
    let m ← ofExcept (select info.name member shape tags (candidates (← domain) info member shape))
    match cache.insert? key m with
    | some cache =>
      modifyBridge ({ · with cache })
      return m
    | none => breakOff (Bridge.MethodCache.doubleInsert key)

end Run

end ScriptHost

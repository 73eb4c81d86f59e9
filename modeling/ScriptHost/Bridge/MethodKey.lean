import ScriptHost.Host.Method
import ScriptHost.Script.Tag
import ScriptHost.Table
/-!
How scripts ask for a method: by type, name, way of calling and kinds of arguments. What was found
is kept under the text of the question.
-/
namespace ScriptHost.Bridge

open Host
open Script (Tag)

/-- The way in which a method is called. -/
inductive CallShape
  | constructor
  | static
  | ofInstance
  deriving DecidableEq, Repr

namespace CallShape

/-- The letter of a way of calling in keys. -/
def letter : CallShape → String
  | .constructor => "c"
  | .static => "s"
  | .ofInstance => "i"

/-- The name of a way of calling. -/
def name : CallShape → String
  | .constructor => "constructor"
  | .static => "static"
  | .ofInstance => "instance"

/-- The kind of the methods that are called in this way. -/
def kind : CallShape → MethodKind
  | .constructor => .constructor
  | .static => .static
  | .ofInstance => .ofInstance

end CallShape

/-- A question for a method. -/
structure MethodKey where
  declaring : String
  member : String
  shape : CallShape
  tags : List Tag
  deriving DecidableEq, Repr

/-- The text of a question. -/
def MethodKey.text (k : MethodKey) : String :=
  k.declaring ++ "::" ++ k.member ++ "#" ++ k.shape.letter ++ "(" ++
    ",".intercalate (k.tags.map Tag.name) ++ ")"

/-- Whether a method takes arguments of these kinds. -/
def takes (m : Method) (tags : List Tag) : Bool :=
  let inputs := m.params.filter (·.isInput)
  inputs.length == tags.length && (inputs.zip tags).all fun (p, tag) => tag.fits p.type

/-- Methods by the text of the question, how many were put in and how often one was found. -/
structure MethodCache (μ : Type) where
  entries : Table String μ := {}
  population : Nat := 0
  hits : Nat := 0

namespace MethodCache

variable {μ : Type}

instance : Inhabited (MethodCache μ) := ⟨{}⟩

/-- Looks a question up and counts it if it is found. -/
def get (c : MethodCache μ) (key : String) : Option μ × MethodCache μ :=
  match c.entries.find? key with
  | some m => (some m, { c with hits := c.hits + 1 })
  | none => (none, c)

/-- Puts in the answer of a question that has none yet. -/
def insert? (c : MethodCache μ) (key : String) (m : μ) : Option (MethodCache μ) :=
  if c.entries.contains key then none
  else some { c with entries := c.entries.insert key m, population := c.population + 1 }

/-- What is said when a question is answered twice. -/
def doubleInsert (key : String) : String :=
  "method cache key inserted twice: " ++ key

/-- The cache in diagnostics. -/
def diagnostic (c : MethodCache μ) : String :=
  s!"MethodCache \x7b len: {c.entries.size}, population: {c.population}, hits: {c.hits} \x7d"

end MethodCache

end ScriptHost.Bridge

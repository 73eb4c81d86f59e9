/-!
JSON values as written: numbers keep their digits, objects the order of their members.
-/
namespace ScriptHost

/-- A number as written: sign, digits before and after the point, and the exponent with its sign. -/
structure Json.Literal where
  negative : Bool
  whole : List Char
  fraction : Option (List Char) := none
  exponent : Option (Bool × List Char) := none
  deriving DecidableEq, Repr

/-- A JSON value. A string is missing if its escapes leave half of a surrogate pair alone: such a
value can be passed over but not read. -/
inductive Json
  | null
  | bool (b : Bool)
  | number (n : Json.Literal)
  | text (s : Option String)
  | list (items : List Json)
  | object (members : List (Option String × Json))

namespace Json

instance : Inhabited Json := ⟨.null⟩

/-- A string. -/
def str (s : String) : Json := .text (some s)

/-- An object. -/
def record (members : List (String × Json)) : Json :=
  .object (members.map fun (k, v) => (some k, v))

/-- The literal of an integer. -/
def Literal.ofInt (i : Int) : Literal where
  negative := i < 0
  whole := Nat.toDigits 10 i.natAbs

/-- An integer. -/
def int (i : Int) : Json := .number (.ofInt i)

/-- A natural number. -/
def nat (n : Nat) : Json := .int n

/-- The text of a literal. -/
def Literal.chars (n : Literal) : List Char :=
  let sign := if n.negative then ['-'] else []
  let fraction := match n.fraction with
    | none => []
    | some digits => '.' :: digits
  let exponent := match n.exponent with
    | none => []
    | some (negative, digits) => 'e' :: (if negative then '-' else '+') :: digits
  sign ++ n.whole ++ fraction ++ exponent

end Json

end ScriptHost

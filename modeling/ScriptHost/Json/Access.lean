import ScriptHost.Json.Decode
/-!
Taking JSON records apart by the names of their members. Members that are not asked for are ignored,
and each refusal says what is missing.
-/
namespace ScriptHost

/-- A part of a record, or what is missing. -/
abbrev Access := Except String

/-- A part that has to be there. -/
def Access.need {α : Type} (what : String) : Option α → Access α
  | some a => .ok a
  | none => .error what

namespace Json

open Access (need)

/-- The first member of a name. -/
def key? (j : Json) (name : String) : Option Json :=
  match j with
  | .object members => (members.find? (·.1 == some name)).map (·.2)
  | _ => none

/-- Whether there is a member of a name. -/
def has (j : Json) (name : String) : Bool :=
  (j.key? name).isSome

/-- The member of a name. -/
def field (j : Json) (name : String) : Access Json :=
  need ("missing " ++ name) (j.key? name)

/-- The items of a list. -/
def items (j : Json) : Access (List Json) :=
  match j with
  | .list xs => .ok xs
  | _ => .error "not a list"

/-- A string. -/
def asStr (j : Json) : Access String :=
  need "not a string" j.string?

/-- A truth value. -/
def asBool (j : Json) : Access Bool :=
  need "not a truth value" j.bool?

/-- An integer. -/
def asInt (j : Json) : Access Int :=
  need "not an integer" j.int?

/-- An integer that is not negative. -/
def asNat (j : Json) : Access Nat := do
  let i ← j.asInt
  if i < 0 then .error "negative" else .ok i.toNat

/-- The string of a name. -/
def strField (j : Json) (name : String) : Access String := do (← j.field name).asStr

/-- The integer of a name. -/
def intField (j : Json) (name : String) : Access Int := do (← j.field name).asInt

/-- The natural number of a name. -/
def natField (j : Json) (name : String) : Access Nat := do (← j.field name).asNat

/-- The list of a name. -/
def listField (j : Json) (name : String) : Access (List Json) := do (← j.field name).items

/-- The member of a name read in some way, or a default if it is missing or null. -/
def fieldOr {α : Type} (j : Json) (name : String) (default : α) (read : Json → Access α) :
    Access α :=
  match j.key? name with
  | none | some .null => .ok default
  | some member => read member

/-- The list of a name, or the empty list. -/
def listOr (j : Json) (name : String) : Access (List Json) := j.fieldOr name [] items

/-- The truth value of a name, or a default. -/
def boolOr (j : Json) (name : String) (default : Bool) : Access Bool :=
  j.fieldOr name default asBool

/-- The natural number of a name, or a default. -/
def natOr (j : Json) (name : String) (default : Nat) : Access Nat := j.fieldOr name default asNat

/-- The string of a name, or a default. -/
def strOr (j : Json) (name : String) (default : String) : Access String :=
  j.fieldOr name default asStr

/-- The string of a name, unless it is missing or null. -/
def strOpt (j : Json) (name : String) : Access (Option String) :=
  match j.key? name with
  | none | some .null => .ok none
  | some member => do return some (← member.asStr)

end Json

end ScriptHost

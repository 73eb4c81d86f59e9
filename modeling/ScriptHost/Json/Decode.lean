import ScriptHost.Json.Number
/-!
Taking JSON values apart. Each list or object around a value uses up one level, and values below the
last level are refused.
-/
namespace ScriptHost.Json

/-- How many lists and objects may stand inside each other. -/
def maxLevels : Nat := 127

/-- The levels left inside a list or an object. -/
def enter : (levels : Nat) → Option Nat
  | 0 => none
  | n + 1 => some n

/-- The values of the named members, missing where there is none. Other members are passed over;
a list gives the values in the order of the names. -/
def valuesOf? (names : List String) : Json → Option (List (Option Json))
  | .list items =>
    if items.length ≤ names.length then
      some (items.map some ++ List.replicate (names.length - items.length) none)
    else none
  | .object members =>
    if members.all (·.1.isSome) then
      names.mapM fun name =>
        match members.filter (·.1 == some name) with
        | [] => some none
        | [(_, value)] => some (some value)
        | _ => none
    else none
  | _ => none

/-- The alternative that a value picks, and what it carries. -/
def variant? (levels : Nat) : Json → Option (String × Option (Nat × Json))
  | .text (some name) => some (name, none)
  | .object [(some name, value)] => (enter levels).map fun levels => (name, some (levels, value))
  | _ => none

/-- The entry of a table that a value picks. It carries nothing. -/
def plainVariant? {α : Type} (table : List (String × α)) (levels : Nat) (j : Json) : Option α := do
  let (name, payload) ← variant? levels j
  match payload with
  | none | some (_, .null) => table.lookup name
  | _ => none

/-- A truth value. -/
def bool? : Json → Option Bool
  | .bool b => some b
  | _ => none

/-- A string. -/
def string? : Json → Option String
  | .text s => s
  | _ => none

/-- An integer. -/
def int? : Json → Option Int
  | .number n => n.int?
  | _ => none

/-- A natural number below a bound. -/
def natBelow? (bound : Nat) (j : Json) : Option Nat := do
  let i ← j.int?
  if 0 ≤ i ∧ i < bound then some i.toNat else none

/-- A word of 16 bits. -/
def uint16? (j : Json) : Option UInt16 :=
  (j.natBelow? 0x10000).map .ofNat

/-- A word of 32 bits. -/
def uint32? (j : Json) : Option UInt32 :=
  (j.natBelow? 0x100000000).map .ofNat

/-- A signed word of 64 bits. -/
def int64? (j : Json) : Option Int64 := do
  let i ← j.int?
  if -0x8000000000000000 ≤ i ∧ i < 0x8000000000000000 then some (.ofInt i) else none

/-- A double. -/
def float? : Json → Option Float
  | .number n => n.float?
  | _ => none

/-- The items of a list. -/
def listOf? {α : Type} (item : Nat → Json → Option α) (levels : Nat) : Json → Option (List α)
  | .list items => do
    let levels ← enter levels
    items.mapM (item levels)
  | _ => none

/-- A value that may be null. -/
def nullable? {α : Type} (read : Json → Option α) : Json → Option (Option α)
  | .null => some none
  | j => (read j).map some

/-- A member that may be left out. -/
def orDefault {α : Type} (default : α) (read : Json → Option α) : Option Json → Option α
  | none => some default
  | some j => read j

/-- The values of the named members of a record, and the levels left inside it. -/
def record? (names : List String) (levels : Nat) (j : Json) :
    Option (Nat × List (Option Json)) := do
  let values ← j.valuesOf? names
  let levels ← enter levels
  pure (levels, values)

end ScriptHost.Json

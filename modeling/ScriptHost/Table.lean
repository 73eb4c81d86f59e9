/-!
Small tables: values by key, in the order in which the keys came. A key stands in a table once.
-/
namespace ScriptHost

/-- Values by key. -/
structure Table (κ α : Type) where
  entries : List (κ × α) := []

namespace Table

variable {κ α : Type} [DecidableEq κ]

instance : Inhabited (Table κ α) := ⟨{}⟩

/-- The value of a key. -/
def find? (t : Table κ α) (key : κ) : Option α :=
  t.entries.lookup key

/-- Whether a key is in the table. -/
def contains (t : Table κ α) (key : κ) : Bool :=
  (t.find? key).isSome

/-- Gives a key a value, in the place of the one that it had. -/
def insert (t : Table κ α) (key : κ) (a : α) : Table κ α :=
  if t.contains key then ⟨t.entries.map fun e => if e.1 = key then (key, a) else e⟩
  else ⟨t.entries ++ [(key, a)]⟩

/-- Takes a key out. -/
def erase (t : Table κ α) (key : κ) : Table κ α :=
  ⟨t.entries.filter (·.1 ≠ key)⟩

omit [DecidableEq κ] in
/-- How many keys the table has. -/
def size (t : Table κ α) : Nat :=
  t.entries.length

omit [DecidableEq κ] in
/-- Whether the table has no key. -/
def isEmpty (t : Table κ α) : Bool :=
  t.entries.isEmpty

omit [DecidableEq κ] in
/-- The keys, oldest first. -/
def keys (t : Table κ α) : List κ :=
  t.entries.map (·.1)

omit [DecidableEq κ] in
/-- The values, by the age of their keys. -/
def values (t : Table κ α) : List α :=
  t.entries.map (·.2)

end Table

end ScriptHost

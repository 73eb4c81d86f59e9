import ScriptHost.Number.Binary64
/-!
The shortest decimal that reads back as a given double: fewest digits first, then nearest to the
value. Everything is exact arithmetic on naturals.
-/
namespace ScriptHost.Number

/-- The number `significand * 10 ^ exponent`. -/
structure Decimal where
  significand : Nat
  exponent : Int
  deriving DecidableEq, Repr

/-- Which of two equally near neighbours is taken. -/
inductive Tie
  | up
  | even
  deriving DecidableEq, Repr

/-- A positive double with the reals that round to it, all in units of `2 ^ unit`: from `low` to
`high`, ends included when `closed`. -/
structure Interval where
  low : Nat
  value : Nat
  high : Nat
  unit : Int
  closed : Bool

/-- The reals that round to `mantissa * 2 ^ exponent`. Below a power of two the grid is twice as
fine, unless that power is the least normal one. -/
def Interval.ofFinite (mantissa : Nat) (exponent : Int) : Interval where
  low := 4 * mantissa - (if mantissa = 0x10000000000000 ∧ -1074 < exponent then 1 else 2)
  value := 4 * mantissa
  high := 4 * mantissa + 2
  unit := exponent - 2
  closed := mantissa % 2 = 0

/-- The decimal nearest to the value among those of the grid `10 ^ grid` that lie in the
interval. -/
def Interval.nearest? (i : Interval) (tie : Tie) (grid : Int) : Option Nat :=
  let up := Nat.pow 2 i.unit.toNat * Nat.pow 10 (-grid).toNat
  let den := Nat.pow 2 (-i.unit).toNat * Nat.pow 10 grid.toNat
  let inside (n : Nat) : Bool :=
    if i.closed then i.low * up ≤ n * den && n * den ≤ i.high * up
    else i.low * up < n * den && n * den < i.high * up
  let below := i.value * up / den
  let rest := i.value * up % den
  match inside below, inside (below + 1) with
  | true, true =>
    if 2 * rest < den then some below
    else if den < 2 * rest then some (below + 1)
    else match tie with
      | .up => some (below + 1)
      | .even => some (if below % 2 = 0 then below else below + 1)
  | true, false => some below
  | false, true => some (below + 1)
  | false, false => none

/-- The first of `count` grids, coarsest first, that holds a decimal of the interval. -/
def Interval.search (i : Interval) (tie : Tie) : (count : Nat) → (grid : Int) → Option Decimal
  | 0, _ => none
  | count + 1, grid =>
    match i.nearest? tie grid with
    | some n => some ⟨n, grid⟩
    | none => i.search tie count (grid - 1)

/-- The shortest decimal that reads back as `mantissa * 2 ^ exponent`. The first grid tried is
coarser than the value, and a grid seventeen digits finer always holds a decimal. -/
def shortest (tie : Tie) (mantissa : Nat) (exponent : Int) : Decimal :=
  let start := (mantissa.log2 + exponent) * 30103 / 100000 + 2
  ((Interval.ofFinite mantissa exponent).search tie 24 start).getD ⟨mantissa, exponent⟩

end ScriptHost.Number

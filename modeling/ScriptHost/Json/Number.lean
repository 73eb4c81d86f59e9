import ScriptHost.Json.Basic
import ScriptHost.Number.Binary64
/-!
What numbers of JSON denote. Integers are exact. A number with a point or an exponent, or of more
than 64 bits, is read into a word of leading digits and a power of ten; one product or quotient of
doubles then gives its value, which need not be the nearest double.
-/
namespace ScriptHost.Json

/-- The value of a digit. -/
def digitValue (c : Char) : Nat := c.toNat - '0'.toNat

/-- The largest power of ten that a double holds. -/
def maxPower : Nat := 308

/-- The greatest exponent that is told apart from larger ones. -/
def maxExponent : Nat := 0x7fffffff

/-- A power of ten as a double. -/
def powerOfTen (n : Nat) : Float := .ofScientific 1 false n

/-- Adds digits to a number as long as it stays a 64-bit word. Answers the digits left over. -/
def addDigits (n : Nat) : List Char → Nat × List Char
  | [] => (n, [])
  | c :: rest =>
    let m := n * 10 + digitValue c
    if m < 0x10000000000000000 then addDigits m rest else (n, c :: rest)

/-- Divides by powers of ten that a double holds, as often as it takes. -/
def scaleDown : (fuel : Nat) → Float → (power : Nat) → Float
  | 0, x, _ => x
  | fuel + 1, x, power =>
    if power ≤ maxPower then x / powerOfTen power
    else if x == 0 then x
    else scaleDown fuel (x / powerOfTen maxPower) (power - maxPower)

/-- The double for a word times a power of ten, if it is finite. A word is zero after three
divisions by the largest power. -/
def scaled? (significand : Nat) (exponent : Int) : Option Float :=
  let x := Number.ofUInt64 (.ofNat significand)
  if 0 ≤ exponent then
    if exponent ≤ maxPower then
      let y := x * powerOfTen exponent.toNat
      if y.isInf then none else some y
    else if significand = 0 then some x
    else none
  else some (scaleDown 4 x (-exponent).toNat)

/-- The double for a number without its sign. -/
def Literal.magnitude? (n : Literal) : Option Float :=
  let (significand, extra) := addDigits 0 n.whole
  let (significand, places) := match n.fraction with
    | none => (significand, 0)
    | some digits =>
      let (word, rest) := addDigits significand digits
      (word, digits.length - rest.length)
  let start : Int := extra.length - places
  match n.exponent with
  | none => scaled? significand start
  | some (negative, digits) =>
    let written := digits.foldl (fun e c => e * 10 + digitValue c) 0
    if written ≤ maxExponent then
      scaled? significand (if negative then start - written else start + written)
    else if significand ≠ 0 ∧ !negative then none
    else some 0

/-- The integer that a number denotes, if it is written as one. Minus zero is not. -/
def Literal.int? (n : Literal) : Option Int :=
  if n.fraction.isSome ∨ n.exponent.isSome then none
  else
    let magnitude : Nat := n.whole.foldl (fun m c => m * 10 + digitValue c) 0
    if n.negative then if magnitude = 0 then none else some (-magnitude) else some magnitude

/-- The double that a number denotes. -/
def Literal.float? (n : Literal) : Option Float :=
  (match n.int? with
    | some i => if 0 ≤ i ∧ i < 0x10000000000000000 then some (Number.ofUInt64 (.ofNat i.toNat))
      else if -0x8000000000000000 ≤ i ∧ i < 0 then some (Number.ofInt64 (.ofInt i))
      else n.magnitude?.map fun x => if n.negative then -x else x
    | none => n.magnitude?.map fun x => if n.negative then -x else x)

end ScriptHost.Json

/-!
Doubles read as exact numbers. A finite double is a sign, a whole mantissa and a power of two; from
these come the integer that a double denotes, the double nearest to an integer and the double
nearest to a value that single precision can hold.
-/
namespace ScriptHost.Number

open Float.Model (UnpackedFloat Format)

/-- The integer that a double denotes, if it denotes one. Both zeros denote zero. -/
def wholeNumber? (x : Float) : Option Int :=
  match x.toModel.unpack with
  | .zero _ => some 0
  | .finite sign mantissa exponent _ =>
    if 0 ≤ exponent then
      some (sign.apply (mantissa <<< exponent.toNat))
    else
      let scale := Nat.pow 2 (-exponent).toNat
      if mantissa % scale = 0 then some (sign.apply (mantissa / scale)) else none
  | _ => none

/-- The double nearest to a signed word, ties to the even mantissa. -/
def ofInt64 (i : Int64) : Float :=
  if i < 0 then -((-i).toUInt64.toFloat) else i.toUInt64.toFloat

/-- The double nearest to an unsigned word, ties to the even mantissa. -/
def ofUInt64 (u : UInt64) : Float :=
  u.toFloat

/-- The double equal to the single-precision number nearest to `x`. -/
def roundToSingle (x : Float) : Float :=
  match x.toModel.unpack with
  | .finite sign mantissa exponent _ =>
    let rounded := UnpackedFloat.round Format.binary32 sign mantissa exponent
    let single := UnpackedFloat.unpack Format.binary32 (UnpackedFloat.pack Format.binary32 rounded)
    match single with
    | .finite sign mantissa exponent _ =>
      .ofModel (.pack (UnpackedFloat.round Format.binary64 sign mantissa exponent))
    | other => .ofModel (.pack other)
  | _ => x

/-- Whether a double is finite and has nothing behind its point. -/
def isWhole (x : Float) : Bool :=
  (wholeNumber? x).isSome

/-- The signed word nearest to what a double has in front of its point. -/
def toInt64 (x : Float) : Int64 :=
  x.toModel.toInt64

end ScriptHost.Number

import ScriptHost.Number.Shortest
/-!
Doubles as text. One record states how a shortest decimal is laid out; the three layouts in use are
the plain text of a number, its text in diagnostics and its text in an image.
-/
namespace ScriptHost.Number

/-- How a double is written. The order of a decimal is the power of ten of its first digit. -/
structure Layout where
  /-- Orders that are written without an exponent. -/
  positional : Int → Bool
  /-- Whether a whole number keeps a point and a zero. -/
  keepsPoint : Bool
  /-- Whether an exponent that is not negative carries a plus sign. -/
  plusSign : Bool
  tie : Tie

/-- The text of a number read by people: never an exponent, no point in a whole number. -/
def plain : Layout := ⟨fun _ => true, false, false, .up⟩

/-- The text of a number in diagnostics: an exponent from `1e16` on and below `1e-4`. -/
def diagnostic : Layout := ⟨fun order => -4 ≤ order && order < 16, true, false, .up⟩

/-- The text of a number in an image: an exponent from `1e+16` on and below `1e-5`. -/
def imageNumber : Layout := ⟨fun order => -5 ≤ order && order < 16, true, true, .even⟩

/-- `digits` with a point such that the first digit has the power of ten `order`. -/
def positionalText (keepsPoint : Bool) (digits : List Char) (order : Int) : List Char :=
  let tail := if keepsPoint then ['.', '0'] else []
  if order < 0 then
    '0' :: '.' :: List.replicate (-order - 1).toNat '0' ++ digits
  else
    let whole := order.toNat + 1
    if digits.length ≤ whole then
      digits ++ List.replicate (whole - digits.length) '0' ++ tail
    else
      digits.take whole ++ '.' :: digits.drop whole

/-- `digits` with a point after the first, and the exponent `order`. -/
def exponentText (plusSign : Bool) (digits : List Char) (order : Int) : List Char :=
  let mantissa := match digits with
    | first :: second :: rest => first :: '.' :: second :: rest
    | short => short
  mantissa ++ 'e' :: (if plusSign && 0 ≤ order then ['+'] else []) ++ (toString order).toList

/-- The text of a decimal that is not zero. -/
def Layout.ofDecimal (layout : Layout) (d : Decimal) : List Char :=
  let digits := Nat.toDigits 10 d.significand
  let order := d.exponent + digits.length - 1
  if layout.positional order then positionalText layout.keepsPoint digits order
  else exponentText layout.plusSign digits order

/-- The text of a double. -/
def Layout.text (layout : Layout) (x : Float) : String :=
  let signed (sign : Float.Model.UnpackedFloat.Sign) (body : List Char) : String :=
    match sign with
    | .positive => .ofList body
    | .negative => .ofList ('-' :: body)
  match x.toModel.unpack with
  | .notANumber => "NaN"
  | .infinity sign => signed sign ['i', 'n', 'f']
  | .zero sign => signed sign (positionalText layout.keepsPoint ['0'] 0)
  | .finite sign mantissa exponent _ =>
    signed sign (layout.ofDecimal (shortest layout.tie mantissa exponent))

end ScriptHost.Number

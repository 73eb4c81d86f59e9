import Mathlib
import ScriptHost.Number.Binary64
/-!
The numbers that doubles denote. A finite double is a whole mantissa of at most 53 bits times a power
of two; whether it is whole, what comes of it when it has been a word, and what word it becomes are
told by that number.
-/
namespace ScriptHost.Number

open Float.Model (UnpackedFloat Format)
open Float.Model.UnpackedFloat (ExtendedMantissa Sign)

variable {x : Float} {s : Sign} {m : Nat} {e : Int} {pos : 0 < m}

/-! ## What a double denotes -/

/-- The number that a double denotes. Infinities and what is no number denote none. -/
def value? (x : Float) : Option ℚ :=
  match x.toModel.unpack with
  | .zero _ => some 0
  | .finite sign mantissa exponent _ => some (sign.apply mantissa * 2 ^ exponent)
  | _ => none

theorem apply_mul (s : Sign) (a b : Int) : s.apply (a * b) = s.apply a * b := by
  cases s
  · exact (Int.neg_mul a b).symm
  · rfl

theorem abs_apply (s : Sign) (n : Nat) : |s.apply n| = (n : Int) := by
  cases s
  · exact (abs_neg _).trans (Nat.abs_cast n)
  · exact Nat.abs_cast n

/-- A double is read as a whole number just if it denotes one, and as the one that it denotes. -/
theorem wholeNumber?_eq_some_iff {i : Int} : wholeNumber? x = some i ↔ value? x = some (i : ℚ) := by
  unfold wholeNumber? value?
  cases x.toModel.unpack with
  | infinity _ => simp
  | notANumber => simp
  | zero _ =>
    dsimp only
    rw [Option.some.injEq, Option.some.injEq]
    exact_mod_cast Iff.rfl
  | finite s m e pos =>
    dsimp only
    split
    · rename_i whole
      obtain ⟨k, rfl⟩ := Int.eq_ofNat_of_zero_le whole
      rw [Option.some.injEq, Option.some.injEq, Int.toNat_natCast, zpow_natCast, Nat.shiftLeft_eq,
        Nat.cast_mul, apply_mul]
      exact_mod_cast Iff.rfl
    · rename_i below
      obtain ⟨k, rfl⟩ : ∃ k : Nat, e = -(k : Int) := ⟨(-e).toNat, by omega⟩
      have scale : ((2 ^ k : Nat) : Int) ≠ 0 := by exact_mod_cast (Nat.two_pow_pos k).ne'
      have scaled : (s.apply m : ℚ) * 2 ^ (-(k : Int)) = i ↔ s.apply m = i * (2 ^ k : Nat) := by
        rw [zpow_neg, zpow_natCast, mul_inv_eq_iff_eq_mul₀ (by positivity)]
        exact_mod_cast Iff.rfl
      rw [Int.neg_neg, Int.toNat_natCast, Option.some.injEq, scaled, Nat.pow_eq]
      split
      · rename_i divides
        have parted : (m : Int) = (m / 2 ^ k : Nat) * (2 ^ k : Nat) := by
          exact_mod_cast (Nat.div_mul_cancel (Nat.dvd_of_mod_eq_zero divides)).symm
        rw [Option.some.injEq]
        conv_rhs => rw [parted, apply_mul]
        exact (mul_left_inj' scale).symm
      · rename_i rest
        refine ⟨nofun, fun same => (rest ?_).elim⟩
        have divides : ((2 ^ k : Nat) : Int) ∣ |s.apply m| := (dvd_abs _ _).2 ⟨i, by
          rw [same, Int.mul_comm]⟩
        rw [abs_apply] at divides
        exact Nat.mod_eq_zero_of_dvd (Int.natCast_dvd_natCast.1 divides)

/-! ## How finite doubles are written -/

/-- The mantissas and exponents of finite doubles: subnormal ones and normal ones. -/
inductive Canonical : Nat → Int → Prop
  | subnormal {m : Nat} (lt : m < 2 ^ 52) : Canonical m (-1074)
  | normal {m : Nat} {e : Int} (ge : 2 ^ 52 ≤ m) (lt : m < 2 ^ 53) (above : -1074 ≤ e) :
    Canonical m e

/-- The leading bit of a normal mantissa. -/
theorem toNat_one_append (v : BitVec 52) :
    2 ^ 52 ≤ (1#1 ++ v).toNat ∧ (1#1 ++ v).toNat < 2 ^ 53 := by
  have lt := v.isLt
  rw [BitVec.toNat_append, ← Nat.shiftLeft_add_eq_or_of_lt lt]
  simp only [BitVec.toNat_ofNat, Nat.shiftLeft_eq]
  omega

theorem canonical_of_unpack (unpacked : x.toModel.unpack = .finite s m e pos) : Canonical m e := by
  unfold Float.Model.unpack UnpackedFloat.unpack at unpacked
  dsimp only at unpacked
  split at unpacked
  · split at unpacked <;> cases unpacked
  · split at unpacked
    · rename_i least
      split at unpacked
      · cases unpacked
      · cases unpacked
        rw [least]
        exact .subnormal (BitVec.isLt _)
    · rename_i most least
      cases unpacked
      have above : 0 < (@UnpackedFloat.unpackExponent Format.binary64
          x.toModel.toBits.toBitVec).toNat :=
        Nat.pos_of_ne_zero fun zero => least (BitVec.eq_of_toNat_eq zero)
      have bounds := toNat_one_append (@UnpackedFloat.unpackMantissa Format.binary64
        x.toModel.toBits.toBitVec)
      refine .normal bounds.1 bounds.2 ?_
      simp only [Format.exponentBias]
      omega

/-- A word with another sign. -/
theorem unpack_packComponents {b : BitVec Format.binary64.numBits}
    (unpacked : UnpackedFloat.unpack Format.binary64 b = .finite s m e pos) (s' : Sign) :
    UnpackedFloat.unpack Format.binary64 (UnpackedFloat.packComponents _ s'
      (UnpackedFloat.unpackExponent b) (UnpackedFloat.unpackMantissa b)) = .finite s' m e pos := by
  unfold UnpackedFloat.unpack at unpacked ⊢
  simp only [UnpackedFloat.unpackMantissa_packComponents,
    UnpackedFloat.unpackExponent_packComponents, UnpackedFloat.unpackSign_packComponents,
    Sign.ofBitVec_toBitVec] at unpacked ⊢
  split at unpacked
  · split at unpacked <;> cases unpacked
  · rename_i most
    rw [if_neg most]
    split at unpacked
    · rename_i least
      rw [if_pos least]
      split at unpacked
      · cases unpacked
      · rename_i some
        cases unpacked
        rw [dif_neg some]
    · rename_i least
      cases unpacked
      rw [if_neg least]

/-- A finite double is packed without loss, also with the other sign. -/
theorem unpack_pack (unpacked : x.toModel.unpack = .finite s m e pos) (s' : Sign) :
    (Float.Model.pack (.finite s' m e pos)).unpack = .finite s' m e pos := by
  have signed := unpack_packComponents unpacked s'
  have packed := UnpackedFloat.pack_unpack (UnpackedFloat.packComponents Format.binary64 s'
    (UnpackedFloat.unpackExponent x.toModel.toBits.toBitVec)
    (UnpackedFloat.unpackMantissa x.toModel.toBits.toBitVec))
  rw [signed, if_neg] at packed
  · unfold Float.Model.unpack Float.Model.pack
    rw [UInt64.toBitVec_ofBitVec, packed, signed]
  · intro nan
    have either := of_decide_eq_true nan
    unfold UnpackedFloat.unpack at signed
    simp only [either.1, either.2, if_true, if_false] at signed
    cases signed

theorem Canonical.mantissa_lt (canonical : Canonical m e) : m < 2 ^ 53 := by
  cases canonical with
  | subnormal lt => exact lt.trans (by decide)
  | normal ge lt above => exact lt

/-! ## Words as doubles -/

/-- Zeros that are shifted out leave no trace. -/
theorem shiftRight_two_pow (m k : Nat) :
    (⟨m * 2 ^ k, false, false⟩ : ExtendedMantissa) >>> k = ⟨m, false, false⟩ := by
  show k.repeat ExtendedMantissa.shiftRightOne _ = _
  induction k generalizing m with
  | zero => simp [Nat.repeat]
  | succ k ih =>
    rw [Nat.repeat, Nat.pow_succ', ← Nat.mul_assoc, ih, ExtendedMantissa.shiftRightOne]
    simp

theorem log2_mul_two_pow (pos : 0 < m) (k : Nat) : (m * 2 ^ k).log2 = m.log2 + k := by
  induction k with
  | zero => simp
  | succ k ih =>
    have some : m * 2 ^ k ≠ 0 := (Nat.mul_pos pos (Nat.two_pow_pos k)).ne'
    rw [Nat.pow_succ', Nat.mul_left_comm, Nat.log2_two_mul some, ih]
    rfl

/-- The exponent that a mantissa calls for does not change when zeros are shifted in. -/
theorem targetExponent_of_canonical (canonical : Canonical m e) (pos : 0 < m) (k : Nat) :
    Format.binary64.targetExponent (Float.Model.totalExponent (m * 2 ^ k) (e - k)) = e := by
  simp only [Format.targetExponent, Float.Model.totalExponent, Format.mantissaBits,
    Format.minExponent, log2_mul_two_pow pos]
  cases canonical with
  | subnormal lt =>
    have bits := (Nat.log2_lt pos.ne').2 lt
    omega
  | normal ge lt above =>
    have bits : m.log2 = 52 := (Nat.log2_eq_iff pos.ne').2 ⟨ge, lt⟩
    omega

theorem shiftToTargetExponent_of_canonical (canonical : Canonical m e) (pos : 0 < m) (k : Nat) :
    UnpackedFloat.shiftToTargetExponent Format.binary64 (m * 2 ^ k) (e - k) .exact =
      (⟨m, false, false⟩, e) := by
  unfold UnpackedFloat.shiftToTargetExponent UnpackedFloat.shiftToExponent
  rw [targetExponent_of_canonical canonical pos]
  have amount : (e - (e - k)).toNat = k := by omega
  dsimp only
  rw [amount, ExtendedMantissa.ofMantissaAndAccuracy, shiftRight_two_pow, Int.sub_add_cancel]

/-- A canonical mantissa into which zeros were shifted is rounded to itself. -/
theorem roundWithAccuracy_of_canonical (canonical : Canonical m e) (pos : 0 < m) (s : Sign)
    (k : Nat) :
    UnpackedFloat.roundWithAccuracy Format.binary64 s (m * 2 ^ k) (e - k) .exact =
      .finite s m e pos := by
  have again := shiftToTargetExponent_of_canonical canonical pos 0
  rw [Nat.pow_zero, Nat.mul_one, Int.natCast_zero, Int.sub_zero] at again
  unfold UnpackedFloat.roundWithAccuracy
  rw [shiftToTargetExponent_of_canonical canonical pos]
  dsimp only [ExtendedMantissa.roundedMantissa, ExtendedMantissa.accuracy,
    UnpackedFloat.Accuracy.roundToNearestEven]
  rw [again]
  exact dif_neg pos.ne'

/-- The whole number that a finite double denotes is rounded to that double. -/
theorem round_of_canonical (canonical : Canonical m e) (pos : 0 < m) (s : Sign) {n : Nat}
    (denotes : (m * 2 ^ e : ℚ) = n) :
    UnpackedFloat.round Format.binary64 s n 0 = .finite s m e pos := by
  unfold UnpackedFloat.round UnpackedFloat.decreaseExponent
  dsimp only
  obtain ⟨k, rfl | rfl⟩ := Int.eq_nat_or_neg e
  · obtain rfl : m * 2 ^ k = n := by exact_mod_cast denotes
    have target := targetExponent_of_canonical canonical pos k
    have rounded := roundWithAccuracy_of_canonical canonical pos s k
    rw [Int.sub_self] at target rounded
    rw [target]
    have amount : (0 - (k : Int)).toNat = 0 := by omega
    rw [amount]
    exact rounded
  · have parted : m = n * 2 ^ k := by
      rw [zpow_neg, zpow_natCast, mul_inv_eq_iff_eq_mul₀ (by positivity)] at denotes
      exact_mod_cast denotes
    have some : 0 < n := by
      refine Nat.pos_of_ne_zero fun none => ?_
      rw [none, Nat.zero_mul] at parted
      omega
    have totals : Float.Model.totalExponent n 0 = Float.Model.totalExponent m (-(k : Int)) := by
      simp only [Float.Model.totalExponent, parted, log2_mul_two_pow some]
      omega
    have target := targetExponent_of_canonical canonical pos 0
    have rounded := roundWithAccuracy_of_canonical canonical pos s 0
    rw [Nat.pow_zero, Nat.mul_one, Int.natCast_zero, Int.sub_zero] at target rounded
    have amount : (0 - -(k : Int)).toNat = k := by omega
    rw [totals, target, amount, Nat.shiftLeft_eq, ← parted, Int.zero_sub]
    exact rounded

theorem beq_of_unpack {y : Float} (some : x.toModel.unpack ≠ .notANumber)
    (same : x.toModel.unpack = y.toModel.unpack) : (x == y) = true :=
  (UnpackedFloat.beq_iff_ne_notANumber_and_eq _ _).2 ⟨some, same ▸ some, .inl same⟩

/-- Zeros are equal, whatever their signs. -/
theorem beq_of_unpack_zero {y : Float} {s s' : Sign} (zero : x.toModel.unpack = .zero s)
    (zero' : y.toModel.unpack = .zero s') : (x == y) = true := by
  show x.toModel.unpack.beq y.toModel.unpack = true
  rw [zero, zero']
  rfl

/-- The double nearest to a word is the one that denotes it. -/
theorem unpack_toFloat (unpacked : x.toModel.unpack = .finite s m e pos) {u : UInt64}
    (denotes : (m * 2 ^ e : ℚ) = u.toNat) :
    u.toFloat.toModel.unpack = .finite .positive m e pos := by
  have some : 0 < (u.toNat : ℚ) := by
    rw [← denotes]
    positivity
  have above : compare (u.toNat : Int) 0 = .gt := Int.compare_eq_gt.2 (by exact_mod_cast some)
  have rounded := round_of_canonical (canonical_of_unpack unpacked) pos .positive denotes
  unfold UInt64.toFloat Float.Model.ofUInt64 UnpackedFloat.ofUInt64 UnpackedFloat.ofNat
    UnpackedFloat.ofInt UnpackedFloat.normalize
  rw [above]
  dsimp only
  rw [Int.toNat_natCast, rounded, unpack_pack unpacked]

theorem unpack_toFloat_zero : (0 : UInt64).toFloat.toModel.unpack = .zero .positive :=
  UnpackedFloat.unpack_packedZero

/-- An unsigned word that a double denotes is turned into that double. -/
theorem beq_ofUInt64 {u : UInt64} (denotes : value? x = some (u.toNat : ℚ)) :
    (x == ofUInt64 u) = true := by
  unfold value? at denotes
  cases unpacked : x.toModel.unpack with
  | infinity _ => simp [unpacked] at denotes
  | notANumber => simp [unpacked] at denotes
  | zero s =>
    simp only [unpacked, Option.some.injEq] at denotes
    obtain rfl : u = 0 := UInt64.toNat_inj.1 (by exact_mod_cast denotes.symm)
    exact beq_of_unpack_zero unpacked unpack_toFloat_zero
  | finite s m e pos =>
    simp only [unpacked, Option.some.injEq] at denotes
    have positive : 0 < (m * 2 ^ e : ℚ) := by positivity
    cases s with
    | negative =>
      have above : (0 : ℚ) ≤ u.toNat := by positivity
      simp only [Sign.apply] at denotes
      push_cast at denotes
      linarith
    | positive =>
      refine beq_of_unpack (by simp [unpacked]) ?_
      rw [unpacked]
      exact (unpack_toFloat unpacked (by simpa [Sign.apply] using denotes)).symm

/-- The magnitude of a signed word is an unsigned one. -/
theorem toNat_toUInt64 (i : Int64) :
    (i.toInt < 0 → i.toInt = -((-i).toUInt64.toNat : Int)) ∧
      (¬ i.toInt < 0 → i.toInt = (i.toUInt64.toNat : Int)) := by
  have lt := i.toBitVec.isLt
  have minus : (-i).toUInt64.toNat = (-i.toBitVec).toNat := rfl
  have plus : i.toUInt64.toNat = i.toBitVec.toNat := rfl
  have signed : i.toInt = i.toBitVec.toInt := rfl
  rw [minus, plus, signed, BitVec.toInt_eq_toNat_cond, BitVec.toNat_neg]
  omega

theorem unpack_neg {y : Float} (unpacked : x.toModel.unpack = .finite s m e pos)
    (positive : y.toModel.unpack = .finite .positive m e pos) :
    (-y).toModel.unpack = .finite .negative m e pos := by
  show (Float.Model.pack y.toModel.unpack.neg).unpack = _
  rw [positive]
  exact unpack_pack unpacked .negative

/-- A signed word that a double denotes is turned into that double. -/
theorem beq_ofInt64 {i : Int64} (denotes : value? x = some (i.toInt : ℚ)) :
    (x == ofInt64 i) = true := by
  obtain ⟨magnitude, magnitude'⟩ := toNat_toUInt64 i
  unfold ofInt64
  by_cases below : i < 0
  · rw [if_pos below]
    replace below : i.toInt < 0 := Int64.lt_iff_toInt_lt.1 below
    have negated := magnitude below
    unfold value? at denotes
    cases unpacked : x.toModel.unpack with
    | infinity _ => simp [unpacked] at denotes
    | notANumber => simp [unpacked] at denotes
    | zero s =>
      simp only [unpacked, Option.some.injEq] at denotes
      have zero : i.toInt = 0 := by exact_mod_cast denotes.symm
      omega
    | finite s m e pos =>
      simp only [unpacked, Option.some.injEq] at denotes
      have positive : 0 < (m * 2 ^ e : ℚ) := by positivity
      have negative : (i.toInt : ℚ) < 0 := by exact_mod_cast below
      cases s with
      | positive =>
        simp only [Sign.apply] at denotes
        push_cast at denotes
        linarith
      | negative =>
        refine beq_of_unpack (by simp [unpacked]) ?_
        have size : (m * 2 ^ e : ℚ) = (-i).toUInt64.toNat := by
          rw [negated] at denotes
          generalize (-i).toUInt64.toNat = n at denotes ⊢
          simpa [Sign.apply] using denotes
        rw [unpacked, unpack_neg unpacked (unpack_toFloat unpacked size)]
  · rw [if_neg below]
    refine beq_ofUInt64 (denotes.trans ?_)
    rw [magnitude' (fun negative => below (Int64.lt_iff_toInt_lt.2 negative))]
    rfl

/-! ## Whole doubles as words

A double is turned into a word by dropping what is behind its point; nothing is there if it denotes a
whole number, and the word is that number as long as there is a word for it.
-/

variable {i : Int}

/-- Nothing is dropped from a finite double that denotes a whole number. -/
theorem roundToInt_eq (denotes : (s.apply m * 2 ^ e : ℚ) = i) :
    UnpackedFloat.roundToInt s m e = i := by
  unfold UnpackedFloat.roundToInt UnpackedFloat.decreaseExponent UnpackedFloat.shiftToExponent
  dsimp only [ExtendedMantissa.ofMantissaAndAccuracy]
  obtain ⟨k, rfl | rfl⟩ := Int.eq_nat_or_neg e
  · rw [Int.sub_zero, Int.toNat_natCast, Nat.shiftLeft_eq, Int.sub_self, Int.sub_self]
    have kept := shiftRight_two_pow (m * 2 ^ k) 0
    rw [Nat.pow_zero, Nat.mul_one] at kept
    rw [Int.toNat_zero, kept, Int.natCast_mul, apply_mul]
    exact_mod_cast denotes
  · have scale : (2 ^ k : ℚ) ≠ 0 := by positivity
    rw [zpow_neg, zpow_natCast, mul_inv_eq_iff_eq_mul₀ scale] at denotes
    have scaled : s.apply m = i * (2 ^ k : Nat) := by exact_mod_cast denotes
    have size : (m : Int) = i.natAbs * (2 ^ k : Nat) := by
      rw [← abs_apply s m, scaled, abs_mul, Nat.abs_cast, Int.abs_eq_natAbs]
    obtain rfl : m = i.natAbs * 2 ^ k := by exact_mod_cast size
    have none : (-(k : Int) - 0).toNat = 0 := by omega
    have all : (0 - (-(k : Int) - ((-(k : Int) - 0).toNat : Int))).toNat = k := by omega
    rw [all, none, Nat.shiftLeft_zero, shiftRight_two_pow]
    rw [Int.natCast_mul, apply_mul] at scaled
    have power : ((2 ^ k : Nat) : Int) ≠ 0 := by exact_mod_cast scale
    exact Int.eq_of_mul_eq_mul_right power scaled

theorem toInt_eq (denotes : value? x = some (i : ℚ)) (low high : Int) :
    x.toModel.unpack.toInt low high = i := by
  unfold value? at denotes
  cases unpacked : x.toModel.unpack with
  | infinity _ => simp [unpacked] at denotes
  | notANumber => simp [unpacked] at denotes
  | zero s =>
    rw [unpacked] at denotes
    exact_mod_cast Option.some.inj denotes
  | finite s m e pos =>
    rw [unpacked] at denotes
    exact roundToInt_eq (Option.some.inj denotes)

theorem toInt64_eq (denotes : value? x = some (i : ℚ)) : toInt64 x = .ofIntClamp i :=
  congrArg Int64.ofIntClamp (toInt_eq denotes _ _)

theorem toUInt64_eq (denotes : value? x = some (i : ℚ)) : x.toUInt64 = .ofNatClamp i.toNat :=
  congrArg (fun n : Int => UInt64.ofNatClamp n.toNat) (toInt_eq denotes _ _)

theorem isWhole_iff : isWhole x = true ↔ ∃ i : Int, value? x = some (i : ℚ) := by
  unfold isWhole
  rw [Option.isSome_iff_exists]
  exact exists_congr fun i => wholeNumber?_eq_some_iff

end ScriptHost.Number

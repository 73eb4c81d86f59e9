import ScriptHost.Proofs.Number.Order
/-!
The double nearest to a whole number. A number of more than 53 bits is divided by the power of two
that leaves 53 and the quotient is rounded, ties to the even one. No double is nearer to the number
than the product. That never turns the order of two numbers around, but numbers of more than 53 bits
can come to the same double.
-/
namespace ScriptHost.Number

open Float.Model (UnpackedFloat Format)
open Float.Model.UnpackedFloat (ExtendedMantissa Sign)

variable {m n : Nat}

/-! ## Rounding -/

/-- A quotient, rounded to the nearest whole number and to the even one of two. -/
def roundDiv (n d : Nat) : Nat :=
  let rest := n % d
  if 2 * rest < d ∨ 2 * rest = d ∧ n / d % 2 = 0 then n / d else n / d + 1

theorem le_roundDiv (n d : Nat) : n / d ≤ roundDiv n d := by
  unfold roundDiv
  dsimp only
  split <;> omega

theorem roundDiv_le (n d : Nat) : roundDiv n d ≤ n / d + 1 := by
  unfold roundDiv
  dsimp only
  split <;> omega

theorem roundDiv_one (n : Nat) : roundDiv n 1 = n := by
  unfold roundDiv
  simp [Nat.mod_one]

/-- A larger number has no smaller quotient, and with the same quotient no smaller rest. -/
theorem roundDiv_mono (d : Nat) (le : m ≤ n) : roundDiv m d ≤ roundDiv n d := by
  rcases Nat.lt_or_eq_of_le (Nat.div_le_div_right (c := d) le) with lt | same
  · exact (roundDiv_le m d).trans (lt.trans_le (le_roundDiv n d))
  · have rest : m % d ≤ n % d := by
      have parts := Nat.div_add_mod m d
      have parts' := Nat.div_add_mod n d
      rw [same] at parts
      omega
    unfold roundDiv
    dsimp only
    rw [same]
    split <;> split <;> omega

/-- No multiple of the divisor is nearer to a number than its rounded quotient. -/
theorem abs_sub_roundDiv_le {d : Nat} (pos : 0 < d) (n k : Nat) :
    |(n : Int) - roundDiv n d * d| ≤ |(n : Int) - k * d| := by
  have parts : (n : Int) = n / d * d + n % d := by
    rw [mul_comm]
    exact (Int.mul_ediv_add_emod n d).symm
  have side : k * d ≤ n / d * d ∨ n / d * d + d ≤ k * d := by
    rcases Nat.lt_or_ge (n / d) k with lt | ge
    · exact .inr ((Nat.succ_mul ..).symm.trans_le (Nat.mul_le_mul_right d lt))
    · exact .inl (Nat.mul_le_mul_right d ge)
  have side' : (k : Int) * d ≤ n / d * d ∨ (n : Int) / d * d + d ≤ k * d := by exact_mod_cast side
  have above := le_abs_self ((n : Int) - k * d)
  have below := neg_abs_le ((n : Int) - k * d)
  unfold roundDiv
  dsimp only
  split
  · rename_i down
    have low : 2 * ((n : Int) % d) ≤ d := by
      norm_cast
      omega
    push_cast
    exact abs_le.2 ⟨by omega, by omega⟩
  · rename_i up
    have high : (d : Int) ≤ 2 * (n % d) := by
      norm_cast
      omega
    push_cast
    rw [add_mul, one_mul]
    have rest : (n : Int) % d ≤ d := by
      norm_cast
      exact (Nat.mod_lt n pos).le
    exact abs_le.2 ⟨by omega, by omega⟩

/-- The power of two by which a number is divided so that 53 bits remain. -/
def unit (n : Nat) : Nat :=
  2 ^ (n.log2 - 52)

/-- The number with 53 bits and zeros after them that is nearest to a number. -/
def nearestNat (n : Nat) : Nat :=
  roundDiv n (unit n) * unit n

theorem unit_of_lt (small : n < 2 ^ 53) : unit n = 1 := by
  unfold unit
  rcases Nat.eq_zero_or_pos n with rfl | pos
  · rfl
  · have bits := (Nat.log2_lt pos.ne').2 small
    rw [Nat.sub_eq_zero_of_le (by omega), Nat.pow_zero]

theorem nearestNat_of_lt (small : n < 2 ^ 53) : nearestNat n = n := by
  unfold nearestNat
  rw [unit_of_lt small, roundDiv_one, Nat.mul_one]

/-- The quotient of a number of at least 53 bits has exactly 53. -/
theorem div_unit (large : 2 ^ 52 ≤ n) : 2 ^ 52 ≤ n / unit n ∧ n / unit n < 2 ^ 53 := by
  have some : n ≠ 0 := by omega
  have bits : 52 ≤ n.log2 := (Nat.le_log2 some).2 large
  have below := Nat.log2_self_le some
  have above := Nat.lt_log2_self (n := n)
  have top : n.log2 - 52 + 53 = n.log2 + 1 := by omega
  unfold unit
  refine ⟨(Nat.le_div_iff_mul_le (Nat.two_pow_pos _)).2 ?_, Nat.div_lt_of_lt_mul ?_⟩
  · rw [← Nat.pow_add, Nat.add_sub_cancel' bits]
    exact below
  · rw [← Nat.pow_add, top]
    exact above

theorem roundDiv_unit (large : 2 ^ 52 ≤ n) :
    2 ^ 52 ≤ roundDiv n (unit n) ∧ roundDiv n (unit n) ≤ 2 ^ 53 :=
  ⟨(div_unit large).1.trans (le_roundDiv n _), (roundDiv_le n _).trans (div_unit large).2⟩

/-- Rounding does not leave the powers of two between which a number lies. -/
theorem nearestNat_bounds (pos : 0 < n) :
    2 ^ n.log2 ≤ nearestNat n ∧ nearestNat n ≤ 2 ^ (n.log2 + 1) := by
  rcases Nat.lt_or_ge n (2 ^ 52) with small | large
  · rw [nearestNat_of_lt (small.trans (by decide))]
    exact ⟨Nat.log2_self_le pos.ne', Nat.lt_log2_self.le⟩
  · have bits : 52 ≤ n.log2 := (Nat.le_log2 pos.ne').2 large
    have low : 2 ^ n.log2 = 2 ^ 52 * unit n := by
      rw [unit, ← Nat.pow_add, Nat.add_sub_cancel' bits]
    have high : 2 ^ (n.log2 + 1) = 2 ^ 53 * unit n := by
      rw [Nat.pow_succ', low, ← Nat.mul_assoc, ← Nat.pow_succ']
    rw [low, high, nearestNat]
    exact ⟨Nat.mul_le_mul_right _ (roundDiv_unit large).1,
      Nat.mul_le_mul_right _ (roundDiv_unit large).2⟩

theorem nearestNat_mono (le : m ≤ n) : nearestNat m ≤ nearestNat n := by
  rcases Nat.eq_zero_or_pos m with rfl | pos
  · exact Nat.zero_le _
  · have pos' : 0 < n := pos.trans_le le
    have logs : m.log2 ≤ n.log2 := (Nat.le_log2 pos'.ne').2 ((Nat.log2_self_le pos.ne').trans le)
    rcases Nat.lt_or_eq_of_le logs with lt | same
    · calc nearestNat m ≤ 2 ^ (m.log2 + 1) := (nearestNat_bounds pos).2
        _ ≤ 2 ^ n.log2 := Nat.pow_le_pow_right (by decide) lt
        _ ≤ nearestNat n := (nearestNat_bounds pos').1
    · have units : unit m = unit n := by rw [unit, unit, same]
      rw [nearestNat, nearestNat, units]
      exact Nat.mul_le_mul_right _ (roundDiv_mono (unit n) le)

/-- The number of 53 bits with a sign and zeros after them that is nearest to a number. -/
def nearest : Int → Int
  | .ofNat n => nearestNat n
  | .negSucc n => -nearestNat (n + 1)

theorem nearest_natCast (n : Nat) : nearest (n : Int) = nearestNat n := rfl

theorem nearest_neg_natCast (n : Nat) : nearest (-(n : Int)) = -nearestNat n := by
  cases n with
  | zero => rfl
  | succ n => rfl

/-- Rounding never turns the order of two numbers around. -/
theorem nearest_mono {i j : Int} (le : i ≤ j) : nearest i ≤ nearest j := by
  cases i with
  | ofNat m =>
    cases j with
    | ofNat n => exact Int.ofNat_le.2 (nearestNat_mono (Int.ofNat_le.1 le))
    | negSucc n => exact absurd le (Int.negSucc_lt_zero n |>.trans_le (Int.natCast_nonneg m)).not_ge
  | negSucc m =>
    cases j with
    | ofNat n =>
      exact (Int.neg_nonpos_of_nonneg (Int.natCast_nonneg _)).trans (Int.natCast_nonneg _)
    | negSucc n =>
      have above : n + 1 ≤ m + 1 := by omega
      exact Int.neg_le_neg (Int.ofNat_le.2 (nearestNat_mono above))

theorem lt_of_nearest_lt {i j : Int} (lt : nearest i < nearest j) : i < j :=
  lt_of_not_ge fun le => absurd (nearest_mono le) lt.not_ge

/-- Numbers of 53 bits, and the next one, stay what they are. -/
theorem nearest_of_abs_le {i : Int} (small : |i| ≤ 2 ^ 53) : nearest i = i := by
  have same : ∀ n : Nat, n ≤ 2 ^ 53 → nearestNat n = n := by
    intro n le
    rcases Nat.lt_or_eq_of_le le with lt | rfl
    · exact nearestNat_of_lt lt
    · decide +kernel
  obtain ⟨n, rfl | rfl⟩ := Int.eq_nat_or_neg i
  · rw [nearest_natCast, same n (by simpa using small)]
  · rw [nearest_neg_natCast, same n (by simpa using small)]

/-! ## Shifting -/

/-- A mantissa that is shifted keeps the quotient; the last bit shifted out and whether there was
one before it tell how the rest compares with a half. -/
theorem shiftRight_succ (m k : Nat) :
    (⟨m, false, false⟩ : ExtendedMantissa) >>> (k + 1) =
      ⟨m / 2 ^ (k + 1), m / 2 ^ k % 2 != 0, m % 2 ^ k != 0⟩ := by
  show (k + 1).repeat ExtendedMantissa.shiftRightOne _ = _
  induction k with
  | zero => simp [Nat.repeat, ExtendedMantissa.shiftRightOne, Nat.mod_one]
  | succ k ih =>
    rw [Nat.repeat, ih, ExtendedMantissa.shiftRightOne]
    have rest : m % 2 ^ (k + 1) = m % 2 ^ k + 2 ^ k * (m / 2 ^ k % 2) := by
      rw [Nat.pow_succ, Nat.mod_mul]
    have unit : 0 < 2 ^ k := Nat.two_pow_pos k
    rw [ExtendedMantissa.mk.injEq]
    refine ⟨?_, rfl, ?_⟩
    · rw [Nat.div_div_eq_div_mul, ← Nat.pow_succ]
    · dsimp only
      rw [Bool.eq_iff_iff, rest]
      simp only [Bool.or_eq_true, bne_iff_ne, ne_eq, Nat.add_eq_zero_iff, Nat.mul_eq_zero]
      omega

theorem roundedMantissa_shiftRight (m k : Nat) :
    ((⟨m, false, false⟩ : ExtendedMantissa) >>> k).roundedMantissa = roundDiv m (2 ^ k) := by
  cases k with
  | zero => 
    rw [Nat.pow_zero, roundDiv_one]
    rfl
  | succ k =>
    have rest : m % 2 ^ (k + 1) = m % 2 ^ k + 2 ^ k * (m / 2 ^ k % 2) := by
      rw [Nat.pow_succ, Nat.mod_mul]
    have below : m % 2 ^ k < 2 ^ k := Nat.mod_lt _ (Nat.two_pow_pos k)
    have twice : 2 ^ (k + 1) = 2 * 2 ^ k := Nat.pow_succ'
    rw [shiftRight_succ]
    unfold roundDiv
    dsimp only
    rw [rest, twice]
    generalize m / (2 * 2 ^ k) = q
    generalize m % 2 ^ k = r at below ⊢
    generalize 2 ^ k = d at below ⊢
    rcases Nat.mod_two_eq_zero_or_one (m / d) with zero | one
    · -- The rest is less than a half.
      rw [zero, Nat.mul_zero, Nat.add_zero, if_pos (.inl (by omega))]
      rcases Nat.eq_zero_or_pos r with rfl | pos
      · rfl
      · rw [bne_iff_ne.2 pos.ne']
        rfl
    · rw [one, Nat.mul_one]
      rcases Nat.eq_zero_or_pos r with rfl | pos
      · -- The rest is a half, and the even quotient is taken.
        show q + q % 2 = _
        split <;> omega
      · rw [bne_iff_ne.2 pos.ne', if_neg (by omega)]
        rfl

/-! ## Words as doubles -/

/-- A mantissa with its leading bit put in front again. -/
theorem toNat_one_append_ofNat {m : Nat} (ge : 2 ^ 52 ≤ m) (lt : m < 2 ^ 53) :
    (1#1 ++ BitVec.ofNat 52 m).toNat = m := by
  rw [BitVec.toNat_append, ← Nat.shiftLeft_add_eq_or_of_lt (BitVec.isLt _)]
  simp only [BitVec.toNat_ofNat, Nat.shiftLeft_eq]
  omega

/-- A normal mantissa is packed without loss, unless its exponent stands for an infinity. -/
theorem unpack_pack_of_normal {s : Sign} {m : Nat} {e : Int} (pos : 0 < m) (ge : 2 ^ 52 ≤ m)
    (lt : m < 2 ^ 53) (above : -1074 ≤ e) (below : e ≤ 971) :
    (Float.Model.pack (.finite s m e pos)).unpack = .finite s m e pos := by
  unfold Float.Model.unpack Float.Model.pack
  rw [UInt64.toBitVec_ofBitVec]
  unfold UnpackedFloat.pack
  dsimp only
  have bits : m.log2 = 52 := (Nat.log2_eq_iff pos.ne').2 ⟨ge, lt⟩
  obtain ⟨b, biased, positive, small⟩ : ∃ b : Nat,
      (e + Format.binary64.exponentBias + Format.binary64.mantissaBitsWithoutImplicit).toNat = b ∧
        0 < b ∧ b < 2047 ∧ (b : Int) = e + 1075 := by
    refine ⟨_, rfl, ?_⟩
    have bias : (Format.binary64.exponentBias : Int) = 1023 := by decide
    rw [bias]
    dsimp only
    omega
  obtain ⟨small, exponent⟩ := small
  have normal : m.log2 + 1 = Format.binary64.mantissaBits := by
    rw [bits]
    rfl
  rw [biased, if_neg (by show ¬ 2 ^ 11 ≤ b + 1; omega), if_pos normal]
  unfold UnpackedFloat.unpack
  simp only [UnpackedFloat.unpackMantissa_packComponents,
    UnpackedFloat.unpackExponent_packComponents, UnpackedFloat.unpackSign_packComponents,
    Sign.ofBitVec_toBitVec]
  have word : (BitVec.ofNat Format.binary64.exponentBits b).toNat = b :=
    Nat.mod_eq_of_lt (small.trans (by decide))
  have most : ¬ BitVec.ofNat Format.binary64.exponentBits b = -1#_ := fun same => by
    have all : b = 2047 := word.symm.trans (congrArg BitVec.toNat same)
    omega
  have least : ¬ BitVec.ofNat Format.binary64.exponentBits b = 0#_ := fun same => by
    have none : b = 0 := word.symm.trans (congrArg BitVec.toNat same)
    omega
  rw [if_neg most, if_neg least, UnpackedFloat.finite.injEq, word]
  refine ⟨rfl, toNat_one_append_ofNat ge lt, ?_⟩
  have bias : (Format.binary64.exponentBias : Int) = 1023 := by decide
  rw [bias]
  omega

/-- A mantissa of 53 bits, or the one after these, is a normal one with zeros after it. -/
theorem exists_normal {q : Nat} (ge : 2 ^ 52 ≤ q) (le : q ≤ 2 ^ 53) :
    ∃ m j : Nat, q = m * 2 ^ j ∧ j ≤ 1 ∧ 2 ^ 52 ≤ m ∧ m < 2 ^ 53 := by
  rcases Nat.lt_or_eq_of_le le with lt | rfl
  · exact ⟨q, 0, by omega, by omega, ge, lt⟩
  · exact ⟨2 ^ 52, 1, by decide, by decide, by decide, by decide⟩

/-- A number of at least 53 bits is rounded to a double with its nearest number. -/
theorem round_of_large (large : 2 ^ 52 ≤ n) (s : Sign) :
    ∃ (m : Nat) (e : Int) (pos : 0 < m), 2 ^ 52 ≤ m ∧ m < 2 ^ 53 ∧ 0 ≤ e ∧ e ≤ n.log2 - 51 ∧
      (m * 2 ^ e : ℚ) = nearestNat n ∧
      UnpackedFloat.round Format.binary64 s n 0 = .finite s m e pos := by
  have some : n ≠ 0 := by omega
  obtain ⟨k, bits⟩ : ∃ k, n.log2 = 52 + k := Nat.exists_eq_add_of_le ((Nat.le_log2 some).2 large)
  have scale : unit n = 2 ^ k := by rw [unit, bits, Nat.add_sub_cancel_left]
  have range := roundDiv_unit large
  rw [scale] at range
  obtain ⟨m, j, parted, most, ge, lt⟩ := exists_normal range.1 range.2
  have pos : 0 < m := by omega
  refine ⟨m, k + j, pos, ge, lt, by omega, by omega, ?_, ?_⟩
  · rw [nearestNat, scale, parted, zpow_add₀ two_ne_zero, zpow_natCast, zpow_natCast]
    push_cast
    ring
  have target : Format.binary64.targetExponent (Float.Model.totalExponent n 0) = k := by
    simp only [Format.targetExponent, Float.Model.totalExponent, Format.mantissaBits,
      Format.minExponent, bits]
    omega
  have first : UnpackedFloat.shiftToTargetExponent Format.binary64 n 0 .exact =
      ((⟨n, false, false⟩ : ExtendedMantissa) >>> k, (k : Int)) := by
    unfold UnpackedFloat.shiftToTargetExponent UnpackedFloat.shiftToExponent
    rw [target]
    dsimp only [ExtendedMantissa.ofMantissaAndAccuracy]
    rw [Int.sub_zero, Int.toNat_natCast, Int.zero_add]
  have second := shiftToTargetExponent_of_canonical
    (.normal ge lt (by omega) : Canonical m (k + j)) pos j
  rw [Int.add_sub_cancel, ← parted] at second
  unfold UnpackedFloat.round UnpackedFloat.decreaseExponent
  dsimp only
  rw [target]
  have amount : (0 - (k : Int)).toNat = 0 := by omega
  rw [amount, Nat.shiftLeft_zero, Int.natCast_zero, Int.sub_zero]
  unfold UnpackedFloat.roundWithAccuracy
  rw [first]
  dsimp only
  rw [roundedMantissa_shiftRight, second]
  exact dif_neg pos.ne'

/-- A number below `2 ^ 64` is rounded to the double that denotes its nearest number. -/
theorem round_of_lt (pos : 0 < n) (lt : n < 2 ^ 64) (s : Sign) :
    ∃ (m : Nat) (e : Int) (pos : 0 < m), (m * 2 ^ e : ℚ) = nearestNat n ∧
      (Float.Model.pack (UnpackedFloat.round Format.binary64 s n 0)).unpack =
        .finite s m e pos := by
  rcases Nat.lt_or_ge n (2 ^ 52) with small | large
  · -- Zeros are shifted in until the leading bit is at its place.
    obtain ⟨k, bits⟩ : ∃ k, n.log2 + k = 52 := by
      have short := (Nat.log2_lt pos.ne').2 small
      exact ⟨52 - n.log2, by omega⟩
    have ge : 2 ^ 52 ≤ n * 2 ^ k := by
      rw [← bits, Nat.pow_add]
      exact Nat.mul_le_mul_right _ (Nat.log2_self_le pos.ne')
    have lt : n * 2 ^ k < 2 ^ 53 := by
      have top : 2 ^ 53 = 2 ^ (n.log2 + 1) * 2 ^ k := by
        rw [← Nat.pow_add]
        congr 1
        omega
      rw [top]
      exact Nat.mul_lt_mul_of_pos_right Nat.lt_log2_self (Nat.two_pow_pos k)
    have pos' : 0 < n * 2 ^ k := Nat.mul_pos pos (Nat.two_pow_pos k)
    have denotes : ((n * 2 ^ k : Nat) * 2 ^ (-(k : Int)) : ℚ) = n := by
      rw [zpow_neg, zpow_natCast, Nat.cast_mul, Nat.cast_pow, Nat.cast_ofNat,
        mul_inv_cancel_right₀ (by positivity)]
    refine ⟨n * 2 ^ k, -(k : Int), pos', ?_, ?_⟩
    · rw [denotes, nearestNat_of_lt (small.trans (by decide))]
    · rw [round_of_canonical (.normal ge lt (by omega)) pos' s denotes]
      exact unpack_pack_of_normal pos' ge lt (by omega) (by omega)
  · have bits : n.log2 < 64 := (Nat.log2_lt pos.ne').2 lt
    obtain ⟨m, e, pos, ge, lt, above, below, denotes, rounded⟩ := round_of_large large s
    refine ⟨m, e, pos, denotes, ?_⟩
    rw [rounded]
    exact unpack_pack_of_normal pos ge lt (by omega) (by omega)

theorem unpack_toFloat_of_pos {u : UInt64} (pos : 0 < u.toNat) :
    ∃ (m : Nat) (e : Int) (pos : 0 < m), (m * 2 ^ e : ℚ) = nearestNat u.toNat ∧
      u.toFloat.toModel.unpack = .finite .positive m e pos := by
  obtain ⟨m, e, pos', denotes, rounded⟩ := round_of_lt pos u.toNat_lt .positive
  refine ⟨m, e, pos', denotes, ?_⟩
  have above : compare (u.toNat : Int) 0 = .gt := Int.compare_eq_gt.2 (by exact_mod_cast pos)
  unfold UInt64.toFloat Float.Model.ofUInt64 UnpackedFloat.ofUInt64 UnpackedFloat.ofNat
    UnpackedFloat.ofInt UnpackedFloat.normalize
  rw [above]
  exact rounded

/-- An unsigned word becomes the double that denotes its nearest number. -/
theorem value?_ofUInt64 (u : UInt64) : value? (ofUInt64 u) = some (nearestNat u.toNat : ℚ) := by
  unfold value? ofUInt64
  rcases Nat.eq_zero_or_pos u.toNat with zero | pos
  · obtain rfl : u = 0 := UInt64.toNat_inj.1 zero
    rw [unpack_toFloat_zero]
    rfl
  · obtain ⟨m, e, pos', denotes, unpacked⟩ := unpack_toFloat_of_pos pos
    rw [unpacked, ← denotes]
    rfl

/-- A signed word becomes the double that denotes its nearest number. -/
theorem value?_ofInt64 (i : Int64) : value? (ofInt64 i) = some (nearest i.toInt : ℚ) := by
  obtain ⟨magnitude, magnitude'⟩ := toNat_toUInt64 i
  unfold ofInt64
  by_cases below : i < 0
  · rw [if_pos below]
    replace below : i.toInt < 0 := Int64.lt_iff_toInt_lt.1 below
    have negated := magnitude below
    obtain ⟨m, e, pos, denotes, unpacked⟩ := unpack_toFloat_of_pos (u := (-i).toUInt64) (by omega)
    unfold value?
    rw [negated, nearest_neg_natCast, unpack_neg unpacked unpacked, Int.cast_neg, Int.cast_natCast,
      ← denotes]
    simp [Sign.apply]
  · rw [if_neg below, magnitude' (fun negative => below (Int64.lt_iff_toInt_lt.2 negative))]
    exact value?_ofUInt64 i.toUInt64

/-! ## The nearest double -/

variable {e : Int} {x : Float} {q : ℚ}

/-- No number of 53 bits with zeros after them is nearer than the nearest. -/
theorem Canonical.abs_sub_nearestNat_le (canonical : Canonical m e) (n : Nat) :
    |(n : ℚ) - nearestNat n| ≤ |(n : ℚ) - m * 2 ^ e| := by
  rcases Nat.lt_or_ge n (2 ^ 53) with small | large
  · rw [nearestNat_of_lt small, sub_self, abs_zero]
    exact abs_nonneg _
  have multiples : ∀ k : Nat, |(n : ℚ) - nearestNat n| ≤ |(n : ℚ) - k * unit n| := by
    intro k
    have le := abs_sub_roundDiv_le (Nat.two_pow_pos _ : 0 < unit n) n k
    unfold nearestNat
    exact_mod_cast le
  have some : n ≠ 0 := by omega
  have bits : 53 ≤ n.log2 := (Nat.le_log2 some).2 large
  have place : (unit n : ℚ) = 2 ^ (n.log2 - 52) := by
    unfold unit
    push_cast
    rfl
  rcases le_or_gt ((n.log2 - 52 : Nat) : Int) e with le | gt
  · obtain ⟨k, rfl⟩ := Int.le.dest le
    refine (multiples (m * 2 ^ k)).trans_eq ?_
    rw [place, zpow_add₀ two_ne_zero, zpow_natCast, zpow_natCast]
    push_cast
    ring_nf
  · -- A smaller exponent leaves the number below the power of two next to `n`, which is a multiple.
    have least : (2 ^ n.log2 : ℚ) ≤ n := by exact_mod_cast Nat.log2_self_le some
    have power : (2 : ℚ) ^ 52 * unit n = 2 ^ n.log2 := by
      rw [place, ← pow_add, Nat.add_sub_cancel' (by omega)]
    have mantissa : (m : ℚ) ≤ 2 ^ 53 := by exact_mod_cast canonical.mantissa_lt.le
    have below : (m * 2 ^ e : ℚ) ≤ 2 ^ n.log2 := by
      calc (m * 2 ^ e : ℚ) ≤ 2 ^ 53 * 2 ^ (((n.log2 - 53 : Nat) : Int)) := by
            refine mul_le_mul mantissa (zpow_le_zpow_right₀ one_le_two (by omega)) (by positivity)
              (by positivity)
        _ = 2 ^ n.log2 := by rw [zpow_natCast, ← pow_add, Nat.add_sub_cancel' bits]
    have nearer := multiples (2 ^ 52)
    rw [Nat.cast_pow, Nat.cast_ofNat, power, abs_of_nonneg (sub_nonneg.2 least)] at nearer
    refine nearer.trans ?_
    rw [abs_of_nonneg (sub_nonneg.2 (below.trans least))]
    linarith

/-- No double is nearer to a whole number than the one that its rounding denotes. -/
theorem Denotes.abs_sub_nearestNat_le {a : UnpackedFloat} (denotes : Denotes a q) (n : Nat) :
    |(n : ℚ) - nearestNat n| ≤ |(n : ℚ) - q| := by
  have zero := (Canonical.subnormal (Nat.two_pow_pos 52)).abs_sub_nearestNat_le n
  rw [Nat.cast_zero, zero_mul, sub_zero, Nat.abs_cast] at zero
  cases denotes with
  | zero s => rwa [sub_zero, Nat.abs_cast]
  | positive pos canonical => exact canonical.abs_sub_nearestNat_le n
  | @negative m e pos canonical =>
    have other : (0 : ℚ) ≤ m * 2 ^ e := by positivity
    refine zero.trans ?_
    rw [sub_neg_eq_add, abs_of_nonneg (by positivity)]
    exact le_add_of_nonneg_right other

theorem Denotes.neg {a : UnpackedFloat} (denotes : Denotes a q) : ∃ b, Denotes b (-q) := by
  cases denotes with
  | zero s => exact ⟨_, by rw [neg_zero]; exact .zero s⟩
  | positive pos canonical => exact ⟨_, .negative pos canonical⟩
  | negative pos canonical => exact ⟨_, by rw [neg_neg]; exact .positive pos canonical⟩

/-- No double is nearer to a whole number than the one that it is rounded to. -/
theorem abs_sub_nearest_le (denotes : value? x = some q) (i : Int) :
    |(i : ℚ) - nearest i| ≤ |(i : ℚ) - q| := by
  have double := denotes_of_value? denotes
  obtain ⟨n, rfl | rfl⟩ := Int.eq_nat_or_neg i
  · rw [nearest_natCast]
    exact_mod_cast double.abs_sub_nearestNat_le n
  · obtain ⟨b, opposite⟩ := double.neg
    have nearer := opposite.abs_sub_nearestNat_le n
    have mirror : ∀ r : ℚ, |-(n : ℚ) - r| = |(n : ℚ) - -r| := fun r => by
      rw [← abs_neg]
      ring_nf
    rw [nearest_neg_natCast]
    push_cast
    rwa [mirror, mirror, neg_neg]

end ScriptHost.Number

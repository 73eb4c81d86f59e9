import ScriptHost.Proofs.Number.Exact
/-!
Doubles in order. Finite doubles are compared by their exponents and then by their mantissas; since
both are canonical, that is how the numbers that they denote compare.
-/
namespace ScriptHost.Number

open Float.Model (UnpackedFloat Format)
open Float.Model.UnpackedFloat (Sign)

variable {x y : Float} {p q : ℚ} {m n : Nat} {d e : Int}

/-- A larger exponent makes the larger number, since only the least exponent has mantissas without
a leading bit. -/
theorem Canonical.value_lt (left : Canonical m d) (right : Canonical n e) (lt : d < e) :
    (m * 2 ^ d : ℚ) < n * 2 ^ e := by
  have leading : 2 ^ 52 ≤ n := by
    cases right with
    | subnormal _ => cases left <;> omega
    | normal ge _ _ => exact ge
  have mantissa : (m : ℚ) < 2 ^ 53 := by exact_mod_cast left.mantissa_lt
  have leading' : (2 ^ 52 : ℚ) ≤ n := by exact_mod_cast leading
  calc (m * 2 ^ d : ℚ) < 2 ^ 53 * 2 ^ d := by gcongr
    _ = 2 ^ 52 * 2 ^ (d + 1) := by rw [zpow_add_one₀ two_ne_zero]; ring
    _ ≤ n * 2 ^ e := by
      have power : (2 : ℚ) ^ (d + 1) ≤ 2 ^ e := zpow_le_zpow_right₀ one_le_two lt
      gcongr

/-- Canonical mantissas and exponents compare as the numbers that they stand for. -/
theorem Canonical.compare_eq (left : Canonical m d) (right : Canonical n e) :
    (compare d e).then (compare m n) = compare (m * 2 ^ d : ℚ) (n * 2 ^ e) := by
  rcases lt_trichotomy d e with lt | rfl | gt
  · rw [Int.compare_eq_lt.2 lt, compare_lt_iff_lt.2 (left.value_lt right lt)]
    rfl
  · have power : (0 : ℚ) < 2 ^ d := by positivity
    rw [Int.compare_eq_eq.2 rfl, Ordering.eq_then]
    rcases lt_trichotomy m n with lt | rfl | gt
    · rw [Nat.compare_eq_lt.2 lt, compare_lt_iff_lt.2]
      gcongr
    · rw [Nat.compare_eq_eq.2 rfl, compare_eq_iff_eq.2 rfl]
    · rw [Nat.compare_eq_gt.2 gt, compare_gt_iff_gt.2]
      show (n * 2 ^ d : ℚ) < m * 2 ^ d
      gcongr
  · rw [Int.compare_eq_gt.2 gt, compare_gt_iff_gt.2 (right.value_lt left gt)]
    rfl

theorem compare_neg (p q : ℚ) : compare (-p) (-q) = (compare p q).swap := by
  rcases lt_trichotomy p q with lt | rfl | gt
  · rw [compare_lt_iff_lt.2 lt, compare_gt_iff_gt.2 (neg_lt_neg lt)]
    rfl
  · rw [compare_eq_iff_eq.2 rfl, compare_eq_iff_eq.2 rfl]
    rfl
  · rw [compare_gt_iff_gt.2 gt, compare_lt_iff_lt.2 (neg_lt_neg gt)]
    rfl

/-- The finite doubles, by the sign of the number that they denote. -/
inductive Denotes : UnpackedFloat → ℚ → Prop
  | zero (s : Sign) : Denotes (.zero s) 0
  | positive {m : Nat} {e : Int} (pos : 0 < m) (canonical : Canonical m e) :
    Denotes (.finite .positive m e pos) (m * 2 ^ e)
  | negative {m : Nat} {e : Int} (pos : 0 < m) (canonical : Canonical m e) :
    Denotes (.finite .negative m e pos) (-(m * 2 ^ e))

theorem denotes_of_value? (denotes : value? x = some p) : Denotes x.toModel.unpack p := by
  unfold value? at denotes
  cases unpacked : x.toModel.unpack with
  | infinity _ => simp [unpacked] at denotes
  | notANumber => simp [unpacked] at denotes
  | zero s =>
    rw [unpacked] at denotes
    obtain rfl := Option.some.inj denotes
    exact .zero s
  | finite s m e pos =>
    rw [unpacked] at denotes
    obtain rfl := Option.some.inj denotes
    have canonical := canonical_of_unpack unpacked
    cases s with
    | positive => simpa [Sign.apply] using Denotes.positive pos canonical
    | negative => simpa [Sign.apply] using Denotes.negative pos canonical

/-- Finite doubles compare as the numbers that they denote. -/
theorem Denotes.compare_eq {a b : UnpackedFloat} (left : Denotes a p) (right : Denotes b q) :
    a.compare b = some (compare p q) := by
  -- A finite double that is no zero lies on one side of all others of another sign.
  have above : ∀ {m : Nat} {e : Int}, 0 < m → (0 : ℚ) < m * 2 ^ e := by
    intro m e pos
    positivity
  cases left with
  | zero s =>
    cases right with
    | zero t => rfl
    | positive pos canonical =>
      rw [compare_lt_iff_lt.2 (above pos)]
      rfl
    | negative pos canonical =>
      rw [compare_gt_iff_gt.2 (neg_lt_zero.2 (above pos))]
      rfl
  | positive pos canonical =>
    cases right with
    | zero t =>
      rw [compare_gt_iff_gt.2 (above pos)]
      rfl
    | positive pos' canonical' => exact congrArg some (canonical.compare_eq canonical')
    | negative pos' canonical' =>
      rw [compare_gt_iff_gt.2 ((neg_lt_zero.2 (above pos')).trans (above pos))]
      rfl
  | negative pos canonical =>
    cases right with
    | zero t =>
      rw [compare_lt_iff_lt.2 (neg_lt_zero.2 (above pos))]
      rfl
    | positive pos' canonical' =>
      rw [compare_lt_iff_lt.2 ((neg_lt_zero.2 (above pos)).trans (above pos'))]
      rfl
    | negative pos' canonical' =>
      rw [compare_neg, ← canonical.compare_eq canonical']
      rfl

/-- The numbers that doubles denote below a power of two leave the last place of 53 bits free. -/
theorem Denotes.le_of_lt {a : UnpackedFloat} (denotes : Denotes a p) {j k : Nat} (split : 53 + k = j)
    (lt : p < 2 ^ j) : p ≤ 2 ^ j - 2 ^ k := by
  have power : (2 : ℚ) ^ j = 2 ^ 53 * 2 ^ k := by rw [← split, pow_add]
  have scale : (0 : ℚ) < 2 ^ k := by positivity
  rw [power] at lt ⊢
  cases denotes with
  | zero s => linarith
  | @negative m e pos canonical =>
    have above : (0 : ℚ) < m * 2 ^ e := by positivity
    linarith
  | @positive m e pos canonical =>
    rcases le_or_gt e k with le | gt
    · have mantissa : (m : ℚ) ≤ 2 ^ 53 - 1 := by
        have short : m + 1 ≤ 2 ^ 53 := canonical.mantissa_lt
        have short' : ((m + 1 : Nat) : ℚ) ≤ (2 ^ 53 : Nat) := Nat.cast_le.2 short
        push_cast at short'
        linarith
      calc (m * 2 ^ e : ℚ) ≤ (2 ^ 53 - 1) * 2 ^ (k : Int) :=
            mul_le_mul mantissa (zpow_le_zpow_right₀ one_le_two le) (by positivity) (by norm_num)
        _ = 2 ^ 53 * 2 ^ k - 2 ^ k := by rw [zpow_natCast]; ring
    · -- A larger exponent has a leading bit that reaches the power of two.
      cases canonical with
      | subnormal _ => omega
      | normal ge _ _ =>
        have leading : (2 ^ 52 : ℚ) ≤ m := by exact_mod_cast ge
        have above : (2 : ℚ) ^ 53 * 2 ^ k ≤ m * 2 ^ e := by
          calc (2 : ℚ) ^ 53 * 2 ^ k = 2 ^ 52 * (2 : ℚ) ^ ((k : Int) + 1) := by
                rw [zpow_add_one₀ two_ne_zero, zpow_natCast]; ring
            _ ≤ (m : ℚ) * (2 : ℚ) ^ e :=
              mul_le_mul leading (zpow_le_zpow_right₀ one_le_two gt) (by positivity) (by positivity)
        exact absurd lt above.not_gt

section

variable (left : value? x = some p) (right : value? y = some q)

include left right

theorem lt_iff : x < y ↔ p < q := by
  have decided : x < y ↔ (x.toModel.unpack.compare y.toModel.unpack == some .lt) = true :=
    decide_eq_true_iff
  rw [decided, (denotes_of_value? left).compare_eq (denotes_of_value? right), beq_iff_eq,
    Option.some.injEq, compare_lt_iff_lt]

theorem le_iff : x ≤ y ↔ p ≤ q := by
  have decided : x ≤ y ↔ (x.toModel.unpack.compare y.toModel.unpack).any (·.isLE) = true :=
    decide_eq_true_iff
  rw [decided, (denotes_of_value? left).compare_eq (denotes_of_value? right), Option.any_some,
    Ordering.isLE_iff_ne_gt]
  exact compare_le_iff_le

theorem beq_iff : (x == y) = true ↔ p = q := by
  have decided : (x == y) = (x.toModel.unpack.compare y.toModel.unpack == some .eq) := rfl
  rw [decided, (denotes_of_value? left).compare_eq (denotes_of_value? right), beq_iff_eq,
    Option.some.injEq, compare_eq_iff_eq]

end

/-- A double is finite just if it denotes a number. -/
theorem isFinite_iff : x.isFinite = true ↔ ∃ p, value? x = some p := by
  have same : x.isFinite = x.toModel.unpack.isFinite := rfl
  rw [same]
  unfold value?
  cases x.toModel.unpack <;> simp [UnpackedFloat.isFinite]

/-- The largest number below a power of two that a double denotes. -/
theorem isGreatest_lt_two_pow {j k : Nat} (split : 53 + k = j)
    (denotes : value? x = some (2 ^ j - 2 ^ k)) :
    IsGreatest {q | q < 2 ^ j ∧ ∃ y, value? y = some q} (2 ^ j - 2 ^ k) :=
  ⟨⟨sub_lt_self _ (by positivity), x, denotes⟩,
    fun _ ⟨lt, _, denotes'⟩ => (denotes_of_value? denotes').le_of_lt split lt⟩

end ScriptHost.Number

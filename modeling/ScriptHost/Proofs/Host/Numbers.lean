import ScriptHost.Host.Value
import ScriptHost.Proofs.Number.Exact
import ScriptHost.Proofs.Number.Nearest
import ScriptHost.Proofs.Number.Order
/-!
The numbers that host values denote: words and finite doubles denote one, and nothing else does. What
a value is read as follows from that number, and for a double beyond the words from its sign.
-/
namespace ScriptHost.Host

variable {v : Value} {kind : NumericKind} {i : Int}

/-- The number that a value denotes. -/
def Value.number? : Value → Option ℚ
  | .int i => some i.toInt
  | .uint u => some u.toNat
  | .float x => Number.value? x
  | _ => none

/-- The whole number that a word holds. -/
def Value.integer? : Value → Option Int
  | .int i => some i.toInt
  | .uint u => some u.toNat
  | _ => none

theorem Value.number?_of_integer? (word : v.integer? = some i) : v.number? = some (i : ℚ) := by
  cases v with
  | int a => exact congrArg some (by exact_mod_cast Option.some.inj word)
  | uint a => exact congrArg some (by exact_mod_cast Option.some.inj word)
  | _ => cases word

theorem Value.integer?_range (word : v.integer? = some i) :
    -2 ^ 63 ≤ i ∧ i < 2 ^ 64 := by
  cases v with
  | int a =>
    cases word
    exact ⟨a.le_toInt, a.toInt_lt.trans (by decide)⟩
  | uint u =>
    cases word
    have small := u.toNat_lt
    omega
  | _ => cases word

/-- A word is compared as the double that denotes its nearest number. -/
theorem Value.asFloat?_of_integer? (word : v.integer? = some i) :
    ∃ x, v.asFloat? = some x ∧ Number.value? x = some (Number.nearest i : ℚ) := by
  cases v with
  | int a =>
    cases word
    exact ⟨_, rfl, Number.value?_ofInt64 a⟩
  | uint a =>
    cases word
    exact ⟨_, rfl, Number.value?_ofUInt64 a⟩
  | _ => cases word

/-! ## Signed words -/

/-- A whole double that is larger than every signed word. -/
def Value.Above (v : Value) : Prop :=
  ∃ (x : Float) (n : Int), v = .float x ∧ Number.value? x = some (n : ℚ) ∧ 2 ^ 63 ≤ n

/-- A whole double that is smaller than every signed word. -/
def Value.Below (v : Value) : Prop :=
  ∃ (x : Float) (n : Int), v = .float x ∧ Number.value? x = some (n : ℚ) ∧ n < -2 ^ 63

theorem Value.above_float {x : Float} {n : Int} (denotes : Number.value? x = some (n : ℚ)) :
    (Value.float x).Above ↔ 2 ^ 63 ≤ n := by
  refine ⟨?_, fun large => ⟨x, n, rfl, denotes, large⟩⟩
  rintro ⟨_, k, ⟨⟩, denotes', large⟩
  rw [denotes, Option.some.injEq, Int.cast_inj] at denotes'
  exact denotes' ▸ large

theorem Value.below_float {x : Float} {n : Int} (denotes : Number.value? x = some (n : ℚ)) :
    (Value.float x).Below ↔ n < -2 ^ 63 := by
  refine ⟨?_, fun small => ⟨x, n, rfl, denotes, small⟩⟩
  rintro ⟨_, k, ⟨⟩, denotes', small⟩
  rw [denotes, Option.some.injEq, Int.cast_inj] at denotes'
  exact denotes' ▸ small

theorem ofIntClamp_of_ge {n : Int} (ge : 2 ^ 63 ≤ n) : Int64.ofIntClamp n = Int64.maxValue := by
  have low : Int64.minValue.toInt ≤ n := by
    change -2 ^ 63 ≤ n
    omega
  have high : ¬ n ≤ Int64.maxValue.toInt := by
    change ¬ n ≤ 2 ^ 63 - 1
    omega
  rw [Int64.ofIntClamp, dif_pos low, dif_neg high]

theorem ofIntClamp_of_lt {n : Int} (lt : n < -2 ^ 63) : Int64.ofIntClamp n = Int64.minValue := by
  have low : ¬ Int64.minValue.toInt ≤ n := by
    change ¬ -2 ^ 63 ≤ n
    omega
  rw [Int64.ofIntClamp, dif_neg low]

/-- A number becomes the word that holds it, or else the word next to it. -/
theorem ofIntClamp_eq_iff {n : Int} {i : Int64} : Int64.ofIntClamp n = i ↔
    n = i.toInt ∨ 2 ^ 63 ≤ n ∧ i = Int64.maxValue ∨ n < -2 ^ 63 ∧ i = Int64.minValue := by
  have range : -2 ^ 63 ≤ i.toInt ∧ i.toInt < 2 ^ 63 := ⟨i.le_toInt, i.toInt_lt⟩
  rcases lt_or_ge n (-2 ^ 63) with small | notSmall
  · have other : n ≠ i.toInt := by omega
    have notLarge : ¬ 2 ^ 63 ≤ n := by omega
    simp only [ofIntClamp_of_lt small, other, notLarge, small, false_and, true_and, false_or]
    exact eq_comm
  rcases lt_or_ge n (2 ^ 63) with notLarge | large
  · rw [← Int64.toInt_inj, Int64.toInt_ofIntClamp notSmall (Int.le_of_lt_add_one notLarge)]
    omega
  · have other : n ≠ i.toInt := by omega
    simp only [ofIntClamp_of_ge large, other, large, notSmall.not_gt, false_and, true_and, false_or,
      or_false]
    exact eq_comm

theorem toInt_toInt64 {u : UInt64} (small : u.toNat < 2 ^ 63) : u.toInt64.toInt = u.toNat := by
  have same : u.toInt64.toInt = u.toBitVec.toInt := rfl
  rw [same, BitVec.toInt_eq_toNat_cond, if_pos]
  · rfl
  · change 2 * u.toNat < 2 ^ 64
    omega

/-- A value is read as the signed word that holds its number. A whole double for which there is none
is read as the word next to it. -/
theorem Value.asInt64?_eq_some_iff {i : Int64} :
    v.asInt64? = some i ↔ v.number? = some (i.toInt : ℚ) ∨
      v.Above ∧ i = Int64.maxValue ∨ v.Below ∧ i = Int64.minValue := by
  cases v with
  | int a =>
    have words : (a.toInt : ℚ) = i.toInt ↔ a = i := by
      rw [Int.cast_inj, Int64.toInt_inj]
    simp [Value.asInt64?, Value.number?, Value.Above, Value.Below, words]
  | uint u =>
    have number : (u.toNat : ℚ) = i.toInt ↔ (u.toNat : Int) = i.toInt := by exact_mod_cast Iff.rfl
    have range := i.toInt_lt
    simp only [Value.asInt64?, Value.number?, Value.Above, Value.Below, Option.some.injEq,
      reduceCtorEq, false_and, exists_false, or_false, number]
    split
    · rename_i small
      rw [Option.some.injEq, ← Int64.toInt_inj, toInt_toInt64 small]
    · simp only [reduceCtorEq, false_iff]
      omega
  | float x =>
    by_cases whole : Number.isWhole x = true
    · obtain ⟨n, denotes⟩ := Number.isWhole_iff.1 whole
      have number : (n : ℚ) = i.toInt ↔ n = i.toInt := Int.cast_inj
      simp only [Value.asInt64?, Value.number?, denotes, whole, if_true, Option.some.injEq, number,
        Value.above_float denotes, Value.below_float denotes, Number.toInt64_eq denotes,
        ofIntClamp_eq_iff]
    · have noNumber : ∀ n : Int, Number.value? x ≠ some (n : ℚ) := fun n denotes =>
        whole (Number.isWhole_iff.2 ⟨n, denotes⟩)
      have notAbove : ¬ (Value.float x).Above := by
        rintro ⟨_, n, ⟨⟩, denotes, -⟩
        exact noNumber n denotes
      have notBelow : ¬ (Value.float x).Below := by
        rintro ⟨_, n, ⟨⟩, denotes, -⟩
        exact noNumber n denotes
      simp only [Value.asInt64?, Value.number?, whole, notAbove, notBelow, noNumber i.toInt,
        false_and, or_false, if_false, reduceCtorEq]
  | _ => simp [Value.asInt64?, Value.number?, Value.Above, Value.Below]

theorem Value.asInt64?_of_integer? (word : v.integer? = some i) (low : -2 ^ 63 ≤ i)
    (high : i < 2 ^ 63) : v.asInt64? = some (.ofInt i) := by
  refine Value.asInt64?_eq_some_iff.2 (.inl ?_)
  rw [Int64.toInt_ofInt_of_le low high]
  exact Value.number?_of_integer? word

/-- A value is read as the natural number that it denotes, if that is a signed word. A whole double
above these is read as the largest of them. -/
theorem Value.asNat?_eq_some_iff {k : Nat} :
    v.asNat? = some k ↔ v.number? = some (k : ℚ) ∧ k < 2 ^ 63 ∨ v.Above ∧ k = 2 ^ 63 - 1 := by
  have reads : v.asNat? = some k ↔ ∃ i : Int64, v.asInt64? = some i ∧ i.toInt = k := by
    unfold Value.asNat?
    rw [Option.bind_eq_some_iff]
    refine exists_congr fun i => and_congr_right fun _ => ?_
    have negative : i < 0 ↔ i.toInt < 0 := Int64.lt_iff_toInt_lt
    split
    · rename_i below
      replace below : i.toInt < 0 := negative.1 below
      simp only [reduceCtorEq, false_iff]
      omega
    · rename_i notBelow
      replace notBelow : ¬ i.toInt < 0 := mt negative.2 notBelow
      rw [Option.some.injEq]
      omega
  rw [reads]
  constructor
  · rintro ⟨i, read, value⟩
    rcases Value.asInt64?_eq_some_iff.1 read with denotes | ⟨above, rfl⟩ | ⟨-, rfl⟩
    · refine .inl ⟨by rw [denotes, value, Int.cast_natCast], ?_⟩
      have small := i.toInt_lt
      omega
    · change (2 ^ 63 - 1 : Int) = k at value
      exact .inr ⟨above, by omega⟩
    · change (-2 ^ 63 : Int) = k at value
      omega
  · rintro (⟨denotes, small⟩ | ⟨above, rfl⟩)
    · have word : (Int64.ofInt k).toInt = k := Int64.toInt_ofInt_of_le (by omega) (by omega)
      refine ⟨.ofInt k, Value.asInt64?_eq_some_iff.2 (.inl ?_), word⟩
      rw [word, Int.cast_natCast]
      exact denotes
    · exact ⟨.maxValue, Value.asInt64?_eq_some_iff.2 (.inr (.inl ⟨above, rfl⟩)), rfl⟩

/-! ## The words of a kind -/

/-- The word of an integer kind for a number. -/
def NumericKind.word (kind : NumericKind) (i : Int) : Value :=
  if kind.isUnsigned then .uint (.ofNat i.toNat) else .int (.ofInt i)

theorem NumericKind.width_le (kind : NumericKind) : kind.width ≤ 64 := by
  cases kind <;> decide

/-- A number in the range of an unsigned kind is one of 64 bits. -/
theorem NumericKind.Holds.unsigned (holds : kind.Holds i) (unsigned : kind.isUnsigned = true) :
    0 ≤ i ∧ i < 2 ^ 64 := by
  unfold NumericKind.Holds at holds
  rw [if_pos unsigned] at holds
  have bound : Nat.pow 2 kind.width ≤ 2 ^ 64 := Nat.pow_le_pow_right (by decide) kind.width_le
  generalize Nat.pow 2 kind.width = limit at holds bound
  omega

/-- A number in the range of a signed kind is one of 64 bits with a sign. -/
theorem NumericKind.Holds.signed (holds : kind.Holds i) (signed : kind.isUnsigned = false) :
    -2 ^ 63 ≤ i ∧ i < 2 ^ 63 := by
  unfold NumericKind.Holds at holds
  rw [if_neg (by rw [signed]; decide)] at holds
  have bound : Nat.pow 2 (kind.width - 1) ≤ 2 ^ 63 :=
    Nat.pow_le_pow_right (by decide) (Nat.sub_le_sub_right kind.width_le 1)
  generalize Nat.pow 2 (kind.width - 1) = limit at holds bound
  omega

/-- The word for a number in the range of its kind holds that number. -/
theorem NumericKind.Holds.integer?_word (holds : kind.Holds i) :
    (kind.word i).integer? = some i := by
  unfold NumericKind.word
  cases signed : kind.isUnsigned with
  | true =>
    have range := holds.unsigned signed
    rw [if_pos rfl]
    refine congrArg some ?_
    rw [UInt64.toNat_ofNat_of_lt']
    · omega
    · change i.toNat < 2 ^ 64
      omega
  | false =>
    have range := holds.signed signed
    rw [if_neg nofun]
    exact congrArg some (Int64.toInt_ofInt_of_le (by omega) (by omega))

/-- A whole double in the range of a kind is turned into the word for its number. -/
theorem NumericKind.Holds.cast {x : Float} (holds : kind.Holds i)
    (denotes : Number.value? x = some (i : ℚ)) :
    (if kind.isUnsigned then .uint x.toUInt64 else .int (Number.toInt64 x)) = kind.word i := by
  unfold NumericKind.word
  cases signed : kind.isUnsigned with
  | true =>
    have range := holds.unsigned signed
    have size : i.toNat < UInt64.size := by
      change i.toNat < 2 ^ 64
      omega
    rw [if_pos rfl, if_pos rfl, Number.toUInt64_eq denotes, UInt64.ofNatClamp_eq_ofNat _ size]
  | false =>
    have range := holds.signed signed
    rw [if_neg nofun, if_neg nofun, Number.toInt64_eq denotes]
    refine congrArg Value.int (Int64.toInt_inj.1 ?_)
    rw [Int64.toInt_ofIntClamp range.1 (Int.le_of_lt_add_one range.2),
      Int64.toInt_ofInt_of_le range.1 range.2]

/-! ## The bounds of a kind -/

/-- The bounds of an integer kind denote the ends of its range. -/
theorem NumericKind.value?_bounds (integer : kind.isInteger = true) :
    ∃ low high : Int, Number.value? kind.bounds.1 = some (low : ℚ) ∧
      Number.value? kind.bounds.2 = some (high : ℚ) ∧ ∀ i, kind.Holds i ↔ low ≤ i ∧ i < high := by
  have ends : ∀ low high : Int, Number.wholeNumber? kind.bounds.1 = some low →
      Number.wholeNumber? kind.bounds.2 = some high → (∀ i, kind.Holds i ↔ low ≤ i ∧ i < high) →
      ∃ low high : Int, Number.value? kind.bounds.1 = some (low : ℚ) ∧
        Number.value? kind.bounds.2 = some (high : ℚ) ∧ ∀ i, kind.Holds i ↔ low ≤ i ∧ i < high :=
    fun low high first second range => ⟨low, high, Number.wholeNumber?_eq_some_iff.1 first,
      Number.wholeNumber?_eq_some_iff.1 second, range⟩
  cases kind with
  | int8 => exact ends (-2 ^ 7) (2 ^ 7) (by decide +kernel) (by decide +kernel) fun i => Iff.rfl
  | int16 => exact ends (-2 ^ 15) (2 ^ 15) (by decide +kernel) (by decide +kernel) fun i => Iff.rfl
  | int32 => exact ends (-2 ^ 31) (2 ^ 31) (by decide +kernel) (by decide +kernel) fun i => Iff.rfl
  | int64 => exact ends (-2 ^ 63) (2 ^ 63) (by decide +kernel) (by decide +kernel) fun i => Iff.rfl
  | uint8 => exact ends 0 (2 ^ 8) (by decide +kernel) (by decide +kernel) fun i => Iff.rfl
  | uint16 => exact ends 0 (2 ^ 16) (by decide +kernel) (by decide +kernel) fun i => Iff.rfl
  | uint32 => exact ends 0 (2 ^ 32) (by decide +kernel) (by decide +kernel) fun i => Iff.rfl
  | uint64 => exact ends 0 (2 ^ 64) (by decide +kernel) (by decide +kernel) fun i => Iff.rfl
  | single | double => cases integer

/-- The bounds of single precision denote its largest number and the least. -/
theorem NumericKind.value?_bounds_single :
    Number.value? NumericKind.single.bounds.1 = some (-(0xffffff * 2 ^ 104)) ∧
      Number.value? NumericKind.single.bounds.2 = some (0xffffff * 2 ^ 104) := by
  have low : Number.wholeNumber? NumericKind.single.bounds.1 = some (-(0xffffff * 2 ^ 104)) := by
    decide +kernel
  have high : Number.wholeNumber? NumericKind.single.bounds.2 = some (0xffffff * 2 ^ 104) := by
    decide +kernel
  refine ⟨(Number.wholeNumber?_eq_some_iff.1 low).trans ?_,
    (Number.wholeNumber?_eq_some_iff.1 high).trans ?_⟩ <;> norm_num

end ScriptHost.Host

import ScriptHost.Engine.Convert
import ScriptHost.Proofs.Host.Numbers
/-!
Numbers of scripts as host numbers. Whether a number is taken is told by comparing it with the
bounds of the kind, which are doubles, and the word is made by dropping what is behind the point. A
word that is made this way holds just the number that it was made from, and every number that the
kind has a word for is taken.
-/
namespace ScriptHost

open Host (NumericKind World)

variable {x : Float} {kind : NumericKind} {i : Int} {h : Host.Value}

/-! ## Integer kinds -/

/-- The test for an integer kind is passed just by the whole numbers in its range. -/
theorem passes_iff (integer : kind.isInteger = true) :
    (!x.isFinite || !Number.isWhole x || decide (x < kind.bounds.1) || decide (kind.bounds.2 ≤ x)) =
      false ↔ ∃ i : Int, Number.value? x = some (i : ℚ) ∧ kind.Holds i := by
  obtain ⟨low, high, denotes, denotes', range⟩ := NumericKind.value?_bounds integer
  simp only [Bool.or_eq_false_iff, Bool.not_eq_false', decide_eq_false_iff_not]
  constructor
  · rintro ⟨⟨⟨-, whole⟩, notBelow⟩, notAbove⟩
    obtain ⟨i, number⟩ := Number.isWhole_iff.1 whole
    rw [Number.lt_iff number denotes, Int.cast_lt, Int.not_lt] at notBelow
    rw [Number.le_iff denotes' number, Int.cast_le, Int.not_le] at notAbove
    exact ⟨i, number, (range i).2 ⟨notBelow, notAbove⟩⟩
  · rintro ⟨i, number, holds⟩
    obtain ⟨notBelow, notAbove⟩ := (range i).1 holds
    refine ⟨⟨⟨Number.isFinite_iff.2 ⟨i, number⟩, Number.isWhole_iff.2 ⟨i, number⟩⟩, ?_⟩, ?_⟩
    · rw [Number.lt_iff number denotes, Int.cast_lt, Int.not_lt]
      exact notBelow
    · rw [Number.le_iff denotes' number, Int.cast_le, Int.not_le]
      exact notAbove

/-- A whole number in the range of an integer kind becomes its word. -/
theorem narrow_of_holds (integer : kind.isInteger = true) (denotes : Number.value? x = some (i : ℚ))
    (holds : kind.Holds i) : narrow x kind = .ok (kind.word i) := by
  have passes := (passes_iff integer).2 ⟨i, denotes, holds⟩
  unfold narrow
  dsimp only
  rw [if_pos integer, passes, if_neg nofun, holds.cast denotes]

/-- Every other number is refused. -/
theorem narrow_refused (integer : kind.isInteger = true)
    (beyond : ¬ ∃ i : Int, Number.value? x = some (i : ℚ) ∧ kind.Holds i) :
    narrow x kind = .error (.conversion kind.name ("number " ++ Number.plain.text x)) := by
  have fails := Bool.eq_true_of_not_eq_false fun passes => beyond ((passes_iff integer).1 passes)
  unfold narrow
  dsimp only
  rw [if_pos integer, fails, if_pos rfl]

/-! ## All kinds -/

/-- The numbers that a numeric kind has a value for: the whole ones in its range, those that are no
larger than the largest of single precision, or all. What is no finite number is one of single and
double precision too. -/
def Host.NumericKind.Admits (kind : NumericKind) (x : Float) : Prop :=
  if kind.isInteger then ∃ i : Int, Number.value? x = some (i : ℚ) ∧ kind.Holds i
  else kind = .single → ∀ q, Number.value? x = some q → |q| ≤ 0xffffff * 2 ^ 104

/-- A finite number lies outside the bounds of single precision just if it is too large for it. -/
theorem exceeds_single_iff :
    (x.isFinite && (decide (x < NumericKind.single.bounds.1) ||
      decide (NumericKind.single.bounds.2 < x))) = true ↔
        ∃ q, Number.value? x = some q ∧ 0xffffff * 2 ^ 104 < |q| := by
  obtain ⟨low, high⟩ := NumericKind.value?_bounds_single
  simp only [Bool.and_eq_true, Bool.or_eq_true, decide_eq_true_eq, Number.isFinite_iff]
  constructor
  · rintro ⟨⟨q, denotes⟩, outside⟩
    rw [Number.lt_iff denotes low, Number.lt_iff high denotes] at outside
    exact ⟨q, denotes, lt_abs.2 (outside.symm.imp_right fun below => lt_neg.2 below)⟩
  · rintro ⟨q, denotes, larger⟩
    refine ⟨⟨q, denotes⟩, ?_⟩
    rw [Number.lt_iff denotes low, Number.lt_iff high denotes]
    exact (lt_abs.1 larger).symm.imp_left fun below => lt_neg.1 below

/-- What a number becomes: the word for it, what single precision rounds it to, or itself. -/
inductive Narrowed (x : Float) : NumericKind → Host.Value → Prop
  | word {kind : NumericKind} {i : Int} (denotes : Number.value? x = some (i : ℚ))
    (holds : kind.Holds i) : Narrowed x kind (kind.word i)
  | single : Narrowed x .single (.float (Number.roundToSingle x))
  | double : Narrowed x .double (.float x)

/-- A number is narrowed just if the kind admits it. -/
theorem narrow_cases (x : Float) (kind : NumericKind) :
    (kind.Admits x ∧ ∃ h, narrow x kind = .ok h ∧ Narrowed x kind h) ∨
      (¬ kind.Admits x ∧
        narrow x kind = .error (.conversion kind.name ("number " ++ Number.plain.text x))) := by
  unfold NumericKind.Admits
  by_cases integer : kind.isInteger = true
  · rw [if_pos integer]
    by_cases admits : ∃ i : Int, Number.value? x = some (i : ℚ) ∧ kind.Holds i
    · obtain ⟨i, denotes, holds⟩ := admits
      exact .inl ⟨⟨i, denotes, holds⟩, _, narrow_of_holds integer denotes holds,
        .word denotes holds⟩
    · exact .inr ⟨admits, narrow_refused integer admits⟩
  · rw [if_neg integer]
    cases kind with
    | single =>
      have test : narrow x .single = if (x.isFinite && (decide (x < NumericKind.single.bounds.1) ||
          decide (NumericKind.single.bounds.2 < x))) then
            .error (.conversion "Single" ("number " ++ Number.plain.text x))
          else .ok (.float (Number.roundToSingle x)) := rfl
      rw [test]
      split
      · rename_i exceeds
        obtain ⟨q, denotes, larger⟩ := exceeds_single_iff.1 exceeds
        exact .inr ⟨fun bounded => (bounded rfl q denotes).not_gt larger, rfl⟩
      · rename_i within
        refine .inl ⟨fun _ q denotes => le_of_not_gt fun larger => ?_, _, rfl, .single⟩
        exact within (exceeds_single_iff.2 ⟨q, denotes, larger⟩)
    | double => exact .inl ⟨nofun, _, rfl, .double⟩
    | _ => exact absurd rfl integer

theorem narrowed_of_narrow (narrowed : narrow x kind = .ok h) : Narrowed x kind h := by
  obtain ⟨-, h', became, cases'⟩ | ⟨-, refused⟩ := narrow_cases x kind
  · cases narrowed.symm.trans became
    exact cases'
  · cases narrowed.symm.trans refused

/-! ## Numbers where an integer kind is declared -/

/-- A number is converted to the word that holds a certain number. -/
def Takes (w : World Engine) (kind : NumericKind) (x : Float) (i : Int) : Prop :=
  Run.toHost (.number x) (.numeric kind) w = (.ok (kind.word i), w) ∧
    (kind.word i).integer? = some i

/-- A number is refused for what it is. -/
def Refuses (w : World Engine) (kind : NumericKind) (x : Float) : Prop :=
  Run.toHost (.number x) (.numeric kind) w =
    (.error (.failed (.conversion kind.name ("number " ++ Number.plain.text x))), w)

theorem toHost_number (w : World Engine) :
    Run.toHost (.number x) (.numeric kind) w =
      (Run.ofExcept (narrow x kind) : Run Bridge.Error Host.Value) w := rfl

/-- A number that is converted is converted to the word that holds it. -/
theorem converted_number {w v : World Engine} (integer : kind.isInteger = true)
    (converted : Run.toHost (.number x) (.numeric kind) w = (.ok h, v)) :
    v = w ∧ ∃ i : Int, Number.value? x = some (i : ℚ) ∧ kind.Holds i ∧ h = kind.word i := by
  rw [toHost_number] at converted
  obtain ⟨-, h', became, narrowed⟩ | ⟨-, refused⟩ := narrow_cases x kind
  · rw [became] at converted
    obtain ⟨value, rfl⟩ := Prod.mk.inj converted
    obtain rfl := Except.ok.inj value
    cases narrowed with
    | word denotes holds => exact ⟨rfl, _, denotes, holds, rfl⟩
    | single | double => cases integer
  · rw [refused] at converted
    cases (Prod.mk.inj converted).1

theorem takes_of_holds (w : World Engine) (integer : kind.isInteger = true)
    (denotes : Number.value? x = some (i : ℚ)) (holds : kind.Holds i) : Takes w kind x i := by
  refine ⟨?_, holds.integer?_word⟩
  rw [toHost_number, narrow_of_holds integer denotes holds]
  rfl

theorem refuses_of_beyond (w : World Engine) (integer : kind.isInteger = true)
    (beyond : ¬ ∃ i : Int, Number.value? x = some (i : ℚ) ∧ kind.Holds i) : Refuses w kind x := by
  unfold Refuses
  rw [toHost_number, narrow_refused integer beyond]
  rfl

/-- A whole number outside the range is refused. -/
theorem refuses_of_not_holds (w : World Engine) (integer : kind.isInteger = true)
    (denotes : Number.value? x = some (i : ℚ)) (beyond : ¬ kind.Holds i) : Refuses w kind x := by
  refine refuses_of_beyond w integer ?_
  rintro ⟨j, denotes', holds⟩
  rw [denotes, Option.some.injEq, Int.cast_inj] at denotes'
  exact beyond (denotes' ▸ holds)

/-- Exactly the whole numbers in the range of an integer kind are converted, each to the word that
holds it, and all others are refused. So the powers of two after the largest words are refused, while
the doubles next below them, the least signed word and both zeros are taken for what they are. -/
theorem narrows_exactly (integer : kind.isInteger = true) (w : World Engine) :
    (∀ x, (∃ h v, Run.toHost (.number x) (.numeric kind) w = (.ok h, v)) ↔
      ∃ i : Int, Number.value? x = some (i : ℚ) ∧ kind.Holds i) ∧
    (∀ x h v, Run.toHost (.number x) (.numeric kind) w = (.ok h, v) →
      ∃ i : Int, Number.value? x = some (i : ℚ) ∧ h = kind.word i ∧ Takes w kind x i) ∧
    (∀ x, (¬ ∃ i : Int, Number.value? x = some (i : ℚ) ∧ kind.Holds i) → Refuses w kind x) ∧
    (∀ x, Number.value? x = some 0 → Takes w kind x 0) ∧
    (kind = .int64 →
      (∀ x, Number.value? x = some (2 ^ 63) → Refuses w kind x) ∧
      (∀ x, Number.value? x = some (-2 ^ 63) → Takes w kind x (-2 ^ 63)) ∧
      IsGreatest {q : ℚ | q < 2 ^ 63 ∧ ∃ y, Number.value? y = some q} (2 ^ 63 - 2 ^ 10) ∧
      ∀ x, Number.value? x = some (2 ^ 63 - 2 ^ 10) → Takes w kind x (2 ^ 63 - 2 ^ 10)) ∧
    (kind = .uint64 →
      (∀ x, Number.value? x = some (2 ^ 64) → Refuses w kind x) ∧
      IsGreatest {q : ℚ | q < 2 ^ 64 ∧ ∃ y, Number.value? y = some q} (2 ^ 64 - 2 ^ 11) ∧
      ∀ x, Number.value? x = some (2 ^ 64 - 2 ^ 11) → Takes w kind x (2 ^ 64 - 2 ^ 11)) := by
  have whole : ∀ {x : Float} {q : ℚ} (i : Int), Number.value? x = some q → q = i →
      Number.value? x = some (i : ℚ) := by
    rintro x _ i denotes rfl
    exact denotes
  refine ⟨fun x => ⟨?_, ?_⟩, ?_, fun x => refuses_of_beyond w integer, ?_, ?_, ?_⟩
  · rintro ⟨h, v, converted⟩
    obtain ⟨-, i, denotes, holds, -⟩ := converted_number integer converted
    exact ⟨i, denotes, holds⟩
  · rintro ⟨i, denotes, holds⟩
    exact ⟨_, w, (takes_of_holds w integer denotes holds).1⟩
  · intro x h v converted
    obtain ⟨-, i, denotes, holds, rfl⟩ := converted_number integer converted
    exact ⟨i, denotes, rfl, takes_of_holds w integer denotes holds⟩
  · intro x denotes
    refine takes_of_holds w integer (whole 0 denotes Int.cast_zero.symm) ?_
    cases kind with
    | single | double => cases integer
    | _ => decide
  · rintro rfl
    have below : Number.wholeNumber? 9223372036854774784 = some (2 ^ 63 - 2 ^ 10) := by
      decide +kernel
    have greatest := Number.isGreatest_lt_two_pow (j := 63) (k := 10) rfl
      ((Number.wholeNumber?_eq_some_iff.1 below).trans (by norm_num))
    refine ⟨fun x denotes => ?_, fun x denotes => ?_, greatest,
      fun x denotes => ?_⟩
    · exact refuses_of_not_holds w rfl (whole (2 ^ 63) denotes (by norm_num)) (by decide)
    · exact takes_of_holds w rfl (whole (-2 ^ 63) denotes (by norm_num)) (by decide)
    · exact takes_of_holds w rfl (whole (2 ^ 63 - 2 ^ 10) denotes (by norm_num)) (by decide)
  · rintro rfl
    have below : Number.wholeNumber? 18446744073709549568 = some (2 ^ 64 - 2 ^ 11) := by
      decide +kernel
    have greatest := Number.isGreatest_lt_two_pow (j := 64) (k := 11) rfl
      ((Number.wholeNumber?_eq_some_iff.1 below).trans (by norm_num))
    refine ⟨fun x denotes => ?_, greatest, fun x denotes => ?_⟩
    · exact refuses_of_not_holds w rfl (whole (2 ^ 64) denotes (by norm_num)) (by decide)
    · exact takes_of_holds w rfl (whole (2 ^ 64 - 2 ^ 11) denotes (by norm_num)) (by decide)

/-- Of the two ends of the signed words one is taken and one refused; a negative zero is zero. -/
theorem narrows_exactly_ends :
    let w : World Engine := ⟨{}, #[], [], .ofOptions {}⟩
    NumericKind.int64.isInteger = true ∧ Takes w .int64 (-9223372036854775808) (-2 ^ 63) ∧
      Refuses w .int64 9223372036854775808 ∧ Takes w .int64 (-0) 0 := by
  intro w
  have least : Number.wholeNumber? (-9223372036854775808) = some (-2 ^ 63) := by decide +kernel
  have most : Number.wholeNumber? 9223372036854775808 = some (2 ^ 63) := by decide +kernel
  have zero : Number.wholeNumber? (-0) = some 0 := by decide +kernel
  obtain ⟨-, -, -, zeros, ends, -⟩ := @narrows_exactly .int64 rfl w
  obtain ⟨refused, taken, -, -⟩ := ends rfl
  refine ⟨rfl, taken _ ?_, refused _ ?_, zeros _ ?_⟩
  · exact (Number.wholeNumber?_eq_some_iff.1 least).trans (by norm_num)
  · exact (Number.wholeNumber?_eq_some_iff.1 most).trans (by norm_num)
  · exact (Number.wholeNumber?_eq_some_iff.1 zero).trans (by norm_num)

end ScriptHost

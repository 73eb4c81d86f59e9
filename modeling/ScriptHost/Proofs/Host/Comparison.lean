import ScriptHost.Proofs.Host.Instructions
import ScriptHost.Proofs.Host.Numbers
/-!
Words in comparisons. They are ordered as the doubles next to them, and so are words of different
kinds when they are asked to be equal, while words of one kind are equal just if they hold the same
number. Up to `2 ^ 53` every number has a double of its own; beyond, neighbours may share one, and
of two of these none is less, though they may be unequal.
-/
namespace ScriptHost.Host

variable {a b : Value} {m n : Int} {lt eq gt : Bool}

theorem yields_clt (first : a.integer? = some m) (second : b.integer? = some n) :
    Yields .clt a b (.bool (Number.nearest m < Number.nearest n)) := by
  obtain ⟨x, left, denotes⟩ := Value.asFloat?_of_integer? first
  obtain ⟨y, right, denotes'⟩ := Value.asFloat?_of_integer? second
  intro ε method this pc stack locals args w
  have same : x < y ↔ Number.nearest m < Number.nearest n := by
    rw [Number.lt_iff denotes denotes', Int.cast_lt]
  rw [perform_clt left right, decide_eq_decide.2 same]

/-- Whether two words are both signed or both unsigned. -/
def Value.alike : Value → Value → Bool
  | .int _, .int _ | .uint _, .uint _ => true
  | _, _ => false

/-- When words that hold `m` and `n` are found equal. -/
def Value.EqualBy (a b : Value) (m n : Int) : Prop :=
  if a.alike b then m = n else Number.nearest m = Number.nearest n

instance (a b : Value) (m n : Int) : Decidable (a.EqualBy b m n) :=
  inferInstanceAs (Decidable (ite _ _ _))

theorem equals_iff (first : a.integer? = some m) (second : b.integer? = some n) :
    a.equals b = true ↔ a.EqualBy b m n := by
  obtain ⟨x, left, denotes⟩ := Value.asFloat?_of_integer? first
  obtain ⟨y, right, denotes'⟩ := Value.asFloat?_of_integer? second
  have mixed : (x == y) = true ↔ Number.nearest m = Number.nearest n := by
    rw [Number.beq_iff denotes denotes', Int.cast_inj]
  cases a with
  | int i =>
    cases b with
    | int j =>
      cases first
      cases second
      exact beq_iff_eq.trans Int64.toInt_inj.symm
    | uint u =>
      cases left
      cases right
      exact mixed
    | _ => cases second
  | uint u =>
    cases b with
    | int j =>
      cases left
      cases right
      exact mixed
    | uint t =>
      cases first
      cases second
      exact beq_iff_eq.trans (UInt64.toNat_inj.symm.trans Int.ofNat_inj.symm)
    | _ => cases second
  | _ => cases first

theorem yields_ceq (first : a.integer? = some m) (second : b.integer? = some n) :
    Yields .ceq a b (.bool (a.EqualBy b m n)) := by
  intro ε method this pc stack locals args w
  have same : a.equals b = decide (a.EqualBy b m n) :=
    Bool.eq_iff_iff.2 ((equals_iff first second).trans decide_eq_true_iff.symm)
  rw [perform_ceq, same]

/-- The three comparisons of two words, by the numbers that they hold. -/
structure Compares (a b : Value) (m n : Int) (lt eq gt : Bool) : Prop where
  clt : Yields .clt a b (.bool lt)
  ceq : Yields .ceq a b (.bool eq)
  cgt : Yields .clt b a (.bool gt)
  less : lt = true ↔ Number.nearest m < Number.nearest n
  equal : eq = true ↔ a.EqualBy b m n
  greater : gt = true ↔ Number.nearest n < Number.nearest m

theorem compares (first : a.integer? = some m) (second : b.integer? = some n) :
    Compares a b m n (Number.nearest m < Number.nearest n) (a.EqualBy b m n)
      (Number.nearest n < Number.nearest m) :=
  ⟨yields_clt first second, yields_ceq first second, yields_clt second first, decide_eq_true_iff,
    decide_eq_true_iff, decide_eq_true_iff⟩

namespace Compares

/-- A word is found less only if its number is, and words that hold one number are found equal. -/
theorem sound (compares : Compares a b m n lt eq gt) :
    (lt = true → m < n) ∧ (m = n → eq = true) ∧ (gt = true → n < m) := by
  refine ⟨fun less => ?_, ?_, fun greater => ?_⟩
  · exact Number.lt_of_nearest_lt (compares.less.1 less)
  · rintro rfl
    refine compares.equal.2 ?_
    unfold Value.EqualBy
    split <;> rfl
  · exact Number.lt_of_nearest_lt (compares.greater.1 greater)

/-- Numbers with doubles of their own are told apart as they are ordered, so that just the right one
of the comparisons holds. -/
theorem right_of_apart (compares : Compares a b m n lt eq gt)
    (apart : m = n ∨ Number.nearest m ≠ Number.nearest n) :
    (lt = true ↔ m < n) ∧ (eq = true ↔ m = n) ∧ (gt = true ↔ n < m) := by
  have mono := @Number.nearest_mono m n
  have mono' := @Number.nearest_mono n m
  rw [compares.less, compares.equal, compares.greater]
  unfold Value.EqualBy
  rcases apart with rfl | apart
  · exact ⟨by omega, by split <;> exact iff_of_true rfl rfl, by omega⟩
  · refine ⟨by omega, ?_, by omega⟩
    have unequal : m ≠ n := fun same => apart (congrArg Number.nearest same)
    split
    · exact Iff.rfl
    · exact ⟨fun same => absurd same apart, fun same => absurd same unequal⟩

/-- Different numbers that share a double are in no order, and are found equal just if the words are
of different kinds. -/
theorem confused (compares : Compares a b m n lt eq gt) (unequal : m ≠ n)
    (shared : Number.nearest m = Number.nearest n) :
    lt = false ∧ gt = false ∧ eq = !a.alike b := by
  refine ⟨?_, ?_, ?_⟩
  · exact Bool.eq_false_iff.2 fun less => absurd (compares.less.1 less) shared.not_lt
  · exact Bool.eq_false_iff.2 fun greater => absurd (compares.greater.1 greater) shared.not_gt
  · have equal := compares.equal
    unfold Value.EqualBy at equal
    cases kinds : a.alike b with
    | false =>
      rw [kinds, if_neg nofun] at equal
      exact equal.2 shared
    | true =>
      rw [kinds, if_pos rfl] at equal
      exact Bool.eq_false_iff.2 fun same => unequal (equal.1 same)

/-- Just the right one of the comparisons holds if and only if the numbers are the same or have
doubles of their own. -/
theorem right_iff (compares : Compares a b m n lt eq gt) :
    ((lt = true ↔ m < n) ∧ (eq = true ↔ m = n) ∧ (gt = true ↔ n < m)) ↔
      m = n ∨ Number.nearest m ≠ Number.nearest n := by
  refine ⟨fun ⟨less, _, greater⟩ => ?_, compares.right_of_apart⟩
  by_contra shared
  rw [not_or, not_not] at shared
  obtain ⟨notLess, notGreater, -⟩ := compares.confused shared.1 shared.2
  rw [notLess] at less
  rw [notGreater] at greater
  have unequal := shared.1
  simp only [Bool.false_eq_true, false_iff, not_lt] at less greater
  omega

end Compares

/-- Up to `2 ^ 53` no two numbers share a double. -/
theorem apart_of_abs_le (small : |m| ≤ 2 ^ 53) (small' : |n| ≤ 2 ^ 53) :
    m = n ∨ Number.nearest m ≠ Number.nearest n := by
  rw [Number.nearest_of_abs_le small, Number.nearest_of_abs_le small']
  exact em (m = n)

end ScriptHost.Host

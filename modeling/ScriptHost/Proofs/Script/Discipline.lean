import ScriptHost.Script.State
/-!
What computations may do to the stack and the frames of scripts: nothing at all, or something within
their own frame. One that breaks off may leave frames of its own behind.
-/
namespace ScriptHost.Script.State

variable {s t u : State} {p q : Nat}

/-- The values of the current frame start on the stack. -/
def Fits (s : State) : Prop :=
  s.base ≤ s.stack.size

/-- Two stacks agree up to a position. -/
def Shares (p : Nat) (s t : State) : Prop :=
  p ≤ t.stack.size ∧ t.stack.take p = s.stack.take p

namespace Shares

theorem refl (inside : p ≤ s.stack.size) : Shares p s s :=
  ⟨inside, rfl⟩

theorem trans (first : Shares p s t) (second : Shares p t u) : Shares p s u :=
  ⟨second.1, second.2.trans first.2⟩

theorem mono (shares : Shares p s t) (less : q ≤ p) : Shares q s t := by
  refine ⟨Nat.le_trans less shares.1, ?_⟩
  have cut := congrArg (·.take q) shares.2
  simpa [Array.take_eq_extract, Array.extract_extract, Nat.min_eq_left less] using cut

/-- A stack that only grew still has what it had. -/
theorem of_append {more : Array Value} (grown : t.stack = s.stack ++ more)
    (inside : p ≤ s.stack.size) : Shares p s t := by
  refine ⟨?_, ?_⟩
  · rw [grown, Array.size_append]
    exact Nat.le_add_right_of_le inside
  · rw [grown]
    simp [Array.take_eq_extract, Array.extract_append, Nat.sub_eq_zero_of_le inside]

/-- What is cut off above a position is not missed below it. -/
theorem of_take (cut : t.stack = s.stack.take q) (inside : p ≤ s.stack.size) (kept : p ≤ q) :
    Shares p s t := by
  refine ⟨?_, ?_⟩
  · rw [cut, Array.take_eq_extract, Array.size_extract]
    omega
  · rw [cut]
    simp [Array.take_eq_extract, Array.extract_extract, Nat.min_eq_left kept]

end Shares

/-- What is left of a computation that broke off: perhaps frames of its own, and nothing that was
below the frame that it ran in is touched. -/
structure Abandoned (s t : State) : Prop where
  frames : ∃ inner, t.frames = inner ++ s.frames
  shares : Shares s.base s t
  fits : t.Fits

end State

/-- What a computation may do to stack and frames. -/
inductive Discipline
  /-- Nothing. -/
  | still
  /-- Anything to the values of the current frame. -/
  | framed

namespace Discipline

open State

variable {s t u : State}

/-- What a computation that does not break off may leave behind. -/
def Allows : Discipline → State → State → Prop
  | .still, s, t => t.stack = s.stack ∧ t.frames = s.frames
  | .framed, s, t => t.frames = s.frames ∧ Shares s.base s t

/-- What a computation may leave behind, given whether it broke off. -/
def Ends (d : Discipline) (broke : Bool) (s t : State) : Prop :=
  if broke then Abandoned s t else d.Allows s t

theorem base_eq (same : t.frames = s.frames) : t.base = s.base := by
  unfold base
  rw [same]

variable {d : Discipline}

theorem Allows.frames (allows : d.Allows s t) : t.frames = s.frames := by
  cases d with
  | still => exact allows.2
  | framed => exact allows.1

theorem Allows.shares (allows : d.Allows s t) (fits : s.Fits) : Shares s.base s t := by
  cases d with
  | still =>
    obtain ⟨stack, _⟩ := allows
    refine ⟨?_, by rw [stack]⟩
    rw [stack]
    exact fits
  | framed => exact allows.2

theorem Allows.fits (allows : d.Allows s t) (fits : s.Fits) : t.Fits := by
  unfold Fits
  rw [base_eq allows.frames]
  exact (allows.shares fits).1

theorem Allows.framed (allows : d.Allows s t) (fits : s.Fits) : Discipline.framed.Allows s t :=
  ⟨allows.frames, allows.shares fits⟩

theorem Allows.of_still (allows : Discipline.still.Allows s t) (fits : s.Fits) : d.Allows s t := by
  cases d with
  | still => exact allows
  | framed => exact allows.framed fits

theorem Allows.trans (first : d.Allows s t) (second : d.Allows t u) : d.Allows s u := by
  cases d with
  | still => exact ⟨second.1.trans first.1, second.2.trans first.2⟩
  | framed =>
    have shares := second.2
    rw [base_eq first.1] at shares
    exact ⟨second.1.trans first.1, first.2.trans shares⟩

theorem Allows.refl (fits : s.Fits) : d.Allows s s := by
  cases d with
  | still => exact ⟨rfl, rfl⟩
  | framed => exact ⟨rfl, .refl fits⟩

/-- A computation that breaks off after one that did not. -/
theorem Allows.abandoned (first : d.Allows s t) (fits : s.Fits) (second : Abandoned t u) :
    Abandoned s u := by
  obtain ⟨inner, frames⟩ := second.frames
  have shares := second.shares
  rw [base_eq first.frames] at shares
  exact ⟨⟨inner, by rw [frames, first.frames]⟩, (first.shares fits).trans shares, second.fits⟩

theorem Allows.given_up (allows : d.Allows s t) (fits : s.Fits) : Abandoned s t :=
  ⟨⟨[], by rw [allows.frames, List.nil_append]⟩, allows.shares fits, allows.fits fits⟩

theorem Allows.then (first : d.Allows s t) (fits : s.Fits) {broke : Bool}
    (second : d.Ends broke t u) : d.Ends broke s u := by
  cases broke with
  | false => exact first.trans second
  | true => exact first.abandoned fits second

theorem Ends.fits {broke : Bool} (ends : d.Ends broke s t) (fits : s.Fits) : t.Fits := by
  cases broke with
  | false => exact Allows.fits ends fits
  | true => exact State.Abandoned.fits ends

theorem Ends.of_still {broke : Bool} (ends : Discipline.still.Ends broke s t) (fits : s.Fits) :
    d.Ends broke s t := by
  cases broke with
  | false => exact Allows.of_still ends fits
  | true => exact ends

/-- Only stack and frames matter. -/
theorem Ends.congr {broke : Bool} (ends : d.Ends broke s t) (stack : u.stack = t.stack)
    (frames : u.frames = t.frames) : d.Ends broke s u := by
  cases broke with
  | false =>
    cases d with
    | still => exact ⟨stack.trans ends.1, frames.trans ends.2⟩
    | framed =>
      obtain ⟨same, inside, shared⟩ := (ends : framed.Allows s t)
      refine ⟨frames.trans same, ?_, ?_⟩ <;> rwa [stack]
  | true =>
    obtain ⟨⟨inner, same⟩, ⟨inside, shared⟩, fits⟩ := (ends : Abandoned s t)
    refine ⟨⟨inner, frames.trans same⟩, ⟨?_, ?_⟩, ?_⟩
    · rwa [stack]
    · rwa [stack]
    · unfold Fits
      rw [base_eq frames, stack]
      exact fits

/-- Nothing is wrong with going back to the depth of the stack at the start, as far as the frame that
is left behind allows it. -/
theorem Ends.restored {broke : Bool} (ends : d.Ends broke s t) (start : s.Fits)
    (stack : u.stack = t.stack.take (max s.stack.size t.base)) (frames : u.frames = t.frames) :
    d.Ends broke s u := by
  have kept : Shares s.base s t → Shares s.base s u := fun shares =>
    shares.trans (.of_take stack shares.1 (Nat.le_trans start (Nat.le_max_left ..)))
  cases broke with
  | true =>
    obtain ⟨⟨inner, inner'⟩, shares, fits⟩ : Abandoned s t := ends
    refine ⟨⟨inner, frames.trans inner'⟩, kept shares, ?_⟩
    unfold Fits at fits ⊢
    rw [base_eq frames, stack, Array.take_eq_extract, Array.size_extract]
    omega
  | false =>
    have allows : d.Allows s t := ends
    cases d with
    | framed => exact ⟨frames.trans allows.1, kept allows.2⟩
    | still =>
      refine ⟨?_, frames.trans allows.2⟩
      rw [stack, base_eq allows.2, allows.1, Nat.max_eq_left start, Array.take_eq_extract,
        Array.extract_size]

/-- Changes to neither stack nor frames are allowed. -/
theorem Allows.of_eq (stack : t.stack = s.stack) (frames : t.frames = s.frames) (fits : s.Fits) :
    d.Allows s t :=
  Allows.of_still ⟨stack, frames⟩ fits

end Discipline

end ScriptHost.Script

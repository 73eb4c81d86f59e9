import Mathlib.Data.List.Basic
import ScriptHost.Bridge.MethodKey
/-!
The text of a question for a method tells the question. The name of the type ends at the first colon,
the letter of the way of calling stands behind the last number sign, and commas part the kinds.
-/
namespace ScriptHost.Bridge

open Script (Tag)

/-! ## Cutting lists at a mark -/

section

variable {α : Type} {mark : α} {xs ys s t : List α}

/-- What stands before the first mark, and what stands behind it. -/
theorem eq_of_append_mark (before : mark ∉ xs) (before' : mark ∉ ys)
    (same : xs ++ mark :: s = ys ++ mark :: t) : xs = ys ∧ s = t := by
  induction xs generalizing ys with
  | nil =>
    cases ys with
    | nil => exact ⟨rfl, (List.cons.inj same).2⟩
    | cons y ys =>
      obtain ⟨rfl, _⟩ := List.cons.inj same
      exact (before' List.mem_cons_self).elim
  | cons x xs ih =>
    cases ys with
    | nil =>
      obtain ⟨rfl, _⟩ := List.cons.inj same
      exact (before List.mem_cons_self).elim
    | cons y ys =>
      obtain ⟨rfl, rest⟩ := List.cons.inj same
      rw [List.mem_cons, not_or] at before before'
      obtain ⟨rfl, rfl⟩ := ih before.2 before'.2 rest
      exact ⟨rfl, rfl⟩

/-- What stands before the last mark, and what stands behind it. -/
theorem eq_of_mark_append (behind : mark ∉ s) (behind' : mark ∉ t)
    (same : xs ++ mark :: s = ys ++ mark :: t) : xs = ys ∧ s = t := by
  have turned := congrArg List.reverse same
  simp only [List.reverse_append, List.reverse_cons, List.append_assoc, List.singleton_append]
    at turned
  obtain ⟨rest, first⟩ := eq_of_append_mark (by rwa [List.mem_reverse]) (by rwa [List.mem_reverse])
    turned
  exact ⟨List.reverse_injective first, List.reverse_injective rest⟩

end

/-! ## Kinds -/

namespace MethodKey

/-- The text of the kinds of arguments. -/
def tagsText (tags : List Tag) : List Char :=
  [','].intercalate (tags.map (·.name.toList))

theorem name_injective : Function.Injective fun tag : Tag => tag.name.toList := by
  intro a b same
  cases a <;> cases b <;> first | rfl | exact absurd same (by decide)

/-- No name of a kind has a character that parts names, or none at all. -/
theorem plain_name (tag : Tag) :
    ',' ∉ tag.name.toList ∧ '#' ∉ tag.name.toList ∧ tag.name.toList ≠ [] := by
  cases tag <;> decide

theorem tagsText_injective : Function.Injective tagsText := by
  intro a b same
  have named : ∀ tags : List Tag, ∀ name ∈ tags.map (·.name.toList), ',' ∉ name := by
    intro tags name member
    obtain ⟨tag, _, rfl⟩ := List.mem_map.1 member
    exact (plain_name tag).1
  have empty : ∀ {tag : Tag} {tags : List Tag}, tagsText (tag :: tags) ≠ [] := by
    intro tag tags none
    cases tags with
    | nil => exact (plain_name tag).2.2 (by simpa [tagsText] using none)
    | cons other tags => simp [tagsText, List.intercalate] at none
  cases a with
  | nil =>
    cases b with
    | nil => rfl
    | cons tag tags => exact (empty same.symm).elim
  | cons first others =>
    cases b with
    | nil => exact (empty same).elim
    | cons tag tags =>
      have parted := congrArg (List.splitOn ',') same
      unfold tagsText at parted
      rw [List.splitOn_intercalate _ (named _) (by simp),
        List.splitOn_intercalate _ (named _) (by simp)] at parted
      exact List.map_injective_iff.2 name_injective parted

theorem not_mem_tagsText (tags : List Tag) : '#' ∉ tagsText tags := by
  induction tags with
  | nil => simp [tagsText]
  | cons tag tags ih =>
    have plain := (plain_name tag).2.1
    cases tags with
    | nil => simpa [tagsText] using plain
    | cons other tags =>
      unfold tagsText at ih ⊢
      rw [List.map_cons, List.map_cons, List.intercalate_cons_cons]
      simp only [List.mem_append, List.mem_singleton, not_or]
      exact ⟨⟨plain, by decide⟩, ih⟩

/-! ## Questions -/

/-- The characters of a question, cut where it is read back. -/
theorem toList_text (k : MethodKey) :
    k.text.toList = k.declaring.toList ++ ':' :: ':' :: k.member.toList ++
      '#' :: (k.shape.letter.toList ++ '(' :: tagsText k.tags ++ [')']) := by
  unfold text tagsText
  simp [List.map_map, Function.comp_def]

/-- The letter of a way of calling tells it. -/
theorem letter_cases (shape : CallShape) : ∃ c, shape.letter.toList = [c] ∧ c ≠ '#' := by
  cases shape
  · exact ⟨'c', rfl, by decide⟩
  · exact ⟨'s', rfl, by decide⟩
  · exact ⟨'i', rfl, by decide⟩

theorem letter_injective : Function.Injective fun shape : CallShape => shape.letter.toList := by
  intro a b same
  cases a <;> cases b <;> first | rfl | exact absurd same (by decide)

/-- A text tells the way of calling and the kinds, and a type and a member as one name. -/
theorem qualified_of_text {k l : MethodKey} (same : k.text = l.text) :
    k.declaring.toList ++ ':' :: ':' :: k.member.toList =
        l.declaring.toList ++ ':' :: ':' :: l.member.toList ∧
      k.shape = l.shape ∧ k.tags = l.tags := by
  have chars := congrArg String.toList same
  rw [toList_text, toList_text] at chars
  obtain ⟨letter, isLetter, notMark⟩ := letter_cases k.shape
  obtain ⟨letter', isLetter', notMark'⟩ := letter_cases l.shape
  have behind : ∀ {c : Char} (tags : List Tag), c ≠ '#' →
      '#' ∉ [c] ++ '(' :: (tagsText tags ++ [')']) := by
    intro c tags other
    simp [other.symm, not_mem_tagsText]
  rw [isLetter, isLetter'] at chars
  simp only [List.append_assoc, List.cons_append, List.nil_append] at chars behind
  obtain ⟨qualified, last⟩ := @eq_of_mark_append _ _ (k.declaring.toList ++ _ :: _ :: _)
    (l.declaring.toList ++ _ :: _ :: _) _ _ (behind k.tags notMark) (behind l.tags notMark')
    (by simpa only [List.append_assoc, List.cons_append] using chars)
  simp only [List.cons.injEq, List.append_left_inj, true_and] at last
  obtain ⟨rfl, kinds⟩ := last
  exact ⟨qualified, letter_injective (isLetter.trans isLetter'.symm), tagsText_injective kinds⟩

/-- Questions with one text are one question, if the names of their types are free of colons. -/
theorem eq_of_text {k l : MethodKey} (plain : ':' ∉ k.declaring.toList)
    (plain' : ':' ∉ l.declaring.toList) (same : k.text = l.text) : k = l := by
  obtain ⟨qualified, shapes, kinds⟩ := qualified_of_text same
  obtain ⟨types, members⟩ := eq_of_append_mark plain plain' qualified
  obtain ⟨declaring, member, shape, tags⟩ := k
  obtain ⟨declaring', member', shape', tags'⟩ := l
  obtain rfl := String.toList_injective types
  obtain rfl := String.toList_injective (List.cons.inj members).2
  obtain rfl : shape = shape' := shapes
  obtain rfl : tags = tags' := kinds
  rfl

end MethodKey

end ScriptHost.Bridge

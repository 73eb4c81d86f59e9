import Mathlib.Data.List.Nodup
import ScriptHost.Table
/-!
Tables in which each key stands once: what they hold is what is found in them.
-/
namespace ScriptHost.Table

variable {κ α : Type} [DecidableEq κ] {t : Table κ α} {key other : κ} {a b : α}

theorem lookup_cons_eq (k : κ) (b : α) (entries : List (κ × α)) (other : κ) :
    ((k, b) :: entries).lookup other = if other = k then some b else entries.lookup other := by
  rw [List.lookup_cons]
  by_cases same : other = k
  · simp [same]
  · have apart : (other == k) = false := by simpa using same
    rw [apart, if_neg same]

/-- What entries with distinct keys say about one of them. -/
theorem lookup_of_mem {entries : List (κ × α)} (distinct : (entries.map (·.1)).Nodup)
    (member : (key, a) ∈ entries) : entries.lookup key = some a := by
  induction entries with
  | nil => cases member
  | cons entry rest ih =>
    obtain ⟨k, b⟩ := entry
    rw [List.map_cons, List.nodup_cons] at distinct
    rw [lookup_cons_eq]
    rcases List.mem_cons.1 member with same | later
    · cases same
      exact if_pos rfl
    · rw [if_neg]
      · exact ih distinct.2 later
      · rintro rfl
        exact distinct.1 (List.mem_map.2 ⟨_, later, rfl⟩)

/-- Putting another value in the place of that of a key. -/
theorem lookup_replaced (entries : List (κ × α)) (key : κ) (a : α) (other : κ) :
    (entries.map fun e => if e.1 = key then (key, a) else e).lookup other =
      if other = key then (entries.lookup key).map fun _ => a else entries.lookup other := by
  induction entries with
  | nil => simp
  | cons e rest ih =>
    obtain ⟨k, b⟩ := e
    rw [List.map_cons]
    dsimp only
    by_cases first : k = key
    · subst first
      rw [if_pos rfl, lookup_cons_eq, lookup_cons_eq, lookup_cons_eq, if_pos rfl, ih]
      by_cases same : other = k <;> simp [same]
    · rw [if_neg first, lookup_cons_eq, lookup_cons_eq, lookup_cons_eq, ih,
        if_neg (Ne.symm first)]
      by_cases same : other = key
      · subst same
        rw [if_neg (Ne.symm first), if_pos rfl, if_pos rfl]
      · rw [if_neg same, if_neg same]

theorem find?_insert (t : Table κ α) (key : κ) (a : α) (other : κ) :
    (t.insert key a).find? other = if other = key then some a else t.find? other := by
  unfold insert contains
  split
  · rename_i present
    obtain ⟨b, found⟩ := Option.isSome_iff_exists.1 present
    unfold find? at found ⊢
    dsimp only
    rw [lookup_replaced, found]
    rfl
  · rename_i absent
    have new : t.find? key = none := by simpa using absent
    unfold find? at new ⊢
    dsimp only
    rw [List.lookup_append, lookup_cons_eq]
    by_cases same : other = key
    · subst same
      rw [new, if_pos rfl, if_pos rfl]
      rfl
    · rw [if_neg same, if_neg same]
      simp

theorem find?_insert_self (t : Table κ α) (key : κ) (a : α) :
    (t.insert key a).find? key = some a := by
  rw [find?_insert, if_pos rfl]

/-- Nothing is found in an empty table. -/
theorem find?_of_isEmpty (empty : t.isEmpty = true) (key : κ) : t.find? key = none := by
  unfold find?
  rw [List.isEmpty_iff.1 empty]
  rfl

theorem find?_erase (t : Table κ α) (key other : κ) :
    (t.erase key).find? other = if other = key then none else t.find? other := by
  unfold erase find?
  dsimp only
  induction t.entries with
  | nil => simp
  | cons e rest ih =>
    obtain ⟨k, c⟩ := e
    rw [lookup_cons_eq]
    by_cases gone : k = key
    · subst gone
      rw [List.filter_cons_of_neg (by simp), ih]
      by_cases same : other = k <;> simp [same]
    · rw [List.filter_cons_of_pos (by simpa using gone), lookup_cons_eq, ih]
      by_cases same : other = k
      · subst same
        simp [gone]
      · rw [if_neg same, if_neg same]

omit [DecidableEq κ] in
theorem nodup_empty : (({} : Table κ α)).keys.Nodup :=
  List.nodup_nil

/-- Inserting keeps each key in its one place. -/
theorem nodup_insert (nodup : t.keys.Nodup) (key : κ) (a : α) : (t.insert key a).keys.Nodup := by
  unfold insert
  split
  · have same : keys ⟨t.entries.map fun e => if e.1 = key then (key, a) else e⟩ = t.keys := by
      unfold keys
      rw [List.map_map]
      refine List.map_congr_left fun e _ => ?_
      by_cases equal : e.1 = key <;> simp [equal]
    rwa [same]
  · rename_i absent
    have new : t.find? key = none := by simpa [contains] using absent
    have apart : ∀ e ∈ t.entries, e.1 ≠ key := fun e member same => by
      have other := List.lookup_eq_none_iff.1 new e member
      simp [same] at other
    unfold keys
    rw [List.map_append, List.nodup_append]
    refine ⟨nodup, List.nodup_singleton _, fun k member l last => ?_⟩
    obtain ⟨e, inside, rfl⟩ := List.mem_map.1 member
    rw [List.map_singleton, List.mem_singleton] at last
    rw [last]
    exact apart e inside

theorem nodup_erase (nodup : t.keys.Nodup) (key : κ) : (t.erase key).keys.Nodup :=
  nodup.sublist (List.filter_sublist.map _)

/-- What a table holds is what is found under a key. -/
theorem mem_values_iff (nodup : t.keys.Nodup) : a ∈ t.values ↔ ∃ key, t.find? key = some a := by
  obtain ⟨entries⟩ := t
  unfold values keys find? at *
  dsimp only at *
  induction entries with
  | nil => simp
  | cons e rest ih =>
    obtain ⟨k, c⟩ := e
    rw [List.map_cons, List.nodup_cons] at nodup
    rw [List.map_cons, List.mem_cons, ih nodup.2]
    constructor
    · rintro (rfl | ⟨key, found⟩)
      · exact ⟨k, by rw [lookup_cons_eq, if_pos rfl]⟩
      · refine ⟨key, ?_⟩
        rw [lookup_cons_eq, if_neg, found]
        rintro rfl
        obtain ⟨before, after, split, _⟩ := List.lookup_eq_some_iff.1 found
        exact nodup.1 (List.mem_map.2 ⟨(key, a), by rw [split]; simp, rfl⟩)
    · rintro ⟨key, found⟩
      rw [lookup_cons_eq] at found
      split at found
      · exact .inl (Option.some.inj found).symm
      · exact .inr ⟨key, found⟩

theorem mem_values_of_find? (found : t.find? key = some a) : a ∈ t.values := by
  obtain ⟨before, after, split, _⟩ := List.lookup_eq_some_iff.1 found
  unfold values
  rw [split]
  simp

/-- What an insertion leaves in a table. -/
theorem mem_values_insert (nodup : t.keys.Nodup) (key : κ) (a : α) :
    (∀ b ∈ (t.insert key a).values, b = a ∨ b ∈ t.values) ∧ a ∈ (t.insert key a).values ∧
      ∀ b ∈ t.values, b ∈ (t.insert key a).values ∨ t.find? key = some b := by
  have inserted := nodup_insert nodup key a
  refine ⟨fun b member => ?_, ?_, fun b member => ?_⟩
  · obtain ⟨k, found⟩ := (mem_values_iff inserted).1 member
    rw [find?_insert] at found
    split at found
    · exact .inl (Option.some.inj found).symm
    · exact .inr (mem_values_of_find? found)
  · exact mem_values_of_find? (find?_insert_self t key a)
  · obtain ⟨k, found⟩ := (mem_values_iff nodup).1 member
    by_cases same : k = key
    · exact .inr (same ▸ found)
    · have kept : (t.insert key a).find? k = some b := by rw [find?_insert, if_neg same, found]
      exact .inl (mem_values_of_find? kept)

/-- What an erasure leaves in a table. -/
theorem mem_values_erase (nodup : t.keys.Nodup) (key : κ) :
    (∀ b ∈ (t.erase key).values, b ∈ t.values) ∧
      ∀ b ∈ t.values, b ∈ (t.erase key).values ∨ t.find? key = some b := by
  refine ⟨fun b member => ?_, fun b member => ?_⟩
  · exact (List.filter_sublist.map _).subset member
  · obtain ⟨k, found⟩ := (mem_values_iff nodup).1 member
    by_cases same : k = key
    · exact .inr (same ▸ found)
    · have kept : (t.erase key).find? k = some b := by rw [find?_erase, if_neg same, found]
      exact .inl (mem_values_of_find? kept)

end ScriptHost.Table

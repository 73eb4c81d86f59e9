import ScriptHost.Proofs.Json.Records
import ScriptHost.Proofs.Results
/-!
Levels. More of them never make a reader refuse what it took, and what was read nests no deeper when
it is written than there were levels to read it.
-/
namespace ScriptHost.Json

open Results (exists_of_forall₂)

variable {α : Type}

/-- A reader and a writer that count levels alike, as long as the reader has at least some levels
for parts that are left out. -/
structure Levelled (read : Nat → Json → Option α) (write : α → Json) (least : Nat) : Prop where
  mono : ∀ {levels more : Nat} {j : Json} {a : α}, levels ≤ more → read levels j = some a →
    read more j = some a
  fits : ∀ {levels : Nat} {j : Json} {a : α}, least ≤ levels → read levels j = some a →
    (write a).depth ≤ levels

/-- What a reader takes within any levels is what it reads back from its own text. -/
theorem Levelled.eq_of_codes {read : Nat → Json → Option α} {write : α → Json} {least levels : Nat}
    {j : Json} {a b : α} (levelled : Levelled read write least) (codes : Codes read j a)
    (found : read levels j = some b) : a = b := by
  have more := levelled.mono (Nat.le_max_left levels j.depth) found
  rw [codes.back _ (Nat.le_max_right levels j.depth)] at more
  exact Option.some.inj more

/-! ## Parts -/

theorem enter_eq_some_iff {levels inner : Nat} :
    enter levels = some inner ↔ levels = inner + 1 := by
  cases levels with
  | zero => simp [enter]
  | succ n => simp [enter]

/-- An alternative is a name, or an object of one member. -/
theorem variant?_eq_some_iff {levels : Nat} {j : Json} {name : String}
    {payload : Option (Nat × Json)} : variant? levels j = some (name, payload) ↔
      j = .text (some name) ∧ payload = none ∨
        ∃ inner value, j = .object [(some name, value)] ∧ levels = inner + 1 ∧
          payload = some (inner, value) := by
  constructor
  · intro found
    unfold variant? at found
    split at found
    · cases found
      exact .inl ⟨rfl, rfl⟩
    · rename_i own value
      cases levels with
      | zero => cases found
      | succ inner =>
        cases found
        exact .inr ⟨inner, value, rfl, rfl, rfl⟩
    · cases found
  · rintro (⟨rfl, rfl⟩ | ⟨inner, value, rfl, rfl, rfl⟩) <;> rfl

theorem levelled_plainVariant (table : List (String × α)) {write : α → Json}
    (flat : ∀ a, (write a).depth = 0) : Levelled (plainVariant? table) write 0 := by
  constructor
  · intro levels more j a le found
    unfold plainVariant? at found ⊢
    simp only [Option.bind_eq_bind, Option.bind_eq_some_iff] at found ⊢
    obtain ⟨⟨name, payload⟩, picked, rest⟩ := found
    rcases variant?_eq_some_iff.1 picked with ⟨rfl, rfl⟩ | ⟨inner, value, rfl, rfl, rfl⟩
    · exact ⟨_, variant?_eq_some_iff.2 (.inl ⟨rfl, rfl⟩), rest⟩
    · obtain ⟨inner', rfl⟩ := Nat.exists_eq_add_of_le' (Nat.le_trans (Nat.succ_pos inner) le)
      refine ⟨_, variant?_eq_some_iff.2 (.inr ⟨inner', value, rfl, rfl, rfl⟩), ?_⟩
      cases value with
      | null => exact rest
      | _ => cases rest
  · intro levels j a _ _
    rw [flat a]
    exact Nat.zero_le _

theorem mem_of_lookup {table : List (String × α)} {name : String} {a : α}
    (found : table.lookup name = some a) : (name, a) ∈ table := by
  obtain ⟨before, behind, split, -⟩ := List.lookup_eq_some_iff.1 found
  rw [split]
  exact List.mem_append_right _ List.mem_cons_self

/-! ## Lists and what may be missing -/

theorem mapM_eq_some_iff {read : Json → Option α} {items : List Json} {as : List α} :
    items.mapM read = some as ↔ List.Forall₂ (fun j a => read j = some a) items as := by
  induction items generalizing as with
  | nil =>
    constructor
    · rintro ⟨⟩
      exact .nil
    · rintro ⟨⟩
      rfl
  | cons j rest ih =>
    rw [List.mapM_cons]
    simp only [Option.bind_eq_bind, Option.bind_eq_some_iff, Option.pure_def, Option.some.injEq]
    constructor
    · rintro ⟨a, first, others, found, rfl⟩
      exact .cons first (ih.1 found)
    · intro related
      cases related with
      | cons first found => exact ⟨_, first, _, ih.2 found, rfl⟩

theorem levelled_list {item : Nat → Json → Option α} {write : α → Json} {least : Nat}
    (levelled : Levelled item write least) :
    Levelled (listOf? item) (fun as => .list (as.map write)) (least + 1) := by
  constructor
  · intro levels more j as le found
    unfold listOf? at found ⊢
    split at found
    · simp only [Option.bind_eq_bind, Option.bind_eq_some_iff, enter_eq_some_iff] at found ⊢
      obtain ⟨inner, rfl, read⟩ := found
      obtain ⟨inner', rfl⟩ := Nat.exists_eq_add_of_le' (Nat.le_trans (Nat.succ_pos inner) le)
      refine ⟨inner', rfl, mapM_eq_some_iff.2 ((mapM_eq_some_iff.1 read).imp fun j a => ?_)⟩
      exact levelled.mono (Nat.le_of_succ_le_succ le)
    · cases found
  · intro levels j as enough found
    unfold listOf? at found
    split at found
    · simp only [Option.bind_eq_bind, Option.bind_eq_some_iff, enter_eq_some_iff] at found
      obtain ⟨inner, rfl, read⟩ := found
      rw [depth_list_le]
      refine ⟨inner, rfl, fun j' member => ?_⟩
      obtain ⟨a, inside, rfl⟩ := List.mem_map.1 member
      obtain ⟨j, -, item⟩ := exists_of_forall₂ (mapM_eq_some_iff.1 read) inside
      exact levelled.fits (Nat.le_of_succ_le_succ enough) item
    · cases found

theorem levelled_nullable {read : Nat → Json → Option α} {write : α → Json} {least : Nat}
    (levelled : Levelled read write least) :
    Levelled (fun levels => nullable? (read levels)) (fun part => part.elim .null write) least := by
  constructor
  · intro levels more j part le found
    unfold nullable? at found ⊢
    split at found
    · exact found
    · simp only [Option.map_eq_some_iff] at found ⊢
      obtain ⟨a, read, rfl⟩ := found
      exact ⟨a, levelled.mono le read, rfl⟩
  · intro levels j part enough found
    unfold nullable? at found
    split at found
    · cases found
      exact Nat.zero_le _
    · obtain ⟨a, read, rfl⟩ := Option.map_eq_some_iff.1 found
      exact levelled.fits enough read

/-- A member that may be left out counts levels if its default nests no deeper than they are. -/
theorem Levelled.orDefault_mono {read : Nat → Json → Option α} {write : α → Json} {least : Nat}
    (levelled : Levelled read write least) {default a : α} {member : Option Json}
    {levels more : Nat} (le : levels ≤ more)
    (found : orDefault default (read levels) member = some a) :
    orDefault default (read more) member = some a := by
  cases member with
  | none => exact found
  | some j => exact levelled.mono le found

theorem Levelled.orDefault_fits {read : Nat → Json → Option α} {write : α → Json} {least : Nat}
    (levelled : Levelled read write least) {default a : α} {member : Option Json} {levels : Nat}
    (enough : least ≤ levels) (shallow : (write default).depth ≤ levels)
    (found : orDefault default (read levels) member = some a) : (write a).depth ≤ levels := by
  cases member with
  | none =>
    cases found
    exact shallow
  | some j => exact levelled.fits enough found

/-! ## Records -/

theorem record?_eq_some_iff {names : List String} {levels inner : Nat} {j : Json}
    {values : List (Option Json)} : j.record? names levels = some (inner, values) ↔
      j.valuesOf? names = some values ∧ levels = inner + 1 := by
  unfold record?
  simp only [Option.bind_eq_bind, Option.bind_eq_some_iff, enter_eq_some_iff, Option.pure_def,
    Option.some.injEq, Prod.mk.injEq]
  constructor
  · rintro ⟨_, found, _, rfl, rfl, rfl⟩
    exact ⟨found, rfl⟩
  · rintro ⟨found, rfl⟩
    exact ⟨values, found, inner, rfl, rfl, rfl⟩

/-- A record counts levels if its members do, one level further in. -/
theorem levelled_record {names : List String} {read : Nat → Json → Option α} {write : α → Json}
    {parts : Nat × List (Option Json) → Option α} {members : α → List (String × Json)}
    {least : Nat} (opens : ∀ levels j, read levels j = (j.record? names levels).bind parts)
    (writes : ∀ a, write a = record (members a))
    (mono : ∀ {inner more : Nat} {values : List (Option Json)} {a : α}, inner ≤ more →
      parts (inner, values) = some a → parts (more, values) = some a)
    (fits : ∀ {inner : Nat} {values : List (Option Json)} {a : α}, least ≤ inner →
      parts (inner, values) = some a → ∀ member ∈ members a, member.2.depth ≤ inner) :
    Levelled read write (least + 1) := by
  constructor
  · intro levels more j a le found
    rw [opens, Option.bind_eq_some_iff] at found ⊢
    obtain ⟨⟨inner, values⟩, given, rest⟩ := found
    rw [record?_eq_some_iff] at given
    obtain ⟨given, rfl⟩ := given
    obtain ⟨inner', rfl⟩ := Nat.exists_eq_add_of_le' (Nat.le_trans (Nat.succ_pos inner) le)
    exact ⟨(inner', values), record?_eq_some_iff.2 ⟨given, rfl⟩,
      mono (Nat.le_of_succ_le_succ le) rest⟩
  · intro levels j a enough found
    rw [opens, Option.bind_eq_some_iff] at found
    obtain ⟨⟨inner, values⟩, given, rest⟩ := found
    obtain ⟨-, rfl⟩ := record?_eq_some_iff.1 given
    rw [writes a]
    exact depth_record_le.2 ⟨inner, rfl, fits (Nat.le_of_succ_le_succ enough) rest⟩

end ScriptHost.Json

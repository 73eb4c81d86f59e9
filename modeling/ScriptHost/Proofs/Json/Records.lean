import ScriptHost.Json.Decode
import ScriptHost.Proofs.Json.Reading
/-!
Taking JSON values apart that were put together from parts: lists, records and the names of
alternatives, as long as they do not nest deeper than they may.
-/
namespace ScriptHost.Json

variable {α β γ : Type}

/-! ## Nesting -/

mutual

/-- How many lists and objects stand inside each other. -/
def depth : Json → Nat
  | .list items => itemsDepth items + 1
  | .object members => membersDepth members + 1
  | _ => 0

/-- The depth of the deepest item. -/
def itemsDepth : List Json → Nat
  | [] => 0
  | item :: rest => max item.depth (itemsDepth rest)

/-- The depth of the deepest member. -/
def membersDepth : List (Option String × Json) → Nat
  | [] => 0
  | (_, value) :: rest => max value.depth (membersDepth rest)

end

theorem itemsDepth_le {items : List Json} {n : Nat} :
    itemsDepth items ≤ n ↔ ∀ item ∈ items, item.depth ≤ n := by
  induction items with
  | nil => simp [itemsDepth]
  | cons item rest ih => rw [itemsDepth, Nat.max_le, ih, List.forall_mem_cons]

theorem membersDepth_le {members : List (String × Json)} {n : Nat} :
    membersDepth (members.map fun (k, v) => (some k, v)) ≤ n ↔
      ∀ member ∈ members, member.2.depth ≤ n := by
  induction members with
  | nil => simp [membersDepth]
  | cons member rest ih => rw [List.map_cons, membersDepth, Nat.max_le, ih, List.forall_mem_cons]

/-- Around the items of a list there is one level more. -/
theorem depth_list_le {items : List Json} {levels : Nat} :
    (Json.list items).depth ≤ levels ↔
      ∃ inner, levels = inner + 1 ∧ ∀ item ∈ items, item.depth ≤ inner := by
  rw [depth]
  constructor
  · intro fits
    obtain ⟨inner, rfl⟩ := Nat.exists_eq_add_of_le' (Nat.le_trans (Nat.succ_pos _) fits)
    exact ⟨inner, rfl, itemsDepth_le.1 (Nat.le_of_succ_le_succ fits)⟩
  · rintro ⟨inner, rfl, each⟩
    exact Nat.succ_le_succ (itemsDepth_le.2 each)

/-- Around the members of a record there is one level more. -/
theorem depth_record_le {members : List (String × Json)} {levels : Nat} :
    (record members).depth ≤ levels ↔
      ∃ inner, levels = inner + 1 ∧ ∀ member ∈ members, member.2.depth ≤ inner := by
  rw [record, depth]
  constructor
  · intro fits
    obtain ⟨inner, rfl⟩ := Nat.exists_eq_add_of_le' (Nat.le_trans (Nat.succ_pos _) fits)
    exact ⟨inner, rfl, membersDepth_le.1 (Nat.le_of_succ_le_succ fits)⟩
  · rintro ⟨inner, rfl, each⟩
    exact Nat.succ_le_succ (membersDepth_le.2 each)

/-! ## Values that are read back -/

/-- A value is the code of something, which reading gives back wherever there are levels enough. -/
structure Codes (read : Nat → Json → Option α) (j : Json) (a : α) : Prop where
  plain : Plain j
  back : ∀ levels, j.depth ≤ levels → read levels j = some a

theorem codes_bool (b : Bool) : Codes (fun _ => bool?) (.bool b) b :=
  ⟨.bool b, fun _ _ => rfl⟩

theorem codes_string (s : String) : Codes (fun _ => string?) (.str s) s :=
  ⟨.str s, fun _ _ => rfl⟩

/-! ### Integers -/

theorem int?_int (i : Int) : (int i).int? = some i :=
  Reader.int?_ofInt i

theorem natBelow?_nat {n bound : Nat} (small : n < bound) : (nat n).natBelow? bound = some n := by
  have inside : (0 : Int) ≤ n ∧ (n : Int) < bound := ⟨Int.natCast_nonneg n, Int.ofNat_lt.2 small⟩
  unfold natBelow? nat
  rw [int?_int, Option.bind_eq_bind, Option.bind_some, if_pos inside, Int.toNat_natCast]

theorem codes_uint16 (i : UInt16) : Codes (fun _ => uint16?) (.nat i.toNat) i := by
  refine ⟨.int _, fun _ _ => ?_⟩
  unfold uint16?
  rw [natBelow?_nat i.toNat_lt, Option.map_some, UInt16.ofNat_toNat]

theorem codes_uint32 (i : UInt32) : Codes (fun _ => uint32?) (.nat i.toNat) i := by
  refine ⟨.int _, fun _ _ => ?_⟩
  unfold uint32?
  rw [natBelow?_nat i.toNat_lt, Option.map_some, UInt32.ofNat_toNat]

theorem codes_int64 (i : Int64) : Codes (fun _ => int64?) (.int i.toInt) i := by
  refine ⟨.int _, fun _ _ => ?_⟩
  unfold int64?
  rw [int?_int, Option.bind_eq_bind, Option.bind_some, if_pos ⟨i.le_toInt, i.toInt_lt⟩,
    Int64.ofInt_toInt]

/-! ### Parts that may be missing -/

theorem Codes.map {read : Nat → Json → Option α} {j : Json} {a : α} (codes : Codes read j a)
    (f : α → β) : Codes (fun levels j => (read levels j).map f) j (f a) :=
  ⟨codes.plain, fun levels fits => by rw [codes.back levels fits]; rfl⟩

theorem codes_nullable {read : Nat → Json → Option α} {write : α → Json} (part : Option α)
    (some : ∀ a, part = some a → Codes read (write a) a ∧ write a ≠ .null) :
    Codes (fun levels => nullable? (read levels)) (part.elim .null write) part := by
  cases part with
  | none => exact ⟨.null, fun _ _ => rfl⟩
  | some a =>
    obtain ⟨codes, notNull⟩ := some a rfl
    refine ⟨codes.plain, fun levels fits => ?_⟩
    rw [Option.elim_some] at fits ⊢
    unfold nullable?
    split
    · exact absurd ‹_› notNull
    · rw [codes.back levels fits]
      rfl

/-! ### Lists -/

theorem mapM_map_eq_some {f : β → Option γ} {g : α → β} {h : α → γ} {as : List α}
    (each : ∀ a ∈ as, f (g a) = some (h a)) : (as.map g).mapM f = some (as.map h) := by
  induction as with
  | nil => rfl
  | cons a rest ih =>
    rw [List.map_cons, List.mapM_cons, each a List.mem_cons_self,
      ih fun b member => each b (List.mem_cons_of_mem _ member)]
    rfl

theorem codes_list {item : Nat → Json → Option α} {write : α → Json} (as : List α)
    (each : ∀ a ∈ as, Codes item (write a) a) :
    Codes (listOf? item) (.list (as.map write)) as := by
  refine ⟨.list fun j member => ?_, fun levels fits => ?_⟩
  · obtain ⟨a, inside, rfl⟩ := List.mem_map.1 member
    exact (each a inside).plain
  · obtain ⟨inner, rfl, depths⟩ := depth_list_le.1 fits
    have read : (as.map write).mapM (item inner) = some (as.map id) := mapM_map_eq_some
      fun a member => (each a member).back inner (depths _ (List.mem_map_of_mem member))
    rw [List.map_id] at read
    exact read

/-! ### Records -/

/-- Each name stands for one member. -/
theorem filter_members {members : List (String × Json)} (distinct : (members.map (·.1)).Nodup)
    {member : String × Json} (inside : member ∈ members) :
    (members.map fun (k, v) => (some k, v)).filter (·.1 == some member.1) =
      [(some member.1, member.2)] := by
  induction members with
  | nil => cases inside
  | cons first rest ih =>
    rw [List.map_cons, List.nodup_cons] at distinct
    obtain ⟨fresh, distinct⟩ := distinct
    rw [List.map_cons, List.filter_cons]
    rcases List.mem_cons.1 inside with rfl | inside
    · have others : (rest.map fun (k, v) => (some k, v)).filter (·.1 == some member.1) = [] := by
        rw [List.filter_eq_nil_iff]
        rintro _ later same
        obtain ⟨other, there, rfl⟩ := List.mem_map.1 later
        have named : other.1 = member.1 := Option.some.inj (eq_of_beq same)
        exact fresh (named ▸ List.mem_map_of_mem there)
      rw [others, if_pos (beq_self_eq_true _)]
    · have apart : ¬ ((some first.1 == some member.1) = true) := by
        intro same
        have named : first.1 = member.1 := Option.some.inj (eq_of_beq same)
        exact fresh (named ▸ List.mem_map_of_mem inside)
      rw [if_neg apart]
      exact ih distinct inside

/-- The members of a record are found by their names. -/
theorem record?_record {members : List (String × Json)} (names : List String)
    (same : members.map (·.1) = names) (distinct : names.Nodup) (inner : Nat) :
    (record members).record? names (inner + 1) =
      some (inner, members.map fun member => some member.2) := by
  subst same
  have named : (members.map fun (k, v) => (some k, v)).all (·.1.isSome) = true := by
    rw [List.all_map]
    exact List.all_eq_true.2 fun _ _ => rfl
  have values : (record members).valuesOf? (members.map (·.1)) =
      some (members.map fun member => some member.2) := by
    unfold record valuesOf?
    dsimp only
    rw [if_pos named]
    refine mapM_map_eq_some fun member inside => ?_
    rw [filter_members distinct inside]
  unfold record?
  rw [values]
  rfl

/-- A record is read back if it is read back from the values of its members. -/
theorem codes_record {members : List (String × Json)} {read : Nat → Json → Option α} {a : α}
    (names : List String) (same : members.map (·.1) = names) (distinct : names.Nodup)
    (plain : ∀ member ∈ members, Plain member.2)
    (back : ∀ inner, (∀ member ∈ members, member.2.depth ≤ inner) →
      (record members).record? names (inner + 1) =
        some (inner, members.map fun member => some member.2) →
      read (inner + 1) (record members) = some a) : Codes read (record members) a := by
  refine ⟨.record plain, fun levels fits => ?_⟩
  obtain ⟨inner, rfl, each⟩ := depth_record_le.1 fits
  exact back inner each (record?_record names same distinct inner)

end ScriptHost.Json

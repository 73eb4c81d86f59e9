import Mathlib.Data.List.Nodup
import ScriptHost.Proofs.Bridge.Generations
/-!
The handles that are outstanding. The free slots of a registry are those that hold nothing, each of
them once, and every handle that was issued and not released since stands for what it was issued for,
whatever became of the others.
-/
namespace ScriptHost.Bridge.Registry

open Host

variable {r : Registry} {h k : Handle} {entry : Entry} {issued : List (Handle × Entry)}

/-! ## Tidy registries -/

/-- A registry that knows its free slots: those that hold nothing, each of them once. -/
structure Tidy (r : Registry) : Prop where
  nodup : r.free.Nodup
  mem_free_iff : ∀ index, index ∈ r.free ↔ ∃ g, r.slots[index.toNat]? = some ⟨g, none⟩
  size_le : r.slots.size ≤ UInt32.size

theorem tidy_empty : Tidy {} :=
  ⟨List.nodup_nil, fun _ => by simp, Nat.zero_le _⟩

/-- What a handle stands for is in its slot. -/
theorem place_iff :
    r.entry? h = some entry ↔ r.slots[h.index.toNat]? = some ⟨h.generation, some entry⟩ := by
  unfold entry?
  cases r.slots[h.index.toNat]? with
  | none => simp
  | some place =>
    obtain ⟨generation, held⟩ := place
    by_cases same : generation = h.generation <;> simp [same]

/-- A handle whose slot does not hold anything of its generation stands for nothing. -/
theorem not_issued_of_place
    (apart : ∀ entry, r.slots[h.index.toNat]? ≠ some ⟨h.generation, some entry⟩) :
    r.entry? h = none := by
  cases found : r.entry? h with
  | none => rfl
  | some entry => exact (apart entry (place_iff.1 found)).elim

theorem isIssued_iff_exists : r.isIssued h = true ↔ ∃ entry, r.entry? h = some entry :=
  Option.isSome_iff_exists

/-- Where the handle is that is issued next. -/
theorem insert_of_cons {index : UInt32} {free : List UInt32} {g : UInt32} (entry : Entry)
    (next : r.free = index :: free) (place : r.slots[index.toNat]? = some ⟨g, none⟩) :
    r.insert entry = (⟨index, g⟩, { slots := r.slots.setIfInBounds index.toNat ⟨g, some entry⟩
                                    free, live := r.live + 1 }) := by
  unfold insert
  rw [next]
  dsimp only
  rw [place]
  rfl

theorem insert_of_nil (entry : Entry) (full : r.free = []) :
    r.insert entry = (⟨.ofNat r.slots.size, 0⟩,
      { r with slots := r.slots.push ⟨0, some entry⟩, live := r.live + 1 }) := by
  unfold insert
  rw [full]

/-- No operation takes a slot away. -/
theorem size_le_apply (r : Registry) (op : Operation) : r.slots.size ≤ (op.apply r).slots.size := by
  cases op with
  | issue entry =>
    change _ ≤ (r.insert entry).2.slots.size
    unfold insert
    split <;> simp
  | release h =>
    cases released : r.isIssued h with
    | false => simp [apply_release_of_dead released]
    | true => simp [apply_release released]

theorem size_le_run (r : Registry) (ops : List Operation) :
    r.slots.size ≤ (r.run ops).slots.size := by
  induction ops generalizing r with
  | nil => exact Nat.le_refl _
  | cons op rest ih => exact Nat.le_trans (size_le_apply r op) (ih (op.apply r))

namespace Tidy

theorem exists_of_cons (tidy : r.Tidy) {index : UInt32} {free : List UInt32}
    (next : r.free = index :: free) : ∃ g, r.slots[index.toNat]? = some ⟨g, none⟩ :=
  (tidy.mem_free_iff index).1 (next ▸ List.mem_cons_self)

/-- Issuing a handle keeps a registry tidy, as long as there are words for its slots. -/
theorem insert (tidy : r.Tidy) (entry : Entry)
    (room : (r.insert entry).2.slots.size ≤ UInt32.size) : (r.insert entry).2.Tidy := by
  cases next : r.free with
  | nil =>
    rw [insert_of_nil entry next] at room ⊢
    refine ⟨next ▸ List.nodup_nil, fun index => ?_, room⟩
    have none : ¬ ∃ g, r.slots[index.toNat]? = some ⟨g, none⟩ := fun found => by
      have member := (tidy.mem_free_iff index).2 found
      rw [next] at member
      exact List.not_mem_nil member
    dsimp only
    rw [next, Array.getElem?_push]
    split
    · simp
    · simpa using none
  | cons index free =>
    obtain ⟨g, place⟩ := tidy.exists_of_cons next
    rw [insert_of_cons entry next place] at room ⊢
    have distinct := tidy.nodup
    rw [next, List.nodup_cons] at distinct
    refine ⟨distinct.2, fun other => ?_, room⟩
    have members := tidy.mem_free_iff other
    rw [next, List.mem_cons] at members
    dsimp only
    rw [Array.getElem?_setIfInBounds]
    by_cases same : index.toNat = other.toNat
    · obtain rfl := UInt32.toNat_inj.1 same
      obtain ⟨inBounds, _⟩ := Array.getElem?_eq_some_iff.1 place
      simp [distinct.1, inBounds]
    · have apart : other ≠ index := fun equal => same (congrArg UInt32.toNat equal.symm)
      rw [if_neg same, ← members]
      simp [apart]

/-- A release keeps a registry tidy. -/
theorem release (tidy : r.Tidy) (issued : r.isIssued h = true) :
    (Operation.apply r (.release h)).Tidy := by
  obtain ⟨entry, place⟩ := isIssued_iff.1 issued
  obtain ⟨inBounds, _⟩ := Array.getElem?_eq_some_iff.1 place
  have occupied : h.index ∉ r.free := by
    rw [tidy.mem_free_iff]
    rintro ⟨g, empty⟩
    rw [place] at empty
    cases empty
  rw [apply_release issued]
  refine ⟨List.nodup_cons.2 ⟨occupied, tidy.nodup⟩, fun other => ?_, ?_⟩
  · dsimp only
    rw [List.mem_cons, Array.getElem?_setIfInBounds]
    by_cases same : h.index.toNat = other.toNat
    · obtain rfl := UInt32.toNat_inj.1 same
      simp [inBounds]
    · have apart : other ≠ h.index := fun equal => same (congrArg UInt32.toNat equal.symm)
      rw [if_neg same, tidy.mem_free_iff]
      simp [apart]
  · rw [Array.size_setIfInBounds]
    exact tidy.size_le

/-- A handle that is about to be issued stands for nothing. -/
theorem fresh (tidy : r.Tidy) (entry : Entry)
    (room : (r.insert entry).2.slots.size ≤ UInt32.size) :
    r.entry? (r.insert entry).1 = none := by
  refine not_issued_of_place fun other found => ?_
  cases next : r.free with
  | nil =>
    rw [insert_of_nil entry next] at found room
    rw [Array.size_push] at room
    have index : (UInt32.ofNat r.slots.size).toNat = r.slots.size :=
      UInt32.toNat_ofNat_of_lt' room
    dsimp only at found
    rw [index, Array.getElem?_size] at found
    cases found
  | cons index free =>
    obtain ⟨g, place⟩ := tidy.exists_of_cons next
    rw [insert_of_cons entry next place] at found
    dsimp only at found
    rw [place] at found
    cases found

/-- A handle that is issued stands for its entry, and every other handle for what it stood for. -/
theorem lookup_insert (tidy : r.Tidy) (entry : Entry)
    (room : (r.insert entry).2.slots.size ≤ UInt32.size) (k : Handle) :
    Registry.entry? (r.insert entry).2 k =
      if k = (r.insert entry).1 then some entry else r.entry? k := by
  cases next : r.free with
  | nil =>
    have fresh := tidy.fresh entry room
    rw [insert_of_nil entry next] at fresh room ⊢
    rw [Array.size_push] at room
    have index : (UInt32.ofNat r.slots.size).toNat = r.slots.size :=
      UInt32.toNat_ofNat_of_lt' room
    dsimp only at fresh ⊢
    unfold entry?
    dsimp only
    rw [Array.getElem?_push]
    by_cases last : k.index.toNat = r.slots.size
    · have same : k.index = .ofNat r.slots.size := UInt32.toNat_inj.1 (last.trans index.symm)
      obtain ⟨i, generation⟩ := k
      dsimp only at same last ⊢
      subst same
      rw [if_pos index, index, Array.getElem?_size]
      by_cases first : generation = 0
      · simp [first]
      · simp [first, Ne.symm first]
    · have apart : k ≠ ⟨.ofNat r.slots.size, 0⟩ := fun equal =>
        last ((congrArg (·.index.toNat) equal).trans index)
      rw [if_neg last, if_neg apart]
  | cons index free =>
    obtain ⟨g, place⟩ := tidy.exists_of_cons next
    obtain ⟨inBounds, _⟩ := Array.getElem?_eq_some_iff.1 place
    rw [insert_of_cons entry next place]
    obtain ⟨i, generation⟩ := k
    unfold entry?
    dsimp only
    rw [Array.getElem?_setIfInBounds]
    by_cases same : index.toNat = i.toNat
    · obtain rfl := UInt32.toNat_inj.1 same
      rw [if_pos rfl, if_pos inBounds, place]
      by_cases current : generation = g
      · simp [current]
      · simp [current, Ne.symm current]
    · have apart : (⟨i, generation⟩ : Handle) ≠ ⟨index, g⟩ := fun equal =>
        same (congrArg (·.index.toNat) equal).symm
      rw [if_neg same, if_neg apart]

end Tidy

/-- A handle that is released stands for nothing, and every other handle for what it stood for. -/
theorem lookup_release (released : r.isIssued h = true) (k : Handle) :
    Registry.entry? (Operation.apply r (.release h)) k = if k = h then none else r.entry? k := by
  obtain ⟨entry, place⟩ := isIssued_iff.1 released
  obtain ⟨inBounds, _⟩ := Array.getElem?_eq_some_iff.1 place
  rw [apply_release released]
  obtain ⟨index, generation⟩ := h
  obtain ⟨i, g⟩ := k
  unfold entry?
  dsimp only at place inBounds ⊢
  rw [Array.getElem?_setIfInBounds]
  by_cases same : index.toNat = i.toNat
  · obtain rfl := UInt32.toNat_inj.1 same
    rw [if_pos rfl, if_pos inBounds, place]
    by_cases current : g = generation
    · simp [current]
    · simp [current, Ne.symm current]
  · have apart : (⟨i, g⟩ : Handle) ≠ ⟨index, generation⟩ := fun equal =>
      same (congrArg (·.index.toNat) equal).symm
    rw [if_neg same, if_neg apart]

/-! ## What is outstanding -/

/-- What an operation makes of the handles that are issued and not released: it adds the one that it
issues, or takes away the one that it releases. -/
def Operation.settle (r : Registry) (issued : List (Handle × Entry)) :
    Operation → List (Handle × Entry)
  | .issue entry => ((r.insert entry).1, entry) :: issued
  | .release h => issued.filter (·.1 ≠ h)

/-- The handles that are issued and not released after operations in turn, each with what it was
issued for, the latest first. -/
def outstanding : Registry → List (Handle × Entry) → List Operation → List (Handle × Entry)
  | _, issued, [] => issued
  | r, issued, op :: rest => outstanding (op.apply r) (op.settle r issued) rest

/-- A tidy registry and the handles that are issued and not released agree. -/
structure Accounts (r : Registry) (issued : List (Handle × Entry)) : Prop where
  tidy : r.Tidy
  mem_iff : ∀ h entry, (h, entry) ∈ issued ↔ r.entry? h = some entry
  nodup : (issued.map (·.1)).Nodup
  live_eq : r.live = issued.length

theorem accounts_empty : Accounts {} [] :=
  ⟨tidy_empty, fun _ _ => by simp [ entry?], List.nodup_nil, rfl⟩

namespace Accounts

theorem isIssued_iff_mem (accounts : r.Accounts issued) :
    r.isIssued h = true ↔ h ∈ issued.map (·.1) := by
  rw [isIssued_iff_exists, List.mem_map]
  constructor
  · rintro ⟨entry, found⟩
    exact ⟨(h, entry), (accounts.mem_iff h entry).2 found, rfl⟩
  · rintro ⟨⟨_, entry⟩, member, rfl⟩
    exact ⟨entry, (accounts.mem_iff _ entry).1 member⟩

/-- Issuing a handle adds it. -/
theorem issue (accounts : r.Accounts issued) (entry : Entry)
    (room : (r.insert entry).2.slots.size ≤ UInt32.size) :
    ((Operation.issue entry).apply r).Accounts ((Operation.issue entry).settle r issued) := by
  have fresh := accounts.tidy.fresh entry room
  have new : (r.insert entry).1 ∉ issued.map (·.1) := by
    rw [← accounts.isIssued_iff_mem, isIssued, fresh]
    exact Bool.false_ne_true
  refine ⟨accounts.tidy.insert entry room, fun h other => ?_, List.nodup_cons.2 ⟨new, accounts.nodup⟩,
    ?_⟩
  · change (h, other) ∈ ((r.insert entry).1, entry) :: issued ↔
      Registry.entry? (r.insert entry).2 h = _
    rw [accounts.tidy.lookup_insert entry room, List.mem_cons, accounts.mem_iff, Prod.mk.injEq]
    by_cases same : h = (r.insert entry).1
    · subst same
      simp [fresh, eq_comm]
    · simp [same]
  · change (r.insert entry).2.live = issued.length + 1
    rw [← accounts.live_eq]
    unfold insert
    split <;> rfl

/-- Releasing a handle that is issued takes it away. -/
theorem release (accounts : r.Accounts issued) (h : Handle) :
    ((Operation.release h).apply r).Accounts ((Operation.release h).settle r issued) := by
  change Accounts _ (issued.filter (·.1 ≠ h))
  cases there : r.isIssued h with
  | false =>
    -- A handle that is not issued is not among them either.
    have absent : ∀ pair ∈ issued, pair.1 ≠ h := fun pair member same => by
      have listed : h ∈ issued.map (·.1) := same ▸ List.mem_map_of_mem member
      rw [← accounts.isIssued_iff_mem, there] at listed
      cases listed
    rw [apply_release_of_dead there, List.filter_eq_self.2 (by simpa using absent)]
    exact accounts
  | true =>
    refine ⟨accounts.tidy.release there, fun k entry => ?_, accounts.nodup.sublist
      (List.filter_sublist.map _), ?_⟩
    · rw [lookup_release there, List.mem_filter, accounts.mem_iff]
      by_cases same : k = h <;> simp [same]
    · have listed := accounts.isIssued_iff_mem.1 there
      have kept : (issued.filter (·.1 ≠ h)).length = ((issued.map (·.1)).erase h).length := by
        rw [accounts.nodup.erase_eq_filter, List.filter_map, List.length_map]
        congr 1
        exact List.filter_congr fun pair _ => by by_cases same : pair.1 = h <;> simp [same]
      rw [kept, List.length_erase_of_mem listed, List.length_map, apply_release there,
        ← accounts.live_eq]

/-- Every operation keeps the registry and the outstanding handles in agreement. -/
theorem apply (accounts : r.Accounts issued) (op : Operation)
    (room : (op.apply r).slots.size ≤ UInt32.size) :
    (op.apply r).Accounts (op.settle r issued) := by
  cases op with
  | issue entry => exact accounts.issue entry room
  | release h => exact accounts.release h

/-- So do operations in turn. -/
theorem run (accounts : r.Accounts issued) (ops : List Operation)
    (room : (r.run ops).slots.size ≤ UInt32.size) :
    (r.run ops).Accounts (outstanding r issued ops) := by
  induction ops generalizing r issued with
  | nil => exact accounts
  | cons op rest ih =>
    exact ih (accounts.apply op (Nat.le_trans (size_le_run _ rest) room)) room

end Accounts

/-- What was outstanding stays so until it is released. -/
theorem mem_outstanding {pair : Handle × Entry} (member : pair ∈ issued) {ops : List Operation}
    (kept : .release pair.1 ∉ ops) : pair ∈ outstanding r issued ops := by
  induction ops generalizing r issued with
  | nil => exact member
  | cons op rest ih =>
    rw [List.mem_cons, not_or] at kept
    refine ih ?_ kept.2
    cases op with
    | issue entry => exact List.mem_cons_of_mem _ member
    | release h =>
      refine List.mem_filter.2 ⟨member, ?_⟩
      have apart : pair.1 ≠ h := fun same => kept.1 (congrArg Operation.release same)
      simpa using apart

theorem outstanding_append (first second : List Operation) :
    outstanding r issued (first ++ second) =
      outstanding (r.run first) (outstanding r issued first) second := by
  induction first generalizing r issued with
  | nil => rfl
  | cons op rest ih => exact ih

/-! ## The registry keeps its handles apart -/

/-- Whatever is issued and released, on a registry that has words for its slots: the free slots are
those that hold nothing, each once; the live count is the number of outstanding handles, and these
are distinct; each stands for just what it was issued for; a handle that is issued is outstanding as
long as it is not itself released; and releasing one that is not outstanding changes nothing. -/
theorem keeps_apart (ops : List Operation) (room : (run {} ops).slots.size ≤ UInt32.size) :
    (run {} ops).free.Nodup ∧
      (∀ index, index ∈ (run {} ops).free ↔
        ∃ slot, (run {} ops).slots[index.toNat]? = some slot ∧ slot.entry = none) ∧
      (run {} ops).live = (outstanding {} [] ops).length ∧
      ((outstanding {} [] ops).map (·.1)).Nodup ∧
      (∀ h entry, (h, entry) ∈ outstanding {} [] ops → ∀ alive, (run {} ops).resolve alive h =
        match entry with
        | .strong ref => .ok (.object ref)
        | .weak ref => if alive ref then .ok (.object ref) else .error (.stale h)
        | .type id => .ok (.type id)) ∧
      (∀ before entry after, ops = before ++ .issue entry :: after →
        .release ((run {} before).insert entry).1 ∉ after →
          (((run {} before).insert entry).1, entry) ∈ outstanding {} [] ops) ∧
      ∀ h, h ∉ (outstanding {} [] ops).map (·.1) →
        (run {} ops).release? h = none ∧ (run {} ops).run [.release h] = run {} ops := by
  have accounts := accounts_empty.run ops room
  refine ⟨accounts.tidy.nodup, fun index => ?_, accounts.live_eq, accounts.nodup, ?_, ?_, ?_⟩
  · rw [accounts.tidy.mem_free_iff]
    constructor
    · rintro ⟨g, place⟩
      exact ⟨⟨g, none⟩, place, rfl⟩
    · rintro ⟨⟨g, held⟩, place, rfl⟩
      exact ⟨g, place⟩
  · intro h entry member alive
    unfold resolve
    rw [(accounts.mem_iff h entry).1 member]
    cases entry <;> rfl
  · rintro before entry after rfl unreleased
    rw [outstanding_append]
    exact mem_outstanding List.mem_cons_self unreleased
  · intro h absent
    have dead : (run {} ops).isIssued h = false := by
      rwa [← accounts.isIssued_iff_mem, Bool.not_eq_true] at absent
    refine ⟨?_, apply_release_of_dead dead⟩
    unfold release?
    rw [dead]
    rfl

/-- A slot is used again while another handle stays what it is. -/
theorem keeps_apart_reuse :
    (run {} [.issue (.type ⟨1⟩), .issue (.type ⟨2⟩), .release ⟨0, 0⟩, .issue (.type ⟨3⟩)]).slots.size
        ≤ UInt32.size ∧
      (run {} [.issue (.type ⟨1⟩), .issue (.type ⟨2⟩), .release ⟨0, 0⟩,
        .issue (.type ⟨3⟩)]).resolve (fun _ => true) ⟨1, 0⟩ = .ok (.type ⟨2⟩) := by
  refine ⟨by decide, ?_⟩
  obtain ⟨-, -, -, -, stands, -⟩ := keeps_apart [.issue (.type ⟨1⟩), .issue (.type ⟨2⟩),
    .release ⟨0, 0⟩, .issue (.type ⟨3⟩)] (by decide)
  exact stands ⟨1, 0⟩ (.type ⟨2⟩) (by decide) fun _ => true

end ScriptHost.Bridge.Registry

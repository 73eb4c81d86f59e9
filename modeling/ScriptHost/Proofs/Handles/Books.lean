import ScriptHost.Bridge.Ledger
import ScriptHost.Proofs.Bridge.Outstanding
/-!
Books that are kept well. Every issued handle belongs to the host or to a wrapper, and what belongs
to one of them is issued until the host releases it. As long as no slot is released so often that its
generation comes round, a handle that is issued is one that no entry of the books speaks of.
-/
namespace ScriptHost.Bridge

open Registry (Entry Operation)

/-! ## Releases -/

/-- Whether a deed releases a slot. -/
def Deed.releases (slot : UInt32) : Deed → Bool
  | .revoked h | .finalized h => h.index == slot
  | .given _ | .refused _ | .bypassed => false

/-- How often a slot was released. -/
def releaseCount (slot : UInt32) (ledger : Ledger) : Nat :=
  ledger.countP (·.releases slot)

/-- A handle whose slot was released since it was issued. -/
def Retired (ledger : Ledger) (h : Handle) : Prop :=
  h.generation.toNat < releaseCount h.index ledger

variable {ledger : Ledger} {r : Registry} {carried other : Handle → Prop} {h k : Handle}
  {deed : Deed} {entry : Entry}

theorem releaseCount_cons (slot : UInt32) (deed : Deed) (ledger : Ledger) :
    releaseCount slot (deed :: ledger) = releaseCount slot ledger + (deed.releases slot).toNat := by
  unfold releaseCount
  rw [List.countP_cons]
  cases deed.releases slot <;> rfl

theorem releaseCount_le_cons (slot : UInt32) (deed : Deed) (ledger : Ledger) :
    releaseCount slot ledger ≤ releaseCount slot (deed :: ledger) := by
  rw [releaseCount_cons]
  exact Nat.le_add_right ..

theorem Retired.cons (retired : Retired ledger h) (deed : Deed) : Retired (deed :: ledger) h :=
  Nat.lt_of_lt_of_le retired (releaseCount_le_cons ..)

/-- How often the word of a slot says that it was released. -/
def Registry.generationOf (r : Registry) (slot : UInt32) : UInt32 :=
  (r.generation? slot).getD 0

theorem Registry.generationOf_of_isIssued (issued : r.isIssued h = true) :
    r.generationOf h.index = h.generation := by
  unfold Registry.generationOf
  rw [Registry.generation?_of_isIssued issued]
  rfl

/-- The handle that is issued next has the generation of its slot. -/
theorem Registry.Tidy.generation_insert (tidy : r.Tidy) (entry : Entry)
    (room : (r.insert entry).2.slots.size ≤ UInt32.size) :
    (r.insert entry).1.generation = r.generationOf (r.insert entry).1.index := by
  unfold Registry.generationOf Registry.generation?
  cases next : r.free with
  | nil =>
    rw [Registry.insert_of_nil entry next] at room ⊢
    rw [Array.size_push] at room
    have index : (UInt32.ofNat r.slots.size).toNat = r.slots.size :=
      UInt32.toNat_ofNat_of_lt' room
    dsimp only
    rw [index, Array.getElem?_size]
    rfl
  | cons index free =>
    obtain ⟨g, place⟩ := tidy.exists_of_cons next
    rw [Registry.insert_of_cons entry next place]
    dsimp only
    rw [place]
    rfl

/-- Issuing a handle does not count up any generation. -/
theorem Registry.Tidy.generationOf_insert (tidy : r.Tidy) (entry : Entry) (slot : UInt32) :
    (r.insert entry).2.generationOf slot = r.generationOf slot := by
  cases known : r.generation? slot with
  | some g =>
    unfold Registry.generationOf
    rw [Registry.generation?_insert known entry, known]
  | none =>
    have absent : r.slots[slot.toNat]? = none := Option.map_eq_none_iff.1 known
    unfold Registry.generationOf
    rw [known]
    unfold Registry.generation?
    cases next : r.free with
    | nil =>
      rw [Registry.insert_of_nil entry next]
      dsimp only
      rw [Array.getElem?_push]
      split
      · rfl
      · rw [absent]
        rfl
    | cons index free =>
      obtain ⟨g, place⟩ := tidy.exists_of_cons next
      rw [Registry.insert_of_cons entry next place]
      dsimp only
      rw [Array.getElem?_setIfInBounds]
      split
      · rename_i same
        rw [same, absent] at place
        cases place
      · rw [absent]
        rfl

/-- A release counts up the generation of its slot alone. -/
theorem Registry.generationOf_release (issued : r.isIssued h = true) (slot : UInt32) :
    (Operation.apply r (.release h)).generationOf slot =
      if h.index = slot then h.generation + 1 else r.generationOf slot := by
  split
  · rename_i same
    subst same
    unfold Registry.generationOf
    rw [Registry.generation?_release issued]
    rfl
  · rename_i apart
    have elsewhere : h.index.toNat ≠ slot.toNat := fun equal => apart (UInt32.toNat_inj.1 equal)
    unfold Registry.generationOf Registry.generation?
    rw [Registry.apply_release issued]
    dsimp only
    rw [Array.getElem?_setIfInBounds_ne elsewhere]

theorem Registry.isIssued_insert (tidy : r.Tidy) (entry : Entry)
    (room : (r.insert entry).2.slots.size ≤ UInt32.size) (k : Handle) :
    (r.insert entry).2.isIssued k = true ↔ k = (r.insert entry).1 ∨ r.isIssued k = true := by
  unfold Registry.isIssued
  rw [tidy.lookup_insert entry room]
  split
  · rename_i same
    simp [same]
  · rename_i apart
    simp [apart]

theorem Registry.isIssued_release (issued : r.isIssued h = true) (k : Handle) :
    (Operation.apply r (.release h)).isIssued k = true ↔ k ≠ h ∧ r.isIssued k = true := by
  unfold Registry.isIssued
  rw [Registry.lookup_release issued]
  by_cases same : k = h <;> simp [same]

/-! ## The books -/

/-- The books about a registry, given which handles belong to wrappers. -/
structure Books (ledger : Ledger) (r : Registry) (carried : Handle → Prop) : Prop where
  tidy : r.Tidy
  /-- Slots count their releases. -/
  counted : ∀ slot, (r.generationOf slot).toNat = releaseCount slot ledger
  retired : ∀ h, .revoked h ∈ ledger ∨ .finalized h ∈ ledger → Retired ledger h
  /-- Whatever is issued belongs to the host or to a wrapper. -/
  owned : ∀ h, r.isIssued h = true → .given h ∈ ledger ∨ carried h
  /-- Nothing that belongs to one of them is released by anyone but the host. -/
  missing : ∀ h, .given h ∈ ledger ∨ carried h → r.isIssued h = false → .revoked h ∈ ledger
  apart : ∀ h, .given h ∈ ledger → ¬ carried h
  finished : ∀ h, .finalized h ∈ ledger → .given h ∉ ledger ∧ ¬ carried h ∧ .revoked h ∉ ledger
  nodup : ledger.Nodup

namespace Books

theorem empty : Books [] {} fun _ => False where
  tidy := Registry.tidy_empty
  counted := fun _ => rfl
  retired := fun _ member => by simp at member
  owned := fun _ issued => by simp [Registry.isIssued, Registry.entry?] at issued
  missing := fun _ member => by simp at member
  apart := fun _ member => by simp at member
  finished := fun _ member => by simp at member
  nodup := List.nodup_nil

/-- Only which handles belong to wrappers matters. -/
theorem congr (books : Books ledger r carried) (same : ∀ h, other h ↔ carried h) :
    Books ledger r other := by
  have equal : other = carried := funext fun h => propext (same h)
  rwa [equal]

theorem not_retired (books : Books ledger r carried) (issued : r.isIssued h = true) :
    ¬ Retired ledger h := by
  unfold Retired
  rw [← books.counted, Registry.generationOf_of_isIssued issued]
  exact Nat.lt_irrefl _

/-- What belongs to somebody is issued, or its slot was released since. -/
theorem issued_or_retired (books : Books ledger r carried) (known : .given h ∈ ledger ∨ carried h) :
    r.isIssued h = true ∨ Retired ledger h := by
  cases issued : r.isIssued h with
  | true => exact .inl rfl
  | false => exact .inr (books.retired h (.inl (books.missing h known issued)))

/-- A handle that is about to be issued is one that the books do not know. -/
theorem fresh (books : Books ledger r carried) (entry : Entry)
    (room : (r.insert entry).2.slots.size ≤ UInt32.size) :
    ¬ Retired ledger (r.insert entry).1 ∧ .given (r.insert entry).1 ∉ ledger ∧
      ¬ carried (r.insert entry).1 := by
  have current : ¬ Retired ledger (r.insert entry).1 := by
    unfold Retired
    rw [books.tidy.generation_insert entry room, books.counted]
    exact Nat.lt_irrefl _
  have dead : r.isIssued (r.insert entry).1 = false := by
    unfold Registry.isIssued
    rw [books.tidy.fresh entry room]
    rfl
  have unknown : ¬ (.given (r.insert entry).1 ∈ ledger ∨ carried (r.insert entry).1) := by
    intro known
    rcases books.issued_or_retired known with issued | retired
    · rw [dead] at issued
      cases issued
    · exact current retired
  exact ⟨current, fun given => unknown (.inl given), fun belongs => unknown (.inr belongs)⟩

/-- The host is given a handle. -/
theorem give (books : Books ledger r carried) (entry : Entry)
    (room : (r.insert entry).2.slots.size ≤ UInt32.size) :
    Books (.given (r.insert entry).1 :: ledger) (r.insert entry).2 carried := by
  obtain ⟨current, notGiven, notCarried⟩ := books.fresh entry room
  have count : ∀ slot, releaseCount slot (.given (r.insert entry).1 :: ledger) =
      releaseCount slot ledger := fun slot => releaseCount_cons ..
  have issued := Registry.isIssued_insert books.tidy entry room
  constructor
  case tidy => exact books.tidy.insert entry room
  case counted =>
    intro slot
    rw [books.tidy.generationOf_insert entry, count]
    exact books.counted slot
  case retired =>
    intro k released
    simp only [List.mem_cons, reduceCtorEq, false_or] at released
    exact (books.retired k released).cons _
  case owned =>
    intro k there
    rcases (issued k).1 there with rfl | there
    · exact .inl List.mem_cons_self
    · exact (books.owned k there).imp_left (List.mem_cons_of_mem _)
  case missing =>
    intro k known dead
    refine List.mem_cons_of_mem _ (books.missing k ?_ ?_)
    · rcases known with given | belongs
      · rcases List.mem_cons.1 given with same | given
        · cases same
          rw [(issued _).2 (.inl rfl)] at dead
          cases dead
        · exact .inl given
      · exact .inr belongs
    · exact Bool.eq_false_iff.2 fun there => Bool.eq_false_iff.1 dead ((issued k).2 (.inr there))
  case apart =>
    intro k given
    rcases List.mem_cons.1 given with same | given
    · cases same
      exact notCarried
    · exact books.apart k given
  case finished =>
    intro k done
    simp only [List.mem_cons, reduceCtorEq, false_or] at done
    obtain ⟨notHosts, notWrappers, kept⟩ := books.finished k done
    refine ⟨?_, notWrappers, ?_⟩
    · rw [List.mem_cons, not_or]
      refine ⟨fun same => current ?_, notHosts⟩
      cases same
      exact books.retired _ (.inr done)
    · simpa using kept
  case nodup => exact List.nodup_cons.2 ⟨notGiven, books.nodup⟩

/-- A wrapper is made for a new handle. -/
theorem carry (books : Books ledger r carried) (entry : Entry)
    (room : (r.insert entry).2.slots.size ≤ UInt32.size) :
    Books ledger (r.insert entry).2 fun k => k = (r.insert entry).1 ∨ carried k := by
  obtain ⟨current, notGiven, _⟩ := books.fresh entry room
  have issued := Registry.isIssued_insert books.tidy entry room
  constructor
  case tidy => exact books.tidy.insert entry room
  case counted =>
    intro slot
    rw [books.tidy.generationOf_insert entry]
    exact books.counted slot
  case retired => exact books.retired
  case owned =>
    intro k there
    rcases (issued k).1 there with rfl | there
    · exact .inr (.inl rfl)
    · exact (books.owned k there).imp_right .inr
  case missing =>
    intro k known dead
    refine books.missing k ?_ ?_
    · rcases known with given | rfl | belongs
      · exact .inl given
      · rw [(issued _).2 (.inl rfl)] at dead
        cases dead
      · exact .inr belongs
    · exact Bool.eq_false_iff.2 fun there => Bool.eq_false_iff.1 dead ((issued k).2 (.inr there))
  case apart =>
    rintro k given (rfl | belongs)
    · exact notGiven given
    · exact books.apart k given belongs
  case finished =>
    intro k done
    obtain ⟨notHosts, notWrappers, kept⟩ := books.finished k done
    refine ⟨notHosts, ?_, kept⟩
    rintro (rfl | belongs)
    · exact current (books.retired _ (.inr done))
    · exact notWrappers belongs
  case nodup => exact books.nodup

/-- What a release does to the generations, as long as they do not come round. -/
theorem counted_release (books : Books ledger r carried) (issued : r.isIssued h = true)
    (releases : ∀ slot, deed.releases slot = (h.index == slot))
    (bound : releaseCount h.index (deed :: ledger) < UInt32.size) (slot : UInt32) :
    ((Operation.apply r (.release h)).generationOf slot).toNat =
      releaseCount slot (deed :: ledger) := by
  rw [Registry.generationOf_release issued, releaseCount_cons, releases]
  have own := books.counted h.index
  rw [Registry.generationOf_of_isIssued issued] at own
  rw [releaseCount_cons, releases, beq_self_eq_true] at bound
  by_cases same : h.index = slot
  · subst same
    rw [if_pos rfl, beq_self_eq_true, ← own]
    rw [← own] at bound
    rw [UInt32.toNat_add]
    exact Nat.mod_eq_of_lt bound
  · rw [if_neg same, books.counted]
    simp [same]

/-- A release leaves a handle behind that is retired. -/
theorem retired_release (books : Books ledger r carried) (issued : r.isIssued h = true)
    (releases : ∀ slot, deed.releases slot = (h.index == slot)) : Retired (deed :: ledger) h := by
  have own := books.counted h.index
  rw [Registry.generationOf_of_isIssued issued] at own
  unfold Retired
  rw [releaseCount_cons, releases, beq_self_eq_true, ← own]
  exact Nat.lt_succ_self _

/-- The host releases a handle. -/
theorem revoke (books : Books ledger r carried) (issued : r.isIssued h = true)
    (bound : releaseCount h.index (.revoked h :: ledger) < UInt32.size) :
    Books (.revoked h :: ledger) (Operation.apply r (.release h)) carried := by
  have remains := Registry.isIssued_release issued
  have current := books.not_retired issued
  constructor
  case tidy => exact books.tidy.release issued
  case counted => exact books.counted_release issued (fun _ => rfl) bound
  case retired =>
    intro k released
    have cases : k = h ∨ .revoked k ∈ ledger ∨ .finalized k ∈ ledger := by
      simpa [or_assoc] using released
    rcases cases with rfl | before
    · exact books.retired_release issued fun _ => rfl
    · exact (books.retired k before).cons _
  case owned =>
    intro k there
    exact (books.owned k ((remains k).1 there).2).imp_left (List.mem_cons_of_mem _)
  case missing =>
    intro k known dead
    by_cases same : k = h
    · subst same
      exact List.mem_cons_self
    · refine List.mem_cons_of_mem _ (books.missing k ?_ ?_)
      · simpa using known
      · exact Bool.eq_false_iff.2 fun there =>
          Bool.eq_false_iff.1 dead ((remains k).2 ⟨same, there⟩)
  case apart =>
    intro k given
    refine books.apart k ?_
    simpa using given
  case finished =>
    intro k done
    have done' : .finalized k ∈ ledger := by simpa using done
    obtain ⟨notHosts, notWrappers, kept⟩ := books.finished k done'
    refine ⟨by simpa using notHosts, notWrappers, ?_⟩
    rw [List.mem_cons, not_or]
    refine ⟨fun same => current ?_, kept⟩
    cases same
    exact books.retired _ (.inr done')
  case nodup =>
    exact List.nodup_cons.2 ⟨fun before => current (books.retired h (.inl before)), books.nodup⟩

/-- The finalizer of a wrapper releases its handle. -/
theorem finalize (books : Books ledger r carried) (issued : r.isIssued h = true)
    (belongs : carried h) (bound : releaseCount h.index (.finalized h :: ledger) < UInt32.size) :
    Books (.finalized h :: ledger) (Operation.apply r (.release h)) fun k => carried k ∧ k ≠ h := by
  have remains := Registry.isIssued_release issued
  have current := books.not_retired issued
  constructor
  case tidy => exact books.tidy.release issued
  case counted => exact books.counted_release issued (fun _ => rfl) bound
  case retired =>
    intro k released
    have cases : k = h ∨ .revoked k ∈ ledger ∨ .finalized k ∈ ledger := by
      simpa [or_left_comm] using released
    rcases cases with rfl | before
    · exact books.retired_release issued fun _ => rfl
    · exact (books.retired k before).cons _
  case owned =>
    intro k there
    obtain ⟨other, there⟩ := (remains k).1 there
    exact (books.owned k there).imp (List.mem_cons_of_mem _) fun belongs => ⟨belongs, other⟩
  case missing =>
    intro k known dead
    have other : k ≠ h := by
      rintro rfl
      rcases known with given | ⟨_, apart⟩
      · exact books.apart k (by simpa using given) belongs
      · exact apart rfl
    refine List.mem_cons_of_mem _ (books.missing k ?_ ?_)
    · exact known.imp (fun given => by simpa using given) And.left
    · exact Bool.eq_false_iff.2 fun there =>
        Bool.eq_false_iff.1 dead ((remains k).2 ⟨other, there⟩)
  case apart =>
    rintro k given ⟨belongs, _⟩
    exact books.apart k (by simpa using given) belongs
  case finished =>
    intro k done
    rcases List.mem_cons.1 done with same | before
    · cases same
      refine ⟨fun given => ?_, fun kept => kept.2 rfl, fun revoked => current ?_⟩
      · exact books.apart h (by simpa using given) belongs
      · exact books.retired h (.inl (by simpa using revoked))
    · obtain ⟨notHosts, notWrappers, kept⟩ := books.finished k before
      exact ⟨by simpa using notHosts, fun kept => notWrappers kept.1, by simpa using kept⟩
  case nodup =>
    exact List.nodup_cons.2 ⟨fun before => current (books.retired h (.inr before)), books.nodup⟩

/-- A wrapper goes whose handle is released already. -/
theorem lose (books : Books ledger r carried) (dead : r.isIssued h = false) :
    Books ledger r fun k => carried k ∧ k ≠ h := by
  constructor
  case tidy => exact books.tidy
  case counted => exact books.counted
  case retired => exact books.retired
  case owned =>
    refine fun k there => (books.owned k there).imp_right fun belongs => ⟨belongs, ?_⟩
    rintro rfl
    rw [dead] at there
    cases there
  case missing => exact fun k known => books.missing k (known.imp_right And.left)
  case apart => exact fun k given belongs => books.apart k given belongs.1
  case finished =>
    intro k done
    obtain ⟨notHosts, notWrappers, kept⟩ := books.finished k done
    exact ⟨notHosts, fun belongs => notWrappers belongs.1, kept⟩
  case nodup => exact books.nodup

end Books

end ScriptHost.Bridge

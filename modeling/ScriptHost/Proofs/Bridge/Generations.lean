import ScriptHost.Bridge.Registry
/-!
How long a released handle stays dead. Each release of a slot counts up its generation, which is a
word of 32 bits. A handle that was released is stale until its slot has been released so often that
the generation has come round, and it is issued a second time then.
-/
namespace ScriptHost.Bridge.Registry

open Host

/-! ## Histories -/

/-- What can be done to a registry: issuing a handle for an object or a type, and releasing one. -/
inductive Operation
  | issue (entry : Entry)
  | release (h : Handle)

/-- The registry after an operation. Releasing a handle that is not issued changes nothing. -/
def Operation.apply (r : Registry) : Operation → Registry
  | .issue entry => (r.insert entry).2
  | .release h => (r.release? h).getD r

/-- The registry after operations in turn. -/
def run (r : Registry) (ops : List Operation) : Registry :=
  ops.foldl Operation.apply r

/-- Whether an operation releases a slot. -/
def Operation.releases (r : Registry) (slot : UInt32) : Operation → Bool
  | .issue _ => false
  | .release h => h.index == slot && r.isIssued h

/-- How often operations in turn release a slot. -/
def releases (slot : UInt32) : Registry → List Operation → Nat
  | _, [] => 0
  | r, op :: rest => (op.releases r slot).toNat + releases slot (op.apply r) rest

/-- How often a slot was released, as its word counts it. -/
def generation? (r : Registry) (slot : UInt32) : Option UInt32 :=
  r.slots[slot.toNat]?.map (·.generation)

variable {r : Registry} {h : Handle} {slot : UInt32}

theorem run_append (r : Registry) (first second : List Operation) :
    r.run (first ++ second) = (r.run first).run second :=
  List.foldl_append

theorem run_cons (r : Registry) (op : Operation) (rest : List Operation) :
    r.run (op :: rest) = (op.apply r).run rest := rfl

theorem releases_release (slot : UInt32) (r : Registry) (h : Handle) :
    (Operation.release h).releases r slot = (h.index == slot && r.isIssued h) := rfl

theorem releases_cons (slot : UInt32) (r : Registry) (op : Operation) (rest : List Operation) :
    releases slot r (op :: rest) =
      (op.releases r slot).toNat + releases slot (op.apply r) rest := rfl

/-- A release empties the slot of an issued handle and counts up its generation. -/
theorem apply_release (issued : r.isIssued h = true) :
    Operation.apply r (.release h) = {
      slots := r.slots.setIfInBounds h.index.toNat ⟨h.generation + 1, none⟩
      free := h.index :: r.free
      live := r.live - 1 } := by
  simp [Operation.apply, release?, issued]

theorem apply_release_of_dead (dead : r.isIssued h = false) :
    Operation.apply r (.release h) = r := by
  simp [Operation.apply, release?, dead]

/-! ## Generations -/

/-- A handle is issued if its slot holds something and is of its generation. -/
theorem isIssued_iff :
    r.isIssued h = true ↔
      ∃ entry, r.slots[h.index.toNat]? = some ⟨h.generation, some entry⟩ := by
  unfold isIssued entry?
  cases found : r.slots[h.index.toNat]? with
  | none => simp
  | some place =>
    obtain ⟨generation, entry⟩ := place
    by_cases same : generation = h.generation
    · cases entry <;> simp [same]
    · simp [same]

theorem generation?_of_isIssued (issued : r.isIssued h = true) :
    r.generation? h.index = some h.generation := by
  obtain ⟨entry, found⟩ := isIssued_iff.1 issued
  unfold generation?
  rw [found]
  rfl

/-- Issuing a handle does not count up any generation. -/
theorem generation?_insert {g : UInt32} (known : r.generation? slot = some g) (entry : Entry) :
    (r.insert entry).2.generation? slot = some g := by
  obtain ⟨place, found, rfl⟩ := Option.map_eq_some_iff.1 known
  obtain ⟨inBounds, _⟩ := Array.getElem?_eq_some_iff.1 found
  unfold insert generation?
  cases r.free with
  | nil =>
    dsimp only
    rw [Array.getElem?_push_lt inBounds, ← Array.getElem?_eq_getElem inBounds, found]
    rfl
  | cons index free =>
    dsimp only
    by_cases same : index = slot
    · subst same
      rw [Array.getElem?_setIfInBounds_self_of_lt inBounds, found]
      rfl
    · have apart : index.toNat ≠ slot.toNat := fun equal => same (UInt32.toNat_inj.1 equal)
      rw [Array.getElem?_setIfInBounds_ne apart, found]
      rfl

/-- A release counts up the generation of its slot. -/
theorem generation?_release (issued : r.isIssued h = true) :
    (Operation.apply r (.release h)).generation? h.index = some (h.generation + 1) := by
  obtain ⟨entry, found⟩ := isIssued_iff.1 issued
  obtain ⟨inBounds, _⟩ := Array.getElem?_eq_some_iff.1 found
  unfold generation?
  rw [apply_release issued]
  dsimp only
  rw [Array.getElem?_setIfInBounds_self_of_lt inBounds]
  rfl

/-- An operation counts up the generation of a slot if it releases it, and keeps it otherwise. -/
theorem generation?_apply {g : UInt32} (known : r.generation? slot = some g) (op : Operation) :
    (op.apply r).generation? slot = some (g + .ofNat (op.releases r slot).toNat) := by
  have kept : g + UInt32.ofNat false.toNat = g := UInt32.add_zero g
  cases op with
  | issue entry => exact (generation?_insert known entry).trans (congrArg some kept.symm)
  | release h =>
    rw [releases_release]
    cases issued : r.isIssued h with
    | false =>
      rw [Bool.and_false, kept, apply_release_of_dead issued]
      exact known
    | true =>
      rw [Bool.and_true]
      by_cases here : h.index = slot
      · subst here
        obtain rfl := Option.some.inj (known.symm.trans (generation?_of_isIssued issued))
        rw [generation?_release issued, beq_self_eq_true]
        rfl
      · have apart : h.index.toNat ≠ slot.toNat := fun equal => here (UInt32.toNat_inj.1 equal)
        rw [beq_false_of_ne here, kept, apply_release issued]
        unfold generation?
        dsimp only
        rw [Array.getElem?_setIfInBounds_ne apart]
        exact known

/-- The generation of a slot counts the releases of the slot, whatever else is done. -/
theorem generation?_run {g : UInt32} (known : r.generation? slot = some g) (ops : List Operation) :
    (r.run ops).generation? slot = some (g + .ofNat (releases slot r ops)) := by
  induction ops generalizing r g with
  | nil =>
    have kept : g + UInt32.ofNat 0 = g := UInt32.add_zero g
    exact known.trans (congrArg some kept.symm)
  | cons op rest ih =>
    rw [run_cons, ih (generation?_apply known op), releases_cons, UInt32.ofNat_add,
      UInt32.add_assoc]

/-- A word that is counted up at least once, and too seldom to come round, has changed. -/
theorem generation_ne {g : UInt32} {n : Nat} (few : n < UInt32.size - 1) :
    g + 1 + .ofNat n ≠ g := by
  intro same
  have bound := g.toNat_lt
  have size : UInt32.size = 4294967296 := rfl
  have words := congrArg UInt32.toNat same
  rw [UInt32.toNat_add, UInt32.toNat_add, UInt32.toNat_one, UInt32.toNat_ofNat'] at words
  omega

/-- A handle of an earlier generation than its slot is stale. -/
theorem stale_of_generation {g : UInt32} (known : r.generation? h.index = some g)
    (other : g ≠ h.generation) (alive : ObjectRef → Bool) :
    r.isIssued h = false ∧ r.resolve alive h = .error (.stale h) := by
  obtain ⟨place, found, rfl⟩ := Option.map_eq_some_iff.1 known
  have nothing : r.entry? h = none := by
    unfold entry?
    rw [found]
    exact if_neg other
  unfold isIssued resolve
  rw [nothing]
  exact ⟨rfl, rfl⟩

/-- A released handle is stale in every later state of the registry, whatever is issued and released
in between, unless its slot was released another `UInt32.size - 1` times: its generation has come round
then. -/
theorem stale_of_released (before after : List Operation) (h : Handle)
    (issued : (run {} before).isIssued h = true)
    (few : releases h.index (run {} (before ++ [.release h])) after < UInt32.size - 1)
    (alive : ObjectRef → Bool) :
    (run {} (before ++ .release h :: after)).isIssued h = false ∧
      (run {} (before ++ .release h :: after)).resolve alive h = .error (.stale h) := by
  have released : (run {} (before ++ [.release h])).generation? h.index =
      some (h.generation + 1) := by
    rw [run_append]
    exact generation?_release issued
  have later : run {} (before ++ .release h :: after) =
      (run {} (before ++ [.release h])).run after := by
    rw [← run_append, List.append_assoc]
    rfl
  rw [later]
  exact stale_of_generation (generation?_run released after) (generation_ne few) alive

/-! ## Coming round -/

/-- Using the first slot again and again, from its second generation on. -/
def reuse (entry : Entry) (rounds : Nat) : List Operation :=
  (List.range rounds).flatMap fun n => [.issue entry, .release ⟨0, .ofNat (n + 1)⟩]

/-- Each use of the first slot counts up its generation, and leaves it free. -/
theorem run_reuse (entry : Entry) (rounds : Nat) :
    run {} (.issue entry :: .release ⟨0, 0⟩ :: reuse entry rounds) =
      { slots := #[⟨.ofNat (rounds + 1), none⟩], free := [0], live := 0 } := by
  induction rounds with
  | zero => rfl
  | succ rounds ih =>
    have split : reuse entry (rounds + 1) =
        reuse entry rounds ++ [.issue entry, .release ⟨0, .ofNat (rounds + 1)⟩] := by
      unfold reuse
      rw [List.range_succ, List.flatMap_append, List.flatMap_singleton]
    rw [split, ← List.cons_append, ← List.cons_append, run_append, ih]
    have issued : isIssued
        { slots := #[⟨.ofNat (rounds + 1), some entry⟩], free := [], live := 1 }
        ⟨0, .ofNat (rounds + 1)⟩ = true := isIssued_iff.2 ⟨entry, rfl⟩
    refine (apply_release issued).trans ?_
    rw [UInt32.ofNat_add (rounds + 1) 1]
    rfl

/-- Using its slot once more does not help a released handle. -/
theorem stale_of_one_reuse :
    (run {} [.issue (.type ⟨1⟩)]).isIssued ⟨0, 0⟩ = true ∧
      (run {} [.issue (.type ⟨1⟩), .release ⟨0, 0⟩, .issue (.type ⟨1⟩)]).isIssued ⟨0, 0⟩ = false ∧
      (run {} [.issue (.type ⟨1⟩), .release ⟨0, 0⟩, .issue (.type ⟨1⟩)]).resolve (fun _ => true)
        ⟨0, 0⟩ = .error (.stale ⟨0, 0⟩) :=
  ⟨by decide, stale_of_released [.issue (.type ⟨1⟩)] [.issue (.type ⟨1⟩)] ⟨0, 0⟩ (by decide)
    (by decide) fun _ => true⟩

/-- After `UInt32.size` releases of its slot, a released handle is issued again. -/
theorem released_resolves_again :
    (run {} [.issue (.type ⟨1⟩)]).isIssued ⟨0, 0⟩ = true ∧
      (run {} [.issue (.type ⟨1⟩), .release ⟨0, 0⟩]).isIssued ⟨0, 0⟩ = false ∧
      (run {} ((.issue (.type ⟨1⟩) :: .release ⟨0, 0⟩ :: reuse (.type ⟨1⟩) (UInt32.size - 1)) ++
        [.issue (.type ⟨1⟩)])).isIssued ⟨0, 0⟩ = true := by
  refine ⟨by decide, by decide, ?_⟩
  rw [run_append, run_reuse]
  exact isIssued_iff.2 ⟨.type ⟨1⟩, rfl⟩

end ScriptHost.Bridge.Registry

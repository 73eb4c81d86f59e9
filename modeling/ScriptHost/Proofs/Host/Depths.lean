import ScriptHost.Host.Verify
/-!
What the check of a body records. A body that is accepted has a depth for every instruction that
control can reach, and each of these instructions leads to the depths of its successors.
-/
namespace ScriptHost.Host.Verify

variable {body : Body} {shape : MethodShape} {resolve : MethodToken → Option CallEffect}

/-! ## Where control goes from one instruction -/

/-- The positions after an instruction that leaves `after` operands. -/
def successors (instr : Instr) (pc after : Nat) : List Visit :=
  (if instr.isTerminator then [] else [⟨pc + 1, after⟩]) ++
    instr.branchTarget?.toList.map fun target => ⟨target.toNat, after⟩

/-- An instruction is sound at a depth if its operands are there, its slots and tokens name
something, and control stays inside the body. -/
theorem visit_eq_ok_iff {pc depth : Nat} {instr : Instr} {next : List Visit} :
    visit body shape resolve pc depth instr = .ok next ↔
      ∃ effect, stackEffect body shape resolve pc instr = .ok effect ∧ effect.pops ≤ depth ∧
        (instr = .ret → depth = shape.returnsValue.toNat) ∧
        (∀ v ∈ successors instr pc (depth - effect.pops + effect.pushes), v.pc < body.code.size) ∧
        successors instr pc (depth - effect.pops + effect.pushes) = next := by
  simp only [visit, bind, Except.bind, pure, Except.pure, throw, throwThe, MonadExceptOf.throw]
  cases stackEffect body shape resolve pc instr with
  | error e => simp
  | ok effect =>
    simp only [Except.ok.injEq, exists_eq_left', successors]
    by_cases enough : depth < effect.pops
    · have notLe : ¬ effect.pops ≤ depth := Nat.not_le.2 enough
      simp [enough, notLe]
    by_cases atReturn : instr = .ret ∧ depth ≠ shape.returnsValue.toNat
    · simp [enough, atReturn]
    have returns : instr = .ret → depth = shape.returnsValue.toNat := fun isRet =>
      Decidable.byContradiction fun other => atReturn ⟨isRet, other⟩
    rw [if_neg enough, if_neg atReturn, and_iff_right (Nat.not_lt.1 enough),
      and_iff_right returns]
    cases instr.branchTarget? with
    | none =>
      cases instr.isTerminator with
      | true => simp
      | false => by_cases straight : pc + 1 < body.code.size <;> simp [straight]
    | some target =>
      by_cases branch : target.toNat < body.code.size
      · cases instr.isTerminator with
        | true => simp [branch]
        | false => by_cases straight : pc + 1 < body.code.size <;> simp [branch, straight]
      · cases instr.isTerminator <;> simp [branch]

/-- Control stays inside the body. -/
theorem inside_of_visit {pc depth : Nat} {instr : Instr} {next : List Visit}
    (visited : visit body shape resolve pc depth instr = .ok next) :
    ∀ v ∈ next, v.pc < body.code.size := by
  obtain ⟨_, _, _, _, inside, rfl⟩ := visit_eq_ok_iff.1 visited
  exact inside

/-! ## The work list -/

/-- Every recorded depth fits its instruction, and its successors are recorded or still to do. -/
def Pending (body : Body) (shape : MethodShape) (resolve : MethodToken → Option CallEffect)
    (depths : Depths) (work : List Visit) : Prop :=
  ∀ pc depth : Nat, depths[pc]? = some (some depth) →
    ∃ instr next, body.code[pc]? = some instr ∧
      visit body shape resolve pc depth instr = .ok next ∧
      ∀ v ∈ next, depths[v.pc]? = some (some v.depth) ∨ v ∈ work

/-- A recorded depth never changes, and a new one does not touch the others. -/
theorem recorded_of_set {depths : Depths} {pc depth at' recorded : Nat}
    (free : depths[pc]? = some none) (known : depths[at']? = some (some recorded)) :
    (depths.setIfInBounds pc (some depth))[at']? = some (some recorded) := by
  have distinct : pc ≠ at' := by
    rintro rfl
    rw [free] at known
    cases known
  rw [Array.getElem?_setIfInBounds_ne distinct]
  exact known

/-- The place of an instruction that is visited first takes its depth. -/
theorem recorded_at_set {depths : Depths} {pc depth : Nat} (free : depths[pc]? = some none) :
    (depths.setIfInBounds pc (some depth))[pc]? = some (some depth) := by
  obtain ⟨inBounds, _⟩ := Array.getElem?_eq_some_iff.1 free
  exact Array.getElem?_setIfInBounds_self_of_lt inBounds

/-- Visiting an instruction moves its successors to the front of the work. -/
theorem Pending.visit {depths : Depths} {pc depth : Nat} {rest next : List Visit} {instr : Instr}
    (pending : Pending body shape resolve depths (⟨pc, depth⟩ :: rest))
    (free : depths[pc]? = some none) (found : body.code[pc]? = some instr)
    (step : visit body shape resolve pc depth instr = .ok next) :
    Pending body shape resolve (depths.setIfInBounds pc (some depth)) (next ++ rest) := by
  intro other recorded known
  by_cases same : pc = other
  · subst same
    rw [recorded_at_set free] at known
    cases known
    exact ⟨instr, next, found, step, fun v member => .inr (List.mem_append_left _ member)⟩
  · rw [Array.getElem?_setIfInBounds_ne same] at known
    obtain ⟨i, targets, code, visited, reached⟩ := pending other recorded known
    refine ⟨i, targets, code, visited, fun v member => ?_⟩
    rcases reached v member with old | waiting
    · exact .inl (recorded_of_set free old)
    · rcases List.mem_cons.1 waiting with rfl | later
      · exact .inl (recorded_at_set free)
      · exact .inr (List.mem_append_right _ later)

/-- A visit that finds its depth recorded already can be dropped. -/
theorem Pending.drop {depths : Depths} {v : Visit} {rest : List Visit}
    (pending : Pending body shape resolve depths (v :: rest))
    (known : depths[v.pc]? = some (some v.depth)) :
    Pending body shape resolve depths rest := by
  intro pc depth recorded
  obtain ⟨instr, next, code, visited, reached⟩ := pending pc depth recorded
  refine ⟨instr, next, code, visited, fun u member => ?_⟩
  rcases reached u member with old | waiting
  · exact .inl old
  · rcases List.mem_cons.1 waiting with rfl | later
    · exact .inl known
    · exact .inr later

/-- What working off a list achieves: nothing stays pending, the list is recorded, and what was
recorded before still is. -/
theorem walk_records {depths result : Depths} {work : List Visit}
    (walked : walk body shape resolve depths work = .ok result)
    (size : depths.size = body.code.size) (inside : ∀ v ∈ work, v.pc < body.code.size)
    (pending : Pending body shape resolve depths work) :
    Pending body shape resolve result [] ∧
      (∀ v ∈ work, result[v.pc]? = some (some v.depth)) ∧
      ∀ pc depth : Nat, depths[pc]? = some (some depth) → result[pc]? = some (some depth) := by
  fun_induction walk body shape resolve depths work with
  | case1 depths =>
    cases walked
    exact ⟨pending, fun _ member => (List.not_mem_nil member).elim, fun _ _ known => known⟩
  | case2 => cases walked
  | case3 depths pc depth rest instr free found next step ih =>
    have inside' : ∀ v ∈ next ++ rest, v.pc < body.code.size := by
      intro v member
      rcases List.mem_append.1 member with new | old
      · exact inside_of_visit step v new
      · exact inside v (List.mem_cons_of_mem _ old)
    obtain ⟨settled, listed, kept⟩ :=
      ih walked (by simpa using size) inside' (pending.visit free found step)
    refine ⟨settled, fun v member => ?_, fun at' recorded known =>
      kept at' recorded (recorded_of_set free known)⟩
    rcases List.mem_cons.1 member with rfl | later
    · exact kept _ _ (recorded_at_set free)
    · exact listed v (List.mem_append_right _ later)
  | case4 depths pc rest expected known ih =>
    obtain ⟨settled, listed, kept⟩ := ih walked size
      (fun v member => inside v (List.mem_cons_of_mem _ member)) (pending.drop known)
    refine ⟨settled, fun v member => ?_, kept⟩
    rcases List.mem_cons.1 member with rfl | later
    · exact kept pc expected known
    · exact listed v later
  | case5 => cases walked
  | case6 depths pc depth rest notKnown notFresh =>
    -- Both lists have a place for every position that is visited, so this case does not arise.
    have inBounds : pc < body.code.size := inside ⟨pc, depth⟩ List.mem_cons_self
    have found : body.code[pc]? = some body.code[pc] := Array.getElem?_eq_getElem inBounds
    have place : depths[pc]? = some depths[pc] := Array.getElem?_eq_getElem (size ▸ inBounds)
    cases entry : depths[pc] with
    | none => exact (notFresh _ (place.trans (congrArg some entry)) found).elim
    | some expected => exact (notKnown expected (place.trans (congrArg some entry))).elim

/-! ## The record of a body -/

/-- What the check of a body records. -/
def record (body : Body) (shape : MethodShape) (resolve : MethodToken → Option CallEffect) :
    Except VerifyError Depths :=
  walk body shape resolve (Array.replicate body.code.size none) [⟨0, 0⟩]

/-- A record that fits its body: control enters with no operands, and an instruction with a recorded
depth is sound at that depth and leads to recorded depths only. -/
structure Consistent (body : Body) (shape : MethodShape)
    (resolve : MethodToken → Option CallEffect) (depths : Depths) : Prop where
  entry : depths[0]? = some (some 0)
  step : ∀ pc depth, depths[pc]? = some (some depth) →
    ∃ instr next, body.code[pc]? = some instr ∧
      visit body shape resolve pc depth instr = .ok next ∧
      ∀ v ∈ next, depths[v.pc]? = some (some v.depth)

/-- A body is accepted exactly if it has code and a record. -/
theorem verify_eq_ok_iff :
    verify body shape resolve = .ok () ↔
      0 < body.code.size ∧ ∃ depths, record body shape resolve = .ok depths := by
  unfold verify record
  by_cases empty : body.code.isEmpty
  · simp [Array.isEmpty_iff.1 empty]
  · have positive : 0 < body.code.size := by
      simpa [Nat.pos_iff_ne_zero] using empty
    rw [if_neg empty]
    cases walk body shape resolve (Array.replicate body.code.size none) [⟨0, 0⟩] with
    | error e => simp [Except.map]
    | ok depths => simp [Except.map, positive]

/-- The record of an accepted body fits it. -/
theorem consistent_of_record {depths : Depths} (code : 0 < body.code.size)
    (recorded : record body shape resolve = .ok depths) :
    Consistent body shape resolve depths := by
  have nothing : Pending body shape resolve (Array.replicate body.code.size none) [⟨0, 0⟩] := by
    intro pc depth known
    simp only [Array.getElem?_replicate] at known
    split at known <;> cases known
  obtain ⟨settled, listed, _⟩ := walk_records recorded (by simp) (by simpa using code) nothing
  refine ⟨listed ⟨0, 0⟩ (List.mem_singleton.2 rfl), fun pc depth known => ?_⟩
  obtain ⟨instr, next, found, visited, reached⟩ := settled pc depth known
  refine ⟨instr, next, found, visited, fun v member => ?_⟩
  rcases reached v member with done | waiting
  · exact done
  · exact (List.not_mem_nil waiting).elim

end ScriptHost.Host.Verify

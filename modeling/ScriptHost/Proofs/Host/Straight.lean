import ScriptHost.Proofs.Host.WellFormed
/-!
Code in a row: the depths that it runs through. A body stays well-formed when code in a row is put
in front of it and its branches move along.
-/
namespace ScriptHost.Host

variable {body : Body} {shape : MethodShape} {resolve : MethodToken → Option CallEffect}

/-- The depth after an instruction. -/
def Instr.depthAfter (shape : MethodShape) (resolve : MethodToken → Option CallEffect) (depth : Nat)
    (instr : Instr) : Nat :=
  depth - instr.pops shape resolve + instr.pushes resolve

/-- The depth after instructions in a row. -/
def settle (shape : MethodShape) (resolve : MethodToken → Option CallEffect) (depth : Nat)
    (code : List Instr) : Nat :=
  code.foldl (Instr.depthAfter shape resolve) depth

/-- Instructions in a row that can run from one depth to another. -/
def Flows (body : Body) (shape : MethodShape) (resolve : MethodToken → Option CallEffect) :
    Nat → List Instr → Nat → Prop
  | depth, [], final => depth = final
  | depth, instr :: rest, final =>
    instr.Operable body shape resolve ∧ instr.pops shape resolve ≤ depth ∧
      (instr = .ret → depth = shape.returnsValue.toNat) ∧
      Flows body shape resolve (instr.depthAfter shape resolve depth) rest final

namespace Flows

theorem append {first second : List Instr} {depth between final : Nat}
    (before : Flows body shape resolve depth first between)
    (after : Flows body shape resolve between second final) :
    Flows body shape resolve depth (first ++ second) final := by
  induction first generalizing depth with
  | nil =>
    cases before
    exact after
  | cons instr rest ih =>
    obtain ⟨operable, enough, returns, others⟩ := before
    exact ⟨operable, enough, returns, ih others⟩

/-- Code for every element of a list, each of which leaves the depth as it was. -/
theorem flatMap {α : Type} {code : α → List Instr} {list : List α} {depth : Nat}
    (each : ∀ a ∈ list, Flows body shape resolve depth (code a) depth) :
    Flows body shape resolve depth (list.flatMap code) depth := by
  induction list with
  | nil => rfl
  | cons a rest ih =>
    obtain ⟨first, others⟩ := List.forall_mem_cons.1 each
    exact first.append (ih others)

theorem settle_eq {code : List Instr} {depth final : Nat}
    (flows : Flows body shape resolve depth code final) : settle shape resolve depth code = final := by
  induction code generalizing depth with
  | nil => exact flows
  | cons instr rest ih =>
    obtain ⟨_, _, _, others⟩ := flows
    exact ih others

/-- Each of the instructions can run at the depth that those before it leave. -/
theorem getElem? {code : List Instr} {depth final pc : Nat} {instr : Instr}
    (flows : Flows body shape resolve depth code final) (found : code[pc]? = some instr) :
    instr.Operable body shape resolve ∧
      instr.pops shape resolve ≤ settle shape resolve depth (code.take pc) ∧
      (instr = .ret → settle shape resolve depth (code.take pc) = shape.returnsValue.toNat) := by
  induction code generalizing depth pc with
  | nil => cases found
  | cons head rest ih =>
    obtain ⟨operable, enough, returns, others⟩ := flows
    cases pc with
    | zero =>
      cases found
      exact ⟨operable, enough, returns⟩
    | succ pc => exact ih others found

end Flows

theorem settle_take_succ {code : List Instr} {depth pc : Nat} {instr : Instr}
    (found : code[pc]? = some instr) :
    settle shape resolve depth (code.take (pc + 1)) =
      instr.depthAfter shape resolve (settle shape resolve depth (code.take pc)) := by
  unfold settle
  rw [List.take_add_one, found, Option.toList_some, List.foldl_append]
  rfl

/-! ## Instructions elsewhere -/

theorem Instr.pops_mapTarget (f : UInt32 → UInt32) (instr : Instr) :
    (instr.mapTarget f).pops shape resolve = instr.pops shape resolve := by
  cases instr <;> rfl

theorem Instr.pushes_mapTarget (f : UInt32 → UInt32) (instr : Instr) :
    (instr.mapTarget f).pushes resolve = instr.pushes resolve := by
  cases instr <;> rfl

theorem Instr.branchTarget?_mapTarget (f : UInt32 → UInt32) (instr : Instr) :
    (instr.mapTarget f).branchTarget? = instr.branchTarget?.map f := by
  cases instr <;> rfl

theorem Instr.mapTarget_eq_ret {f : UInt32 → UInt32} {instr : Instr} :
    instr.mapTarget f = .ret ↔ instr = .ret := by
  cases instr <;> simp [Instr.mapTarget]

/-- An instruction finds what it needs in a body with more locals, wherever it branches to. -/
theorem Instr.Operable.mapTarget {instr : Instr} {larger : Body} (f : UInt32 → UInt32)
    (operable : instr.Operable body shape resolve) (locals : body.locals.size ≤ larger.locals.size) :
    (instr.mapTarget f).Operable larger shape resolve := by
  cases instr with
  | ldLoc i | stLoc i => exact Nat.lt_of_lt_of_le operable locals
  | _ => exact operable

/-- An instruction that has moved leads to where its successors have moved. -/
theorem Instr.leadsTo_moved {instr : Instr} {n : UInt32} {pc next : Nat}
    (movable : ∀ target, instr.branchTarget? = some target →
      target.toNat + n.toNat < UInt32.size)
    (leads : (instr.mapTarget (· + n)).LeadsTo (n.toNat + pc) next) :
    ∃ before, next = n.toNat + before ∧ instr.LeadsTo pc before := by
  rcases leads with ⟨goesOn, rfl⟩ | ⟨target, branches, rfl⟩
  · refine ⟨pc + 1, Nat.add_assoc _ _ _, .inl ⟨?_, rfl⟩⟩
    cases instr <;> exact goesOn
  · cases instr with
    | br own | brTrue own | brFalse own =>
      cases branches
      refine ⟨own.toNat, ?_, .inr ⟨own, rfl, rfl⟩⟩
      have fits : own.toNat + n.toNat < UInt32.size := movable own rfl
      rw [UInt32.toNat_add, Nat.mod_eq_of_lt fits, Nat.add_comm]
    | _ => cases branches

/-! ## Code in front of a body -/

/-- A body that stands behind code in a row. -/
structure Behind (before : List Instr) (n : UInt32) (own placed : Body) : Prop where
  length : n.toNat = before.length
  locals : own.locals.size ≤ placed.locals.size
  movable : ∀ instr ∈ own.code, ∀ target, instr.branchTarget? = some target →
    target.toNat + n.toNat < UInt32.size
  code : placed.code = before.toArray ++ own.code.map (Instr.mapTarget (· + n))

namespace Behind

variable {before : List Instr} {n : UInt32} {own placed : Body}

theorem getElem?_lt (behind : Behind before n own placed) {pc : Nat} (inFront : pc < before.length) :
    placed.code[pc]? = before[pc]? := by
  rw [behind.code, Array.getElem?_append_left (by rw [List.size_toArray]; exact inFront),
    List.getElem?_toArray]

theorem getElem?_add (behind : Behind before n own placed) (pc : Nat) :
    placed.code[n.toNat + pc]? = own.code[pc]?.map (Instr.mapTarget (· + n)) := by
  rw [behind.code, behind.length, ← List.size_toArray,
    Array.getElem?_append_right (Nat.le_add_right _ _), Nat.add_sub_cancel_left, Array.getElem?_map]

theorem size_code (behind : Behind before n own placed) :
    placed.code.size = n.toNat + own.code.size := by
  rw [behind.code, Array.size_append, List.size_toArray, Array.size_map, behind.length]

/-- Depths of a body that stands behind code in a row. -/
def depths (shape : MethodShape) (resolve : MethodToken → Option CallEffect) (before : List Instr)
    (depth : Nat → Nat) (pc : Nat) : Nat :=
  if pc < before.length then settle shape resolve 0 (before.take pc) else depth (pc - before.length)

theorem depths_lt {depth : Nat → Nat} {pc : Nat} (inFront : pc < before.length) :
    depths shape resolve before depth pc = settle shape resolve 0 (before.take pc) :=
  if_pos inFront

theorem depths_add (behind : Behind before n own placed) (depth : Nat → Nat) (pc : Nat) :
    depths shape resolve before depth (n.toNat + pc) = depth pc := by
  unfold depths
  rw [behind.length, if_neg (by omega), Nat.add_sub_cancel_left]

/-- Where the code in front goes over into the body, both have the same depth. -/
theorem depths_le {depth : Nat → Nat} {pc : Nat} (flows : Flows placed shape resolve 0 before 0)
    (entry : depth 0 = 0) (inFront : pc ≤ before.length) :
    depths shape resolve before depth pc = settle shape resolve 0 (before.take pc) := by
  rcases Nat.lt_or_eq_of_le inFront with inside | rfl
  · exact depths_lt inside
  · unfold depths
    rw [if_neg (Nat.lt_irrefl _), Nat.sub_self, entry, List.take_length, flows.settle_eq]

/-- Control gets to the moved instructions only where it got to the instructions themselves. -/
theorem reachable (behind : Behind before n own placed)
    (branches : ∀ (pc : Nat) (instr : Instr) (next : Nat), before[pc]? = some instr →
      instr.LeadsTo pc next → next ≤ before.length)
    {pc : Nat} (reached : Reachable placed pc) :
    pc < before.length ∨ ∃ at', pc = n.toNat + at' ∧ Reachable own at' := by
  have orEntry : ∀ pc, pc ≤ before.length →
      pc < before.length ∨ ∃ at', pc = n.toNat + at' ∧ Reachable own at' := by
    intro pc inFront
    rcases Nat.lt_or_eq_of_le inFront with inside | rfl
    · exact .inl inside
    · exact .inr ⟨0, behind.length.symm, .entry⟩
  induction reached with
  | entry => exact orEntry 0 (Nat.zero_le _)
  | @step pc next instr _ found leads ih =>
    rcases ih with inFront | ⟨at', rfl, reached'⟩
    · rw [behind.getElem?_lt inFront] at found
      exact orEntry next (branches pc instr next found leads)
    · rw [behind.getElem?_add] at found
      obtain ⟨instr', found', rfl⟩ := Option.map_eq_some_iff.1 found
      obtain ⟨dest, rfl, leads'⟩ := Instr.leadsTo_moved
        (behind.movable instr' (Array.mem_of_getElem? found')) leads
      exact .inr ⟨dest, rfl, .step reached' found' leads'⟩

/-- Code in a row whose branches stay in front of a body, at the depths of their targets, leaves the
body well-formed. -/
theorem wellFormed (behind : Behind before n own placed)
    (flows : Flows placed shape resolve 0 before 0)
    (branches : ∀ (pc : Nat) (instr : Instr) (target : UInt32), before[pc]? = some instr →
      instr.branchTarget? = some target → target.toNat ≤ before.length ∧ settle shape resolve 0 (before.take target.toNat) =
        settle shape resolve 0 (before.take (pc + 1)))
    (wellFormed : WellFormed own shape resolve) : WellFormed placed shape resolve := by
  obtain ⟨code, depth, entry, sound⟩ := wellFormed
  -- Control that leaves an instruction in front finds the depth of the code up to there.
  have inRow : ∀ (pc : Nat) (instr : Instr) (next : Nat), before[pc]? = some instr →
      instr.LeadsTo pc next → next ≤ before.length ∧ settle shape resolve 0 (before.take next) =
        settle shape resolve 0 (before.take (pc + 1)) := by
    rintro pc instr next found (⟨_, rfl⟩ | ⟨target, branch, rfl⟩)
    · exact ⟨(List.getElem?_eq_some_iff.1 found).1, rfl⟩
    · exact branches pc instr target found branch
  have size := behind.size_code
  have length := behind.length
  refine ⟨by omega, depths shape resolve before depth, ?_, ?_⟩
  · rw [depths_le flows entry (Nat.zero_le _)]
    rfl
  intro pc instr reached found
  rcases behind.reachable (fun pc instr next found leads => (inRow pc instr next found leads).1)
    reached with inFront | ⟨at', rfl, reached'⟩
  · rw [behind.getElem?_lt inFront] at found
    obtain ⟨operable, enough, returns⟩ := flows.getElem? found
    have here : depths shape resolve before depth pc = settle shape resolve 0 (before.take pc) :=
      depths_lt inFront
    rw [← here] at enough returns
    refine ⟨operable, enough, fun next leads => ?_, fun next leads => ?_, returns⟩
    · have inside := (inRow pc instr next found leads).1
      omega
    · obtain ⟨inside, same⟩ := inRow pc instr next found leads
      rw [depths_le flows entry inside, same, settle_take_succ found, here]
      rfl
  · rw [behind.getElem?_add] at found
    obtain ⟨instr', found', rfl⟩ := Option.map_eq_some_iff.1 found
    have movable := behind.movable instr' (Array.mem_of_getElem? found')
    have own := sound at' instr' reached' found'
    refine ⟨own.operable.mapTarget _ behind.locals, ?_, fun next leads => ?_, fun next leads => ?_,
      fun isRet => ?_⟩
    · rw [Instr.pops_mapTarget, behind.depths_add]
      exact own.enough
    · obtain ⟨dest, rfl, leads'⟩ := Instr.leadsTo_moved movable leads
      have inside := own.inside dest leads'
      omega
    · obtain ⟨dest, rfl, leads'⟩ := Instr.leadsTo_moved movable leads
      rw [behind.depths_add, behind.depths_add, Instr.pops_mapTarget, Instr.pushes_mapTarget]
      exact own.after dest leads'
    · rw [behind.depths_add]
      exact own.returns (Instr.mapTarget_eq_ret.1 isRet)

end Behind

end ScriptHost.Host

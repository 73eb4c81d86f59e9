import Mathlib.Logic.Relation
import ScriptHost.Proofs.Host.Depths
/-!
Well-formed bodies, said without the check. A body is well-formed if its reachable instructions have
depths that fit each other. The check accepts exactly these bodies, and so does every other order in
which the positions still to look at could be taken.
-/
namespace ScriptHost.Host

open Verify
open Relation (ReflTransGen)

/-! ## Instructions -/

/-- How many operands an instruction takes. -/
def Instr.pops (shape : MethodShape) (resolve : MethodToken → Option CallEffect) : Instr → Nat
  | .stArg _ | .stLoc _ | .ldFld _ | .newArr _ | .dup | .pop | .brTrue _ | .brFalse _ | .throw => 1
  | .stFld _ | .ldElem | .arith _ | .ceq | .clt => 2
  | .stElem => 3
  | .call t => (resolve t).elim 0 fun effect => effect.params + effect.hasThis.toNat
  | .newObj t => (resolve t).elim 0 (·.params)
  | .ret => shape.returnsValue.toNat
  | .nop | .anchor _ | .br _ | .ldNull | .ldBool _ | .ldInt _ | .ldFloat _ | .ldStr _ | .ldToken _
  | .ldArg _ | .ldLoc _ | .ldThis => 0

/-- How many operands an instruction leaves. -/
def Instr.pushes (resolve : MethodToken → Option CallEffect) : Instr → Nat
  | .ldNull | .ldBool _ | .ldInt _ | .ldFloat _ | .ldStr _ | .ldToken _ | .ldArg _ | .ldLoc _
  | .ldThis | .ldFld _ | .newArr _ | .ldElem | .arith _ | .ceq | .clt | .newObj _ => 1
  | .dup => 2
  | .call t => (resolve t).elim 0 (·.returnsValue.toNat)
  | .nop | .anchor _ | .br _ | .brTrue _ | .brFalse _ | .stArg _ | .stLoc _ | .stFld _ | .stElem
  | .pop | .throw | .ret => 0

/-- The slots, the receiver and the method that an instruction uses are there. -/
def Instr.Operable (body : Body) (shape : MethodShape)
    (resolve : MethodToken → Option CallEffect) : Instr → Prop
  | .ldArg i | .stArg i => i.toNat < shape.params
  | .ldLoc i | .stLoc i => i.toNat < body.locals.size
  | .ldThis => shape.hasThis = true
  | .call t => ∃ effect, resolve t = some effect ∧ effect.constructor = false
  | .newObj t => ∃ effect, resolve t = some effect ∧ effect.constructor = true
  | .nop | .anchor _ | .br _ | .brTrue _ | .brFalse _ | .ldNull | .ldBool _ | .ldInt _ | .ldFloat _
  | .ldStr _ | .ldToken _ | .ldFld _ | .stFld _ | .newArr _ | .ldElem | .stElem | .arith _ | .ceq
  | .clt | .dup | .pop | .throw | .ret => True

/-- Control may go from an instruction at `pc` to `next`: straight on, or along its branch. -/
def Instr.LeadsTo (instr : Instr) (pc next : Nat) : Prop :=
  instr.isTerminator = false ∧ next = pc + 1 ∨
    ∃ target, instr.branchTarget? = some target ∧ next = target.toNat

/-- The positions that control can get to from the start of a body. -/
inductive Reachable (body : Body) : Nat → Prop
  | entry : Reachable body 0
  | step {pc next : Nat} {instr : Instr} (before : Reachable body pc)
      (found : body.code[pc]? = some instr) (leads : instr.LeadsTo pc next) : Reachable body next

variable {body : Body} {shape : MethodShape} {resolve : MethodToken → Option CallEffect}

/-- An instruction that is sound under depths of the operand stack. -/
structure Instr.Sound (body : Body) (shape : MethodShape)
    (resolve : MethodToken → Option CallEffect) (depth : Nat → Nat) (pc : Nat) (instr : Instr) :
    Prop where
  operable : instr.Operable body shape resolve
  enough : instr.pops shape resolve ≤ depth pc
  inside : ∀ next, instr.LeadsTo pc next → next < body.code.size
  after : ∀ next, instr.LeadsTo pc next →
    depth next = depth pc - instr.pops shape resolve + instr.pushes resolve
  returns : instr = .ret → depth pc = shape.returnsValue.toNat

/-- A body is well-formed if it has code, and depths under which all reachable instructions are
sound. -/
def WellFormed (body : Body) (shape : MethodShape) (resolve : MethodToken → Option CallEffect) :
    Prop :=
  0 < body.code.size ∧ ∃ depth : Nat → Nat, depth 0 = 0 ∧
    ∀ pc instr, Reachable body pc → body.code[pc]? = some instr →
      instr.Sound body shape resolve depth pc

namespace Verify

/-- The check finds the effect of exactly the instructions that can run. -/
theorem stackEffect_eq_ok_iff {pc : Nat} {instr : Instr} {effect : StackEffect} :
    stackEffect body shape resolve pc instr = .ok effect ↔
      instr.Operable body shape resolve ∧
        effect = ⟨instr.pops shape resolve, instr.pushes resolve⟩ := by
  cases instr with
  | ldArg i | stArg i | ldLoc i | stLoc i | ldThis =>
    simp only [stackEffect, Instr.Operable, Instr.pops, Instr.pushes]
    split
    · rename_i there
      simp [there, eq_comm]
    · rename_i missing
      simp [missing]
  | call t | newObj t =>
    simp only [stackEffect, Instr.Operable, Instr.pops, Instr.pushes]
    cases known : resolve t with
    | none => simp
    | some found =>
      cases makes : found.constructor <;> simp [makes]
      exact eq_comm
  | _ => simp [stackEffect, Instr.Operable, Instr.pops, Instr.pushes, eq_comm]

theorem mem_successors_iff {instr : Instr} {pc after : Nat} {v : Visit} :
    v ∈ successors instr pc after ↔ instr.LeadsTo pc v.pc ∧ v.depth = after := by
  obtain ⟨next, depth⟩ := v
  unfold successors Instr.LeadsTo
  cases instr.isTerminator <;> cases instr.branchTarget? <;> grind

/-- Looking at an instruction goes well exactly if it is sound under depths that the visits after it
agree with. -/
theorem sound_iff {depth : Nat → Nat} {pc : Nat} {instr : Instr} :
    instr.Sound body shape resolve depth pc ↔
      ∃ next, visit body shape resolve pc (depth pc) instr = .ok next ∧
        ∀ v ∈ next, instr.LeadsTo pc v.pc ∧ v.depth = depth v.pc := by
  constructor
  · intro sound
    refine ⟨_, visit_eq_ok_iff.2 ⟨_, stackEffect_eq_ok_iff.2 ⟨sound.operable, rfl⟩, sound.enough,
      sound.returns, fun v member => ?_, rfl⟩, fun v member => ?_⟩
    · obtain ⟨leads, _⟩ := mem_successors_iff.1 member
      exact sound.inside _ leads
    · obtain ⟨leads, same⟩ := mem_successors_iff.1 member
      exact ⟨leads, same.trans (sound.after _ leads).symm⟩
  · rintro ⟨next, visited, agree⟩
    obtain ⟨effect, effectOk, enough, returns, inside, rfl⟩ := visit_eq_ok_iff.1 visited
    obtain ⟨operable, rfl⟩ := stackEffect_eq_ok_iff.1 effectOk
    refine ⟨operable, enough, fun dest leads => ?_, fun dest leads => ?_, returns⟩
    · exact inside ⟨dest, _⟩ (mem_successors_iff.2 ⟨leads, rfl⟩)
    · exact (agree ⟨dest, _⟩ (mem_successors_iff.2 ⟨leads, rfl⟩)).2.symm

/-! ## Orders of work -/

/-- The depths known so far, and the positions still to look at. -/
abbrev Worklist := Depths × List Visit

/-- The start of every order of work. -/
def Worklist.start (body : Body) : Worklist :=
  (Array.replicate body.code.size none, [⟨0, 0⟩])

/-- Taking a position off the work, wherever it stands: its depth is known already, or it becomes
known and the positions after it join the work. -/
inductive Takes (body : Body) (shape : MethodShape) (resolve : MethodToken → Option CallEffect)
    (v : Visit) : Worklist → Worklist → Prop
  | drop {depths : Depths} {work rest : List Visit} (picked : work.Perm (v :: rest))
      (known : depths[v.pc]? = some (some v.depth)) :
      Takes body shape resolve v (depths, work) (depths, rest)
  | fill {depths : Depths} {work rest next : List Visit} {instr : Instr}
      (picked : work.Perm (v :: rest)) (free : depths[v.pc]? = some none)
      (found : body.code[v.pc]? = some instr)
      (visited : visit body shape resolve v.pc v.depth instr = .ok next) :
      Takes body shape resolve v (depths, work)
        (depths.setIfInBounds v.pc (some v.depth), next ++ rest)

/-- Taking any position off the work. -/
def Works (body : Body) (shape : MethodShape) (resolve : MethodToken → Option CallEffect)
    (s t : Worklist) : Prop :=
  ∃ v, Takes body shape resolve v s t

/-- A position in the work cannot be taken. -/
def Blocked (body : Body) (shape : MethodShape) (resolve : MethodToken → Option CallEffect)
    (s : Worklist) : Prop :=
  ∃ v ∈ s.2, ∀ t, ¬ Takes body shape resolve v s t

/-- Every order of work comes to an end. -/
theorem wellFounded_works :
    WellFounded fun t s => Works body shape resolve s t := by
  refine Subrelation.wf (r := InvImage (· < ·) fun s : Worklist => 2 * unseen s.1 + s.2.length) ?_
    (InvImage.wf _ Nat.lt_wfRel.wf)
  rintro t s ⟨v, takes⟩
  change 2 * unseen t.1 + t.2.length < 2 * unseen s.1 + s.2.length
  cases takes with
  | drop picked known =>
    have length := picked.length_eq
    simp only [List.length_cons] at length ⊢
    omega
  | fill picked free found visited =>
    have length := picked.length_eq
    have fewer := unseen_set _ v.pc v.depth free
    have few := length_visit body shape resolve visited
    simp only [List.length_cons, List.length_append] at length ⊢
    omega

/-! ## What all orders keep -/

/-- A worklist on the way: it has a place for every instruction, its work is inside the body, what
it knows leads to what it knows or works on, and so does the start. -/
structure Worklist.Fits (body : Body) (shape : MethodShape)
    (resolve : MethodToken → Option CallEffect) (s : Worklist) : Prop where
  size : s.1.size = body.code.size
  inside : ∀ v ∈ s.2, v.pc < body.code.size
  pending : Pending body shape resolve s.1 s.2
  entry : s.1[0]? = some (some 0) ∨ ⟨0, 0⟩ ∈ s.2

theorem Worklist.fits_start (code : 0 < body.code.size) :
    (Worklist.start body).Fits body shape resolve := by
  refine ⟨Array.size_replicate, fun v member => ?_, ?_, .inr (List.mem_singleton_self _)⟩
  · rw [List.mem_singleton.1 member]
    exact code
  · intro pc depth known
    simp only [Worklist.start, Array.getElem?_replicate] at known
    split at known <;> cases known

/-- What is pending does not depend on the order of the work. -/
theorem Pending.perm {depths : Depths} {work work' : List Visit}
    (pending : Pending body shape resolve depths work) (same : work.Perm work') :
    Pending body shape resolve depths work' := by
  intro pc depth known
  obtain ⟨instr, next, found, visited, reached⟩ := pending pc depth known
  exact ⟨instr, next, found, visited, fun v member =>
    (reached v member).imp_right fun waiting => same.mem_iff.1 waiting⟩

theorem Worklist.Fits.takes {v : Visit} {s t : Worklist} (fits : s.Fits body shape resolve)
    (takes : Takes body shape resolve v s t) : t.Fits body shape resolve := by
  cases takes with
  | @drop depths work rest picked known =>
    refine ⟨fits.size, fun u member => ?_, (fits.pending.perm picked).drop known, ?_⟩
    · exact fits.inside u (picked.mem_iff.2 (List.mem_cons_of_mem _ member))
    · rcases fits.entry with done | waiting
      · exact .inl done
      · rcases List.mem_cons.1 (picked.mem_iff.1 waiting) with rfl | later
        · exact .inl known
        · exact .inr later
  | @fill depths work rest next instr picked free found visited =>
    refine ⟨?_, fun u member => ?_, (fits.pending.perm picked).visit free found visited, ?_⟩
    · rw [Array.size_setIfInBounds]
      exact fits.size
    · rcases List.mem_append.1 member with new | old
      · exact inside_of_visit visited u new
      · exact fits.inside u (picked.mem_iff.2 (List.mem_cons_of_mem _ old))
    · rcases fits.entry with done | waiting
      · exact .inl (recorded_of_set free done)
      · rcases List.mem_cons.1 (picked.mem_iff.1 waiting) with rfl | later
        · exact .inl (recorded_at_set free)
        · exact .inr (List.mem_append_right _ later)

/-- All that is known or worked on is reachable and has the depth that it has to have. -/
structure Worklist.Agrees (body : Body) (depth : Nat → Nat) (s : Worklist) : Prop where
  known : ∀ pc d, s.1[pc]? = some (some d) → d = depth pc
  work : ∀ v ∈ s.2, Reachable body v.pc ∧ v.depth = depth v.pc

theorem Worklist.agrees_start {depth : Nat → Nat} (entry : depth 0 = 0) :
    (Worklist.start body).Agrees body depth := by
  refine ⟨fun pc d known => ?_, fun v member => ?_⟩
  · simp only [Worklist.start, Array.getElem?_replicate] at known
    split at known <;> cases known
  · rw [List.mem_singleton.1 member]
    exact ⟨.entry, entry.symm⟩

theorem Worklist.Agrees.takes {depth : Nat → Nat} {v : Visit} {s t : Worklist}
    (sound : ∀ pc instr, Reachable body pc → body.code[pc]? = some instr →
      instr.Sound body shape resolve depth pc)
    (agrees : s.Agrees body depth) (takes : Takes body shape resolve v s t) :
    t.Agrees body depth := by
  cases takes with
  | @drop depths work rest picked known =>
    exact ⟨agrees.known, fun u member =>
      agrees.work u (picked.mem_iff.2 (List.mem_cons_of_mem _ member))⟩
  | @fill depths work rest next instr picked free found visited =>
    obtain ⟨reachable, same⟩ := agrees.work v (picked.mem_iff.2 List.mem_cons_self)
    obtain ⟨next', visited', agree⟩ := sound_iff.1 (sound v.pc instr reachable found)
    rw [← same, visited] at visited'
    cases visited'
    refine ⟨fun pc d known => ?_, fun u member => ?_⟩
    · by_cases here : v.pc = pc
      · subst here
        rw [recorded_at_set free] at known
        cases known
        exact same
      · rw [Array.getElem?_setIfInBounds_ne here] at known
        exact agrees.known pc d known
    · rcases List.mem_append.1 member with new | old
      · obtain ⟨leads, depth'⟩ := agree u new
        exact ⟨.step reachable found leads, depth'⟩
      · exact agrees.work u (picked.mem_iff.2 (List.mem_cons_of_mem _ old))

/-- Work that agrees with sound depths can be taken in any order. -/
theorem not_blocked {depth : Nat → Nat} {s : Worklist}
    (sound : ∀ pc instr, Reachable body pc → body.code[pc]? = some instr →
      instr.Sound body shape resolve depth pc)
    (fits : s.Fits body shape resolve) (agrees : s.Agrees body depth) :
    ¬ Blocked body shape resolve s := by
  rintro ⟨v, member, stuck⟩
  obtain ⟨depths, work⟩ := s
  have inBounds : v.pc < body.code.size := fits.inside v member
  have found : body.code[v.pc]? = some body.code[v.pc] := Array.getElem?_eq_getElem inBounds
  have inDepths : v.pc < depths.size := fits.size ▸ inBounds
  have place : depths[v.pc]? = some depths[v.pc] := Array.getElem?_eq_getElem inDepths
  have picked : work.Perm (v :: work.erase v) := List.perm_cons_erase member
  obtain ⟨reachable, same⟩ := agrees.work v member
  cases entry : depths[v.pc] with
  | none =>
    obtain ⟨next, visited, _⟩ := sound_iff.1 (sound v.pc _ reachable found)
    rw [← same] at visited
    exact stuck _ (.fill picked (place.trans (congrArg some entry)) found visited)
  | some known =>
    rw [entry] at place
    obtain rfl : known = v.depth := (agrees.known v.pc known place).trans same.symm
    exact stuck _ (.drop picked place)

/-- Depths of a record that fits its body make it well-formed. -/
theorem Consistent.wellFormed {depths : Depths} (consistent : Consistent body shape resolve depths) :
    WellFormed body shape resolve := by
  obtain ⟨_, _, code, _, _⟩ := consistent.step 0 0 consistent.entry
  refine ⟨(Array.getElem?_eq_some_iff.1 code).1, fun pc => (depths[pc]?.join).getD 0, ?_, ?_⟩
  · dsimp only
    rw [consistent.entry]
    rfl
  · have recorded : ∀ pc, Reachable body pc → ∃ d, depths[pc]? = some (some d) := by
      intro pc reachable
      induction reachable with
      | entry => exact ⟨0, consistent.entry⟩
      | step before found leads ih =>
        obtain ⟨d, known⟩ := ih
        obtain ⟨instr, next, found', visited, reached⟩ := consistent.step _ d known
        obtain rfl := Option.some.inj (found.symm.trans found')
        obtain ⟨effect, _, _, _, _, rfl⟩ := visit_eq_ok_iff.1 visited
        exact ⟨_, reached ⟨_, _⟩ (mem_successors_iff.2 ⟨leads, rfl⟩)⟩
    intro pc instr reachable found
    obtain ⟨d, known⟩ := recorded pc reachable
    obtain ⟨instr', next, found', visited, reached⟩ := consistent.step pc d known
    obtain rfl := Option.some.inj (found.symm.trans found')
    refine sound_iff.2 ⟨next, ?_, fun v member => ⟨?_, ?_⟩⟩
    · rw [known]
      exact visited
    · obtain ⟨effect, _, _, _, _, rfl⟩ := visit_eq_ok_iff.1 visited
      exact (mem_successors_iff.1 member).1
    · rw [reached v member]
      rfl

/-- Without code nothing can be taken. -/
theorem eq_start_of_empty (empty : body.code.size = 0) {s : Worklist}
    (order : ReflTransGen (Works body shape resolve) (Worklist.start body) s) :
    s = Worklist.start body := by
  induction order with
  | refl => rfl
  | tail _ works ih =>
    subst ih
    obtain ⟨v, takes⟩ := works
    have nowhere : (Array.replicate body.code.size none : Depths)[v.pc]? = none := by
      simp [empty]
    cases takes with
    | drop _ known =>
      rw [known] at nowhere
      cases nowhere
    | fill _ free =>
      rw [free] at nowhere
      cases nowhere

/-- Whatever order the work is taken in, a body whose work comes to an end is well-formed, and one
whose work is blocked is not. -/
theorem order_decides {s : Worklist}
    (order : ReflTransGen (Works body shape resolve) (Worklist.start body) s) :
    (s.2 = [] → WellFormed body shape resolve) ∧
      (Blocked body shape resolve s → ¬ WellFormed body shape resolve) := by
  rcases Nat.eq_zero_or_pos body.code.size with empty | code
  · rw [eq_start_of_empty empty order]
    refine ⟨fun done => ?_, fun _ wellFormed => ?_⟩
    · cases done
    · exact absurd wellFormed.1 (Nat.not_lt.2 (Nat.le_of_eq empty))
  have fits : s.Fits body shape resolve := by
    induction order with
    | refl => exact Worklist.fits_start code
    | tail _ works ih =>
      obtain ⟨v, takes⟩ := works
      exact ih.takes takes
  constructor
  · intro done
    obtain ⟨depths, work⟩ := s
    obtain rfl : work = [] := done
    have settled : Consistent body shape resolve depths := by
      refine ⟨fits.entry.resolve_right List.not_mem_nil, fun pc depth known => ?_⟩
      obtain ⟨instr, next, found, visited, reached⟩ := fits.pending pc depth known
      exact ⟨instr, next, found, visited, fun v member =>
        (reached v member).resolve_right List.not_mem_nil⟩
    exact settled.wellFormed
  · rintro blocked ⟨_, depth, entry, sound⟩
    have agrees : s.Agrees body depth := by
      clear blocked fits
      induction order with
      | refl => exact Worklist.agrees_start entry
      | tail _ works ih =>
        obtain ⟨v, takes⟩ := works
        exact ih.takes sound takes
    exact not_blocked sound fits agrees blocked

/-! ## The order of the check -/

/-- The check takes one of the orders, up to its end or up to a position that it cannot take. -/
theorem walk_takes {depths : Depths} {work : List Visit} (size : depths.size = body.code.size)
    (inside : ∀ v ∈ work, v.pc < body.code.size) :
    (∀ result, walk body shape resolve depths work = .ok result →
      ReflTransGen (Works body shape resolve) (depths, work) (result, [])) ∧
    (∀ e, walk body shape resolve depths work = .error e →
      ∃ s, ReflTransGen (Works body shape resolve) (depths, work) s ∧
        Blocked body shape resolve s) := by
  fun_induction walk body shape resolve depths work with
  | case1 depths =>
    refine ⟨fun result same => ?_, fun e same => ?_⟩
    · cases same
      exact .refl
    · cases same
  | case2 depths pc depth rest instr free found cause refused =>
    refine ⟨fun result same => ?_, fun e same => ?_⟩
    · cases same
    · refine ⟨_, .refl, ⟨pc, depth⟩, List.mem_cons_self, fun t takes => ?_⟩
      cases takes with
      | drop _ known =>
        rw [free] at known
        cases known
      | fill _ _ found' visited =>
        obtain rfl := Option.some.inj (found.symm.trans found')
        rw [refused] at visited
        cases visited
  | case3 depths pc depth rest instr free found next step ih =>
    have inside' : ∀ v ∈ next ++ rest, v.pc < body.code.size := by
      intro v member
      rcases List.mem_append.1 member with new | old
      · exact inside_of_visit step v new
      · exact inside v (List.mem_cons_of_mem _ old)
    have taken : Works body shape resolve (depths, ⟨pc, depth⟩ :: rest)
        (depths.setIfInBounds pc (some depth), next ++ rest) :=
      ⟨⟨pc, depth⟩, .fill (.refl _) free found step⟩
    obtain ⟨ends, stops⟩ := ih (by simpa using size) inside'
    refine ⟨fun result walked => .head taken (ends result walked), fun e walked => ?_⟩
    obtain ⟨s, order, blocked⟩ := stops e walked
    exact ⟨s, .head taken order, blocked⟩
  | case4 depths pc rest expected known ih =>
    have taken : Works body shape resolve (depths, ⟨pc, expected⟩ :: rest) (depths, rest) :=
      ⟨⟨pc, expected⟩, .drop (.refl _) known⟩
    obtain ⟨ends, stops⟩ := ih size fun v member => inside v (List.mem_cons_of_mem _ member)
    refine ⟨fun result walked => .head taken (ends result walked), fun e walked => ?_⟩
    obtain ⟨s, order, blocked⟩ := stops e walked
    exact ⟨s, .head taken order, blocked⟩
  | case5 depths pc depth rest expected known other =>
    refine ⟨fun result same => ?_, fun e same => ?_⟩
    · cases same
    · refine ⟨_, .refl, ⟨pc, depth⟩, List.mem_cons_self, fun t takes => ?_⟩
      cases takes with
      | drop _ known' =>
        rw [known] at known'
        cases known'
        exact other rfl
      | fill _ free =>
        rw [known] at free
        cases free
  | case6 depths pc depth rest notKnown notFresh =>
    -- Both lists have a place for every position that is visited, so this case does not arise.
    have inBounds : pc < body.code.size := inside ⟨pc, depth⟩ List.mem_cons_self
    have found : body.code[pc]? = some body.code[pc] := Array.getElem?_eq_getElem inBounds
    have place : depths[pc]? = some depths[pc] := Array.getElem?_eq_getElem (size ▸ inBounds)
    cases entry : depths[pc] with
    | none => exact (notFresh _ (place.trans (congrArg some entry)) found).elim
    | some expected => exact (notKnown expected (place.trans (congrArg some entry))).elim

/-- The check accepts a body exactly if it is well-formed. -/
theorem verify_eq_ok_iff_wellFormed :
    verify body shape resolve = .ok () ↔ WellFormed body shape resolve := by
  rw [verify_eq_ok_iff]
  constructor
  · rintro ⟨code, depths, recorded⟩
    exact (consistent_of_record code recorded).wellFormed
  · intro wellFormed
    refine ⟨wellFormed.1, ?_⟩
    have size : (Worklist.start body).1.size = body.code.size := Array.size_replicate
    have fits : (Worklist.start body).Fits body shape resolve := Worklist.fits_start wellFormed.1
    obtain ⟨_, stops⟩ := walk_takes size fits.inside
    cases recorded : record body shape resolve with
    | ok depths => exact ⟨depths, rfl⟩
    | error e =>
      obtain ⟨s, order, blocked⟩ := stops e recorded
      exact ((order_decides order).2 blocked wellFormed).elim

/-- The check comes to an end and accepts exactly the well-formed bodies. So does any other order of
work: it comes to an end, it shows that the body is well-formed if nothing is left to look at, and
that it is not if some position cannot be taken. -/
theorem accepts_iff_wellFormed (body : Body) (shape : MethodShape)
    (resolve : MethodToken → Option CallEffect) :
    (verify body shape resolve = .ok () ↔ WellFormed body shape resolve) ∧
      WellFounded (fun t s => Works body shape resolve s t) ∧
      ∀ s, ReflTransGen (Works body shape resolve) (Worklist.start body) s →
        (s.2 = [] → WellFormed body shape resolve) ∧
          (Blocked body shape resolve s → ¬ WellFormed body shape resolve) :=
  ⟨verify_eq_ok_iff_wellFormed, wellFounded_works, fun _ order => order_decides order⟩

/-- A loop that leaves one operand more in each round is not well-formed, and is refused. -/
example : (verify ⟨#[], #[.ldNull, .br 0]⟩ ⟨false, 0, false⟩ fun _ => none).isOk = false := by
  decide +kernel

end Verify

end ScriptHost.Host

import ScriptHost.Proofs.Host.Straight
import ScriptHost.Proofs.Image.Answer
/-!
Injected bodies are well-formed: a prologue leaves the operand stack as it was, whatever the
parameters are, and the own code behind it keeps its depths.
-/
namespace ScriptHost.Image

open Host

variable {m : MethodDef} {hub : MethodToken} {own injected : Body}
  {resolve : MethodToken → Option CallEffect}

/-- What calling a hub does to the stack. -/
def hubEffect : CallEffect :=
  ⟨4, false, true, false⟩

namespace Injected

variable (shape : Injected m hub own injected)
include shape

theorem carrierSlot_lt : (carrierSlot own).toNat < injected.locals.size := by
  rw [shape.toNat_carrierSlot, shape.size_locals]
  omega

theorem resultSlot_lt {slot : UInt16} (wanted : resultSlot m own = some slot) :
    slot.toNat < injected.locals.size := by
  have room := shape.room
  rw [shape.size_locals]
  unfold resultSlot at wanted
  split at wanted
  · rename_i returns
    cases wanted
    rw [returns, Bool.toNat_true] at room ⊢
    rw [UInt16.toNat_ofNat_of_lt' room]
    exact Nat.lt_succ_self _
  · cases wanted

theorem argSlot_lt {i : Nat} (inBounds : i < m.params.length) :
    (UInt16.ofNat i).toNat < m.shape.params := by
  rw [UInt16.toNat_ofNat_of_lt' (Nat.lt_of_lt_of_le inBounds shape.params)]
  exact inBounds

theorem flows_storeArgs :
    Flows injected m.shape resolve 0
      (storeArgs (carrierSlot own) (List.range m.params.length)) 0 := by
  refine Flows.flatMap fun i member => ?_
  have carrier := shape.carrierSlot_lt
  have inBounds := shape.argSlot_lt (List.mem_range.1 member)
  simpa [Flows, Instr.Operable, Instr.pops, Instr.pushes, Instr.depthAfter, ldNat, carrier]
    using inBounds

theorem flows_loadArgs :
    Flows injected m.shape resolve 0 (loadArgs (carrierSlot own) (byRefIndices m.params)) 0 := by
  refine Flows.flatMap fun i member => ?_
  have carrier := shape.carrierSlot_lt
  have inBounds := shape.argSlot_lt (mem_byRefIndices member)
  simpa [Flows, Instr.Operable, Instr.pops, Instr.pushes, Instr.depthAfter, ldNat, carrier]
    using inBounds

/-- The question leaves the answer of the hub. -/
theorem flows_front (asks : resolve hub = some hubEffect) :
    Flows injected m.shape resolve 0 (front m hub own) 1 := by
  have carrier := shape.carrierSlot_lt
  have making : Flows injected m.shape resolve 0 [.anchor .argMarshal,
      ldNat (m.params.length + 1), .newArr .object, .stLoc (carrierSlot own)] 0 := by
    simp [Flows, Instr.Operable, Instr.pops, Instr.pushes, Instr.depthAfter, ldNat, carrier]
  have calling : Flows injected m.shape resolve 0 [.anchor .hubCall, .ldStr m.signature,
      .ldToken m.token, if m.kind = .static then .ldNull else .ldThis, .ldLoc (carrierSlot own),
      .call hub, .anchor .vetoBranch] 1 := by
    by_cases isStatic : m.kind = .static
    · simp [Flows, Instr.Operable, Instr.pops, Instr.pushes, Instr.depthAfter, isStatic, carrier,
        asks, hubEffect]
    · have hasThis : m.shape.hasThis = true := by simp [MethodDef.shape, isStatic]
      simp [Flows, Instr.Operable, Instr.pops, Instr.pushes, Instr.depthAfter, isStatic, hasThis,
        carrier, asks, hubEffect]
  exact (making.append shape.flows_storeArgs).append calling

/-- The return of a patched method leaves nothing but its result. -/
theorem flows_back : Flows injected m.shape resolve 0 (back m own) 0 := by
  have carrier := shape.carrierSlot_lt
  have marks (a : Anchor) : Flows injected m.shape resolve 0 [.anchor a] 0 := by
    simp [Flows, Instr.Operable, Instr.pops, Instr.pushes, Instr.depthAfter]
  have returning : Flows injected m.shape resolve 0 (resultCode m own ++ [.ret]) 0 := by
    unfold resultCode
    cases wanted : resultSlot m own with
    | none =>
      have noValue : m.shape.returnsValue = false := by
        unfold resultSlot at wanted
        split at wanted
        · cases wanted
        · rename_i noValue
          exact eq_false_of_ne_true noValue
      simp [Flows, Instr.Operable, Instr.pops, Instr.pushes, Instr.depthAfter, noValue]
    | some slot =>
      have result := shape.resultSlot_lt wanted
      have value : m.shape.returnsValue = true := by
        unfold resultSlot at wanted
        split at wanted
        · rename_i value
          exact value
        · cases wanted
      simp [Flows, Instr.Operable, Instr.pops, Instr.pushes, Instr.depthAfter, ldNat, value,
        carrier, result]
  rw [back_eq]
  exact (((marks .refOutWriteback).append shape.flows_loadArgs).append (marks .ret)).append returning

/-- The branch of a prologue leaves nothing. -/
theorem flows_asking (asks : resolve hub = some hubEffect) :
    Flows injected m.shape resolve 0
      (front m hub own ++ [.brFalse (.ofNat (ownMark m hub own))]) 0 := by
  refine (shape.flows_front asks).append ?_
  simp [Flows, Instr.Operable, Instr.pops, Instr.pushes, Instr.depthAfter]

theorem flows_prologue (asks : resolve hub = some hubEffect) :
    Flows injected m.shape resolve 0 (prologue m hub own) 0 := by
  refine ((shape.flows_asking asks).append shape.flows_back).append ?_
  simp [Flows, Instr.Operable, Instr.pops, Instr.pushes, Instr.depthAfter]

omit shape in
/-- The question names its method and its hub, branches nowhere, and loads no double. -/
theorem forall_front {P : Instr → Prop} (named : P (.ldToken m.token)) (asked : P (.call hub))
    (plain : ∀ instr, instr.token? = none → instr.branchTarget? = none →
      (∀ x, instr ≠ .ldFloat x) → P instr) :
    ∀ instr ∈ front m hub own, P instr := by
  intro instr member
  unfold front question storeArgs at member
  simp only [List.mem_append, List.mem_cons, List.not_mem_nil, List.mem_flatMap, or_false] at member
  rcases member with ((rfl | rfl | rfl | rfl) | ⟨i, _, rfl | rfl | rfl | rfl⟩) |
    (rfl | rfl | rfl | rfl | rfl | rfl | rfl)
  case inr.inr.inr.inl => exact named
  case inr.inr.inr.inr.inr.inr.inl => exact asked
  case inr.inr.inr.inr.inl =>
    split
    · exact plain _ rfl rfl nofun
    · exact plain _ rfl rfl nofun
  all_goals exact plain _ rfl rfl nofun

omit shape in
/-- The return of a patched method names no method, branches nowhere, and loads no double. -/
theorem forall_back {P : Instr → Prop}
    (plain : ∀ instr, instr.token? = none → instr.branchTarget? = none →
      (∀ x, instr ≠ .ldFloat x) → P instr) :
    ∀ instr ∈ back m own, P instr := by
  intro instr member
  rw [back_eq] at member
  unfold loadArgs resultCode at member
  cases wanted : resultSlot m own <;>
    simp only [wanted, List.mem_append, List.mem_cons, List.not_mem_nil, List.mem_flatMap, or_false,
      false_or] at member
  · rcases member with ((rfl | ⟨i, _, rfl | rfl | rfl | rfl⟩) | rfl) | rfl <;>
      exact plain _ rfl rfl nofun
  · rcases member with ((rfl | ⟨i, _, rfl | rfl | rfl | rfl⟩) | rfl) |
      (rfl | rfl | rfl | rfl | rfl) | rfl <;> exact plain _ rfl rfl nofun

omit shape in
/-- The one branch of a prologue goes over the return of a patched method. -/
theorem eq_of_branchTarget? {pc : Nat} {instr : Instr} {target : UInt32}
    (found : (prologue m hub own)[pc]? = some instr) (branch : instr.branchTarget? = some target) :
    pc = (front m hub own).length ∧ target = .ofNat (ownMark m hub own) := by
  unfold prologue at found
  rw [List.append_assoc, List.append_assoc] at found
  rcases Nat.lt_trichotomy pc (front m hub own).length with inFront | rfl | after
  · rw [List.getElem?_append_left inFront] at found
    have straight := forall_front (P := (·.branchTarget? = none)) rfl rfl (fun _ _ none _ => none)
      instr (List.mem_of_getElem? found)
    rw [straight] at branch
    cases branch
  · rw [List.getElem?_append_right (Nat.le_refl _), Nat.sub_self] at found
    cases found
    cases branch
    exact ⟨rfl, rfl⟩
  · obtain ⟨i, rfl⟩ := Nat.exists_eq_add_of_lt after
    rw [Nat.add_assoc, List.getElem?_append_right (Nat.le_add_right _ _),
      Nat.add_sub_cancel_left, List.getElem?_append_right (by simp), List.length_singleton,
      Nat.add_sub_cancel] at found
    rcases List.mem_append.1 (List.mem_of_getElem? found) with inBack | mark
    · have straight := forall_back (P := (·.branchTarget? = none)) (fun _ _ none _ => none)
        instr inBack
      rw [straight] at branch
      cases branch
    · rw [List.mem_singleton.1 mark] at branch
      cases branch

theorem behind : Behind (prologue m hub own) (Image.shift m hub own) own injected := by
  refine ⟨shape.toNat_shift.trans (length_prologue m hub own).symm, ?_, fun instr member target branch => ?_,
    shape.code⟩
  · rw [shape.size_locals]
    omega
  · have fits := Array.all_eq_true_iff_forall_mem.1 shape.movable instr member
    unfold Image.movable at fits
    rw [branch] at fits
    exact of_decide_eq_true fits

/-- An injected body is well-formed if the own code of its method is. -/
theorem wellFormed (asks : resolve hub = some hubEffect)
    (sound : WellFormed own m.shape resolve) : WellFormed injected m.shape resolve := by
  refine shape.behind.wellFormed (shape.flows_prologue asks) (fun pc instr target found branch => ?_)
    sound
  obtain ⟨rfl, rfl⟩ := eq_of_branchTarget? found branch
  have upToBranch : (prologue m hub own).take ((front m hub own).length + 1) =
      front m hub own ++ [.brFalse (.ofNat (ownMark m hub own))] := by
    unfold prologue
    rw [List.append_assoc, List.take_left' (by simp)]
  have upToMark : (prologue m hub own).take (ownMark m hub own) =
      front m hub own ++ [.brFalse (.ofNat (ownMark m hub own))] ++ back m own := by
    unfold prologue
    rw [List.take_left' (by simp [ownMark]; omega)]
  rw [shape.toNat_ownMark, length_prologue, upToBranch, upToMark,
    ((shape.flows_asking asks).append shape.flows_back).settle_eq, (shape.flows_asking asks).settle_eq]
  exact ⟨Nat.le_succ _, rfl⟩

end Injected

end ScriptHost.Image

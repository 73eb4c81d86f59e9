import ScriptHost.Host.Trial
import ScriptHost.Proofs.Host.Depths
import ScriptHost.Proofs.Host.Faults
/-!
One instruction of a checked body: it finds its operands, its slots and its method, and control goes
on with the depth that the check expects.
-/
namespace ScriptHost.Host

open Verify

/-- What a step may come to when the check lets control go to `next`. -/
inductive Permitted (d : Domain) (instr : Instr) (a : Activation) (next : List Visit) :
    Except HostException Step → Prop
  | raise {e : HostException} (noFault : e.isFault = false) : Permitted d instr a next (.error e)
  | next {b : Activation} (args : b.args.size = a.args.size) (locals : b.locals.size = a.locals.size)
      (goesOn : ⟨b.pc, b.stack.length⟩ ∈ next) : Permitted d instr a next (.ok (.next b))
  | done {v : Value} (atReturn : instr = .ret) : Permitted d instr a next (.ok (.done v))
  | call {t : MethodToken} {callee : Method} {receiver : Option ObjectRef} {args : Array Value}
      {keeps : Bool} {b : Activation} (names : instr.token? = some t)
      (known : d.method? t = some callee) (arity : args.size = callee.params.length)
      (sameArgs : b.args = a.args) (sameLocals : b.locals = a.locals)
      (goesOn : ⟨b.pc, b.stack.length + keeps.toNat⟩ ∈ next) :
      Permitted d instr a next (.ok (.call callee receiver args keeps b))

/-- An activation that has the slots of its body and stands behind an instruction. -/
structure Activation.Suits (a : Activation) (body : Body) (shape : MethodShape)
    (this : Option ObjectRef) (pc depth : Nat) : Prop where
  pc : a.pc = pc + 1
  depth : a.stack.length = depth
  args : a.args.size = shape.params
  locals : a.locals.size = body.locals.size
  this : this.isSome = shape.hasThis

variable {body : Body} {shape : MethodShape} {this : Option ObjectRef} {pc depth : Nat}

/-- The way straight on. -/
theorem straight_mem {instr : Instr} {after : Nat} (goesOn : instr.isTerminator = false) :
    (⟨pc + 1, after⟩ : Visit) ∈ successors instr pc after := by
  simp [successors, goesOn]

/-- The way along a branch. -/
theorem branch_mem {instr : Instr} {target : UInt32} {after : Nat}
    (branches : instr.branchTarget? = some target) :
    (⟨target.toNat, after⟩ : Visit) ∈ successors instr pc after := by
  simp [successors, branches]

/-- The result of a check that is passed. -/
theorem of_guard {α ε : Type} {p : Prop} [Decidable p] {a b : α} {e : ε}
    (passed : (if p then .ok a else .error e : Except ε α) = .ok b) : p ∧ a = b := by
  split at passed
  · rename_i holds
    exact ⟨holds, Except.ok.inj passed⟩
  · cases passed

/-- A stack that is high enough has an operand on top. -/
theorem exists_cons {n : Nat} {stack : List Value} (enough : n + 1 ≤ stack.length) :
    ∃ v rest, stack = v :: rest ∧ n ≤ rest.length := by
  cases stack with
  | nil => exact absurd enough (by simp)
  | cons v rest => exact ⟨v, rest, rfl, Nat.le_of_succ_le_succ enough⟩

/-- An instruction that the check accepts at the depth of the stack does not go wrong. -/
theorem step_permitted {s : State} {a : Activation} {instr : Instr} {next : List Visit}
    (visited : visit body shape s.domain.callEffect? pc depth instr = .ok next)
    (suits : a.Suits body shape this pc depth) :
    Permitted s.domain instr a next (a.step shape.returnsValue this instr s).1 := by
  obtain ⟨effect, effectOk, enough, returns, -, rfl⟩ := visit_eq_ok_iff.1 visited
  obtain ⟨pc', stack, locals, args⟩ := a
  obtain ⟨rfl, rfl, argsSize, localsSize, hasThis⟩ := suits
  dsimp only at argsSize localsSize effectOk enough ⊢
  cases instr with
  | nop | anchor | ldNull | ldBool | ldInt | ldFloat | ldStr | ldToken =>
    cases effectOk
    exact .next rfl rfl (straight_mem rfl)
  | br target =>
    cases effectOk
    exact .next rfl rfl (branch_mem rfl)
  | ldArg i =>
    obtain ⟨inRange, rfl⟩ := of_guard effectOk
    have found : args[i.toNat]? = some args[i.toNat] := Array.getElem?_eq_getElem (argsSize ▸ inRange)
    simp only [Activation.step, found, HostM.pure_apply]
    exact .next rfl rfl (straight_mem rfl)
  | ldLoc i =>
    obtain ⟨inRange, rfl⟩ := of_guard effectOk
    have found : locals[i.toNat]? = some locals[i.toNat] :=
      Array.getElem?_eq_getElem (localsSize ▸ inRange)
    simp only [Activation.step, found, HostM.pure_apply]
    exact .next rfl rfl (straight_mem rfl)
  | stArg i =>
    obtain ⟨inRange, rfl⟩ := of_guard effectOk
    obtain ⟨v, rest, rfl, -⟩ := exists_cons enough
    simp only [Activation.step, popOperand_cons, HostM.lift_bind_apply, argsSize, if_pos inRange,
      HostM.pure_apply]
    exact .next (by simp) rfl (straight_mem rfl)
  | stLoc i =>
    obtain ⟨inRange, rfl⟩ := of_guard effectOk
    obtain ⟨v, rest, rfl, -⟩ := exists_cons enough
    simp only [Activation.step, popOperand_cons, HostM.lift_bind_apply, localsSize, if_pos inRange,
      HostM.pure_apply]
    exact .next rfl (by simp) (straight_mem rfl)
  | ldThis =>
    obtain ⟨present, rfl⟩ := of_guard effectOk
    obtain ⟨ref, rfl⟩ := Option.isSome_iff_exists.1 (hasThis.trans present)
    exact .next rfl rfl (straight_mem rfl)
  | ldFld i =>
    cases effectOk
    obtain ⟨v, rest, rfl, -⟩ := exists_cons enough
    simp only [Activation.step, popObject_cons, HostM.lift_bind_apply]
    cases object : v.toObject with
    | error e => exact .raise (Value.isFault_of_toObject object)
    | ok ref =>
      simp only [Except.map, HostM.get_bind_apply]
      cases s.heap.get? ref i.toNat with
      | none => exact .raise rfl
      | some v => exact .next rfl rfl (straight_mem rfl)
  | stFld i =>
    cases effectOk
    obtain ⟨v, stack, rfl, more⟩ := exists_cons enough
    obtain ⟨x, rest, rfl, -⟩ := exists_cons more
    simp only [Activation.step, popOperand_cons, popObject_cons, HostM.lift_bind_apply]
    cases object : x.toObject with
    | error e => exact .raise (Value.isFault_of_toObject object)
    | ok ref =>
      simp only [Except.map, HostM.modifyGet_bind_apply]
      cases (s.setSlot ref i.toNat v).1 with
      | false => exact .raise rfl
      | true => exact .next rfl rfl (straight_mem rfl)
  | newArr element =>
    cases effectOk
    obtain ⟨v, rest, rfl, -⟩ := exists_cons enough
    simp only [Activation.step, popOperand_cons, HostM.lift_bind_apply]
    cases v.asNat? with
    | none => exact .raise rfl
    | some length =>
      simp only [HostM.modifyGet_bind_apply]
      exact .next rfl rfl (straight_mem rfl)
  | ldElem =>
    cases effectOk
    obtain ⟨v, stack, rfl, more⟩ := exists_cons enough
    obtain ⟨x, rest, rfl, -⟩ := exists_cons more
    simp only [Activation.step, popIndex_cons, HostM.lift_bind_apply]
    cases index : v.toIndex with
    | error e => exact .raise (Value.isFault_of_toIndex index)
    | ok i =>
      simp only [Except.map, popObject_cons]
      cases object : x.toObject with
      | error e => exact .raise (Value.isFault_of_toObject object)
      | ok ref =>
        simp only [HostM.get_bind_apply]
        cases s.heap.get? ref i with
        | none => exact .raise rfl
        | some v => exact .next rfl rfl (straight_mem rfl)
  | stElem =>
    cases effectOk
    obtain ⟨v, stack, rfl, more⟩ := exists_cons enough
    obtain ⟨x, stack, rfl, last⟩ := exists_cons more
    obtain ⟨y, rest, rfl, -⟩ := exists_cons last
    simp only [Activation.step, popOperand_cons, popIndex_cons, HostM.lift_bind_apply]
    cases index : x.toIndex with
    | error e => exact .raise (Value.isFault_of_toIndex index)
    | ok i =>
      simp only [Except.map, popObject_cons]
      cases object : y.toObject with
      | error e => exact .raise (Value.isFault_of_toObject object)
      | ok ref =>
        simp only [HostM.modifyGet_bind_apply]
        cases (s.setSlot ref i v).1 with
        | false => exact .raise rfl
        | true => exact .next rfl rfl (straight_mem rfl)
  | arith op =>
    cases effectOk
    obtain ⟨y, stack, rfl, more⟩ := exists_cons enough
    obtain ⟨x, rest, rfl, -⟩ := exists_cons more
    simp only [Activation.step, popOperand_cons, HostM.lift_bind_apply]
    cases applied : op.apply x y with
    | error e => exact .raise (ArithOp.isFault_of_apply applied)
    | ok v => exact .next rfl rfl (straight_mem rfl)
  | ceq =>
    cases effectOk
    obtain ⟨y, stack, rfl, more⟩ := exists_cons enough
    obtain ⟨x, rest, rfl, -⟩ := exists_cons more
    exact .next rfl rfl (straight_mem rfl)
  | clt =>
    cases effectOk
    obtain ⟨y, stack, rfl, more⟩ := exists_cons enough
    obtain ⟨x, rest, rfl, -⟩ := exists_cons more
    simp only [Activation.step, popOperand_cons, HostM.lift_bind_apply]
    cases x.asFloat? with
    | none => exact .raise rfl
    | some first =>
      cases y.asFloat? with
      | none => exact .raise rfl
      | some second => exact .next rfl rfl (straight_mem rfl)
  | dup =>
    cases effectOk
    obtain ⟨v, rest, rfl, -⟩ := exists_cons enough
    exact .next rfl rfl (straight_mem rfl)
  | pop =>
    cases effectOk
    obtain ⟨v, rest, rfl, -⟩ := exists_cons enough
    exact .next rfl rfl (straight_mem rfl)
  | brTrue target =>
    cases effectOk
    obtain ⟨v, rest, rfl, -⟩ := exists_cons enough
    simp only [Activation.step, popOperand_cons, HostM.lift_bind_apply, HostM.pure_apply]
    cases v.truthy with
    | true => exact .next rfl rfl (branch_mem rfl)
    | false => exact .next rfl rfl (straight_mem rfl)
  | brFalse target =>
    cases effectOk
    obtain ⟨v, rest, rfl, -⟩ := exists_cons enough
    simp only [Activation.step, popOperand_cons, HostM.lift_bind_apply, HostM.pure_apply]
    cases v.truthy with
    | true => exact .next rfl rfl (straight_mem rfl)
    | false => exact .next rfl rfl (branch_mem rfl)
  | throw =>
    cases effectOk
    obtain ⟨v, rest, rfl, -⟩ := exists_cons enough
    exact .raise rfl
  | ret =>
    cases effectOk
    simp only [Activation.step]
    cases wanted : shape.returnsValue with
    | false => exact .done rfl
    | true =>
      rw [wanted] at enough
      obtain ⟨v, rest, rfl, -⟩ := exists_cons enough
      exact .done rfl
  | call t =>
    simp only [stackEffect, Domain.callEffect?] at effectOk
    cases known : s.domain.method? t with
    | none =>
      rw [known] at effectOk
      cases effectOk
    | some callee =>
      rw [known] at effectOk
      simp only [Option.map_some] at effectOk
      split at effectOk
      · cases effectOk
      rename_i notConstructor
      cases effectOk
      obtain ⟨top, below, rfl, height⟩ := exists_operands (Nat.le_trans (Nat.le_add_right _ _) enough)
      have hasThis_eq : callee.hasThis = (callee.kind == .ofInstance) := by
        unfold Method.hasThis
        cases kind : callee.kind with
        | constructor => exact (notConstructor (by simp [kind])).elim
        | ofInstance | static => rfl
      simp only [Activation.step, HostM.get_bind_apply, known, popOperands_append height,
        HostM.lift_bind_apply, hasThis_eq]
      cases instanceCall : callee.kind == .ofInstance with
      | false =>
        refine .call rfl known (by simp [height]) rfl rfl ?_
        have left : (top ++ below).length - (callee.params.length + 0) = below.length := by
          simp [height]
        rw [Bool.toNat_false, left]
        exact straight_mem rfl
      | true =>
        rw [instanceCall] at enough
        obtain ⟨v, rest, rfl, -⟩ : ∃ v rest, below = v :: rest ∧ 0 ≤ rest.length := by
          apply exists_cons
          simp only [List.length_append, height, Bool.toNat_true] at enough
          omega
        simp only [popObject_cons]
        cases object : v.toObject with
        | error e => exact .raise (Value.isFault_of_toObject object)
        | ok ref =>
          refine .call rfl known (by simp [height]) rfl rfl ?_
          have left : (top ++ v :: rest).length - (callee.params.length + 1) = rest.length := by
            simp only [List.length_append, List.length_cons, height]
            omega
          rw [Bool.toNat_true, left]
          exact straight_mem rfl
  | newObj t =>
    simp only [stackEffect, Domain.callEffect?] at effectOk
    cases known : s.domain.method? t with
    | none =>
      rw [known] at effectOk
      cases effectOk
    | some callee =>
      rw [known] at effectOk
      simp only [Option.map_some] at effectOk
      obtain ⟨_, rfl⟩ := of_guard effectOk
      obtain ⟨top, below, rfl, height⟩ := exists_operands enough
      simp only [Activation.step, HostM.get_bind_apply, known, popOperands_append height,
        HostM.lift_bind_apply]
      refine .call rfl known (by simp [height]) rfl rfl ?_
      have left : (top ++ below).length - callee.params.length = below.length := by simp [height]
      rw [left]
      exact straight_mem rfl

end ScriptHost.Host

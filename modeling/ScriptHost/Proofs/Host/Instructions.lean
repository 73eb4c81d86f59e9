import ScriptHost.Proofs.Host.Calls
import ScriptHost.Proofs.Host.HostM
/-!
What single instructions do when they find what they need.
-/
namespace ScriptHost.Host

variable {ε : Type} {method : Method} {this : Option ObjectRef} {pc : Nat} {stack : List Value}
  {locals args : Array Value} {w : World ε} {v : Value} {ref : ObjectRef} {i : Nat}

theorem perform_anchor (anchor : Anchor) :
    perform method this ⟨pc, stack, locals, args⟩ (.anchor anchor) w =
      (.ok (.next ⟨pc + 1, stack, locals, args⟩), w) := rfl

theorem perform_ldInt (n : Int64) :
    perform method this ⟨pc, stack, locals, args⟩ (.ldInt n) w =
      (.ok (.next ⟨pc + 1, .int n :: stack, locals, args⟩), w) := rfl

theorem perform_ldStr (text : String) :
    perform method this ⟨pc, stack, locals, args⟩ (.ldStr text) w =
      (.ok (.next ⟨pc + 1, .text text :: stack, locals, args⟩), w) := rfl

theorem perform_ldToken (t : MethodToken) :
    perform method this ⟨pc, stack, locals, args⟩ (.ldToken t) w =
      (.ok (.next ⟨pc + 1, .int t.id.toUInt64.toInt64 :: stack, locals, args⟩), w) := rfl

theorem perform_ldArg {slot : UInt16} (found : args[slot.toNat]? = some v) :
    perform method this ⟨pc, stack, locals, args⟩ (.ldArg slot) w =
      (.ok (.next ⟨pc + 1, v :: stack, locals, args⟩), w) := by
  rw [perform, World.onHost_apply, Activation.step_ldArg ⟨pc + 1, stack, locals, args⟩ found]
  rfl

theorem perform_stArg {slot : UInt16} (inBounds : slot.toNat < args.size) :
    perform method this ⟨pc, v :: stack, locals, args⟩ (.stArg slot) w =
      (.ok (.next ⟨pc + 1, stack, locals, args.setIfInBounds slot.toNat v⟩), w) := by
  simp only [perform, World.onHost_apply, Activation.step, popOperand_cons, HostM.lift_bind_apply,
    if_pos inBounds]
  rfl

theorem perform_ldLoc {slot : UInt16} (found : locals[slot.toNat]? = some v) :
    perform method this ⟨pc, stack, locals, args⟩ (.ldLoc slot) w =
      (.ok (.next ⟨pc + 1, v :: stack, locals, args⟩), w) := by
  rw [perform, World.onHost_apply, Activation.step_ldLoc ⟨pc + 1, stack, locals, args⟩ found]
  rfl

theorem perform_stLoc {slot : UInt16} (inBounds : slot.toNat < locals.size) :
    perform method this ⟨pc, v :: stack, locals, args⟩ (.stLoc slot) w =
      (.ok (.next ⟨pc + 1, stack, locals.setIfInBounds slot.toNat v, args⟩), w) := by
  simp only [perform, World.onHost_apply, Activation.step, popOperand_cons, HostM.lift_bind_apply,
    if_pos inBounds]
  rfl

theorem perform_brFalse (target : UInt32) :
    perform method this ⟨pc, v :: stack, locals, args⟩ (.brFalse target) w =
      (.ok (.next ⟨if v.truthy then pc + 1 else target.toNat, stack, locals, args⟩), w) := by
  simp only [perform, World.onHost_apply, Activation.step, popOperand_cons, HostM.lift_bind_apply]
  cases v.truthy <;> rfl

theorem perform_br (target : UInt32) :
    perform method this ⟨pc, stack, locals, args⟩ (.br target) w =
      (.ok (.next ⟨target.toNat, stack, locals, args⟩), w) := rfl

theorem perform_arith {op : ArithOp} {a b : Value} (value : op.apply a b = .ok v) :
    perform method this ⟨pc, b :: a :: stack, locals, args⟩ (.arith op) w =
      (.ok (.next ⟨pc + 1, v :: stack, locals, args⟩), w) := by
  simp only [perform, World.onHost_apply, Activation.step, popOperand_cons, HostM.lift_bind_apply,
    value]
  rfl

theorem perform_ceq (a b : Value) :
    perform method this ⟨pc, b :: a :: stack, locals, args⟩ .ceq w =
      (.ok (.next ⟨pc + 1, .bool (a.equals b) :: stack, locals, args⟩), w) := rfl

theorem perform_clt {a b : Value} {x y : Float} (left : a.asFloat? = some x)
    (right : b.asFloat? = some y) :
    perform method this ⟨pc, b :: a :: stack, locals, args⟩ .clt w =
      (.ok (.next ⟨pc + 1, .bool (x < y) :: stack, locals, args⟩), w) := by
  simp only [perform, World.onHost_apply, Activation.step, popOperand_cons, HostM.lift_bind_apply,
    left, right]
  rfl

theorem perform_newArr {element : ValueType} (length : v.asNat? = some i) :
    perform method this ⟨pc, v :: stack, locals, args⟩ (.newArr element) w =
      (.ok (.next ⟨pc + 1,
        .object (w.host.newArray element (.replicate i (.defaultFor element))).1 :: stack, locals,
          args⟩),
        { w with host := (w.host.newArray element (.replicate i (.defaultFor element))).2 }) := by
  simp only [perform, World.onHost_apply, Activation.step, popOperand_cons, HostM.lift_bind_apply,
    length]
  rfl

theorem perform_ldElem {index : Value} (number : index.asNat? = some i)
    (found : w.host.heap.get? ref i = some v) :
    perform method this ⟨pc, index :: .object ref :: stack, locals, args⟩ .ldElem w =
      (.ok (.next ⟨pc + 1, v :: stack, locals, args⟩), w) := by
  simp only [perform, World.onHost_apply, Activation.step, popIndex_cons, popObject_cons,
    HostM.lift_bind_apply, Value.toIndex, Value.toObject, number, Option.elim, Except.map,
    HostM.get_bind_apply, found]
  rfl

theorem perform_stElem {index : Value} (number : index.asNat? = some i)
    (inBounds : i < w.host.heap.size ref) :
    perform method this ⟨pc, v :: index :: .object ref :: stack, locals, args⟩ .stElem w =
      (.ok (.next ⟨pc + 1, stack, locals, args⟩),
        { w with host := (w.host.setSlot ref i v).2 }) := by
  have stored : (w.host.setSlot ref i v).1 = true := by
    simp only [State.setSlot, if_pos inBounds]
  simp only [perform, World.onHost_apply, Activation.step, popOperand_cons, popIndex_cons,
    popObject_cons, HostM.lift_bind_apply, Value.toIndex, Value.toObject, number, Option.elim,
    Except.map, HostM.modifyGet_bind_apply, stored]
  rfl

/-- A call of a static method. -/
theorem perform_call {t : MethodToken} {callee : Method} {operands : List Value}
    (known : w.host.domain.method? t = some callee) (isStatic : callee.kind = .static)
    (arity : operands.length = callee.params.length) :
    perform method this ⟨pc, operands ++ stack, locals, args⟩ (.call t) w =
      (.ok (.call callee none operands.reverse.toArray callee.returnsValue
        ⟨pc + 1, stack, locals, args⟩), w) := by
  have noThis : callee.hasThis = false := by simp [Method.hasThis, isStatic]
  simp only [perform, World.onHost_apply, Activation.step, HostM.get_bind_apply, known,
    popOperands_append arity, HostM.lift_bind_apply, noThis]
  rfl

theorem perform_ret_value (wanted : method.returnsValue = true) :
    perform method this ⟨pc, v :: stack, locals, args⟩ .ret w = (.ok (.done v), w) := by
  simp only [perform, World.onHost_apply, Activation.step, wanted, if_true, popOperand_cons,
    HostM.lift_bind_apply]
  rfl

theorem perform_ret_nothing (wanted : method.returnsValue = false) :
    perform method this ⟨pc, stack, locals, args⟩ .ret w = (.ok (.done .null), w) := by
  simp only [perform, World.onHost_apply, Activation.step, wanted]
  rfl

/-! ## Operators -/

/-- An instruction has an answer for two operands in every body, and does nothing else. -/
def Yields (instr : Instr) (a b answer : Value) : Prop :=
  ∀ (ε : Type) (method : Method) (this : Option ObjectRef) (pc : Nat) (stack : List Value)
    (locals args : Array Value) (w : World ε),
    perform method this ⟨pc, b :: a :: stack, locals, args⟩ instr w =
      (.ok (.next ⟨pc + 1, answer :: stack, locals, args⟩), w)

theorem yields_arith {op : ArithOp} {a b : Value} (value : op.apply a b = .ok v) :
    Yields (.arith op) a b v :=
  fun _ _ _ _ _ _ _ _ => perform_arith value

/-- An instruction has one answer. -/
theorem Yields.unique {instr : Instr} {a b answer answer' : Value} (yields : Yields instr a b answer)
    (yields' : Yields instr a b answer') : answer = answer' := by
  have same := (yields _ ⟨⟨0⟩, ⟨0⟩, "", "", .static, [], .object, .absent⟩ none 0 [] #[] #[]
    (.alone {})).symm.trans (yields' ..)
  injection same with outcome
  injection outcome with next
  injection next with activation
  injection activation with _ stack
  exact (List.cons.inj stack).1

end ScriptHost.Host

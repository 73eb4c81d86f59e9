import ScriptHost.Host.Machine
/-!
Equations for computations on the host, for taking operands off the stack and for reading slots.
-/
namespace ScriptHost.Host

variable {α β : Type}

namespace HostM

@[simp] theorem pure_apply (a : α) (s : State) : (pure a : HostM α) s = (.ok a, s) := rfl

@[simp] theorem throw_apply (e : HostException) (s : State) :
    (throw e : HostM α) s = (.error e, s) := rfl

@[simp] theorem lift_apply (r : Except HostException α) (s : State) :
    (liftM r : HostM α) s = (r, s) := rfl

@[simp] theorem get_apply (s : State) : (get : HostM State) s = (.ok s, s) := rfl

@[simp] theorem modifyGet_apply (f : State → α × State) (s : State) :
    (modifyGet f : HostM α) s = (.ok (f s).1, (f s).2) := rfl

/-- A sequence runs its second part where the first one ended, unless that one raised. -/
theorem bind_apply (m : HostM α) (f : α → HostM β) (s : State) :
    (m >>= f) s =
      match m s with
      | (.ok a, t) => f a t
      | (.error e, t) => (.error e, t) := by
  show ExceptT.bind m f s = _
  simp only [ExceptT.bind, ExceptT.mk, ExceptT.bindCont, bind, StateT.bind]
  cases m s with
  | mk result t => cases result <;> rfl

@[simp] theorem lift_bind_apply (r : Except HostException α) (f : α → HostM β) (s : State) :
    (liftM r >>= f) s =
      match r with
      | .ok a => f a s
      | .error e => (.error e, s) := by
  rw [bind_apply]
  cases r <;> rfl

@[simp] theorem get_bind_apply (f : State → HostM β) (s : State) : (get >>= f) s = f s s := rfl

@[simp] theorem modifyGet_bind_apply (g : State → α × State) (f : α → HostM β) (s : State) :
    (modifyGet g >>= f) s = f (g s).1 (g s).2 := rfl

theorem map_throw (f : α → β) (e : HostException) : f <$> (throw e : HostM α) = throw e := rfl

theorem map_apply (f : α → β) (m : HostM α) (s : State) :
    (f <$> m) s = ((m s).1.map f, (m s).2) := by
  rw [map_eq_pure_bind, bind_apply]
  cases m s with
  | mk result t => cases result <;> rfl

end HostM

/-! ## Operands -/

@[simp] theorem popOperand_cons (v : Value) (rest : List Value) :
    popOperand (v :: rest) = .ok (v, rest) := rfl

/-- The object that an operand has to be. -/
def Value.toObject : Value → Except HostException ObjectRef
  | .object ref => .ok ref
  | .null => .error .nullObject
  | other => .error (.notAnObject other.diagnostic)

@[simp] theorem popObject_cons (v : Value) (rest : List Value) :
    popObject (v :: rest) = v.toObject.map (·, rest) := by
  cases v <;> rfl

/-- The index that an operand has to be. -/
def Value.toIndex (v : Value) : Except HostException Nat :=
  v.asNat?.elim (.error .badIndex) .ok

@[simp] theorem popIndex_cons (v : Value) (rest : List Value) :
    popIndex (v :: rest) = v.toIndex.map (·, rest) := by
  unfold popIndex Value.toIndex
  simp only [popOperand_cons, bind, Except.bind]
  cases v.asNat? <;> rfl

/-- Enough operands are taken as they lie, deepest first. -/
theorem popOperands_append {n : Nat} {top rest : List Value} (enough : top.length = n) :
    popOperands n (top ++ rest) = .ok (top.reverse.toArray, rest) := by
  unfold popOperands
  have notFewer : ¬ (top ++ rest).length < n := by
    rw [List.length_append]
    omega
  rw [if_neg notFewer, ← enough, List.take_left, List.drop_left]

/-- A stack that is high enough has the wanted operands on top. -/
theorem exists_operands {n : Nat} {stack : List Value} (enough : n ≤ stack.length) :
    ∃ top rest, stack = top ++ rest ∧ top.length = n :=
  ⟨stack.take n, stack.drop n, (List.take_append_drop n stack).symm,
    List.length_take_of_le enough⟩

/-! ## Slots -/

namespace Activation

variable (a : Activation) {slot : UInt16} {v : Value}

/-- An argument that is there goes on the stack. -/
theorem step_ldArg (found : a.args[slot.toNat]? = some v) (returnsValue : Bool)
    (this : Option ObjectRef) (s : State) :
    a.step returnsValue this (.ldArg slot) s = (.ok (.next (a.push v)), s) := by
  simp only [step, found]
  rfl

/-- A local that is there goes on the stack. -/
theorem step_ldLoc (found : a.locals[slot.toNat]? = some v) (returnsValue : Bool)
    (this : Option ObjectRef) (s : State) :
    a.step returnsValue this (.ldLoc slot) s = (.ok (.next (a.push v)), s) := by
  simp only [step, found]
  rfl

end Activation

end ScriptHost.Host

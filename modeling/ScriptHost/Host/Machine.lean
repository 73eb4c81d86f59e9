import ScriptHost.Host.State
/-!
The stack machine that runs method bodies, one instruction at a time. Calls are left to whoever
drives the machine.
-/
namespace ScriptHost.Host

/-- A method body under way. -/
structure Activation where
  pc : Nat
  /-- The operands, top first. -/
  stack : List Value
  locals : Array Value
  args : Array Value

/-- What an instruction asks for. -/
inductive Step
  | next (a : Activation)
  | done (v : Value)
  /-- A call, and the activation that goes on with its value. -/
  | call (callee : Method) (receiver : Option ObjectRef) (args : Array Value) (keepsValue : Bool)
      (a : Activation)

namespace Activation

/-- The start of a body: no operands, and defaults in the locals. -/
def start (body : Body) (args : Array Value) : Activation :=
  ⟨0, [], body.locals.map Value.defaultFor, args⟩

/-- The activation with another operand on top. -/
def push (a : Activation) (v : Value) : Activation :=
  { a with stack := v :: a.stack }

/-- The activation with other operands. -/
def withStack (a : Activation) (stack : List Value) : Activation :=
  { a with stack }

/-- The activation about to run the instruction of a branch target. -/
def jump (a : Activation) (target : UInt32) : Activation :=
  { a with pc := target.toNat }

/-- Everything that the activation holds. -/
def held (a : Activation) : List Value :=
  a.stack ++ a.locals.toList ++ a.args.toList

end Activation

/-- Takes the top operand. -/
def popOperand : List Value → Except HostException (Value × List Value)
  | [] => .error .stackUnderflow
  | v :: rest => .ok (v, rest)

/-- Takes `n` operands, deepest first. -/
def popOperands (n : Nat) (stack : List Value) : Except HostException (Array Value × List Value) :=
  if stack.length < n then .error .stackUnderflow
  else .ok ((stack.take n).reverse.toArray, stack.drop n)

/-- Takes an object. -/
def popObject (stack : List Value) : Except HostException (ObjectRef × List Value) := do
  match ← popOperand stack with
  | (.object ref, rest) => pure (ref, rest)
  | (.null, _) => throw .nullObject
  | (other, _) => throw (.notAnObject other.diagnostic)

/-- Takes an index. -/
def popIndex (stack : List Value) : Except HostException (Nat × List Value) := do
  let (v, rest) ← popOperand stack
  match v.asNat? with
  | some i => pure (i, rest)
  | none => throw .badIndex

/-- The operator on signed words, wrapping. -/
def ArithOp.onInt64 : ArithOp → Int64 → Int64 → Int64
  | .add, a, b => a + b
  | .sub, a, b => a - b
  | .mul, a, b => a * b

/-- The operator on unsigned words, wrapping. -/
def ArithOp.onUInt64 : ArithOp → UInt64 → UInt64 → UInt64
  | .add, a, b => a + b
  | .sub, a, b => a - b
  | .mul, a, b => a * b

/-- The operator on doubles. -/
def ArithOp.onFloat : ArithOp → Float → Float → Float
  | .add, a, b => a + b
  | .sub, a, b => a - b
  | .mul, a, b => a * b

/-- Whether a value is a byte string. -/
def Value.isStr (v : Value) : Bool := v.asBytes?.isSome

/-- Whether a value is a double. -/
def Value.isFloat : Value → Bool
  | .float _ => true
  | _ => false

/-- Applies an operator. A sum with a byte string joins the two texts, a double makes the result a
double, and two unsigned words give an unsigned one. -/
def ArithOp.apply (op : ArithOp) (a b : Value) : Except HostException Value :=
  let bad := HostException.badOperands a.diagnostic b.diagnostic
  if op = .add ∧ (a.isStr ∨ b.isStr) then
    .ok (.text (a.shown ++ b.shown))
  else if a.isFloat ∨ b.isFloat then
    match a.asFloat?, b.asFloat? with
    | some x, some y => .ok (.float (op.onFloat x y))
    | _, _ => .error bad
  else
    match a, b with
    | .uint x, .uint y => .ok (.uint (op.onUInt64 x y))
    | a, b =>
      match a.asInt64?, b.asInt64? with
      | some x, some y => .ok (.int (op.onInt64 x y))
      | _, _ => .error bad

/-- Runs one instruction. The activation already stands behind it. -/
def Activation.step (returnsValue : Bool) (this : Option ObjectRef) (a : Activation) :
    Instr → HostM Step
  | .nop | .anchor _ => pure (.next a)
  | .ldNull => pure (.next (a.push .null))
  | .ldBool b => pure (.next (a.push (.bool b)))
  | .ldInt i => pure (.next (a.push (.int i)))
  | .ldFloat x => pure (.next (a.push (.float x)))
  | .ldStr s => pure (.next (a.push (.text s)))
  | .ldToken t => pure (.next (a.push (.int t.id.toUInt64.toInt64)))
  | .ldArg i =>
    match a.args[i.toNat]? with
    | some v => pure (.next (a.push v))
    | none => throw (.noSlot i)
  | .stArg i => do
    let (v, stack) ← popOperand a.stack
    if i.toNat < a.args.size then
      pure (.next { a with stack, args := a.args.setIfInBounds i.toNat v })
    else throw (.noSlot i)
  | .ldLoc i =>
    match a.locals[i.toNat]? with
    | some v => pure (.next (a.push v))
    | none => throw (.noSlot i)
  | .stLoc i => do
    let (v, stack) ← popOperand a.stack
    if i.toNat < a.locals.size then
      pure (.next { a with stack, locals := a.locals.setIfInBounds i.toNat v })
    else throw (.noSlot i)
  | .ldThis =>
    match this with
    | some ref => pure (.next (a.push (.object ref)))
    | none => throw .noReceiver
  | .ldFld i => do
    let (ref, stack) ← popObject a.stack
    match (← get).heap.get? ref i.toNat with
    | some v => pure (.next (a.withStack (v :: stack)))
    | none => throw (.noField i)
  | .stFld i => do
    let (v, stack) ← popOperand a.stack
    let (ref, stack) ← popObject stack
    if ← modifyGet (·.setSlot ref i.toNat v) then pure (.next (a.withStack stack))
    else throw (.noField i)
  | .newArr element => do
    let (v, stack) ← popOperand a.stack
    match v.asNat? with
    | none => throw .arrayLength
    | some length =>
      let values := Array.replicate length (Value.defaultFor element)
      let ref ← modifyGet (·.newArray element values)
      pure (.next (a.withStack (.object ref :: stack)))
  | .ldElem => do
    let (i, stack) ← popIndex a.stack
    let (ref, stack) ← popObject stack
    let heap := (← get).heap
    match heap.get? ref i with
    | some v => pure (.next (a.withStack (v :: stack)))
    | none => throw (.indexOutside i (heap.size ref))
  | .stElem => do
    let (v, stack) ← popOperand a.stack
    let (i, stack) ← popIndex stack
    let (ref, stack) ← popObject stack
    if ← modifyGet (·.setSlot ref i v) then pure (.next (a.withStack stack))
    else throw (.indexOutside i ((← get).heap.size ref))
  | .arith op => do
    let (y, stack) ← popOperand a.stack
    let (x, stack) ← popOperand stack
    let v ← op.apply x y
    pure (.next (a.withStack (v :: stack)))
  | .ceq => do
    let (y, stack) ← popOperand a.stack
    let (x, stack) ← popOperand stack
    pure (.next (a.withStack (.bool (x.equals y) :: stack)))
  | .clt => do
    let (y, stack) ← popOperand a.stack
    let (x, stack) ← popOperand stack
    match x.asFloat?, y.asFloat? with
    | some x, some y => pure (.next (a.withStack (.bool (x < y) :: stack)))
    | _, _ => throw .notComparable
  | .dup => do
    let (v, _) ← popOperand a.stack
    pure (.next (a.push v))
  | .pop => do
    let (_, stack) ← popOperand a.stack
    pure (.next (a.withStack stack))
  | .br target => pure (.next (a.jump target))
  | .brTrue target => do
    let (v, stack) ← popOperand a.stack
    let a := a.withStack stack
    pure (.next (if v.truthy then a.jump target else a))
  | .brFalse target => do
    let (v, stack) ← popOperand a.stack
    let a := a.withStack stack
    pure (.next (if v.truthy then a else a.jump target))
  | .call t => do
    match (← get).domain.method? t with
    | none => throw (.unknownToken t)
    | some callee =>
      let (args, stack) ← popOperands callee.params.length a.stack
      if callee.hasThis then
        let (ref, stack) ← popObject stack
        pure (.call callee (some ref) args callee.returnsValue (a.withStack stack))
      else
        pure (.call callee none args callee.returnsValue (a.withStack stack))
  | .newObj t => do
    match (← get).domain.method? t with
    | none => throw (.unknownToken t)
    | some callee =>
      let (args, stack) ← popOperands callee.params.length a.stack
      pure (.call callee none args true (a.withStack stack))
  | .throw => do
    let (v, _) ← popOperand a.stack
    throw (.raised "Exception" v.shown)
  | .ret => do
    if returnsValue then
      let (v, _) ← popOperand a.stack
      pure (.done v)
    else
      pure (.done .null)

end ScriptHost.Host

import ScriptHost.Host.Value
/-!
Method bodies: a list of instructions for a stack machine, and the locals they use.
-/
namespace ScriptHost.Host

/-- Marks of the parts of a patch prologue. They do nothing when executed. -/
inductive Anchor
  | argMarshal
  | hubCall
  | vetoBranch
  | refOutWriteback
  | ret
  | ownCode
  deriving DecidableEq, Repr

/-- Every anchor, in the order in which a prologue carries them. -/
def Anchor.all : List Anchor :=
  [.argMarshal, .hubCall, .vetoBranch, .refOutWriteback, .ret, .ownCode]

/-- The three operators on numbers. -/
inductive ArithOp
  | add
  | sub
  | mul
  deriving DecidableEq, Repr

/-- One instruction. Fields, arguments and locals are named by slot, branch targets by position. -/
inductive Instr
  | nop
  | anchor (a : Anchor)
  | ldNull
  | ldBool (b : Bool)
  | ldInt (i : Int64)
  | ldFloat (x : Float)
  | ldStr (s : String)
  | ldToken (t : MethodToken)
  | ldArg (i : UInt16)
  | stArg (i : UInt16)
  | ldLoc (i : UInt16)
  | stLoc (i : UInt16)
  | ldThis
  | ldFld (i : UInt16)
  | stFld (i : UInt16)
  | newArr (element : ValueType)
  | ldElem
  | stElem
  | arith (op : ArithOp)
  | ceq
  | clt
  | dup
  | pop
  | br (target : UInt32)
  | brTrue (target : UInt32)
  | brFalse (target : UInt32)
  | call (t : MethodToken)
  | newObj (t : MethodToken)
  | throw
  | ret
  deriving DecidableEq

namespace Instr

/-- Where the instruction may branch to. -/
def branchTarget? : Instr → Option UInt32
  | .br t | .brTrue t | .brFalse t => some t
  | _ => none

/-- The instruction with another branch target. -/
def mapTarget (f : UInt32 → UInt32) : Instr → Instr
  | .br t => .br (f t)
  | .brTrue t => .brTrue (f t)
  | .brFalse t => .brFalse (f t)
  | i => i

/-- The method that the instruction names. -/
def token? : Instr → Option MethodToken
  | .ldToken t | .call t | .newObj t => some t
  | _ => none

/-- The instruction with another method in place of the one it names. -/
def mapToken (f : MethodToken → MethodToken) : Instr → Instr
  | .ldToken t => .ldToken (f t)
  | .call t => .call (f t)
  | .newObj t => .newObj (f t)
  | i => i

/-- Whether control never goes on to the next instruction. -/
def isTerminator : Instr → Bool
  | .ret | .throw | .br _ => true
  | _ => false

/-- Equality of instructions in which a number that is not one differs from itself. -/
def equals (a b : Instr) : Bool :=
  match a, b with
  | .ldFloat x, .ldFloat y => x == y
  | a, b => a == b

end Instr

/-- A method body. -/
structure Body where
  locals : Array ValueType := #[]
  code : Array Instr
  deriving DecidableEq

instance : Inhabited Body := ⟨⟨#[], #[]⟩⟩

namespace Body

/-- The position of the first mark of a kind. -/
def anchor? (b : Body) (a : Anchor) : Option Nat :=
  b.code.findIdx? (· == .anchor a)

/-- Equality of bodies in which a number that is not one differs from itself. -/
def equals (a b : Body) : Bool :=
  a.locals == b.locals && a.code.size == b.code.size &&
    (a.code.zip b.code).all fun (x, y) => x.equals y

end Body

end ScriptHost.Host

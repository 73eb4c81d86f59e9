import ScriptHost.Host.Code
/-!
Checking method bodies before they run: every instruction that control can reach has one depth of
the operand stack, enough operands, and operands that name something.
-/
namespace ScriptHost.Host

/-- Why a body is refused. -/
inductive VerifyError
  | empty
  | stackUnderflow (offset : Nat)
  | stackMismatch (offset expected found : Nat)
  | invalidBranchTarget (target : UInt32) (offset : Nat)
  | invalidArgRef (index : UInt16) (max offset : Nat)
  | invalidLocalRef (index : UInt16) (max offset : Nat)
  | noThis (offset : Nat)
  | unknownToken (token : MethodToken) (offset : Nat)
  | badCallTarget (token : MethodToken) (offset : Nat)
  | badReturn (offset depth : Nat)
  | fallOffEnd (offset : Nat)
  deriving DecidableEq, Repr

/-- What a refusal says. -/
def VerifyError.message : VerifyError → String
  | .empty => "Empty method body"
  | .stackUnderflow offset => s!"Stack underflow at {offset}"
  | .stackMismatch offset expected found =>
    s!"Inconsistent stack depth at {offset}: {expected} vs {found}"
  | .invalidBranchTarget target offset => s!"Invalid branch target {target} at {offset}"
  | .invalidArgRef index max offset => s!"Invalid argument index {index} (max {max}) at {offset}"
  | .invalidLocalRef index max offset => s!"Invalid local index {index} (max {max}) at {offset}"
  | .noThis offset => s!"`this` used in a static method at {offset}"
  | .unknownToken token offset => "Unknown method token " ++ token.text ++ s!" at {offset}"
  | .badCallTarget token offset =>
    "Token " ++ token.text ++ s!" cannot be used with this instruction at {offset}"
  | .badReturn offset depth => s!"Return at {offset} leaves {depth} values on the stack"
  | .fallOffEnd offset => s!"Execution falls off end of method at {offset}"

/-- What a body may use: a receiver, parameters, and a result to leave behind. -/
structure MethodShape where
  hasThis : Bool
  params : Nat
  returnsValue : Bool
  deriving DecidableEq, Repr

/-- What calling a method does to the stack of its caller. -/
structure CallEffect where
  params : Nat
  hasThis : Bool
  returnsValue : Bool
  constructor : Bool
  deriving DecidableEq, Repr

/-- How many operands an instruction takes and leaves. -/
structure StackEffect where
  pops : Nat
  pushes : Nat
  deriving DecidableEq, Repr

namespace Verify

variable (body : Body) (shape : MethodShape) (resolve : MethodToken → Option CallEffect)

/-- The effect of an instruction, once its slots and tokens are known to name something. -/
def stackEffect (pc : Nat) : Instr → Except VerifyError StackEffect
  | .nop | .anchor _ | .br _ => .ok ⟨0, 0⟩
  | .ldNull | .ldBool _ | .ldInt _ | .ldFloat _ | .ldStr _ | .ldToken _ => .ok ⟨0, 1⟩
  | .ldArg i =>
    if i.toNat < shape.params then .ok ⟨0, 1⟩ else .error (.invalidArgRef i shape.params pc)
  | .stArg i =>
    if i.toNat < shape.params then .ok ⟨1, 0⟩ else .error (.invalidArgRef i shape.params pc)
  | .ldLoc i =>
    if i.toNat < body.locals.size then .ok ⟨0, 1⟩
    else .error (.invalidLocalRef i body.locals.size pc)
  | .stLoc i =>
    if i.toNat < body.locals.size then .ok ⟨1, 0⟩
    else .error (.invalidLocalRef i body.locals.size pc)
  | .ldThis => if shape.hasThis then .ok ⟨0, 1⟩ else .error (.noThis pc)
  | .ldFld _ => .ok ⟨1, 1⟩
  | .stFld _ => .ok ⟨2, 0⟩
  | .newArr _ => .ok ⟨1, 1⟩
  | .ldElem => .ok ⟨2, 1⟩
  | .stElem => .ok ⟨3, 0⟩
  | .arith _ | .ceq | .clt => .ok ⟨2, 1⟩
  | .dup => .ok ⟨1, 2⟩
  | .pop | .brTrue _ | .brFalse _ | .throw => .ok ⟨1, 0⟩
  | .call t =>
    match resolve t with
    | none => .error (.unknownToken t pc)
    | some effect =>
      if effect.constructor then .error (.badCallTarget t pc)
      else .ok ⟨effect.params + effect.hasThis.toNat, effect.returnsValue.toNat⟩
  | .newObj t =>
    match resolve t with
    | none => .error (.unknownToken t pc)
    | some effect =>
      if effect.constructor then .ok ⟨effect.params, 1⟩ else .error (.badCallTarget t pc)
  | .ret => .ok ⟨shape.returnsValue.toNat, 0⟩

/-- A position to look at next, and the depth with which control gets there. -/
structure Visit where
  pc : Nat
  depth : Nat
  deriving DecidableEq, Repr

/-- Where control goes from an instruction that is entered with `depth` operands. The way straight
on comes first, because it is looked at first. -/
def visit (pc depth : Nat) (instr : Instr) : Except VerifyError (List Visit) := do
  let effect ← stackEffect body shape resolve pc instr
  if depth < effect.pops then
    throw (.stackUnderflow pc)
  let after := depth - effect.pops + effect.pushes
  if instr = .ret ∧ depth ≠ shape.returnsValue.toNat then
    throw (.badReturn pc depth)
  let branch ← match instr.branchTarget? with
    | none => pure []
    | some target =>
      if target.toNat < body.code.size then pure [⟨target.toNat, after⟩]
      else throw (.invalidBranchTarget target pc)
  if instr.isTerminator then
    pure branch
  else if pc + 1 < body.code.size then
    pure (⟨pc + 1, after⟩ :: branch)
  else
    throw (.fallOffEnd pc)

/-- The depths known so far, one place for each instruction. -/
abbrev Depths := Array (Option Nat)

/-- How many instructions have no depth yet. -/
def unseen (depths : Depths) : Nat :=
  depths.count none

theorem unseen_set (depths : Depths) (pc depth : Nat) (h : depths[pc]? = some none) :
    unseen (depths.setIfInBounds pc (some depth)) + 1 = unseen depths := by
  obtain ⟨inBounds, isNone⟩ := Array.getElem?_eq_some_iff.1 h
  have positive : 0 < Array.count none depths := by
    rw [Array.count_pos_iff]
    exact isNone ▸ Array.getElem_mem inBounds
  simp only [unseen, Array.setIfInBounds, inBounds, dite_true]
  rw [Array.count_set inBounds]
  simp [isNone]
  omega

/-- At most one branch and one step straight on. -/
theorem length_visit {pc depth : Nat} {instr : Instr} {next : List Visit}
    (h : visit body shape resolve pc depth instr = .ok next) : next.length ≤ 2 := by
  simp only [visit, bind, Except.bind, pure, Except.pure, throw, throwThe,
    MonadExceptOf.throw] at h
  grind

/-- Works off the positions still to look at, last come first, and fills in their depths. -/
def walk (depths : Depths) : List Visit → Except VerifyError Depths
  | [] => .ok depths
  | ⟨pc, depth⟩ :: rest =>
    match _known : depths[pc]?, body.code[pc]? with
    | some none, some instr =>
      match _step : visit body shape resolve pc depth instr with
      | .error e => .error e
      | .ok next => walk (depths.setIfInBounds pc (some depth)) (next ++ rest)
    | some (some expected), _ =>
      if expected = depth then walk depths rest else .error (.stackMismatch pc expected depth)
    | _, _ => walk depths rest
termination_by work => 2 * unseen depths + work.length
decreasing_by
  all_goals simp only [List.length_append, List.length_cons]
  · have := unseen_set depths pc depth _known
    have := length_visit body shape resolve _step
    omega
  · omega
  · omega

end Verify

/-- Accepts a body all of whose reachable instructions are sound. -/
def verify (body : Body) (shape : MethodShape) (resolve : MethodToken → Option CallEffect) :
    Except VerifyError Unit :=
  if body.code.isEmpty then .error .empty
  else
    (Verify.walk body shape resolve (Array.replicate body.code.size none) [⟨0, 0⟩]).map fun _ => ()

end ScriptHost.Host

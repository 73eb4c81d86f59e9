import ScriptHost.Proofs.Host.Calls
import ScriptHost.Proofs.Host.HostM
/-!
Stretches of code: instructions that follow each other in a body, running several of them without a
call in between, and code that stands further on in a body.
-/
namespace ScriptHost.Host

variable {ε : Type}

/-! ## Instructions in a row -/

/-- A body has some instructions in a row, from a position on. -/
def CodeAt (code : Array Instr) (pc : Nat) (instrs : List Instr) : Prop :=
  ∀ (i : Nat) (instr : Instr), instrs[i]? = some instr → code[pc + i]? = some instr

namespace CodeAt

variable {code : Array Instr} {pc : Nat} {instr : Instr} {first second : List Instr}

theorem head (at' : CodeAt code pc (instr :: second)) : code[pc]? = some instr :=
  at' 0 instr rfl

theorem tail (at' : CodeAt code pc (instr :: second)) : CodeAt code (pc + 1) second := by
  intro i other found
  rw [Nat.add_assoc, Nat.add_comm 1 i]
  exact at' (i + 1) other found

theorem left (at' : CodeAt code pc (first ++ second)) : CodeAt code pc first := by
  intro i other found
  obtain ⟨inBounds, _⟩ := List.getElem?_eq_some_iff.1 found
  exact at' i other (by rw [List.getElem?_append_left inBounds, found])

theorem right (at' : CodeAt code pc (first ++ second)) : CodeAt code (pc + first.length) second := by
  intro i other found
  rw [Nat.add_assoc]
  apply at'
  rw [List.getElem?_append_right (Nat.le_add_right _ _), Nat.add_sub_cancel_left, found]

theorem of_append (instrs : List Instr) (rest : Array Instr) :
    CodeAt (instrs.toArray ++ rest) 0 instrs := by
  intro i other found
  obtain ⟨inBounds, _⟩ := List.getElem?_eq_some_iff.1 found
  rw [Nat.zero_add, Array.getElem?_append_left (by simpa using inBounds), List.getElem?_toArray,
    found]

end CodeAt

/-! ## Running instructions in a row -/

/-- Running `n` instructions of a body, none of which calls or ends, all of them before `bound`. -/
inductive Steps (method : Method) (body : Body) (this : Option ObjectRef) (bound : Nat) :
    Nat → Activation → World ε → Activation → World ε → Prop
  | refl (a : Activation) (w : World ε) : Steps method body this bound 0 a w a w
  | step {n : Nat} {instr : Instr} {a b c : Activation} {w after last : World ε}
      (found : body.code[a.pc]? = some instr) (below : a.pc < bound)
      (performed : perform method this a instr w = (.ok (.next b), after))
      (rest : Steps method body this bound n b after c last) :
      Steps method body this bound (n + 1) a w c last

namespace Steps

variable {method : Method} {body : Body} {this : Option ObjectRef} {bound n k : Nat}
  {a b c : Activation} {w after last : World ε}

theorem trans (first : Steps method body this bound n a w b after)
    (second : Steps method body this bound k b after c last) :
    Steps method body this bound (k + n) a w c last := by
  induction first with
  | refl => exact second
  | step found below performed _ ih => exact .step found below performed (ih second)

theorem one {instr : Instr} (found : body.code[a.pc]? = some instr) (below : a.pc < bound)
    (performed : perform method this a instr w = (.ok (.next b), after)) :
    Steps method body this bound 1 a w b after :=
  .step found below performed (.refl b after)

/-- A stretch uses up as much of the budget as it has instructions. -/
theorem runBody_eq {call : Method → Option ObjectRef → Array Value → StateM (World ε) Completion}
    {limit remaining : Nat} (steps : Steps method body this bound n a w b after) :
    runBody call limit method body this (remaining + n) a w =
      runBody call limit method body this remaining b after := by
  induction steps with
  | refl => rfl
  | step found _ performed _ ih =>
    rw [← Nat.add_assoc, runBody_next found performed]
    exact ih

/-- A stretch that the budget does not cover breaks off with the exception for that. -/
theorem runBody_short {call : Method → Option ObjectRef → Array Value → StateM (World ε) Completion}
    {limit remaining : Nat} (steps : Steps method body this bound n a w b after)
    (short : remaining < n) :
    (runBody call limit method body this remaining a w).1.ending =
      .threw (.stepLimit limit method.signature) := by
  induction steps generalizing remaining with
  | refl => exact absurd short (Nat.not_lt_zero _)
  | step found _ performed _ ih =>
    cases remaining with
    | zero => rw [runBody_zero found]
    | succ remaining =>
      rw [runBody_next found performed]
      exact ih (Nat.lt_of_succ_lt_succ short)

end Steps

/-! ## Code that stands further on

If its branches move along, it runs as it did.
-/

/-- The activation some positions further on. -/
def Activation.moved (k : Nat) (a : Activation) : Activation :=
  { a with pc := a.pc + k }

/-- What an instruction asks for, some positions further on. -/
def Step.moved (k : Nat) : Step → Step
  | .next a => .next (a.moved k)
  | .done v => .done v
  | .call callee receiver args keepsValue a => .call callee receiver args keepsValue (a.moved k)

/-- An instruction that moved does what it did. -/
theorem step_moved {k : UInt32} {instr : Instr}
    (fits : ∀ target, instr.branchTarget? = some target → target.toNat + k.toNat < UInt32.size)
    (returnsValue : Bool) (this : Option ObjectRef) (a : Activation) :
    (a.moved k.toNat).step returnsValue this (instr.mapTarget (· + k)) =
      Step.moved k.toNat <$> a.step returnsValue this instr := by
  have target : ∀ t, instr.branchTarget? = some t → (t + k).toNat = t.toNat + k.toNat := by
    intro t found
    rw [UInt32.toNat_add]
    exact Nat.mod_eq_of_lt (fits t found)
  cases instr with
  | br t =>
    simp only [Activation.step, Instr.mapTarget, Activation.moved, map_pure, Step.moved,
      Activation.jump, target t rfl]
  | brTrue t | brFalse t =>
    simp only [Activation.step, Instr.mapTarget, Activation.moved, map_bind, map_pure, Step.moved,
      Activation.jump, Activation.withStack, target t rfl]
    refine bind_congr fun popped => ?_
    cases popped.1.truthy <;> rfl
  | stArg i | stLoc i =>
    simp only [Activation.step, Instr.mapTarget, Activation.moved, map_bind]
    refine bind_congr fun popped => ?_
    rw [apply_ite (Step.moved k.toNat <$> ·)]
    rfl
  | _ =>
    simp only [Activation.step, Instr.mapTarget, Activation.moved, map_bind, map_pure, Step.moved,
      Activation.push, Activation.withStack]
    -- What is left differs at the ends of the branches only, where the position stands.
    repeat' first
      | with_reducible rfl
      | refine bind_congr fun _ => ?_
      | split
      | simp only [map_bind, map_pure, HostM.map_throw, Step.moved, Activation.moved]
      | rfl

section

variable {method : Method} {this : Option ObjectRef}

/-- An instruction that moved does what it did, in any world. -/
theorem perform_moved {k : UInt32} {instr : Instr}
    (fits : ∀ target, instr.branchTarget? = some target → target.toNat + k.toNat < UInt32.size)
    (a : Activation) (w : World ε) :
    perform method this (a.moved k.toNat) (instr.mapTarget (· + k)) w =
      ((perform method this a instr w).1.map (Step.moved k.toNat),
        (perform method this a instr w).2) := by
  have forward : ({ a.moved k.toNat with pc := (a.moved k.toNat).pc + 1 } : Activation) =
      ({ a with pc := a.pc + 1 } : Activation).moved k.toNat := by
    simp only [Activation.moved, Nat.add_right_comm]
  unfold perform
  rw [forward]
  simp only [World.onHost_apply, step_moved fits, HostM.map_apply]

/-- A body whose code stands behind other code, with its branches moved along, runs as it does. -/
theorem runBody_moved {call : Method → Option ObjectRef → Array Value → StateM (World ε) Completion}
    {limit : Nat} {own moved : Body} {k : UInt32} {before : Array Instr}
    (size : before.size = k.toNat)
    (fits : ∀ instr ∈ own.code, ∀ target, instr.branchTarget? = some target →
      target.toNat + k.toNat < UInt32.size)
    (code : moved.code = before ++ own.code.map (Instr.mapTarget (· + k)))
    (remaining : Nat) (a : Activation) (w : World ε) :
    runBody call limit method moved this remaining (a.moved k.toNat) w =
      runBody call limit method own this remaining a w := by
  have lookup : ∀ a : Activation, moved.code[(a.moved k.toNat).pc]? =
      own.code[a.pc]?.map (Instr.mapTarget (· + k)) := by
    intro a
    rw [code, Array.getElem?_append_right (by simp [Activation.moved, size])]
    simp [Activation.moved, size]
  induction remaining generalizing a w with
  | zero =>
    have there := lookup a
    cases found : own.code[a.pc]? with
    | none =>
      rw [found] at there
      rw [runBody_end found, runBody_end there]
      rfl
    | some instr =>
      rw [found] at there
      rw [runBody_zero found, runBody_zero there]
      rfl
  | succ remaining ih =>
    have there := lookup a
    cases found : own.code[a.pc]? with
    | none =>
      rw [found] at there
      rw [runBody_end found, runBody_end there]
      rfl
    | some instr =>
      rw [found] at there
      rw [runBody_succ found, runBody_succ there,
        perform_moved (fits instr (Array.mem_of_getElem? found))]
      cases perform method this a instr w with
      | mk outcome after =>
        cases outcome with
        | error e => rfl
        | ok asked =>
          cases asked with
          | done v => rfl
          | next b => exact ih b after
          | call callee ref args keepsValue b =>
            simp only [Except.map, Step.moved]
            have sameHeld : waiting this (b.moved k.toNat) = waiting this b := rfl
            rw [sameHeld]
            cases World.holding (waiting this b) (call callee ref args) after with
            | mk completion last =>
              obtain ⟨ending, left⟩ := completion
              cases ending with
              | returned v =>
                cases keepsValue with
                | false => exact ih b last
                | true => exact ih (b.push v) last
              | threw e => rfl
              | interrupted i => rfl

end

end ScriptHost.Host

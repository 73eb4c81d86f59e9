import ScriptHost.Proofs.Host.Calls
/-!
What the budget of steps does to a call. It decides whether the call is cut off, and nothing else:
one that is not ends as it would with any larger budget, and leaves the same world behind. Every
nested call has the whole budget again, so the induction is over the instructions of an activation
within one over the calls that are nested in it.
-/
namespace ScriptHost.Host

variable {ε : Type}

/-- A call ran out of the steps that it, or a call nested in it, may take. -/
inductive Ending.CutOff : Ending → Prop
  | stepLimit (limit : Nat) (method : String) : CutOff (.threw (.stepLimit limit method))

namespace Ending

theorem not_cutOff_returned (v : Value) : ¬ (Ending.returned v).CutOff := nofun

theorem cutOff_iff {e : Ending} :
    e.CutOff ↔ ∃ limit signature, e = .threw (.stepLimit limit signature) := by
  constructor
  · rintro ⟨limit, signature⟩
    exact ⟨limit, signature, rfl⟩
  · rintro ⟨limit, signature, rfl⟩
    exact .stepLimit limit signature

/-- A call is cut off when its method is. -/
theorem cutOff_ofCall {method : Method} {this : Option ObjectRef} {c : Completion} :
    (c.ofCall method this).ending.CutOff ↔ c.ending.CutOff := by
  simp only [cutOff_iff, Completion.threw_ofCall]

end Ending

/-- A computation that is `m` with more steps at its disposal: it does the same in every world in
which `m` is not cut off. -/
def Prolongs (m longer : StateM (World ε) Completion) : Prop :=
  ∀ w, ¬ (m w).1.ending.CutOff → longer w = m w

namespace Prolongs

theorem refl (m : StateM (World ε) Completion) : Prolongs m m := fun _ _ => rfl

theorem holding {m longer : StateM (World ε) Completion} (prolongs : Prolongs m longer)
    (values : List Value) : Prolongs (World.holding values m) (World.holding values longer) := by
  intro w within
  unfold World.holding
  rw [prolongs _ within]

end Prolongs

/-- Calls that have more steps at their disposal. -/
def ProlongsCalls (call longer : Method → Option ObjectRef → Array Value →
    StateM (World ε) Completion) : Prop :=
  ∀ callee receiver args, Prolongs (call callee receiver args) (longer callee receiver args)

section

variable {call longer : Method → Option ObjectRef → Array Value → StateM (World ε) Completion}
  {limit limit' : Nat} {method : Method} {body : Body} {this : Option ObjectRef}

/-- An activation with more steps left, and with calls that have more, does the same if it is not
cut off. -/
theorem runBody_prolongs (calls : ProlongsCalls call longer) {remaining remaining' : Nat}
    (more : remaining ≤ remaining') (a : Activation) :
    Prolongs (runBody call limit method body this remaining a)
      (runBody longer limit' method body this remaining' a) := by
  induction remaining generalizing remaining' a with
  | zero =>
    intro w within
    cases found : body.code[a.pc]? with
    | none => rw [runBody_end found, runBody_end found]
    | some instr =>
      rw [runBody_zero found] at within
      exact absurd (.stepLimit limit method.signature) within
  | succ remaining ih =>
    intro w within
    obtain ⟨remaining', rfl⟩ := Nat.exists_eq_add_of_le' (Nat.lt_of_lt_of_le
      (Nat.succ_pos remaining) more)
    have left : remaining ≤ remaining' := Nat.le_of_succ_le_succ more
    cases found : body.code[a.pc]? with
    | none => rw [runBody_end found, runBody_end found]
    | some instr =>
      rw [runBody_succ found] at within
      rw [runBody_succ found, runBody_succ found]
      cases performed : perform method this a instr w with
      | mk outcome after =>
        rw [performed] at within
        cases outcome with
        | error e => rfl
        | ok step =>
          cases step with
          | done v => rfl
          | next b => exact ih left b after within
          | call callee receiver args keepsValue b =>
            have nested := (calls callee receiver args).holding (waiting this b) after
            dsimp only at within ⊢
            cases called : World.holding (waiting this b) (call callee receiver args) after with
            | mk completion back =>
              obtain ⟨ending, args'⟩ := completion
              rw [called] at within nested
              -- A nested call that is cut off cuts off this activation as well.
              cases ending with
              | returned v =>
                rw [nested (Ending.not_cutOff_returned v)]
                exact ih left _ back within
              | threw e => rw [nested within]
              | interrupted i => rw [nested within]

end

/-- The patches of a domain run alone decline, whatever the budget is. -/
theorem consultPatches_direct (limit limit' : Nat) (args : Array Value) :
    consultPatches (.direct limit : Context ε) args = consultPatches (.direct limit') args := rfl

theorem runMethod_prolongs {limit limit' depth : Nat} (more : limit ≤ limit')
    (calls : ProlongsCalls (invoke (.direct limit : Context ε) depth)
      (invoke (.direct limit') depth))
    (method : Method) (this : Option ObjectRef) (args : Array Value) :
    Prolongs (runMethod (.direct limit : Context ε) depth method this args)
      (runMethod (.direct limit') depth method this args) := by
  unfold runMethod
  cases method.body with
  | native actions => exact .refl _
  | code body => exact runBody_prolongs calls more _
  | patchHub =>
    rw [consultPatches_direct limit limit']
    exact .refl _
  | absent => exact .refl _

/-- A call with a larger budget does the same if it is not cut off. -/
theorem invoke_prolongs {limit limit' : Nat} (more : limit ≤ limit') (depth : Nat) :
    ProlongsCalls (invoke (.direct limit : Context ε) depth) (invoke (.direct limit') depth) := by
  induction depth with
  | zero => exact fun _ _ _ => .refl _
  | succ depth ih =>
    intro method this args w within
    rw [invoke_succ] at within
    rw [invoke_succ, invoke_succ]
    split
    · rfl
    rename_i fits
    rw [if_neg fits] at within
    cases received : World.onHost (receiver method this) w with
    | mk outcome after =>
      rw [received] at within
      cases outcome with
      | error e => rfl
      | ok ref =>
        dsimp only at within ⊢
        rw [runMethod_prolongs more ih method ref args after
          (fun cut => within (Ending.cutOff_ofCall.2 cut))]

/-- The budget only cuts off. A call that is not cut off gives the same value or exception with
every larger budget, and leaves the same arguments and the same world; so one that a budget cuts off
is cut off by every smaller one. -/
theorem invoke_direct_eq_of_le {limit limit' : Nat} (more : limit ≤ limit') (depth : Nat)
    (method : Method) (this : Option ObjectRef) (args : Array Value) (w : World ε) :
    (¬ (invoke (.direct limit) depth method this args w).1.ending.CutOff →
      invoke (.direct limit') depth method this args w =
        invoke (.direct limit) depth method this args w) ∧
    ((invoke (.direct limit') depth method this args w).1.ending.CutOff →
      (invoke (.direct limit) depth method this args w).1.ending.CutOff) := by
  have same := invoke_prolongs more depth method this args w
  refine ⟨same, fun cut => Classical.byContradiction fun within => ?_⟩
  rw [same within] at cut
  exact within cut

/-- A method that calls itself with a number less one until that is nothing. -/
def down : MethodDecl where
  name := "Down"
  kind := .static
  params := [{ name := "n", type := .numeric .int64 }]
  ret := .numeric .int64
  body := .code { code := #[.ldArg 0, .brFalse 7, .ldArg 0, .ldInt 1, .arith .sub, .call ⟨1⟩, .ret,
    .ldInt 0, .ret] }

/-- The world of a host with that method. -/
def descending : World Unit :=
  World.alone (({} : State).define ⟨"Numbers", none, false, [], [down]⟩).2

/-- The method as its host has it. -/
def downMethod : Method :=
  down.toMethod ⟨1⟩ ⟨1⟩ "Numbers"

/-- Counting down from two takes three calls, and the longer two of them take seven steps. A million
steps give what seven give, and since six cut off a nested call, so do five. -/
theorem descending_limits :
    descending.host.domain.method? ⟨1⟩ = some downMethod ∧
      (invoke (.direct 7) 3 downMethod none #[.int 2] descending).1.ending = .returned (.int 0) ∧
      invoke (.direct 1000000) 3 downMethod none #[.int 2] descending =
        invoke (.direct 7) 3 downMethod none #[.int 2] descending ∧
      (invoke (.direct 6) 3 downMethod none #[.int 2] descending).1.ending =
        .threw (.stepLimit 6 "Numbers::Down(Int64)") ∧
      (invoke (.direct 5) 3 downMethod none #[.int 2] descending).1.ending.CutOff := by
  have returns : (invoke (.direct 7) 3 downMethod none #[.int 2] descending).1.ending =
      .returned (.int 0) := by decide +kernel
  have cut : (invoke (.direct 6) 3 downMethod none #[.int 2] descending).1.ending =
      .threw (.stepLimit 6 "Numbers::Down(Int64)") := by decide +kernel
  refine ⟨by decide +kernel, returns, ?_, cut, ?_⟩
  · apply (invoke_direct_eq_of_le (by decide) 3 downMethod none #[.int 2] descending).1
    rw [returns]
    exact Ending.not_cutOff_returned _
  · apply (invoke_direct_eq_of_le (Nat.le_succ 5) 3 downMethod none #[.int 2] descending).2
    rw [cut]
    exact .stepLimit 6 "Numbers::Down(Int64)"

end ScriptHost.Host

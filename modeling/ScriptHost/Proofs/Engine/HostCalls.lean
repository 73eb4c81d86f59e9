import ScriptHost.Proofs.Engine.Conduct
import ScriptHost.Proofs.Host.Conduct
/-!
What calls of methods of the host leave as it is, given that the patches do that they consult. Each
kind of call is a conduct, and its law is that of all conducts.
-/
namespace ScriptHost

namespace Host

variable {ε : Type} {hidden : Nat → Prop} {I : ε → Prop} {w v u : World ε} {ctx : Context ε}

/-! ## Hidden objects

Calls reach no further than what they are given. Objects that neither the receiver, an argument nor
a static slot leads to are hidden from a call, and it leaves them alone, however they are connected
with each other. -/

/-- A completion that holds open values only. -/
structure Completion.Open (hidden : Nat → Prop) (c : Completion) : Prop where
  args : AllOpen hidden c.args.toList
  value : ∀ v, c.ending = .returned v → v.Open hidden

/-- A question about a method that does not involve hidden objects. -/
structure PatchRequest.Open (hidden : Nat → Prop) (r : PatchRequest) : Prop where
  target : ∀ ref, r.target = some ref → ref.Open hidden
  carrier : r.carrier.Open hidden

/-- A world whose host refers to hidden objects nowhere but in hidden objects, with surroundings of
some kind. -/
structure World.Veiled (hidden : Nat → Prop) (I : ε → Prop) (w : World ε) : Prop where
  host : w.host.Veiled hidden
  outer : I w.outer

/-- What may become of a world while hidden objects are left alone. -/
structure World.Shields (hidden : Nat → Prop) (I : ε → Prop) (w v : World ε) : Prop where
  host : w.host.Shields hidden v.host
  outer : I v.outer

namespace World

theorem Veiled.shields (isVeiled : w.Veiled hidden I) : w.Shields hidden I w :=
  ⟨isVeiled.host.shields, isVeiled.outer⟩

theorem Shields.isVeiled (shields : w.Shields hidden I v) : v.Veiled hidden I :=
  ⟨shields.host.isVeiled, shields.outer⟩

theorem Shields.trans (first : w.Shields hidden I v) (second : v.Shields hidden I u) :
    w.Shields hidden I u :=
  ⟨first.host.trans second.host, second.outer⟩

end World

/-- A call that leaves hidden objects alone. -/
def Confined (hidden : Nat → Prop) (I : ε → Prop) (m : StateM (World ε) Completion) : Prop :=
  ∀ w : World ε, w.Veiled hidden I → w.Shields hidden I (m w).2 ∧ (m w).1.Open hidden

/-- Patches that leave hidden objects alone. -/
def Context.Confined (hidden : Nat → Prop) (I : ε → Prop) (ctx : Context ε) : Prop :=
  ∀ r : PatchRequest, r.Open hidden → ∀ w : World ε, w.Veiled hidden I →
    w.Shields hidden I (ctx.dispatch r w).2

/-- Where nothing is patched, nothing is disturbed. -/
theorem Context.confined_direct (limit : Nat) : (Context.direct limit).Confined hidden I :=
  fun _ _ _ isVeiled => isVeiled.shields

/-- Calls that leave hidden objects alone. -/
def Conduct.confined (hidden : Nat → Prop) (I : ε → Prop) : Conduct ε where
  toRegime := .veiled hidden
  Fits := World.Veiled hidden I
  Becomes := fun _ => World.Shields hidden I
  Excuses := fun _ => False
  host := World.Veiled.host
  fits := fun _ => World.Shields.isVeiled
  leads := World.Shields.host
  stay := fun _ => World.Veiled.shields
  rehost := fun isVeiled shields => ⟨shields, isVeiled.outer⟩
  since := fun _ => World.Shields.trans
  aside := fun _ _ isVeiled => ⟨isVeiled.host, isVeiled.outer⟩
  surface := fun _ _ shields => ⟨shields.host, shields.outer⟩

/-- A call leaves every object alone that it cannot get at from its receiver, its arguments and the
static slots. -/
theorem confined_invoke (confined : ctx.Confined hidden I) (depth : Nat)
    (method : Method) {this : Option ObjectRef} {args : Array Value}
    (target : ∀ ref, this = some ref → ref.Open hidden) (known : AllOpen hidden args.toList) :
    Confined hidden I (invoke ctx depth method this args) := by
  intro w isVeiled
  have allows : (Conduct.confined hidden I).Allows .same ctx ctx :=
    Conduct.allows_same fun r w isVeiled target carrier =>
      .inr (confined r ⟨target, carrier⟩ w isVeiled)
  cases Conduct.ends_invoke allows depth method isVeiled target known with
  | excused _ excuses => exact excuses.elim
  | told shields holds => exact ⟨shields, holds.args, holds.value⟩

/-! ## The surroundings of the host -/

/-- A call in whose course the surroundings of the host stay of a kind, unless levels run out. -/
def Upholds (I : ε → Prop) (m : StateM (World ε) Completion) : Prop :=
  ∀ w : World ε, I w.outer → (m w).1.ending ≠ .interrupted .exhausted → I (m w).2.outer

/-- Patches that leave the surroundings of the host of a kind, unless levels run out. -/
def Context.Upholds (I : ε → Prop) (ctx : Context ε) : Prop :=
  ∀ (r : PatchRequest) (w : World ε), I w.outer → (ctx.dispatch r w).1 ≠ .error .exhausted →
    I (ctx.dispatch r w).2.outer

/-- Calls that leave the surroundings of the host of a kind, unless levels run out. -/
def Conduct.upholding (I : ε → Prop) : Conduct ε where
  toRegime := .free
  Fits := fun w => I w.outer
  Becomes := fun _ _ v => I v.outer
  Excuses := (· = .exhausted)
  host := fun _ => trivial
  fits := fun _ => id
  leads := fun _ => trivial
  stay := fun _ => id
  rehost := fun is _ => is
  since := fun _ _ => id
  aside := fun _ _ => id
  surface := fun _ _ => id

/-- A call leaves the surroundings of the host of a kind if the patches do. -/
theorem upholds_invoke (upholds : ctx.Upholds I) (depth : Nat) (method : Method)
    (this : Option ObjectRef) (args : Array Value) :
    Upholds I (invoke ctx depth method this args) := by
  intro w is inTime
  have allows : (Conduct.upholding I).Allows .same ctx ctx :=
    Conduct.allows_same fun r w is _ _ => by
      by_cases deep : (ctx.dispatch r w).1 = .error .exhausted
      · exact .inl ⟨_, deep, rfl⟩
      · exact .inr (upholds r w is deep)
  cases Conduct.ends_invoke allows depth method is (fun _ _ => trivial) fun _ _ => trivial with
  | excused interrupted excuses => exact absurd (excuses ▸ interrupted) inTime
  | told still _ => exact still

end Host

/-! ## Orderly calls -/

open Host

variable {hidden : Nat → Prop}

/-- A host call that leaves hidden objects as well as stack and frames alone. -/
def OrderlyCall (hidden : Nat → Prop) (m : StateM (World Engine) Completion) : Prop :=
  ∀ w, Proper hidden w →
    Leads hidden .still (m w).1.ending.broke w (m w).2 ∧ (m w).1.Open hidden

/-- Patches that leave hidden objects as well as stack and frames alone. -/
def OrderlyContext (hidden : Nat → Prop) (ctx : Context Engine) : Prop :=
  ∀ r : PatchRequest, r.Open hidden → ∀ w, Proper hidden w →
    Leads hidden .still (Ending.ofAnswer (ctx.dispatch r w).1).broke w (ctx.dispatch r w).2

/-- Calls that leave hidden objects as well as stack and frames alone. -/
def orderlyCalls (hidden : Nat → Prop) : Conduct Engine where
  toRegime := .secluded hidden
  Fits := Proper hidden
  Becomes := Leads hidden .still
  Excuses := fun _ => False
  host := Proper.host
  fits := fun proper leads => leads.proper proper
  leads := Leads.host
  stay := fun broke proper => by
    cases broke with
    | false => exact proper.leads
    | true => exact proper.given_up
  rehost := fun proper keeps => proper.rehost keeps rfl
  since := fun proper first second => first.trans proper second
  aside := fun _ _ proper => ⟨proper.host, proper.engine, proper.fits⟩
  surface := fun _ _ leads => ⟨leads.host, leads.engine, leads.script, leads.posts⟩

/-- Calling a method, at whatever depth. -/
theorem orderly_invoke {ctx : Context Engine} (orderly : OrderlyContext hidden ctx) (depth : Nat)
    (method : Method) {this : Option ObjectRef} {args : Array Value}
    (target : ∀ ref, this = some ref → ref.Open hidden) (known : AllOpen hidden args.toList) :
    OrderlyCall hidden (invoke ctx depth method this args) := by
  intro w proper
  have allows : (orderlyCalls hidden).Allows .same ctx ctx :=
    Conduct.allows_same fun r w proper target carrier =>
      .inr (orderly r ⟨target, carrier⟩ w proper)
  cases Conduct.ends_invoke allows depth method proper target known with
  | excused _ excuses => exact excuses.elim
  | told leads holds => exact ⟨leads, holds.args, holds.value⟩

end ScriptHost

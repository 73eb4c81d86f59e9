import ScriptHost.Proofs.Host.Conduct
import ScriptHost.Proofs.Host.Growth
/-!
What a run does to the types of a host. Arrays may need a type of their own, and patches may do
whatever a domain offers; nothing else changes the domain.
-/
namespace ScriptHost.Host

variable {α ε : Type}

/-! ## Computations on the host -/

/-- Storing into a slot leaves the types alone. -/
theorem domain_setSlot (s : State) (ref : ObjectRef) (slot : Nat) (v : Value) :
    (s.setSlot ref slot v).2.domain = s.domain := by
  unfold State.setSlot
  dsimp only
  split <;> rfl

/-- Asking for the type of arrays may make it. -/
theorem evolves_arrayType (s : State) (element : ValueType) :
    s.domain.Evolves (s.arrayType element).2.domain := by
  have once := Domain.Evolves.refl.arrayType (d := s.domain) element
  unfold State.arrayType
  unfold Domain.arrayType at once ⊢
  cases found : s.domain.findArray? element with
  | some id => exact .refl
  | none =>
    rw [found] at once
    exact once

/-- Making an array may make its type. -/
theorem evolves_newArray (s : State) (element : ValueType) (values : Array Value) :
    s.domain.Evolves (s.newArray element values).2.domain :=
  evolves_arrayType s element

/-- Making an instance leaves the types alone. -/
theorem domain_instantiate (s : State) (type : TypeId) :
    (s.instantiate type).2.domain = s.domain := by
  unfold State.instantiate
  cases s.domain.get? type with
  | none => rfl
  | some info =>
    dsimp only
    split <;> rfl

/-- Types come and go as a domain has it, whatever is known. -/
def Regime.evolving : Regime where
  Stands := fun _ => True
  Leads := fun s t => s.domain.Evolves t.domain
  Knows := fun _ _ => True
  refl := fun _ => .refl
  trans := .trans
  stands := fun _ => trivial
  mono := fun _ _ => trivial
  plain := fun _ => trivial
  get? := fun _ _ _ => trivial
  setSlot := fun _ _ _ _ => by
    rw [domain_setSlot]
    exact .refl
  newArray := fun element _ _ => ⟨evolves_newArray _ element _, trivial⟩
  instantiate := fun type _ => by
    rw [domain_instantiate]
    exact ⟨.refl, fun _ _ => trivial⟩

/-- What a computation on the host does to the domain is what a domain offers. -/
def HostM.EvolvesTypes (m : HostM α) : Prop :=
  ∀ s : State, s.domain.Evolves (m s).2.domain

/-- Running an instruction, whatever it finds. -/
theorem evolves_step (returnsValue : Bool) (this : Option ObjectRef) (a : Activation)
    (instr : Instr) : HostM.EvolvesTypes (a.step returnsValue this instr) := by
  intro s
  have holds : a.Holds (Regime.evolving.Knows s) :=
    ⟨fun _ _ => trivial, fun _ _ => trivial, fun _ _ => trivial⟩
  exact (Regime.keeps_step returnsValue trivial (fun _ _ => trivial) holds instr).1

/-- Making the object that a method runs on. -/
theorem evolves_receiver (method : Method) (this : Option ObjectRef) :
    HostM.EvolvesTypes (receiver method this) :=
  fun s => (Regime.keeps_receiver (R := .evolving) (s := s) method trivial fun _ _ => trivial).1

/-! ## Computations on a world -/

/-- What a computation does to the domain is what a domain offers. -/
def EvolvesTypes (m : StateM (World ε) α) : Prop :=
  ∀ w : World ε, w.host.domain.Evolves (m w).2.host.domain

/-- Patches do nothing to a domain but what a domain offers. -/
def Context.KeepsTypes (ctx : Context ε) : Prop :=
  ∀ request, EvolvesTypes (ctx.dispatch request)

namespace EvolvesTypes

theorem onHost {m : HostM α} (evolves : HostM.EvolvesTypes m) :
    EvolvesTypes (World.onHost (ε := ε) m) :=
  fun w => evolves w.host

theorem holding {m : StateM (World ε) α} (evolves : EvolvesTypes m) (values : List Value) :
    EvolvesTypes (World.holding values m) :=
  fun w => evolves { w with pins := values :: w.pins }

end EvolvesTypes

/-- Without patches nothing happens to the domain. -/
theorem keepsTypes_direct (stepLimit : Nat) : (Context.direct (ε := ε) stepLimit).KeepsTypes :=
  fun _ _ => .refl

/-- Calls under which types come and go as a domain has it. -/
def Conduct.evolving : Conduct ε where
  toRegime := .evolving
  Fits := fun _ => True
  Becomes := fun _ w v => w.host.domain.Evolves v.host.domain
  Excuses := fun _ => False
  host := fun _ => trivial
  fits := fun _ _ => trivial
  leads := id
  stay := fun _ _ => .refl
  rehost := fun _ leads => leads
  since := fun _ => .trans
  aside := fun _ _ _ => trivial
  surface := fun _ _ => id

/-- Calling a method. -/
theorem evolves_invoke {ctx : Context ε} (keeps : ctx.KeepsTypes) (depth : Nat) (method : Method)
    (this : Option ObjectRef) (args : Array Value) :
    EvolvesTypes (invoke ctx depth method this args) := by
  intro w
  have allows : Conduct.evolving.Allows .same ctx ctx :=
    Conduct.allows_same fun r w _ _ _ => .inr (keeps r w)
  cases Conduct.ends_invoke allows depth method (w := w) trivial (fun _ _ => trivial)
    fun _ _ => trivial with
  | excused _ excuses => exact excuses.elim
  | told becomes _ => exact becomes

end ScriptHost.Host

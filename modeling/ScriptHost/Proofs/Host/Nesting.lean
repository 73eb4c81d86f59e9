import Mathlib.Data.Finset.Card
import Mathlib.Logic.Relation
import ScriptHost.Proofs.Host.Evolution
/-!
How deep calls nest. Each body has a budget of its own, so a call comes back if the calls that its
body makes do. A call that does not come back within a number of levels follows as many calls, one
inside the other.
-/
namespace ScriptHost.Host

variable {ε α : Type}

/-! ## Paths -/

/-- The method that an instruction calls. -/
def Instr.callee? : Instr → Option MethodToken
  | .call t | .newObj t => some t
  | _ => none

theorem Instr.token?_of_callee? {instr : Instr} {t : MethodToken} (names : instr.callee? = some t) :
    instr.token? = some t := by
  cases instr with
  | call u | newObj u => exact names
  | _ => cases names

theorem Instr.callee?_mapToken (f : MethodToken → MethodToken) (instr : Instr) :
    (instr.mapToken f).callee? = instr.callee?.map f := by
  cases instr <;> rfl

/-- A computation that never asks for a call. -/
def HostM.NeverCalls (m : HostM Step) : Prop :=
  ∀ s callee ref args keeps a, (m s).1 ≠ .ok (.call callee ref args keeps a)

namespace HostM.NeverCalls

theorem next (a : Activation) : HostM.NeverCalls (pure (.next a)) := by
  intro s callee ref args keeps b called
  cases called

theorem done (v : Value) : HostM.NeverCalls (pure (.done v)) := by
  intro s callee ref args keeps b called
  cases called

theorem throw (e : HostException) : HostM.NeverCalls (throw e) := by
  intro s callee ref args keeps b called
  cases called

theorem bind {β : Type} {m : HostM β} {f : β → HostM Step}
    (second : ∀ b, HostM.NeverCalls (f b)) : HostM.NeverCalls (m >>= f) := by
  intro s callee ref args keeps a called
  rw [HostM.bind_apply] at called
  cases result : m s with
  | mk outcome t =>
    rw [result] at called
    cases outcome with
    | error e => cases called
    | ok b => exact second b t callee ref args keeps a called

end HostM.NeverCalls

/-- Patches answer whenever they are asked. -/
def Context.Answers (ctx : Context ε) : Prop :=
  ∀ request w, ∃ replaced, (ctx.dispatch request w).1 = .ok replaced

/-- Methods that stand for places of a graph. They are made of instructions, are hubs, or have no
body, and what they call stands for places that are next to theirs. -/
structure Linked (d : Domain) (calls : α → α → Prop) (stands : Method → α → Prop) : Prop where
  noActions : ∀ {method : Method} {a : α} {actions : List NativeAction}, stands method a →
    method.body ≠ .native actions
  callee : ∀ {method : Method} {a : α} {body : Body} {pc : Nat} {instr : Instr} {t : MethodToken},
    stands method a → method.body = .code body → body.code[pc]? = some instr →
    instr.callee? = some t → ∃ callee b, d.method? t = some callee ∧ stands callee b ∧ calls a b

theorem Linked.mono {d e : Domain} {calls : α → α → Prop} {stands : Method → α → Prop}
    (linked : Linked d calls stands) (grown : d.Extends e) : Linked e calls stands := by
  refine ⟨linked.noActions, fun stood code found names => ?_⟩
  obtain ⟨callee, b, known, stands, next⟩ := linked.callee stood code found names
  exact ⟨callee, b, grown.method? known, stands, next⟩

section

variable {ctx : Context ε} {calls : α → α → Prop} {stands : Method → α → Prop}

end

end ScriptHost.Host

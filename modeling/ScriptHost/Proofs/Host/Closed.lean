import ScriptHost.Proofs.Host.Calls
import ScriptHost.Proofs.Host.Carrier
import ScriptHost.Proofs.Host.Seclusion
/-!
Closed hosts: all references are to objects that are there, so that nothing refers to the objects
that are made next.
-/
namespace ScriptHost.Host

variable {ε : Type} {hidden hidden' : Nat → Prop}

theorem ObjectRef.Open.anti {ref : ObjectRef} (known : ref.Open hidden)
    (fewer : ∀ id, hidden' id → hidden id) : ref.Open hidden' :=
  fun isHidden => known (fewer _ isHidden)

theorem Value.Open.anti {v : Value} (known : v.Open hidden)
    (fewer : ∀ id, hidden' id → hidden id) : v.Open hidden' := by
  cases v with
  | object ref => exact ObjectRef.Open.anti known fewer
  | _ => trivial

theorem AllOpen.anti {values : List Value} (all : AllOpen hidden values)
    (fewer : ∀ id, hidden' id → hidden id) : AllOpen hidden' values :=
  fun v member => (all v member).anti fewer

/-- An object that is not there. -/
def State.Lacks (s : State) (id : Nat) : Prop :=
  s.heap.objects.size ≤ id

/-- A host all of whose references are to objects that are there. -/
structure State.Closed (s : State) : Prop where
  slots : ∀ slots ∈ s.heap.objects, AllOpen s.Lacks slots.toList
  statics : ∀ slots ∈ s.statics, AllOpen s.Lacks slots.toList

namespace State.Closed

variable {s t : State}

/-- Making an object of references to objects that are there. -/
theorem allocate (closed : s.Closed) (type : TypeId) {values : Array Value}
    (known : AllOpen s.Lacks values.toList) :
    (s.allocate type values).2.Closed ∧
      (s.allocate type values).1.Open (s.allocate type values).2.Lacks ∧
      ∀ id, (s.allocate type values).2.Lacks id → s.Lacks id := by
  have size : (s.allocate type values).2.heap.objects.size = s.heap.objects.size + 1 :=
    Array.size_push ..
  have fewer : ∀ id, (s.allocate type values).2.Lacks id → s.Lacks id := by
    intro id lacks
    unfold Lacks at lacks ⊢
    omega
  refine ⟨⟨fun slots member => ?_, fun slots member => (closed.statics slots member).anti fewer⟩,
    ?_, fewer⟩
  · rcases Array.mem_push.1 member with old | rfl
    · exact (closed.slots slots old).anti fewer
    · exact known.anti fewer
  · unfold ObjectRef.Open Lacks
    rw [size]
    change ¬ s.heap.objects.size + 1 ≤ s.heap.objects.size
    omega

theorem instantiate (closed : s.Closed) {type : TypeId} {ref : ObjectRef}
    (made : s.instantiate type = (.ok ref, t)) :
    t.Closed ∧ ref.Open t.Lacks ∧ ∀ id, t.Lacks id → s.Lacks id := by
  unfold State.instantiate at made
  split at made
  · cases (Prod.mk.inj made).1
  · split at made
    · cases (Prod.mk.inj made).1
    · rename_i info _ _
      obtain ⟨same, rfl⟩ := Prod.mk.inj made
      cases same
      have known : AllOpen s.Lacks (info.layout.map Value.defaultFor) := .defaults _
      exact closed.allocate type known

/-- Nothing refers to the carrier but the activation that made it. -/
theorem sealed_withCarrier (closed : s.Closed) {values : Array Value}
    (known : AllOpen s.Lacks values.toList) :
    (s.withCarrier values).Sealed (· = s.carrierRef.id) := by
  have fewer : ∀ id, id = s.carrierRef.id → s.Lacks id := fun id same => Nat.le_of_eq same.symm
  refine ⟨fun id same => ?_, fun slots member => ?_, fun slots member => ?_⟩
  · rw [same]
    unfold withCarrier carrierRef
    rw [Array.size_push]
    exact Nat.lt_succ_self _
  · rcases Array.mem_push.1 member with old | rfl
    · exact (closed.slots slots old).anti fewer
    · exact known.anti fewer
  · unfold withCarrier arrayType at member
    cases found : s.domain.findArray? .object with
    | some id =>
      rw [found] at member
      exact (closed.statics slots member).anti fewer
    | none =>
      rw [found] at member
      rcases Array.mem_push.1 member with old | rfl
      · exact (closed.statics slots old).anti fewer
      · exact .nil

end State.Closed

/-! ## Receivers -/

/-- What making the receiver of a call comes to. -/
structure Received (method : Method) (w : World ε) (ref : Option ObjectRef) (v : World ε) :
    Prop where
  hasThis : ref.isSome = method.hasThis
  closed : v.host.Closed
  target : ∀ r, ref = some r → r.Open v.host.Lacks
  fewer : ∀ id, v.host.Lacks id → w.host.Lacks id
  domain : v.host.domain = w.host.domain
  outer : v.outer = w.outer

theorem receiver_constructor {method : Method} (kind : method.kind = .constructor)
    (this : Option ObjectRef) (s : State) :
    receiver method this s =
      match s.instantiate method.declaring with
      | (.ok ref, t) => (.ok (some ref), t)
      | (.error e, t) => (.error e, t) := by
  unfold receiver
  rw [kind]
  dsimp only
  rw [HostM.bind_apply]
  cases s.instantiate method.declaring with
  | mk result t => cases result <;> rfl

/-- Making the receiver of a call. -/
theorem received_of_receiver {method : Method} {this ref : Option ObjectRef} {w v : World ε}
    (closed : w.host.Closed) (known : ∀ r, this = some r → r.Open w.host.Lacks)
    (received : World.onHost (receiver method this) w = (.ok ref, v)) : Received method w ref v := by
  have unchanged : ∀ {found}, found.isSome = method.hasThis →
      (∀ r, found = some r → r.Open w.host.Lacks) → found = ref → w = v →
        Received method w ref v := by
    rintro found hasThis target rfl rfl
    exact ⟨hasThis, closed, target, fun _ lacks => lacks, rfl, rfl⟩
  rw [World.onHost_apply] at received
  cases kind : method.kind with
  | constructor =>
    rw [receiver_constructor kind] at received
    have domain := domain_instantiate w.host method.declaring
    cases made : w.host.instantiate method.declaring with
    | mk result t =>
      rw [made] at received domain
      cases result with
      | error e => cases (Prod.mk.inj received).1
      | ok made' =>
        obtain ⟨same, rfl⟩ := Prod.mk.inj received
        cases same
        obtain ⟨closed', isOpen, fewer⟩ := closed.instantiate made
        refine ⟨?_, closed', fun r found => Option.some.inj found ▸ isOpen, fewer, domain, rfl⟩
        simp [Method.hasThis, kind]
  | static =>
    unfold receiver at received
    rw [kind] at received
    obtain ⟨same, rfl⟩ := Prod.mk.inj received
    have noTarget : ∀ r, (none : Option ObjectRef) = some r → r.Open w.host.Lacks :=
      fun _ found => (nomatch found)
    refine unchanged ?_ noTarget (Except.ok.inj same) rfl
    simp [Method.hasThis, kind]
  | ofInstance =>
    unfold receiver at received
    rw [kind] at received
    cases this with
    | none => cases (Prod.mk.inj received).1
    | some r =>
      obtain ⟨same, rfl⟩ := Prod.mk.inj received
      refine unchanged ?_ known (Except.ok.inj same) rfl
      simp [Method.hasThis, kind]

end ScriptHost.Host

import ScriptHost.Bridge.Registry
/-!
What all entries of a registry have in common. It is true of what handles refer to, and a registry
keeps it as long as handles are issued for such entries only.
-/
namespace ScriptHost.Bridge.Registry

variable {P : Entry → Prop} {r : Registry} {h : Handle} {entry : Entry}

/-- Every entry has a property. -/
def All (P : Entry → Prop) (r : Registry) : Prop :=
  ∀ slot ∈ r.slots, ∀ entry, slot.entry = some entry → P entry

namespace All

theorem entry? (all : r.All P) (found : r.entry? h = some entry) : P entry := by
  unfold Registry.entry? at found
  split at found
  · rename_i slot there
    split at found
    · exact all slot (Array.mem_of_getElem? there) entry found
    · cases found
  · cases found

/-- Another slot in the place of one. -/
theorem setIfInBounds {new : Slot} (all : r.All P) (known : ∀ entry, new.entry = some entry → P entry)
    (i : Nat) {slot : Slot} (member : slot ∈ r.slots.setIfInBounds i new)
    (found : slot.entry = some entry) : P entry := by
  obtain ⟨j, there⟩ := Array.mem_iff_getElem?.1 member
  rw [Array.getElem?_setIfInBounds] at there
  split at there
  · split at there
    · cases there
      exact known entry found
    · cases there
  · exact all slot (Array.mem_of_getElem? there) entry found

theorem insert (all : r.All P) (known : P entry) : (r.insert entry).2.All P := by
  unfold Registry.insert
  split
  · refine fun slot member other found => all.setIfInBounds (fun entry same => ?_) _ member found
    cases same
    exact known
  · intro slot member other found
    rcases Array.mem_push.1 member with old | rfl
    · exact all slot old other found
    · cases found
      exact known

theorem release? {released : Registry} (all : r.All P) (result : r.release? h = some released) :
    released.All P := by
  unfold Registry.release? at result
  split at result
  · cases result
    exact fun slot member entry found => all.setIfInBounds (by simp) _ member found
  · cases result

end All

/-! ## Objects -/

/-- The object of an entry of the registry. -/
def Entry.object? : Entry → Option Host.ObjectRef
  | .strong ref | .weak ref => some ref
  | .type _ => none

/-- What was resolved is what the handle was issued for. -/
theorem entry?_of_resolve {alive : Host.ObjectRef → Bool} {ref : Host.ObjectRef}
    (resolved : r.resolve alive h = .ok (.object ref)) :
    ∃ entry, r.entry? h = some entry ∧ entry.object? = some ref := by
  unfold Registry.resolve at resolved
  cases found : r.entry? h with
  | none =>
    rw [found] at resolved
    cases resolved
  | some entry =>
    rw [found] at resolved
    cases entry with
    | strong other =>
      cases resolved
      exact ⟨_, rfl, rfl⟩
    | weak other =>
      dsimp only at resolved
      split at resolved <;> cases resolved
      exact ⟨_, rfl, rfl⟩
    | type id => cases resolved

end ScriptHost.Bridge.Registry

import ScriptHost.Image.Inject
import ScriptHost.Proofs.Results
/-!
The shape of an injected body: what stands where in its prologue, and how its own code follows.
-/
namespace ScriptHost.Image

open Host
open Results (bind_eq_ok map_eq_ok)

/-! ## Parts of a prologue -/

/-- Stores the first arguments in the carrier. -/
def storeArgs (carrier : UInt16) (indices : List Nat) : List Instr :=
  indices.flatMap fun i => [.ldLoc carrier, ldNat i, .ldArg (.ofNat i), .stElem]

/-- Takes by-reference arguments from the carrier. -/
def loadArgs (carrier : UInt16) (indices : List Nat) : List Instr :=
  indices.flatMap fun i => [.ldLoc carrier, ldNat i, .ldElem, .stArg (.ofNat i)]

/-- The slot of the carrier among the locals of an injected body. -/
def carrierSlot (own : Body) : UInt16 :=
  .ofNat own.locals.size

/-- The slot of the result among the locals of an injected body. -/
def resultSlot (m : MethodDef) (own : Body) : Option UInt16 :=
  if m.returnsValue then some (.ofNat (own.locals.size + 1)) else none

/-- The part of a prologue before the branch. -/
def front (m : MethodDef) (hub : MethodToken) (own : Body) : List Instr :=
  question m hub (carrierSlot own) (storeArgs (carrierSlot own) (List.range m.params.length))

/-- The part of a prologue that runs if a patch took the place of the method. -/
def back (m : MethodDef) (own : Body) : List Instr :=
  patchedReturn m (carrierSlot own) (resultSlot m own)
    (loadArgs (carrierSlot own) (byRefIndices m.params))

/-- The position of the mark before the own code. -/
def ownMark (m : MethodDef) (hub : MethodToken) (own : Body) : Nat :=
  (front m hub own).length + 1 + (back m own).length

/-- Everything before the own code. -/
def prologue (m : MethodDef) (hub : MethodToken) (own : Body) : List Instr :=
  front m hub own ++ [.brFalse (.ofNat (ownMark m hub own))] ++ back m own ++ [.anchor .ownCode]

/-- The locals of an injected body: those of the method, the carrier, and the result. -/
def injectedLocals (m : MethodDef) (own : Body) : Array ValueType :=
  own.locals.push (.array .object) ++ (if m.returnsValue then #[m.ret] else #[])

/-- How far the own code moves. -/
def shift (m : MethodDef) (hub : MethodToken) (own : Body) : UInt32 :=
  .ofNat (ownMark m hub own + 1)

/-- A body that was made of the own body of a method by putting a prologue in front. -/
structure Injected (m : MethodDef) (hub : MethodToken) (own injected : Body) : Prop where
  body : m.body = some own
  locals : injected.locals = injectedLocals m own
  room : own.locals.size + m.returnsValue.toNat < 0x10000
  params : m.params.length ≤ 0x10000
  movable : own.code.all (movable (shift m hub own))
  code : injected.code =
    (prologue m hub own).toArray ++ own.code.map (Instr.mapTarget (· + shift m hub own))

theorem slot?_eq_ok {i : Nat} {slot : UInt16} :
    slot? i = .ok slot ↔ i < 0x10000 ∧ slot = .ofNat i := by
  unfold slot?
  split
  · rename_i small
    simp [small, eq_comm]
  · rename_i large
    simp [large]

/-- Code for every index of a list, if each of them fits a slot. -/
theorem mapM_slots {code : UInt16 → Nat → Except Obstacle (List Instr)} {plain : Nat → List Instr}
    {carrier : UInt16} {indices : List Nat} {codes : List (List Instr)}
    (each : ∀ i, code carrier i = (slot? i).bind fun _ => .ok (plain i))
    (mapped : indices.mapM (code carrier) = .ok codes) :
    (∀ i ∈ indices, i < 0x10000) ∧ codes.flatten = indices.flatMap plain := by
  induction indices generalizing codes with
  | nil =>
    cases mapped
    exact ⟨fun _ member => (List.not_mem_nil member).elim, rfl⟩
  | cons i rest ih =>
    rw [List.mapM_cons] at mapped
    obtain ⟨block, head, mapped⟩ := bind_eq_ok.1 mapped
    obtain ⟨others, tail, mapped⟩ := bind_eq_ok.1 mapped
    cases mapped
    obtain ⟨small, same⟩ := ih tail
    rw [each] at head
    obtain ⟨slot, fits, head⟩ := bind_eq_ok.1 head
    cases head
    refine ⟨fun j member => ?_, ?_⟩
    · rcases List.mem_cons.1 member with rfl | later
      · exact (slot?_eq_ok.1 fits).1
      · exact small j later
    · rw [List.flatten_cons, List.flatMap_cons, same]

theorem mapM_storeArg {carrier : UInt16} {indices : List Nat} {codes : List (List Instr)}
    (mapped : indices.mapM (storeArg carrier) = .ok codes) :
    (∀ i ∈ indices, i < 0x10000) ∧ codes.flatten = storeArgs carrier indices := by
  refine mapM_slots (fun i => ?_) mapped
  unfold storeArg
  cases fits : slot? i with
  | error e => rfl
  | ok slot => rw [(slot?_eq_ok.1 fits).2]; rfl

theorem mapM_loadArg {carrier : UInt16} {indices : List Nat} {codes : List (List Instr)}
    (mapped : indices.mapM (loadArg carrier) = .ok codes) :
    codes.flatten = loadArgs carrier indices := by
  refine (mapM_slots (fun i => ?_) mapped).2
  unfold loadArg
  cases fits : slot? i with
  | error e => rfl
  | ok slot => rw [(slot?_eq_ok.1 fits).2]; rfl

theorem relocate_eq_ok {n : UInt32} {code moved : Array Instr} :
    relocate n code = .ok moved ↔
      code.all (movable n) ∧ moved = code.map (Instr.mapTarget (· + n)) := by
  unfold relocate
  split
  · rename_i all
    simp [all, eq_comm]
  · rename_i overflow
    simp [overflow]

/-- The result has the slot behind the carrier, if there is a result. -/
theorem placeResult_eq_ok {m : MethodDef} {own : Body} {slot : Option UInt16}
    {locals : Array ValueType} (room : own.locals.size < 0x10000)
    (placed : placeResult m (own.locals.push (.array .object)) = .ok (slot, locals)) :
    slot = resultSlot m own ∧ locals = injectedLocals m own ∧
      own.locals.size + m.returnsValue.toNat < 0x10000 := by
  unfold placeResult at placed
  unfold resultSlot injectedLocals
  cases wanted : m.returnsValue with
  | false =>
    rw [wanted] at placed
    cases placed
    exact ⟨rfl, by simp, room⟩
  | true =>
    rw [wanted] at placed
    obtain ⟨slot', fits, same⟩ := map_eq_ok.1 placed
    cases same
    obtain ⟨small, rfl⟩ := slot?_eq_ok.1 fits
    rw [Array.size_push] at small ⊢
    exact ⟨rfl, by simp, small⟩

/-- Parameters whose positions fit slots are few enough. -/
theorem length_le_of_range {n : Nat} (small : ∀ i ∈ List.range n, i < 0x10000) : n ≤ 0x10000 := by
  rcases Nat.eq_zero_or_pos n with none | some
  · omega
  · have last := small (n - 1) (List.mem_range.2 (by omega))
    omega

/-- What injection makes of a body. -/
theorem injected_of_injectBody {m : MethodDef} {hub : MethodToken} {body : Body}
    (result : injectBody m hub = .ok body) : ∃ own, Injected m hub own body := by
  unfold injectBody at result
  cases hasBody : m.body with
  | none =>
    rw [hasBody] at result
    cases result
  | some own =>
    rw [hasBody] at result
    obtain ⟨own', same, result⟩ := bind_eq_ok.1 result
    cases same
    obtain ⟨carrier, carrierFits, result⟩ := bind_eq_ok.1 result
    obtain ⟨room, rfl⟩ := slot?_eq_ok.1 carrierFits
    obtain ⟨⟨slot, locals⟩, slots, result⟩ := bind_eq_ok.1 result
    obtain ⟨stores, storesOk, result⟩ := bind_eq_ok.1 result
    obtain ⟨loads, loadsOk, result⟩ := bind_eq_ok.1 result
    obtain ⟨moved, movedOk, result⟩ := bind_eq_ok.1 result
    cases result
    obtain ⟨small, storesSame⟩ := mapM_storeArg storesOk
    have loadsSame := mapM_loadArg loadsOk
    obtain ⟨movableAll, rfl⟩ := relocate_eq_ok.1 movedOk
    obtain ⟨rfl, rfl, room⟩ := placeResult_eq_ok room slots
    have params := length_le_of_range small
    rw [storesSame, loadsSame] at movableAll
    refine ⟨own, hasBody, rfl, room, params, movableAll, ?_⟩
    simp only [storesSame, loadsSame]
    rfl

end ScriptHost.Image

import ScriptHost.Proofs.Image.InjectedBody
import ScriptHost.Proofs.Image.Injection
import ScriptHost.Proofs.Image.Stripped
/-!
What injection needs and what it leaves behind. An image takes its prologues exactly if each of its
patchable methods has room for one and holds none yet. The injected image is as sound as the image
itself, and hosts take it in alike.
-/
namespace ScriptHost.Image

open Host
open Results (bind_eq_ok exists_mapM forM_eq_ok mapError_eq_ok)
open List (Forall₂)

variable {image after : Image} {m m' : MethodDef} {hub : MethodToken} {own injected : Body}

/-! ## Methods with room for a prologue -/

/-- What a prologue uses has slots. -/
structure HasRoom (m : MethodDef) (own : Body) : Prop where
  params : m.params.length ≤ 0x10000
  locals : own.locals.size + m.returnsValue.toNat < 0x10000

/-- A method that can take a prologue: it is no hub and holds no prologue yet, and what a prologue
uses has slots. -/
structure TakesPrologue (m : MethodDef) (own : Body) : Prop where
  notHub : m.attrs.patchHub = false
  notInjected : m.attrs.injected = false
  body : m.body = some own
  unasked : .anchor .hubCall ∉ own.code
  unmarked : .anchor .ownCode ∉ own.code
  params : m.params.length ≤ 0x10000
  room : own.locals.size + m.returnsValue.toNat < 0x10000

theorem TakesPrologue.hasRoom (takes : TakesPrologue m own) : HasRoom m own :=
  ⟨takes.params, takes.room⟩

/-- The branches of all methods that are to be injected can move by the length of a prologue. -/
def Relocatable (image : Image) : Prop :=
  ∀ hub ∈ image.hubs, ∀ m ∈ image.methods, m.attrs.patchable = true →
    ∀ own, m.body = some own → own.code.all (movable (shift m hub.token own)) = true

/-- A body holds a mark exactly if the mark is found in it. -/
theorem isSome_anchor? {body : Body} {a : Anchor} :
    (body.anchor? a).isSome = true ↔ .anchor a ∈ body.code := by
  unfold Body.anchor?
  rw [Array.findIdx?_isSome, Array.any_eq_true']
  constructor
  · rintro ⟨instr, member, same⟩
    rw [← eq_of_beq same]
    exact member
  · intro member
    exact ⟨_, member, beq_self_eq_true _⟩

theorem carriesPrologue_iff (body : m.body = some own) :
    carriesPrologue m = true ↔ .anchor .hubCall ∈ own.code ∨ .anchor .ownCode ∈ own.code := by
  unfold carriesPrologue
  rw [body]
  dsimp only
  rw [Bool.or_eq_true, isSome_anchor?, isSome_anchor?]

/-- An injected body holds the marks of its prologue. -/
theorem Injected.carriesPrologue (shape : Injected m hub own injected)
    (body : m'.body = some injected) : carriesPrologue m' = true := by
  refine (carriesPrologue_iff body).2 (.inl (mem_of_front shape ?_))
  simp [front, question]

/-! ## Making injected bodies -/

theorem slot?_ok {i : Nat} (small : i < 0x10000) : slot? i = .ok (.ofNat i) :=
  slot?_eq_ok.2 ⟨small, rfl⟩

theorem placeResult_ok (room : own.locals.size + m.returnsValue.toNat < 0x10000) :
    placeResult m (own.locals.push (.array .object)) =
      .ok (resultSlot m own, injectedLocals m own) := by
  unfold placeResult resultSlot injectedLocals
  cases wanted : m.returnsValue with
  | false =>
    rw [if_neg Bool.false_ne_true, if_neg Bool.false_ne_true, if_neg Bool.false_ne_true,
      Array.append_empty]
  | true =>
    rw [wanted, Bool.toNat_true] at room
    rw [if_pos rfl, if_pos rfl, if_pos rfl, Array.size_push, slot?_ok room, ← Array.push_eq_append]
    rfl

/-- Where the slots suffice, what is left is to move the own code. -/
theorem injectBody_eq (body : m.body = some own) (room : HasRoom m own) :
    injectBody m hub = (relocate (shift m hub own) own.code).map fun moved =>
      ⟨injectedLocals m own, (prologue m hub own).toArray ++ moved⟩ := by
  have params := room.params
  obtain ⟨stores, storesOk⟩ : ∃ stores,
      (List.range m.params.length).mapM (storeArg (carrierSlot own)) = .ok stores := by
    refine exists_mapM fun i member => ⟨_, bind_eq_ok.2 ⟨.ofNat i, slot?_ok ?_, rfl⟩⟩
    exact Nat.lt_of_lt_of_le (List.mem_range.1 member) params
  obtain ⟨loads, loadsOk⟩ : ∃ loads,
      (byRefIndices m.params).mapM (loadArg (carrierSlot own)) = .ok loads := by
    refine exists_mapM fun i member => ⟨_, bind_eq_ok.2 ⟨.ofNat i, slot?_ok ?_, rfl⟩⟩
    exact Nat.lt_of_lt_of_le (mem_byRefIndices member) params
  have storesSame := (mapM_storeArg storesOk).2
  have loadsSame := mapM_loadArg loadsOk
  have carrier : slot? own.locals.size = .ok (carrierSlot own) :=
    slot?_ok (Nat.lt_of_le_of_lt (Nat.le_add_right _ _) room.locals)
  unfold injectBody
  simp only [body, Option.elim_some, carrier, placeResult_ok room.locals, storesOk, loadsOk,
    storesSame, loadsSame, bind, Except.bind, pure, Except.pure]
  -- The move is by the length of what was put together, which is the shift.
  have start : shift m hub own = .ofNat ((front m hub own).length + 1 + (back m own).length + 1) := rfl
  unfold front back at start
  rw [← start]
  cases relocate (shift m hub own) own.code with
  | error e => rfl
  | ok moved => rfl

/-- A method with room for a prologue gets one, if its branches can move. -/
theorem exists_injectBody (takes : TakesPrologue m own)
    (movable : own.code.all (movable (shift m hub own)) = true) :
    ∃ injected, injectBody m hub = .ok injected := by
  rw [injectBody_eq takes.body takes.hasRoom, relocate_eq_ok.2 ⟨movable, rfl⟩]
  exact ⟨_, rfl⟩

/-! ## Injecting methods -/

/-- Each method of a checked image is the method of its token. -/
theorem method?_of_verify (verified : image.verify = .ok ()) (member : m ∈ image.methods) :
    image.method? m.token = some m := by
  have distinct := nodup_of_verify verified
  unfold method?
  cases found : image.methods.find? (·.token == m.token) with
  | none => exact absurd (beq_self_eq_true _) (List.find?_eq_none.1 found m member)
  | some other =>
    have same := List.find?_some (p := fun x : MethodDef => x.token == m.token) found
    rw [List.inj_on_of_nodup_map distinct (List.mem_of_find?_eq_some found) member (eq_of_beq same)]

/-- Calling the hub of a checked image takes four operands and leaves an answer. -/
theorem callEffect?_hub {hub : MethodDef} (verified : image.verify = .ok ())
    (isHub : hub ∈ image.hubs) : image.callEffect? hub.token = some hubEffect := by
  obtain ⟨member, marked⟩ := List.mem_filter.1 isHub
  obtain ⟨isStatic, ret, arity⟩ := of_isHubShape ((declared_of_verify verified member).hubShape marked)
  unfold callEffect?
  rw [method?_of_verify verified member, Option.map_some]
  unfold MethodDef.callEffect MethodDef.returnsValue
  rw [isStatic, ret, arity]
  rfl

/-- A checked body is well-formed. -/
theorem wellFormed_of_verify (verified : image.verify = .ok ()) (member : m ∈ image.methods)
    (body : m.body = some own) : WellFormed own m.shape image.callEffect? := by
  have checked := forM_eq_ok.1 (verify_eq_ok_iff.1 verified).2.2 m member
  unfold checkBody at checked
  rw [body] at checked
  exact Verify.verify_eq_ok_iff_wellFormed.1 (mapError_eq_ok.1 checked)

/-- Every body that injection makes in a checked image passes the check. -/
theorem verify_injected (verified : image.verify = .ok ()) (member : m ∈ image.methods)
    (asks : image.callEffect? hub = some hubEffect) (shape : Injected m hub own injected) :
    Host.verify injected m.shape image.callEffect? = .ok () :=
  Verify.verify_eq_ok_iff_wellFormed.2
    (shape.wellFormed asks (wellFormed_of_verify verified member shape.body))

/-- A method with room for a prologue is injected, if its branches can move. -/
theorem exists_injectMethod (verified : image.verify = .ok ()) (member : m ∈ image.methods)
    (asks : image.callEffect? hub = some hubEffect) (takes : TakesPrologue m own)
    (movable : own.code.all (movable (shift m hub own)) = true) :
    ∃ m', image.injectMethod hub m = .ok m' := by
  obtain ⟨injected, made⟩ := exists_injectBody takes movable
  obtain ⟨own', shape⟩ := injected_of_injectBody made
  have fresh : ¬ (m.attrs.injected || carriesPrologue m) = true := by
    intro already
    rcases Bool.or_eq_true_iff.1 already with marked | carries
    · rw [takes.notInjected] at marked
      cases marked
    · rcases (carriesPrologue_iff takes.body).1 carries with asked | marked
      · exact takes.unasked asked
      · exact takes.unmarked marked
  have notHub : ¬ m.attrs.patchHub = true := by
    rw [takes.notHub]
    exact Bool.false_ne_true
  unfold injectMethod
  rw [if_neg fresh]
  dsimp only
  rw [if_neg notHub]
  exact ⟨_, bind_eq_ok.2 ⟨injected, mapError_eq_ok.2 made, bind_eq_ok.2
    ⟨(), mapError_eq_ok.2 (verify_injected verified member asks shape), rfl⟩⟩⟩

/-- A method that was injected had room for a prologue and none yet. -/
theorem takesPrologue_of_injectMethod (result : image.injectMethod hub m = .ok m') :
    ∃ own, TakesPrologue m own := by
  obtain ⟨own, injected, gained⟩ := gains_of_injectMethod result
  have fresh : (m.attrs.injected || carriesPrologue m) = false := by
    unfold injectMethod at result
    by_cases already : (m.attrs.injected || carriesPrologue m) = true
    · rw [if_pos already] at result
      cases result
    · exact eq_false_of_ne_true already
  obtain ⟨notInjected, free⟩ := Bool.or_eq_false_iff.1 fresh
  have shape := gained.shape
  have unmarked : ¬ (.anchor .hubCall ∈ own.code ∨ .anchor .ownCode ∈ own.code) := by
    rw [← carriesPrologue_iff shape.body, free]
    exact Bool.false_ne_true
  exact ⟨own, gained.notHub, notInjected, shape.body, fun asked => unmarked (.inl asked),
    fun marked => unmarked (.inr marked), shape.params, shape.room⟩

/-- Injection of a method of a checked image never fails for the body that it makes. -/
theorem injectMethod_ne_verify (verified : image.verify = .ok ()) (member : m ∈ image.methods)
    (asks : image.callEffect? hub = some hubEffect) (signature : String) (cause : VerifyError) :
    image.injectMethod hub m ≠ .error (.verify signature cause) := by
  intro failed
  unfold injectMethod at failed
  by_cases already : (m.attrs.injected || carriesPrologue m) = true
  · rw [if_pos already] at failed
    cases failed
  rw [if_neg already] at failed
  dsimp only at failed
  by_cases isHub : m.attrs.patchHub = true
  · rw [if_pos isHub] at failed
    cases failed
  rw [if_neg isHub] at failed
  cases made : injectBody m hub with
  | error obstacle =>
    rw [made] at failed
    cases failed
  | ok injected =>
    obtain ⟨own, shape⟩ := injected_of_injectBody made
    have sound := verify_injected verified member asks shape
    rw [made] at failed
    change Except.bind ((Host.verify injected m.shape image.callEffect?).mapError _) _ = _ at failed
    rw [sound] at failed
    cases failed

end ScriptHost.Image

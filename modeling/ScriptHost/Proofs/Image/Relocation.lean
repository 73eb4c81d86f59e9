import ScriptHost.Proofs.Image.InjectedImage
/-!
Moving the own code of a method behind its prologue. The check looks at the branches that control can
get to, and these stay inside the code. The move takes all branches along, also one that control never
gets to, and such a branch may name any position. Whichever branch would leave the range of positions,
the move breaks off there; otherwise each branch goes as much further on as the prologue is long.
-/
namespace ScriptHost.Image

open Host
open Results (bind_eq_error exists_of_mapM_error forM_eq_ok mapError_eq_error mapError_eq_ok)

variable {image : Image} {m : MethodDef} {hub : MethodToken} {own injected : Body}

/-! ## How far the code moves -/

/-- How long the prologue of a method is. -/
def prologueLength (m : MethodDef) : Nat :=
  16 + 4 * m.params.length + 4 * (byRefIndices m.params).length + 5 * m.returnsValue.toNat

theorem shift_eq (m : MethodDef) (hub : MethodToken) (own : Body) :
    shift m hub own = .ofNat (prologueLength m) := by
  unfold shift ownMark prologueLength
  rw [length_front, length_back]
  unfold hubCallAt
  congr 1
  omega

theorem toNat_shift_eq (hub : MethodToken) (own : Body) (params : m.params.length ≤ 0x10000) :
    (shift m hub own).toNat = prologueLength m := by
  have short : prologueLength m < UInt32.size := by
    have byRef := length_byRefIndices m
    have value : m.returnsValue.toNat ≤ 1 := Bool.toNat_le _
    unfold prologueLength UInt32.size
    omega
  rw [shift_eq, UInt32.toNat_ofNat_of_lt' short]

/-- A branch of a body leaves the range of positions if the body moves by some of them. -/
def Oversteps (own : Body) (n : Nat) : Prop :=
  ∃ instr ∈ own.code, ∃ target, instr.branchTarget? = some target ∧ UInt32.size ≤ target.toNat + n

/-- The move of a body is given up exactly if a branch oversteps. -/
theorem relocate_eq_overflow_iff {n : UInt32} :
    relocate n own.code = .error .overflow ↔ Oversteps own n.toNat := by
  have movable_iff : own.code.all (movable n) = true ↔ ¬ Oversteps own n.toNat := by
    unfold Oversteps movable
    rw [Array.all_eq_true_iff_forall_mem]
    push Not
    refine forall₂_congr fun instr _ => ?_
    cases instr.branchTarget? <;> simp
  unfold relocate
  by_cases fits : own.code.all (movable n) = true
  · rw [if_pos fits]
    exact ⟨nofun, fun oversteps => (movable_iff.1 fits oversteps).elim⟩
  · rw [if_neg fits]
    exact ⟨fun _ => not_not.1 (mt movable_iff.2 fits), fun _ => rfl⟩

/-- Control stays inside a checked body, so that the branches that it gets to overstep only where the
body is too long as a whole. -/
theorem branch_lt_size (verified : image.verify = .ok ()) (member : m ∈ image.methods)
    (body : m.body = some own) {pc : Nat} {instr : Instr} {target : UInt32}
    (reached : Reachable own pc) (found : own.code[pc]? = some instr)
    (branch : instr.branchTarget? = some target) : target.toNat < own.code.size := by
  obtain ⟨-, depth, -, sound⟩ := wellFormed_of_verify verified member body
  exact (sound pc instr reached found).inside _ (.inr ⟨target, branch, rfl⟩)

/-- The code behind a prologue is the own code, with each branch as much further on as the prologue
is long. -/
theorem Injected.getElem?_own (shape : Injected m hub own injected) {pc : Nat} {instr : Instr}
    (found : own.code[pc]? = some instr) : ∃ moved,
      injected.code[prologueLength m + pc]? = some moved ∧
        moved = instr.mapTarget (· + .ofNat (prologueLength m)) ∧
        moved.branchTarget?.map (·.toNat) =
          instr.branchTarget?.map (·.toNat + prologueLength m) := by
  have length := toNat_shift_eq hub own shape.params
  have there := shape.behind.getElem?_add pc
  have fits := shape.behind.movable instr (Array.mem_of_getElem? found)
  rw [length, found, Option.map_some, shift_eq] at there
  refine ⟨_, there, rfl, ?_⟩
  rw [Instr.branchTarget?_mapTarget]
  cases branch : instr.branchTarget? with
  | none => rfl
  | some target =>
    have below := fits target branch
    rw [Option.map_some, Option.map_some, Option.map_some, ← shift_eq m hub own,
      UInt32.toNat_add, Nat.mod_eq_of_lt below, length]

/-! ## What stops a move -/

theorem slot?_ne_overflow (i : Nat) : slot? i ≠ .error .overflow := by
  unfold slot?
  split <;> exact nofun

/-- What needs a slot fails for want of it only. -/
theorem slot?_bind_ne_overflow {α : Type} {i : Nat} {f : UInt16 → α} :
    (slot? i >>= fun slot => pure (f slot)) ≠ .error .overflow := by
  intro stopped
  rcases bind_eq_error.1 stopped with full | ⟨_, -, placed⟩
  · exact slot?_ne_overflow i full
  · cases placed

theorem placeResult_ne_overflow (m : MethodDef) (locals : Array ValueType) :
    placeResult m locals ≠ .error .overflow := by
  unfold placeResult
  split
  · exact slot?_bind_ne_overflow
  · exact nofun

/-- When the move of a body is reached, all slots have been found. -/
theorem hasRoom_of_overflow (stopped : injectBody m hub = .error .overflow) :
    ∃ own, m.body = some own ∧ HasRoom m own := by
  unfold injectBody at stopped
  cases body : m.body with
  | none =>
    rw [body] at stopped
    cases stopped
  | some own =>
    rw [body] at stopped
    rcases bind_eq_error.1 stopped with noBody | ⟨own', same, stopped⟩
    · cases noBody
    cases same
    rcases bind_eq_error.1 stopped with full | ⟨carrier, carrierFits, stopped⟩
    · exact (slot?_ne_overflow _ full).elim
    rcases bind_eq_error.1 stopped with full | ⟨⟨slot, locals⟩, placed, stopped⟩
    · exact (placeResult_ne_overflow _ _ full).elim
    rcases bind_eq_error.1 stopped with full | ⟨stores, storesOk, -⟩
    · obtain ⟨i, -, full⟩ := exists_of_mapM_error full
      exact (slot?_bind_ne_overflow full).elim
    exact ⟨own, rfl, length_le_of_range (mapM_storeArg storesOk).1,
      (placeResult_eq_ok (slot?_eq_ok.1 carrierFits).1 placed).2.2⟩

/-- Making an injected body breaks off exactly where the slots suffice and a branch oversteps,
whether control gets to that branch or not. -/
theorem injectBody_eq_overflow_iff (body : m.body = some own) :
    injectBody m hub = .error .overflow ↔ HasRoom m own ∧ Oversteps own (prologueLength m) := by
  have moves (room : HasRoom m own) :
      injectBody m hub = .error .overflow ↔ Oversteps own (prologueLength m) := by
    rw [← toNat_shift_eq hub own room.params, ← relocate_eq_overflow_iff,
      injectBody_eq body room]
    cases relocate (shift m hub own) own.code with
    | error e => simp [Except.map]
    | ok moved => simp [Except.map]
  constructor
  · intro stopped
    obtain ⟨own', body', room⟩ := hasRoom_of_overflow stopped
    cases body.symm.trans body'
    exact ⟨room, (moves room).1 stopped⟩
  · rintro ⟨room, oversteps⟩
    exact (moves room).2 oversteps

/-- Injecting a method breaks off only with the move of its body. -/
theorem overflow_of_injectMethod {e : InjectError} {message : String}
    (failed : image.injectMethod hub m = .error e) (breaks : e.panic? = some message) :
    e = .unpatchable m.signature .overflow ∧ injectBody m hub = .error .overflow := by
  unfold injectMethod at failed
  by_cases already : (m.attrs.injected || carriesPrologue m) = true
  · rw [if_pos already] at failed
    cases failed
    cases breaks
  rw [if_neg already] at failed
  dsimp only at failed
  by_cases isHub : m.attrs.patchHub = true
  · rw [if_pos isHub] at failed
    cases failed
    cases breaks
  rw [if_neg isHub] at failed
  rcases bind_eq_error.1 failed with failed | ⟨body, -, failed⟩
  · obtain ⟨obstacle, stopped, rfl⟩ := mapError_eq_error.1 failed
    cases obstacle with
    | overflow => exact ⟨rfl, stopped⟩
    | isHub | noBody | tooManySlots => cases breaks
  rcases bind_eq_error.1 failed with failed | ⟨_, -, done⟩
  · obtain ⟨cause, -, rfl⟩ := mapError_eq_error.1 failed
    cases breaks
  · cases done

/-- An injection that breaks off does so at a branch of a method that may be patched. -/
theorem oversteps_of_inject {e : InjectError} {message : String} {hub : MethodDef}
    (verified : image.verify = .ok ()) (only : image.hubs = [hub]) (stopped : image.inject = .error e)
    (breaks : e.panic? = some message) : ∃ m ∈ image.methods, m.attrs.patchable = true ∧
      e = .unpatchable m.signature .overflow ∧
      ∃ own, m.body = some own ∧ HasRoom m own ∧ Oversteps own (prologueLength m) := by
  rw [inject_of_hub verified only] at stopped
  cases mapped : image.methods.mapM (image.turn hub.token) with
  | ok methods =>
    rw [mapped] at stopped
    cases stopped
  | error cause =>
    rw [mapped] at stopped
    cases stopped
    obtain ⟨m, member, turned⟩ := exists_of_mapM_error mapped
    by_cases patchable : m.attrs.patchable = true
    · rw [turn_of_patchable patchable] at turned
      obtain ⟨rfl, stopped⟩ := overflow_of_injectMethod turned breaks
      obtain ⟨own, body, -⟩ := hasRoom_of_overflow stopped
      exact ⟨m, member, patchable, rfl, own, body, (injectBody_eq_overflow_iff body).1 stopped⟩
    · rw [turn_of_unpatchable (eq_false_of_ne_true patchable)] at turned
      cases turned

/-! ## Where branches go -/

/-- The move of the patchable bodies of a checked image. A branch that control can get to goes to a
position inside its body, and oversteps only if the body and the prologue do not fit the range of
positions together. A branch that control does not get to may go anywhere. The move breaks off exactly
where some branch oversteps, of either kind, and then only does injection; otherwise each branch goes
as much further on as the prologue is long. -/
theorem relocates_exactly {hub : MethodDef} (verified : image.verify = .ok ())
    (only : image.hubs = [hub]) :
    (∀ m ∈ image.methods, m.attrs.patchable = true → ∀ own, m.body = some own →
      (∀ pc instr target, Reachable own pc → own.code[pc]? = some instr →
        instr.branchTarget? = some target → target.toNat < own.code.size ∧
          (own.code.size + prologueLength m ≤ UInt32.size →
            target.toNat + prologueLength m < UInt32.size)) ∧
      (injectBody m hub.token = .error .overflow ↔
        HasRoom m own ∧ Oversteps own (prologueLength m)) ∧
      ∀ injected, injectBody m hub.token = .ok injected →
        ∀ pc instr, own.code[pc]? = some instr → ∃ moved,
          injected.code[prologueLength m + pc]? = some moved ∧
            moved = instr.mapTarget (· + .ofNat (prologueLength m)) ∧
            moved.branchTarget?.map (·.toNat) =
              instr.branchTarget?.map (·.toNat + prologueLength m)) ∧
    ∀ e message, image.inject = .error e → e.panic? = some message →
      ∃ m ∈ image.methods, m.attrs.patchable = true ∧ e = .unpatchable m.signature .overflow ∧
        ∃ own, m.body = some own ∧ HasRoom m own ∧ Oversteps own (prologueLength m) := by
  refine ⟨fun m member _ own body => ⟨fun pc instr target reached found branch => ?_,
    injectBody_eq_overflow_iff body, fun injected made pc instr found => ?_⟩,
    fun e message => oversteps_of_inject verified only⟩
  · have inside := branch_lt_size verified member body reached found branch
    exact ⟨inside, fun fits => by omega⟩
  · obtain ⟨own', shape⟩ := injected_of_injectBody made
    cases body.symm.trans shape.body
    exact shape.getElem?_own found

/-! ## Branches that overstep -/

/-- A method with any code, which may be patched. -/
def stray (own : Body) : MethodDef where
  token := ⟨2⟩
  declaring := "Wish"
  name := "Stray"
  kind := .static
  attrs := { patchable := true }
  body := some own

/-- A type with a hub and that method. -/
def strays (own : Body) : Image where
  name := "Strays"
  types := [{ name := "Wish" }]
  methods := [{ hubMethod "Wish" "Ask" with token := ⟨1⟩ }, stray own]

theorem verify_strays (sound : WellFormed own (stray own).shape (strays own).callEffect?) :
    (strays own).verify = .ok () := by
  refine verify_eq_ok_iff.2 ⟨rfl, rfl, forM_eq_ok.2 fun m member => ?_⟩
  rcases List.mem_cons.1 member with rfl | later
  · rfl
  · rw [List.mem_singleton.1 later]
    exact mapError_eq_ok.2 (Verify.verify_eq_ok_iff_wellFormed.2 sound)

/-- Code that returns, and behind it a branch to the last position there can be. -/
def strayBody : Body :=
  { code := #[.ret, .br 0xffffffff] }

/-- Control returns at once. -/
theorem eq_zero_of_reachable {pc : Nat} (reached : Reachable strayBody pc) : pc = 0 := by
  induction reached with
  | entry => rfl
  | step _ found leads ih =>
    subst ih
    cases found
    rcases leads with ⟨goesOn, -⟩ | ⟨_, branch, -⟩
    · cases goesOn
    · cases branch

/-- Code that branches to its last instruction, over as many others as are asked for. -/
def leap (n : Nat) : Body :=
  { code := #[.ldBool true, .brTrue (.ofNat (n + 2))] ++ Array.replicate n .nop ++ #[.ret] }

theorem getElem?_leap {n pc : Nat} {instr : Instr} (found : (leap n).code[pc]? = some instr) :
    pc = 0 ∧ instr = .ldBool true ∨ pc = 1 ∧ instr = .brTrue (.ofNat (n + 2)) ∨
      2 ≤ pc ∧ pc < n + 2 ∧ instr = .nop ∨ pc = n + 2 ∧ instr = .ret := by
  unfold leap at found
  simp only [Array.getElem?_append, Array.size_append, Array.size_replicate] at found
  grind

/-- Whatever its length, the code is well-formed where nothing is returned. -/
theorem wellFormed_leap {n : Nat} {shape : MethodShape} {resolve : MethodToken → Option CallEffect}
    (inRange : n + 2 < UInt32.size) (nothing : shape.returnsValue = false) :
    WellFormed (leap n) shape resolve := by
  have size : (leap n).code.size = n + 3 := by
    simp [leap]
    omega
  have last : (UInt32.ofNat (n + 2)).toNat = n + 2 := UInt32.toNat_ofNat_of_lt' inRange
  refine ⟨by omega, fun pc => if pc = 1 then 1 else 0, rfl, fun pc instr _ found => ?_⟩
  rcases getElem?_leap found with ⟨rfl, rfl⟩ | ⟨rfl, rfl⟩ | ⟨least, below, rfl⟩ | ⟨rfl, rfl⟩
  · refine ⟨trivial, Nat.zero_le _, ?_, ?_, nofun⟩ <;> rintro _ (⟨-, rfl⟩ | ⟨_, ⟨⟩, -⟩)
    · omega
    · rfl
  · refine ⟨trivial, Nat.le_refl _, ?_, ?_, nofun⟩ <;> rintro _ (⟨-, rfl⟩ | ⟨_, ⟨⟩, rfl⟩)
    · omega
    · omega
    · rfl
    · rw [if_neg (by omega)]
      rfl
  · refine ⟨trivial, Nat.zero_le _, ?_, ?_, nofun⟩ <;> rintro _ (⟨-, rfl⟩ | ⟨_, ⟨⟩, -⟩)
    · omega
    · rw [if_neg (by omega), if_neg (by omega)]
      rfl
  · have deep : (if n + 2 = 1 then 1 else 0) = 0 := if_neg (by omega)
    refine ⟨trivial, ?_, ?_, ?_, fun _ => ?_⟩
    · simp [Instr.pops, nothing]
    · rintro _ (⟨⟨⟩, -⟩ | ⟨_, ⟨⟩, -⟩)
    · rintro _ (⟨⟨⟩, -⟩ | ⟨_, ⟨⟩, -⟩)
    · rw [deep, nothing]
      rfl

theorem reachable_leap (n : Nat) : Reachable (leap n) 1 := by
  have first : (leap n).code[0]? = some (Instr.ldBool true) := by simp [leap]
  exact .step .entry first (.inl ⟨rfl, rfl⟩)

/-- The image passes the check and has one hub, and yet the branch, which control never gets to,
oversteps, and injection breaks off. So does a branch that control gets to, in code of as many
instructions as there are positions. -/
theorem branches_overstep :
    ((strays strayBody).verify = .ok () ∧ (strays strayBody).hubs.length = 1 ∧
      stray strayBody ∈ (strays strayBody).methods ∧ (stray strayBody).attrs.patchable = true ∧
      strayBody.code[1]? = some (.br 0xffffffff) ∧ ¬ Reachable strayBody 1 ∧
      UInt32.size ≤ (0xffffffff : UInt32).toNat + prologueLength (stray strayBody) ∧
      (strays strayBody).inject = .error (.unpatchable "Wish::Stray()" .overflow) ∧
      (InjectError.unpatchable "Wish::Stray()" .overflow).panic? =
        some "attempt to add with overflow") ∧
    ((strays (leap 0xfffffffd)).verify = .ok () ∧ (leap 0xfffffffd).code.size = UInt32.size ∧
      (leap 0xfffffffd).code[1]? = some (.brTrue 0xffffffff) ∧ Reachable (leap 0xfffffffd) 1 ∧
      UInt32.size ≤ (0xffffffff : UInt32).toNat + prologueLength (stray (leap 0xfffffffd))) := by
  refine ⟨⟨by with_unfolding_all decide, rfl, by simp [strays], rfl, rfl,
    fun reached => Nat.one_ne_zero (eq_zero_of_reachable reached), by decide,
    by with_unfolding_all decide, rfl⟩,
    verify_strays (wellFormed_leap (by decide) rfl), ?_, ?_, reachable_leap _, ?_⟩
  · simp [leap]
  · simp [leap]
  · have value : (0xffffffff : UInt32).toNat = 0xffffffff := rfl
    unfold prologueLength
    rw [value]
    unfold UInt32.size
    omega

/-- The slots of its prologue suffice, so that the branch is what breaks the move of the method off. -/
theorem relocates_exactly_stray :
    (strays strayBody).verify = .ok () ∧
      (strays strayBody).hubs = [{ hubMethod "Wish" "Ask" with token := ⟨1⟩ }] ∧
      HasRoom (stray strayBody) strayBody ∧
      Oversteps strayBody (prologueLength (stray strayBody)) ∧
      injectBody (stray strayBody) ⟨1⟩ = .error .overflow := by
  have verified : (strays strayBody).verify = .ok () := by with_unfolding_all decide
  have room : HasRoom (stray strayBody) strayBody := ⟨by decide, by decide⟩
  have oversteps : Oversteps strayBody (prologueLength (stray strayBody)) :=
    ⟨.br 0xffffffff, by simp [strayBody], 0xffffffff, rfl, by decide⟩
  have moves := (relocates_exactly verified rfl).1 (stray strayBody) (by simp [strays]) rfl strayBody rfl
  exact ⟨verified, rfl, room, oversteps, moves.2.1.2 ⟨room, oversteps⟩⟩

end ScriptHost.Image

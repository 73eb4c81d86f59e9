import ScriptHost.Proofs.Host.Moments
import ScriptHost.Proofs.Image.Loaded
/-!
Runs of loaded images are safe. Loaded bodies are as sound as the bodies that were checked, since the
tokens in them name methods that do to the stack what the image said. So, whatever the receiver, the
arguments, the heap, the budget and the patches are, an activation of image code never meets what the
check was to exclude.
-/
namespace ScriptHost.Image

open Host Host.Verify
open Results (bind_eq_ok forM_eq_ok getElem?_of_mapM mapError_eq_ok)

variable {image : Image} {first : UInt32}

/-! ## Mapped tokens -/

/-- What mapping tokens makes of an instruction. -/
theorem remapInstr_eq_ok {instr moved : Instr} (remapped : image.remapInstr first instr = .ok moved) :
    (instr.token? = none ∧ moved = instr) ∨
      ∃ t mapped, instr.token? = some t ∧ image.mappedToken? first t = some mapped ∧
        moved = instr.mapToken fun _ => mapped := by
  unfold remapInstr at remapped
  cases names : instr.token? with
  | none =>
    rw [names] at remapped
    cases remapped
    exact .inl ⟨rfl, rfl⟩
  | some t =>
    rw [names] at remapped
    cases mapsTo : image.mappedToken? first t with
    | none =>
      simp only [mapsTo] at remapped
      cases remapped
    | some mapped =>
      simp only [mapsTo] at remapped
      cases remapped
      exact .inr ⟨t, mapped, rfl, mapsTo, rfl⟩

/-- What mapping tokens makes of a body. -/
theorem remapBody_eq_ok {own moved : Body} (remapped : image.remapBody first own = .ok moved) :
    moved.locals = own.locals ∧ moved.code.size = own.code.size ∧
      ∀ (pc : Nat) (instr : Instr), own.code[pc]? = some instr →
        ∃ instr', moved.code[pc]? = some instr' ∧ image.remapInstr first instr = .ok instr' := by
  unfold remapBody at remapped
  obtain ⟨code, mapped, rest⟩ := bind_eq_ok.1 remapped
  cases rest
  obtain ⟨sameLength, places⟩ := getElem?_of_mapM mapped
  refine ⟨rfl, sameLength.trans Array.length_toList, fun pc instr found => ?_⟩
  rw [← Array.getElem?_toList] at found
  obtain ⟨instr', found', remapped'⟩ := places pc instr found
  exact ⟨instr', by rw [List.getElem?_toArray, found'], remapped'⟩

/-- A token in a body with mapped tokens is a mapped token. -/
theorem exists_mapped_of_remapBody {own moved : Body} {pc : Nat} {instr : Instr} {t : MethodToken}
    (remapped : image.remapBody first own = .ok moved) (found : moved.code[pc]? = some instr)
    (names : instr.token? = some t) : ∃ t', image.mappedToken? first t' = some t := by
  obtain ⟨_, size, places⟩ := remapBody_eq_ok remapped
  obtain ⟨inBounds, _⟩ := Array.getElem?_eq_some_iff.1 found
  have before : own.code[pc]? = some own.code[pc] := Array.getElem?_eq_getElem (size ▸ inBounds)
  obtain ⟨instr', found', remapped'⟩ := places pc _ before
  cases Option.some.inj (found.symm.trans found')
  obtain ⟨noToken, same⟩ | ⟨t', mapped, names', mapsTo, same⟩ := remapInstr_eq_ok remapped'
  · rw [same, noToken] at names
    cases names
  · refine ⟨t', ?_⟩
    rw [mapsTo]
    cases equal : own.code[pc] <;> rw [equal] at names' same <;> cases names' <;> rw [same] at names <;>
      exact names

/-- Only tokens of methods of the image are mapped. -/
theorem mem_of_mappedToken? {t mapped : MethodToken}
    (mapsTo : image.mappedToken? first t = some mapped) : ∃ m ∈ image.methods, m.token = t := by
  obtain ⟨i, found, _⟩ := Option.map_eq_some_iff.1 mapsTo
  obtain ⟨inBounds, same, _⟩ := List.findIdx?_eq_some_iff_getElem.1 found
  exact ⟨image.methods[i], List.getElem_mem inBounds, eq_of_beq same⟩

/-- Mapping the token of an instruction leaves its way through the body alone. -/
theorem successors_mapToken (instr : Instr) (f : MethodToken → MethodToken) (pc after : Nat) :
    successors (instr.mapToken f) pc after = successors instr pc after := by
  cases instr <;> rfl

/-- An instruction that the image accepts is accepted with its mapped token in a domain that holds
the methods of the image. -/
theorem visit_of_remap {own moved : Body} {shape : MethodShape} {d : Domain} {pc depth : Nat}
    {instr instr' : Instr} {next : List Visit} (installed : Installed image first d)
    (locals : moved.locals = own.locals) (size : moved.code.size = own.code.size)
    (remapped : image.remapInstr first instr = .ok instr')
    (visited : visit own shape image.callEffect? pc depth instr = .ok next) :
    visit moved shape d.callEffect? pc depth instr' = .ok next := by
  obtain ⟨effect, effectOk, enough, returns, inside, rfl⟩ := visit_eq_ok_iff.1 visited
  rw [← size] at inside
  obtain ⟨noToken, rfl⟩ | ⟨t, mapped, names, mapsTo, rfl⟩ := remapInstr_eq_ok remapped
  · refine visit_eq_ok_iff.2 ⟨effect, ?_, enough, returns, inside, rfl⟩
    cases instr' with
    | call | newObj | ldToken => cases noToken
    | ldLoc | stLoc =>
      simp only [stackEffect, locals]
      exact effectOk
    | _ => exact effectOk
  · refine visit_eq_ok_iff.2 ⟨effect, ?_, enough, ?_, ?_, successors_mapToken _ _ _ _⟩
    · cases instr with
      | ldToken => exact effectOk
      | call t' =>
        cases names
        simp only [stackEffect, Instr.mapToken] at effectOk ⊢
        cases known : image.callEffect? t with
        | none =>
          rw [known] at effectOk
          cases effectOk
        | some found =>
          rw [known] at effectOk
          rw [installed.callEffect? mapsTo known]
          dsimp only at effectOk ⊢
          split at effectOk
          · cases effectOk
          · rename_i noConstructor
            rw [if_neg noConstructor]
            exact effectOk
      | newObj t' =>
        cases names
        simp only [stackEffect, Instr.mapToken] at effectOk ⊢
        cases known : image.callEffect? t with
        | none =>
          rw [known] at effectOk
          cases effectOk
        | some found =>
          rw [known] at effectOk
          rw [installed.callEffect? mapsTo known]
          dsimp only at effectOk ⊢
          obtain ⟨isConstructor, same⟩ := of_guard effectOk
          rw [if_pos isConstructor, same]
      | _ => cases names
    · cases instr <;> cases names <;> intro isRet <;> cases isRet
    · rw [successors_mapToken]
      exact inside

/-- The record of a body fits what the body becomes. -/
theorem consistent_of_remap {own moved : Body} {shape : MethodShape} {d : Domain} {depths : Depths}
    (installed : Installed image first d) (remapped : image.remapBody first own = .ok moved)
    (consistent : Consistent own shape image.callEffect? depths) :
    Consistent moved shape d.callEffect? depths := by
  obtain ⟨locals, size, places⟩ := remapBody_eq_ok remapped
  refine ⟨consistent.entry, fun pc depth known => ?_⟩
  obtain ⟨instr, next, found, visited, reached⟩ := consistent.step pc depth known
  obtain ⟨instr', found', remapped'⟩ := places pc instr found
  exact ⟨instr', next, found', visit_of_remap installed locals size remapped' visited, reached⟩

/-! ## Methods of a checked image -/

/-- What the check of an image recorded for the method that one of its methods became. -/
def Recorded (image : Image) (first : UInt32) (method : Method) (depths : Depths) : Prop :=
  ∃ m ∈ image.methods, Becomes image first m method ∧
    ∀ own, m.body = some own → record own m.shape image.callEffect? = .ok depths

/-- Every body of a checked image has code and a record. -/
theorem exists_record {m : MethodDef} (verified : image.verify = .ok ()) (member : m ∈ image.methods) :
    ∃ depths, ∀ own, m.body = some own →
      0 < own.code.size ∧ record own m.shape image.callEffect? = .ok depths := by
  obtain ⟨_, _, bodies⟩ := verify_eq_ok_iff.1 verified
  have checked := forM_eq_ok.1 bodies m member
  unfold checkBody at checked
  cases body : m.body with
  | none => exact ⟨#[], fun _ same => nomatch same⟩
  | some own =>
    rw [body] at checked
    obtain ⟨code, depths, recorded⟩ := Verify.verify_eq_ok_iff.1 (mapError_eq_ok.1 checked)
    refine ⟨depths, fun other same => ?_⟩
    cases same
    exact ⟨code, recorded⟩

/-- The methods of a checked image are vetted in a domain that holds them. -/
theorem Installed.vetted {d : Domain} (installed : Installed image first d)
    (verified : image.verify = .ok ()) : Vetted d (Recorded image first) := by
  refine ⟨?_, ?_⟩
  · rintro method depths body ⟨m, member, becomes, recorded⟩ code
    obtain ⟨_, positive⟩ := exists_record verified member
    have unit := becomes.body
    rw [code] at unit
    cases unit with
    | code unmarked own remapped =>
      rw [becomes.shape]
      exact consistent_of_remap installed remapped
        (consistent_of_record (positive _ own).1 (recorded _ own))
  · rintro method depths body ⟨m, member, becomes, recorded⟩ code pc instr t found names
    have unit := becomes.body
    rw [code] at unit
    cases unit with
    | code unmarked own remapped =>
      obtain ⟨t', mapsTo⟩ := exists_mapped_of_remapBody remapped found names
      obtain ⟨other, inImage, rfl⟩ := mem_of_mappedToken? mapsTo
      obtain ⟨callee, becomes', named⟩ := installed other inImage
      obtain ⟨recorded', positive⟩ := exists_record verified inImage
      cases Option.some.inj (mapsTo.symm.trans becomes'.token)
      exact ⟨callee, recorded', named, other, inImage, becomes', fun own body => (positive own body).2⟩

/-! ## Safe moments -/

variable {ε : Type}

/-- A moment of image code that is as the check of the image foresaw. -/
structure SafeMoment (image : Image) (first : UInt32) (moment : Moment ε) : Prop where
  /-- The body is that of a method of the image, and the stack is as high as it was recorded for the
  instruction. -/
  height : ∃ m ∈ image.methods, ∃ own depths, Becomes image first m moment.method ∧
    m.body = some own ∧ image.remapBody first own = .ok moment.body ∧
    record own m.shape image.callEffect? = .ok depths ∧
    depths[moment.activation.pc]? = some (some moment.activation.stack.length)
  /-- Control is inside the body. -/
  inside : ∃ instr, moment.instr? = some instr
  noFault : ∀ instr e, moment.instr? = some instr → (moment.perform instr).1 = .error e →
    e.isFault = false
  arity : ∀ instr callee ref args keeps a, moment.instr? = some instr →
    (moment.perform instr).1 = .ok (.call callee ref args keeps a) →
    args.size = callee.params.length
  /-- A method that gives a value has just that value left. -/
  returnsValue : moment.instr? = some .ret → moment.method.returnsValue = true →
    ∃ v, moment.activation.stack = [v] ∧ (moment.perform .ret).1 = .ok (.done v)
  returnsNothing : moment.instr? = some .ret → moment.method.returnsValue = false →
    moment.activation.stack = []

/-- A sound moment of image code is safe. -/
theorem safeMoment_of_sound {image : Image} {first : UInt32} {moment : Moment ε}
    (sound : moment.Sound (Recorded image first))
    (vetted : Vetted moment.world.host.domain (Recorded image first)) :
    SafeMoment image first moment := by
  obtain ⟨_, instr, next, _, found, returns, permitted, _⟩ := sound.permitted vetted
  have only : ∀ {other}, moment.instr? = some other → other = instr := fun found' =>
    Option.some.inj (found'.symm.trans found)
  refine ⟨?_, ⟨instr, found⟩, ?_, ?_, ?_, ?_⟩
  · obtain ⟨depths, ⟨m, member, becomes, recorded⟩, known⟩ := sound.depth
    have unit := becomes.body
    rw [sound.code] at unit
    cases unit with
    | code unmarked own remapped =>
      exact ⟨m, member, _, depths, becomes, own, remapped, recorded _ own, known⟩
  · intro other e found' raised
    cases only found'
    rw [raised] at permitted
    cases permitted with
    | raise noFault => exact noFault
  · intro other callee ref args keeps a found' called
    cases only found'
    rw [called] at permitted
    cases permitted with
    | call _ _ arity _ _ _ => exact arity
  · intro atReturn wanted
    have height := returns (only atReturn).symm
    rw [wanted] at height
    obtain ⟨v, single⟩ := List.length_eq_one_iff.1 height
    refine ⟨v, single, ?_⟩
    unfold Moment.perform perform
    simp only [World.onHost_apply, Activation.step, wanted, single, popOperand_cons, if_true,
      HostM.lift_bind_apply, HostM.pure_apply]
  · intro atReturn nothing
    have height := returns (only atReturn).symm
    rw [nothing] at height
    exact List.length_eq_zero_iff.1 height

/-- Every method of a loaded image, called with as many arguments as it declares, runs through safe
moments only, those of nested calls included, and ends without a fault. The patches may do anything
but take types away from the domain, which offers no way to do that. -/
theorem safe_runs_of_load {image : Image} {s after : State} {ids : List TypeId}
    (loaded : image.load s = (.ok ids, after)) (m : MethodDef) (member : m ∈ image.methods) :
    ∃ method, Becomes image s.domain.nextToken m method ∧
      after.domain.method? method.token = some method ∧
      ∀ (ε : Type) (ctx : Context ε), ctx.KeepsTypes →
        ∀ (depth : Nat) (this : Option ObjectRef) (args : Array Value) (w : World ε),
          after.domain.Evolves w.host.domain → args.size = method.params.length →
          (∀ moment, Reaches ctx depth method this args w moment →
            SafeMoment image s.domain.nextToken moment) ∧
          ∀ e, (invoke ctx depth method this args w).1.ending = .threw e → e.isFault = false := by
  have installed := installed_of_load loaded
  have verified := verified_of_load loaded
  obtain ⟨method, becomes, named⟩ := installed m member
  obtain ⟨depths, positive⟩ := exists_record verified member
  have recorded : Recorded image s.domain.nextToken method depths :=
    ⟨m, member, becomes, fun own body => (positive own body).2⟩
  refine ⟨method, becomes, named, fun ε ctx keeps depth this args w grown arity => ?_⟩
  have vetted := (installed.vetted verified).mono grown.extends
  refine ⟨fun moment reaches => ?_, noFault_invoke keeps this vetted recorded arity⟩
  obtain ⟨sound, more⟩ := reaches.sound keeps vetted recorded
  exact safeMoment_of_sound sound (vetted.mono more)

/-- A type with a static method that gives seven, and another that calls it twice. -/
def sevens : Image where
  name := "Sevens"
  types := [{ name := "Sevens" }]
  methods := [
    { token := ⟨1⟩, declaring := "Sevens", name := "Give", kind := .static
      ret := .numeric .int64, body := some { code := #[.ldInt 7, .ret] } },
    { token := ⟨2⟩, declaring := "Sevens", name := "Twice", kind := .static
      ret := .numeric .int64
      body := some { code := #[.call ⟨1⟩, .call ⟨1⟩, .arith .add, .ret] } }]

/-- Loading it into an empty host, and calling both methods there without patches. -/
theorem safe_runs_of_sevens :
    ∃ after, sevens.load {} = (.ok [⟨1⟩], after) ∧ ∀ m ∈ sevens.methods, ∃ method,
      after.domain.method? method.token = some method ∧
      ∀ moment, Reaches (.direct 10) 3 method none #[] (World.alone after) moment →
        SafeMoment sevens 1 moment := by
  have ok : (sevens.load {}).1 = .ok [⟨1⟩] := by decide +kernel
  have loaded : sevens.load {} = (.ok [⟨1⟩], (sevens.load {}).2) := Prod.ext ok rfl
  have noParams : ∀ m ∈ sevens.methods, m.params = [] := by decide
  refine ⟨_, loaded, fun m member => ?_⟩
  obtain ⟨method, becomes, named, safe⟩ := safe_runs_of_load loaded m member
  have arity : (#[] : Array Value).size = method.params.length := by
    rw [becomes.params, noParams m member]
    rfl
  exact ⟨method, named, (safe Unit (.direct 10) (keepsTypes_direct 10) 3 none #[] _ .refl arity).1⟩

end ScriptHost.Image

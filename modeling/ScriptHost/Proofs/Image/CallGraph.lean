import Mathlib.Data.Finset.Dedup
import ScriptHost.Proofs.Host.Nesting
import ScriptHost.Proofs.Image.SafeRuns
/-!
Which methods of an image call which. A method from which no method reaches itself comes back,
however small the budget is; a method that calls itself need not, since nothing bounds how deep calls
nest.
-/
namespace ScriptHost.Image

open Host

variable {ε : Type} {image : Image} {first : UInt32}

/-- The body of a method calls another method, or makes an object with it. The body of a hub is
never run. -/
def Calls (image : Image) (caller callee : MethodToken) : Prop :=
  ∃ m ∈ image.methods, m.token = caller ∧ m.attrs.patchHub = false ∧ ∃ own, m.body = some own ∧
    ∃ instr ∈ own.code, instr.callee? = some callee

/-- A method of the image, by its token, and the method that it became. -/
def StandsFor (image : Image) (first : UInt32) (method : Method) (t : MethodToken) : Prop :=
  ∃ m ∈ image.methods, m.token = t ∧ Becomes image first m method

/-- What a body with mapped tokens calls, the body before called by the token that is mapped. -/
theorem callee?_of_remapBody {own moved : Body} {pc : Nat} {instr : Instr} {t : MethodToken}
    (remapped : image.remapBody first own = .ok moved) (found : moved.code[pc]? = some instr)
    (names : instr.callee? = some t) :
    ∃ before ∈ own.code, ∃ t', before.callee? = some t' ∧ image.mappedToken? first t' = some t := by
  obtain ⟨_, size, places⟩ := remapBody_eq_ok remapped
  obtain ⟨inBounds, _⟩ := Array.getElem?_eq_some_iff.1 found
  have inOwn : pc < own.code.size := size ▸ inBounds
  obtain ⟨instr', found', remapped'⟩ := places pc _ (Array.getElem?_eq_getElem inOwn)
  cases Option.some.inj (found.symm.trans found')
  refine ⟨own.code[pc], Array.getElem_mem inOwn, ?_⟩
  rcases remapInstr_eq_ok remapped' with ⟨noToken, same⟩ | ⟨t', mapped, names', mapsTo, same⟩
  · rw [same] at names
    rw [Instr.token?_of_callee? names] at noToken
    cases noToken
  · rw [same, Instr.callee?_mapToken] at names
    obtain ⟨u, calls, isMapped⟩ := Option.map_eq_some_iff.1 names
    cases Option.some.inj ((Instr.token?_of_callee? calls).symm.trans names')
    exact ⟨_, calls, isMapped ▸ mapsTo⟩

/-- The methods of an image call each other as their bodies say. -/
theorem Installed.linked {d : Domain} (installed : Installed image first d) :
    Linked d image.Calls (image.StandsFor first) := by
  constructor
  · rintro method t actions ⟨m, member, own, becomes⟩ native
    have body := becomes.body
    rw [native] at body
    cases body
  · rintro method t body pc instr u ⟨m, member, own, becomes⟩ code found names
    have unit := becomes.body
    rw [code] at unit
    cases unit with
    | code unmarked body remapped =>
      obtain ⟨before, inBody, t', calls, mapsTo⟩ := callee?_of_remapBody remapped found names
      obtain ⟨other, inImage, rfl⟩ := mem_of_mappedToken? mapsTo
      obtain ⟨callee, becomes', named⟩ := installed other inImage
      cases Option.some.inj (mapsTo.symm.trans becomes'.token)
      exact ⟨callee, other.token, named, ⟨other, inImage, rfl, becomes'⟩,
        m, member, own, unmarked, _, body, before, inBody, calls⟩

end ScriptHost.Image

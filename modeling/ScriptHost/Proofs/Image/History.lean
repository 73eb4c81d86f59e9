import ScriptHost.Proofs.Host.Evolution
import ScriptHost.Proofs.Host.Layout
import ScriptHost.Proofs.Image.Loaded
/-!
Histories of a host. Types are defined, array types and arrays are made, also by code that runs, and
images are loaded, in any order and whether or not each of it succeeds, while objects and static
slots change as they like.
-/
namespace ScriptHost.Host.State

variable {s t u : State}

/-- What can become of a host by definitions, arrays and images, and by code that uses it. -/
inductive LeadsTo (s : State) : State → Prop
  | refl : LeadsTo s s
  | define {t : State} (before : LeadsTo s t) (decl : TypeDecl) : LeadsTo s (t.define decl).2
  | arrayType {t : State} (before : LeadsTo s t) (element : ValueType) :
      LeadsTo s (t.arrayType element).2
  | newArray {t : State} (before : LeadsTo s t) (element : ValueType) (values : Array Value) :
      LeadsTo s (t.newArray element values).2
  /-- The instruction that makes arrays, in whatever body it stands. -/
  | newArr {t : State} (before : LeadsTo s t) (a : Activation) (returnsValue : Bool)
      (this : Option ObjectRef) (element : ValueType) :
      LeadsTo s (a.step returnsValue this (.newArr element) t).2
  | load {t : State} (before : LeadsTo s t) (image : Image) : LeadsTo s (image.load t).2
  /-- Objects are made and change. -/
  | reheap {t : State} (before : LeadsTo s t) (heap : Heap) : LeadsTo s { t with heap }
  | setStatic {t : State} (before : LeadsTo s t) (type : TypeId) (slot : Nat) (v : Value) :
      LeadsTo s (t.setStatic type slot v)

/-- A host that came about by definitions, arrays and images, and by code that used it. -/
def Reachable (s : State) : Prop :=
  LeadsTo {} s

theorem reachable_empty : Reachable {} :=
  .refl

/-- The instruction that makes arrays changes nothing, or it makes an array. -/
theorem step_newArr (a : Activation) (returnsValue : Bool) (this : Option ObjectRef)
    (element : ValueType) (s : State) :
    (a.step returnsValue this (.newArr element) s).2 = s ∨
      ∃ values, (a.step returnsValue this (.newArr element) s).2 = (s.newArray element values).2 := by
  simp only [Activation.step, HostM.bind_apply]
  cases popOperand a.stack with
  | error e => exact .inl rfl
  | ok popped =>
    obtain ⟨v, stack⟩ := popped
    simp only [HostM.lift_apply]
    cases v.asNat? with
    | none => exact .inl rfl
    | some length => exact .inr ⟨_, rfl⟩

/-- Whatever becomes of a host, its domain changes as domains do. -/
theorem LeadsTo.evolves (history : s.LeadsTo t) : s.domain.Evolves t.domain := by
  induction history with
  | refl => exact .refl
  | @define t _ decl ih =>
    have same : (t.define decl).2.domain = (t.domain.define decl).2 :=
      congrArg Prod.snd (Image.domain_define t decl)
    rw [same]
    exact ih.define decl
  | arrayType _ element ih => exact ih.trans (evolves_arrayType _ element)
  | newArray _ element values ih => exact ih.trans (evolves_newArray _ element values)
  | @newArr t _ a returnsValue this element ih =>
    rcases step_newArr a returnsValue this element t with same | ⟨values, same⟩
    · rw [same]
      exact ih
    · rw [same]
      exact ih.trans (evolves_newArray _ element values)
  | load _ image ih => exact ih.trans (Image.evolves_load image _)
  | reheap _ heap ih => exact ih
  | setStatic _ type slot v ih => exact ih

/-! ## Static slots -/

/-- Every type has a row of static slots, one for each static field. -/
structure Stocked (s : State) : Prop where
  size : s.statics.size = s.domain.types.size
  rows : ∀ (i : Nat) (info : TypeInfo), s.domain.types[i]? = some info →
    (s.statics.getD i #[]).size = info.staticFields.length

theorem stocked_empty : Stocked {} := by
  refine ⟨rfl, fun i info found => ?_⟩
  obtain ⟨inBounds, rfl⟩ := Array.getElem?_eq_some_iff.1 found
  obtain rfl : i = 0 := Nat.lt_one_iff.1 inBounds
  rfl

namespace Stocked

theorem of_types_eq (stocked : s.Stocked) (types : t.domain.types = s.domain.types)
    (statics : t.statics = s.statics) : t.Stocked := by
  obtain ⟨size, rows⟩ := stocked
  exact ⟨by rw [types, statics, size], by rwa [types, statics]⟩

/-- A new type comes with its row. -/
theorem push (stocked : s.Stocked) {info : TypeInfo} {row : Array Value}
    (types : t.domain.types = s.domain.types.push info) (statics : t.statics = s.statics.push row)
    (sameSize : row.size = info.staticFields.length) : t.Stocked := by
  refine ⟨by rw [types, statics, Array.size_push, Array.size_push, stocked.size], ?_⟩
  intro i other found
  rw [types, Array.getElem?_push] at found
  rw [statics, Array.getD_eq_getD_getElem?, Array.getElem?_push, stocked.size]
  split at found
  · rename_i last
    cases found
    rw [if_pos last]
    exact sameSize
  · rename_i earlier
    rw [if_neg earlier, ← Array.getD_eq_getD_getElem?]
    exact stocked.rows i other found

theorem define (stocked : s.Stocked) (decl : TypeDecl) : (s.define decl).2.Stocked := by
  unfold State.define
  rcases Domain.define_cases s.domain decl with
    ⟨cause, after, refused, same, -⟩ | ⟨base, made, after, defines, result⟩
  · rw [refused]
    exact stocked.of_types_eq same rfl
  · rw [result]
    refine stocked.push (defines.types_addType _) rfl ?_
    have placed := (staticFields_placeFields base.layout.length 0 decl.fields).2
    simpa [TypeDecl.toType, TypeInfo.staticFields] using placed.symm

theorem arrayType (stocked : s.Stocked) (element : ValueType) :
    (s.arrayType element).2.Stocked := by
  unfold State.arrayType Domain.arrayType
  cases s.domain.findArray? element with
  | some id => exact stocked
  | none => exact stocked.push rfl rfl rfl

theorem newArray (stocked : s.Stocked) (element : ValueType) (values : Array Value) :
    (s.newArray element values).2.Stocked :=
  (stocked.arrayType element).of_types_eq rfl rfl

theorem defineAll (stocked : s.Stocked) (decls : List (Nat × TypeDecl)) :
    (Image.defineAll s decls).2.Stocked := by
  induction decls generalizing s with
  | nil => exact stocked
  | cons entry rest ih =>
    obtain ⟨i, decl⟩ := entry
    have once := stocked.define decl
    unfold Image.defineAll
    cases defined : s.define decl with
    | mk outcome after =>
      rw [defined] at once
      cases outcome with
      | error e => exact once
      | ok id => exact ih once

theorem load (stocked : s.Stocked) (image : Image) : (image.load s).2.Stocked := by
  have setAside : (image.reserved s).Stocked :=
    stocked.of_types_eq (Domain.types_reserveTokens _ _) rfl
  rcases Image.load_cases image s with
    ⟨e, refused⟩ | ⟨order, _, ⟨e, _, refused⟩ | ⟨decls, _, result⟩⟩
  · rw [refused]
    exact stocked
  · rw [refused]
    exact setAside
  · rw [result]
    exact setAside.defineAll decls

/-- Storing into a static slot leaves the rows as long as they are. -/
theorem setStatic (stocked : s.Stocked) (type : TypeId) (slot : Nat) (v : Value) :
    (s.setStatic type slot v).Stocked := by
  unfold State.setStatic
  refine ⟨by rw [Array.size_modify]; exact stocked.size, fun i info found => ?_⟩
  rw [← stocked.rows i info found, Array.getD_eq_getD_getElem?, Array.getD_eq_getD_getElem?,
    Array.getElem?_modify]
  split
  · cases s.statics[i]? with
    | none => rfl
    | some row => exact Array.size_setIfInBounds
  · rfl

end Stocked

theorem LeadsTo.stocked (history : s.LeadsTo t) (stocked : s.Stocked) : t.Stocked := by
  induction history with
  | refl => exact stocked
  | define _ decl ih => exact ih.define decl
  | arrayType _ element ih => exact ih.arrayType element
  | newArray _ element values ih => exact ih.newArray element values
  | @newArr t _ a returnsValue this element ih =>
    rcases step_newArr a returnsValue this element t with same | ⟨values, same⟩
    · rw [same]
      exact ih
    · rw [same]
      exact ih.newArray element values
  | load _ image ih => exact ih.load image
  | reheap _ heap ih => exact ih.of_types_eq rfl rfl
  | setStatic _ type slot v ih => exact ih.setStatic type slot v

end ScriptHost.Host.State

import ScriptHost.Proofs.Image.Codec
import ScriptHost.Proofs.Json.Levels
/-!
How deep images nest. What was read from a text nests, when it is written again, no deeper than a
text may; so an image that loads no doubles is read back exactly if its text does not nest too deep.
-/
namespace ScriptHost

open Json (Levelled depth_single_le levelled_list levelled_nullable levelled_plainVariant
  levelled_record mem_of_lookup variant?_eq_some_iff)

/-- A name of a table takes no levels. -/
theorem Json.levelled_nameIn {α : Type} [BEq α] (table : List (String × α)) :
    Levelled (plainVariant? table) (nameIn table) 0 :=
  levelled_plainVariant table fun _ => rfl

open Json (levelled_nameIn)

namespace Host

/-- The types that carry nothing are written as names. -/
theorem ValueType.depth_of_lookup {name : String} {type : ValueType}
    (found : names.lookup name = some type) : type.toJson.depth = 0 := by
  have flat : ∀ entry ∈ names, entry.2.toJson.depth = 0 := by decide
  exact flat (name, type) (mem_of_lookup found)

/-- A type that carries nothing is picked by its name, also as an object. -/
theorem ValueType.lookup_of_plainVariant? {levels : Nat} {j : Json} {type : ValueType}
    (found : Json.plainVariant? names levels j = some type) :
    ∃ name, names.lookup name = some type ∧ (j = .text (some name) ∨
      ∃ inner, levels = inner + 1 ∧ j = .object [(some name, .null)]) := by
  unfold Json.plainVariant? at found
  simp only [Option.bind_eq_bind, Option.bind_eq_some_iff] at found
  obtain ⟨⟨name, payload⟩, picked, rest⟩ := found
  rcases variant?_eq_some_iff.1 picked with ⟨rfl, rfl⟩ | ⟨inner, value, rfl, rfl, rfl⟩
  · exact ⟨name, rest, .inl rfl⟩
  · cases value with
    | null => exact ⟨name, rest, .inr ⟨inner, rfl, rfl⟩⟩
    | _ => cases rest

theorem ValueType.ofJson?_mono {levels more : Nat} {j : Json} {type : ValueType}
    (le : levels ≤ more) (found : ofJson? levels j = some type) : ofJson? more j = some type := by
  fun_induction ofJson? levels j generalizing more type with
  | case1 levels name => cases more <;> exact found
  | case2 levels value ih =>
    obtain ⟨inner, rfl⟩ := Nat.exists_eq_add_of_le' (Nat.le_trans (Nat.succ_pos levels) le)
    obtain ⟨element, read, rfl⟩ := Option.map_eq_some_iff.1 found
    exact Option.map_eq_some_iff.2 ⟨element, ih (Nat.le_of_succ_le_succ le) read, rfl⟩
  | case3 levels value =>
    obtain ⟨inner, rfl⟩ := Nat.exists_eq_add_of_le' (Nat.le_trans (Nat.succ_pos levels) le)
    exact found
  | case4 levels value =>
    obtain ⟨inner, rfl⟩ := Nat.exists_eq_add_of_le' (Nat.le_trans (Nat.succ_pos levels) le)
    obtain ⟨kind, read, rfl⟩ := Option.map_eq_some_iff.1 found
    exact Option.map_eq_some_iff.2
      ⟨kind, (levelled_nameIn NumericKind.names).mono (Nat.le_of_succ_le_succ le) read, rfl⟩
  | case5 levels j noText noArray noClass noNumeric =>
    obtain ⟨name, named, rfl | ⟨inner, rfl, rfl⟩⟩ := lookup_of_plainVariant? found
    · exact absurd rfl (noText name)
    · obtain ⟨inner', rfl⟩ := Nat.exists_eq_add_of_le' (Nat.le_trans (Nat.succ_pos inner) le)
      have member := mem_of_lookup named
      simp only [names, List.mem_cons, Prod.mk.injEq, List.not_mem_nil, or_false] at member
      rcases member with ⟨rfl, rfl⟩ | ⟨rfl, rfl⟩ | ⟨rfl, rfl⟩ | ⟨rfl, rfl⟩ | ⟨rfl, rfl⟩ <;> rfl

theorem ValueType.levelled : Levelled ofJson? toJson 0 := by
  refine ⟨ofJson?_mono, fun {levels j type} _ found => ?_⟩
  fun_induction ofJson? levels j generalizing type with
  | case1 levels name =>
    rw [depth_of_lookup found]
    exact Nat.zero_le _
  | case2 levels value ih =>
    obtain ⟨element, read, rfl⟩ := Option.map_eq_some_iff.1 found
    exact depth_single_le.2 ⟨levels, rfl, ih (Nat.zero_le _) read⟩
  | case3 levels value =>
    obtain ⟨name, read, rfl⟩ := Option.map_eq_some_iff.1 found
    exact depth_single_le.2 ⟨levels, rfl, Nat.zero_le _⟩
  | case4 levels value =>
    obtain ⟨kind, read, rfl⟩ := Option.map_eq_some_iff.1 found
    exact depth_single_le.2 ⟨levels, rfl, Nat.zero_le _⟩
  | case5 levels j =>
    obtain ⟨name, named, -⟩ := lookup_of_plainVariant? found
    rw [depth_of_lookup named]
    exact Nat.zero_le _

/-- A parameter. -/
theorem Param.levelled : Levelled ofJson? toJson 1 := by
  refine levelled_record (fun _ _ => rfl) (fun _ => rfl) ?_ ?_
  · intro inner more values p le found
    split at found
    · rename_i same
      cases same
      simp only [Option.bind_eq_bind, Option.bind_eq_some_iff] at found ⊢
      obtain ⟨name, ofName, type, ofType, mode, ofMode, rest⟩ := found
      exact ⟨name, ofName, type, ValueType.levelled.mono le ofType, mode,
        (levelled_nameIn ParamMode.names).orDefault_mono le ofMode, rest⟩
    · cases found
  · intro inner values p enough found
    split at found
    · rename_i same
      cases same
      simp only [Option.bind_eq_bind, Option.bind_eq_some_iff] at found
      obtain ⟨name, ofName, type, ofType, mode, ofMode, rest⟩ := found
      cases rest
      simp only [List.forall_mem_cons]
      exact ⟨Nat.zero_le _, ValueType.levelled.fits (Nat.zero_le _) ofType, Nat.zero_le _,
        fun _ member => nomatch member⟩
    · cases found

/-! ## Bodies -/

/-- The instructions that carry nothing are written as names. -/
theorem Instr.depth_of_lookup {name : String} {instr : Instr}
    (found : names.lookup name = some instr) : instr.toJson.depth = 0 := by
  have flat : ∀ entry ∈ names, entry.2.toJson.depth = 0 := by decide
  exact flat (name, instr) (mem_of_lookup found)

/-- The names of instructions that carry nothing are those of no others. -/
theorem Instr.ofPayload?_of_lookup {name : String} {instr : Instr}
    (found : names.lookup name = some instr) (levels : Nat) (j : Json) :
    ofPayload? levels name j = none := by
  have apart : ∀ entry ∈ names, ofPayload? levels entry.1 j = none := by
    simp only [names, List.forall_mem_cons]
    exact ⟨rfl, rfl, rfl, rfl, rfl, rfl, rfl, rfl, rfl, rfl, rfl, rfl, rfl, rfl,
      fun _ member => nomatch member⟩
  exact apart (name, instr) (mem_of_lookup found)

theorem Instr.ofPayload?_mono {levels more : Nat} {name : String} {j : Json} {instr : Instr}
    (le : levels ≤ more) (found : ofPayload? levels name j = some instr) :
    ofPayload? more name j = some instr := by
  unfold ofPayload? at found ⊢
  split at found
  case h_1 =>
    obtain ⟨a, read, rfl⟩ := Option.map_eq_some_iff.1 found
    exact Option.map_eq_some_iff.2 ⟨a, (levelled_nameIn Anchor.names).mono le read, rfl⟩
  case h_13 =>
    obtain ⟨element, read, rfl⟩ := Option.map_eq_some_iff.1 found
    exact Option.map_eq_some_iff.2 ⟨element, ValueType.levelled.mono le read, rfl⟩
  case h_19 => cases found
  all_goals exact found

theorem depth_ofFloat (x : Float) : (Json.ofFloat x).depth = 0 := by
  unfold Json.ofFloat
  split
  · split <;> rfl
  · rfl

/-- What an instruction carries takes one level. -/
theorem Instr.fits_ofPayload? {levels : Nat} {name : String} {j : Json} {instr : Instr}
    (found : ofPayload? levels name j = some instr) : instr.toJson.depth ≤ levels + 1 := by
  unfold ofPayload? at found
  split at found
  case h_4 =>
    obtain ⟨x, read, rfl⟩ := Option.map_eq_some_iff.1 found
    refine depth_single_le.2 ⟨levels, rfl, ?_⟩
    rw [depth_ofFloat]
    exact Nat.zero_le _
  case h_13 =>
    obtain ⟨element, read, rfl⟩ := Option.map_eq_some_iff.1 found
    exact depth_single_le.2 ⟨levels, rfl, ValueType.levelled.fits (Nat.zero_le _) read⟩
  case h_19 => cases found
  all_goals
    obtain ⟨a, read, rfl⟩ := Option.map_eq_some_iff.1 found
    exact depth_single_le.2 ⟨levels, rfl, Nat.zero_le _⟩

/-- An instruction. -/
theorem Instr.levelled : Levelled ofJson? toJson 0 := by
  constructor
  · intro levels more j instr le found
    unfold ofJson? at found ⊢
    simp only [Option.bind_eq_bind, Option.bind_eq_some_iff] at found ⊢
    obtain ⟨⟨name, payload⟩, picked, rest⟩ := found
    rcases variant?_eq_some_iff.1 picked with ⟨rfl, rfl⟩ | ⟨inner, value, rfl, rfl, rfl⟩
    · exact ⟨_, variant?_eq_some_iff.2 (.inl ⟨rfl, rfl⟩), rest⟩
    · obtain ⟨inner', rfl⟩ := Nat.exists_eq_add_of_le' (Nat.le_trans (Nat.succ_pos inner) le)
      refine ⟨_, variant?_eq_some_iff.2 (.inr ⟨inner', value, rfl, rfl, rfl⟩), ?_⟩
      dsimp only at rest ⊢
      cases payload : ofPayload? inner name value with
      | some own =>
        rw [payload] at rest
        rw [ofPayload?_mono (Nat.le_of_succ_le_succ le) payload]
        exact rest
      | none =>
        rw [payload] at rest
        cases value with
        | null =>
          rw [ofPayload?_of_lookup rest]
          exact rest
        | _ => cases rest
  · intro levels j instr _ found
    unfold ofJson? at found
    simp only [Option.bind_eq_bind, Option.bind_eq_some_iff] at found
    obtain ⟨⟨name, payload⟩, picked, rest⟩ := found
    rcases variant?_eq_some_iff.1 picked with ⟨rfl, rfl⟩ | ⟨inner, value, rfl, rfl, rfl⟩
    · rw [depth_of_lookup rest]
      exact Nat.zero_le _
    · dsimp only at rest
      cases payload : ofPayload? inner name value with
      | some own =>
        rw [payload] at rest
        cases rest
        exact fits_ofPayload? payload
      | none =>
        rw [payload] at rest
        cases value with
        | null =>
          rw [depth_of_lookup rest]
          exact Nat.zero_le _
        | _ => cases rest

/-- A body. -/
theorem Body.levelled : Levelled ofJson? toJson 2 := by
  have types := levelled_list ValueType.levelled
  have instrs := levelled_list Instr.levelled
  refine levelled_record (fun _ _ => rfl) (fun _ => rfl) ?_ ?_
  · intro inner more values b le found
    split at found
    · rename_i same
      cases same
      simp only [Option.bind_eq_bind, Option.bind_eq_some_iff] at found ⊢
      obtain ⟨locals, ofLocals, code, ofCode, rest⟩ := found
      exact ⟨locals, types.orDefault_mono le ofLocals, code, instrs.mono le ofCode, rest⟩
    · cases found
  · intro inner values b enough found
    split at found
    · rename_i same
      cases same
      simp only [Option.bind_eq_bind, Option.bind_eq_some_iff] at found
      obtain ⟨locals, ofLocals, code, ofCode, rest⟩ := found
      cases rest
      simp only [List.forall_mem_cons]
      refine ⟨types.orDefault_fits enough ?_ ofLocals, instrs.fits enough ofCode,
        fun _ member => nomatch member⟩
      exact enough
    · cases found

/-- A field. -/
theorem FieldDecl.levelled : Levelled ofJson? toJson 1 := by
  refine levelled_record (fun _ _ => rfl) (fun _ => rfl) ?_ ?_
  · intro inner more values f le found
    split at found
    · rename_i same
      cases same
      simp only [Option.bind_eq_bind, Option.bind_eq_some_iff] at found ⊢
      obtain ⟨name, ofName, type, ofType, rest⟩ := found
      exact ⟨name, ofName, type, ValueType.levelled.mono le ofType, rest⟩
    · cases found
  · intro inner values f enough found
    split at found
    · rename_i same
      cases same
      simp only [Option.bind_eq_bind, Option.bind_eq_some_iff] at found
      obtain ⟨name, ofName, type, ofType, isStatic, ofStatic, rest⟩ := found
      cases rest
      simp only [List.forall_mem_cons]
      exact ⟨Nat.zero_le _, ValueType.levelled.fits (Nat.zero_le _) ofType, Nat.zero_le _,
        fun _ member => nomatch member⟩
    · cases found

end Host

namespace Image

open Host

/-! ## Images -/

/-- A type of an image. -/
theorem TypeDef.levelled : Levelled ofJson? toJson 3 := by
  have fields := levelled_list FieldDecl.levelled
  refine levelled_record (fun _ _ => rfl) (fun _ => rfl) ?_ ?_
  · intro inner more values t le found
    split at found
    · rename_i same
      cases same
      simp only [Option.bind_eq_bind, Option.bind_eq_some_iff] at found ⊢
      obtain ⟨name, ofName, base, ofBase, kind, ofKind, list, ofFields, rest⟩ := found
      exact ⟨name, ofName, base, ofBase, kind,
        (levelled_nameIn TypeKind.names).orDefault_mono le ofKind, list,
        fields.orDefault_mono le ofFields, rest⟩
    · cases found
  · intro inner values t enough found
    split at found
    · rename_i same
      cases same
      simp only [Option.bind_eq_bind, Option.bind_eq_some_iff] at found
      obtain ⟨name, ofName, base, ofBase, kind, ofKind, list, ofFields, rest⟩ := found
      cases rest
      simp only [List.forall_mem_cons]
      refine ⟨Nat.zero_le _, ?_, Nat.zero_le _, fields.orDefault_fits enough ?_ ofFields,
        fun _ member => nomatch member⟩
      · cases base <;> exact Nat.zero_le _
      · exact Nat.le_of_succ_le enough
    · cases found

/-- The marks of a method. -/
theorem MethodAttrs.levelled : Levelled ofJson? toJson 1 := by
  refine levelled_record (fun _ _ => rfl) (fun _ => rfl) ?_ ?_
  · intro inner more values a le found
    split at found
    · rename_i same
      cases same
      exact found
    · cases found
  · intro inner values a enough found
    simp only [List.forall_mem_cons]
    exact ⟨Nat.zero_le _, Nat.zero_le _, Nat.zero_le _, fun _ member => nomatch member⟩

/-- A method of an image. -/
theorem MethodDef.levelled : Levelled ofJson? toJson 3 := by
  have parameters := levelled_list Param.levelled
  have bodies := levelled_nullable Body.levelled
  refine levelled_record (fun _ _ => rfl) (fun _ => rfl) ?_ ?_
  · intro inner more values m le found
    split at found
    · rename_i same
      cases same
      simp only [Option.bind_eq_bind, Option.bind_eq_some_iff] at found ⊢
      obtain ⟨token, ofToken, declaring, ofDeclaring, name, ofName, kind, ofKind, params, ofParams,
        ret, ofRet, attrs, ofAttrs, body, ofBody, rest⟩ := found
      exact ⟨token, ofToken, declaring, ofDeclaring, name, ofName, kind,
        (levelled_nameIn MethodKind.names).mono le ofKind, params,
        parameters.orDefault_mono le ofParams, ret, ValueType.levelled.orDefault_mono le ofRet,
        attrs, MethodAttrs.levelled.orDefault_mono le ofAttrs, body,
        bodies.orDefault_mono le ofBody, rest⟩
    · cases found
  · intro inner values m enough found
    split at found
    · rename_i same
      cases same
      simp only [Option.bind_eq_bind, Option.bind_eq_some_iff] at found
      obtain ⟨token, ofToken, declaring, ofDeclaring, name, ofName, kind, ofKind, params, ofParams,
        ret, ofRet, attrs, ofAttrs, body, ofBody, rest⟩ := found
      cases rest
      simp only [List.forall_mem_cons]
      have one : 1 ≤ inner := Nat.le_of_succ_le enough
      refine ⟨Nat.zero_le _, Nat.zero_le _, Nat.zero_le _, Nat.zero_le _,
        parameters.orDefault_fits enough ?_ ofParams,
        ValueType.levelled.orDefault_fits (Nat.zero_le _) ?_ ofRet,
        MethodAttrs.levelled.orDefault_fits one ?_ ofAttrs,
        bodies.orDefault_fits enough ?_ ofBody, fun _ member => nomatch member⟩
      · exact one
      · exact Nat.zero_le _
      · exact one
      · exact Nat.zero_le _
    · cases found

/-- An image. -/
theorem levelled : Levelled ofJson? toJson 5 := by
  have typeList := levelled_list TypeDef.levelled
  have methodList := levelled_list MethodDef.levelled
  refine levelled_record (fun _ _ => rfl) (fun _ => rfl) ?_ ?_
  · intro inner more values image le found
    split at found
    · rename_i same
      cases same
      simp only [Option.bind_eq_bind, Option.bind_eq_some_iff] at found ⊢
      obtain ⟨name, ofName, types, ofTypes, methods, ofMethods, rest⟩ := found
      exact ⟨name, ofName, types, typeList.orDefault_mono le ofTypes, methods,
        methodList.orDefault_mono le ofMethods, rest⟩
    · cases found
  · intro inner values image enough found
    split at found
    · rename_i same
      cases same
      simp only [Option.bind_eq_bind, Option.bind_eq_some_iff] at found
      obtain ⟨name, ofName, types, ofTypes, methods, ofMethods, rest⟩ := found
      cases rest
      simp only [List.forall_mem_cons]
      have one : 1 ≤ inner := Nat.le_trans (by decide) enough
      refine ⟨Nat.zero_le _, typeList.orDefault_fits enough ?_ ofTypes,
        methodList.orDefault_fits enough ?_ ofMethods, fun _ member => nomatch member⟩
      · exact one
      · exact one
    · cases found

/-- What a text says is an image that nests no deeper than a text may. -/
theorem shallow_of_decode? {text : String} {image : Image} (read : decode? text = some image) :
    image.toJson.depth ≤ Json.maxLevels := by
  obtain ⟨j, -, found⟩ := Option.bind_eq_some_iff.1 read
  exact levelled.fits (by decide) found

/-- The text of an image that loads no doubles says nothing but that image, and says it exactly if
the image nests no deeper than a text may. -/
theorem decode?_encode_eq_some_iff {image other : Image} (noDouble : image.LoadsNoDouble) :
    decode? image.encode = some other ↔
      other = image ∧ image.toJson.depth ≤ Json.maxLevels := by
  have coded := codes noDouble
  constructor
  · intro read
    have shallow := shallow_of_decode? read
    unfold decode? encode at read
    rw [Json.parse?_pretty coded.plain, Option.bind_eq_bind, Option.bind_some] at read
    obtain rfl := levelled.eq_of_codes coded read
    exact ⟨rfl, shallow⟩
  · rintro ⟨rfl, shallow⟩
    exact decode?_encode noDouble shallow

end Image

end ScriptHost

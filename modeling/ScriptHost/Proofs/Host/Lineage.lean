import ScriptHost.Proofs.Host.Growth
/-!
Types, their names and their bases. In a domain that was made by definitions every type knows its
position and is younger than its base, so that growth never changes what a type inherits.
-/
namespace ScriptHost.Host.Domain

variable {d e : Domain} {name : String} {info : TypeInfo}

/-! ## Finding types by name -/

/-- A new type is found under its name, and under any other name what was found before. -/
theorem find?_of_push (types : e.types = d.types.push info) (name : String) :
    e.find? name = if info.name = name then some info else d.find? name := by
  unfold Domain.find?
  rw [types, Array.findRev?_eq_find?_reverse, Array.findRev?_eq_find?_reverse, Array.reverse_push,
    Array.find?_append, Array.find?_singleton]
  by_cases same : info.name = name
  · simp [same]
  · simp [same]

theorem find?_of_types_eq (same : e.types = d.types) (name : String) :
    e.find? name = d.find? name := by
  unfold Domain.find?
  rw [same]

theorem find?_eq_none_iff : d.find? name = none ↔ ∀ info ∈ d.types, info.name ≠ name := by
  unfold Domain.find?
  rw [Array.findRev?_eq_find?_reverse, Array.find?_eq_none]
  simp

/-- A type that is found under a name is there and has that name. -/
theorem of_find?_eq_some (found : d.find? name = some info) :
    info ∈ d.types ∧ info.name = name := by
  unfold Domain.find? at found
  rw [Array.findRev?_eq_find?_reverse] at found
  refine ⟨Array.mem_reverse.1 (Array.mem_of_find?_eq_some found), ?_⟩
  exact eq_of_beq (Array.find?_some (p := fun t : TypeInfo => t.name == name) found)

/-! ## Definitions by name -/

/-- A type may be defined if it has a name of its own and its base is there and no array. -/
theorem baseFor_eq_ok_iff {decl : TypeDecl} {base : TypeInfo} :
    d.baseFor decl = .ok base ↔ decl.name.isEmpty = false ∧ d.find? decl.name = none ∧
      decl.base.elim (d.get? rootId) d.find? = some base ∧ base.isArray = false := by
  have chosen (found : Option TypeInfo) (missing : DomainError) :
      (found.elim (throw missing) pure >>= fun base =>
          if base.isArray then throw (.arrayBase decl.name) else pure base :
          Except DomainError TypeInfo) = .ok base ↔ found = some base ∧ base.isArray = false := by
    cases found with
    | none => exact ⟨(fun ok => nomatch ok), fun ⟨ok, _⟩ => nomatch ok⟩
    | some info =>
      change (if info.isArray then _ else _) = _ ↔ _
      cases array : info.isArray with
      | true =>
        refine ⟨(fun ok => nomatch ok), fun ⟨same, notArray⟩ => ?_⟩
        cases same
        cases array.symm.trans notArray
      | false =>
        refine ⟨fun ok => ?_, fun ⟨same, _⟩ => ?_⟩
        · cases ok
          exact ⟨rfl, array⟩
        · cases same
          rfl
  unfold baseFor
  change (if decl.name.isEmpty = true then _ else
    if (d.find? decl.name).isSome = true then _ else _) = _ ↔ _
  cases unnamed : decl.name.isEmpty with
  | true => exact ⟨(fun ok => nomatch ok), fun ⟨named, _⟩ => nomatch named⟩
  | false =>
    rw [if_neg Bool.false_ne_true]
    cases known : d.find? decl.name with
    | some info => exact ⟨(fun ok => nomatch ok), fun ⟨_, new, _⟩ => nomatch new⟩
    | none =>
      rw [Option.isSome_none, if_neg Bool.false_ne_true]
      cases given : decl.base with
      | none => exact (chosen _ _).trans ⟨fun ok => ⟨rfl, rfl, ok⟩, fun ⟨_, _, ok⟩ => ok⟩
      | some name => exact (chosen _ _).trans ⟨fun ok => ⟨rfl, rfl, ok⟩, fun ⟨_, _, ok⟩ => ok⟩

/-- A type derives from one that there is. -/
theorem mem_of_baseFor {decl : TypeDecl} {base : TypeInfo} (based : d.baseFor decl = .ok base) :
    base ∈ d.types := by
  obtain ⟨-, -, found, -⟩ := baseFor_eq_ok_iff.1 based
  cases given : decl.base with
  | none =>
    rw [given] at found
    exact Array.mem_of_getElem? found
  | some name =>
    rw [given] at found
    exact (of_find?_eq_some found).1

/-- A definition leaves alone what is found under a name. -/
theorem find?_define (found : d.find? name = some info) (decl : TypeDecl) :
    (d.define decl).2.find? name = some info := by
  rcases define_cases d decl with
    ⟨cause, after, refused, same, -⟩ | ⟨base, made, after, defines, result⟩
  · rw [refused, find?_of_types_eq same]
    exact found
  · rw [result, find?_of_push (defines.types_addType _)]
    have apart : (decl.toType ⟨d.types.size⟩ base made).name ≠ name := by
      rintro rfl
      cases (baseFor_eq_ok_iff.1 defines.based).2.1.symm.trans found
    rw [if_neg apart, found]

/-! ## Positions -/

/-- Every type knows its position, and its base is older. -/
structure Placed (d : Domain) : Prop where
  root : 0 < d.types.size
  own : ∀ (i : Nat) (info : TypeInfo), d.types[i]? = some info → info.id = ⟨i⟩
  older : ∀ (i : Nat) (info : TypeInfo) (base : TypeId), d.types[i]? = some info →
    info.base = some base → base.index < i

theorem placed_empty : Placed {} := by
  refine ⟨by decide, fun i info found => ?_, fun i info base found => ?_⟩
  · obtain ⟨inBounds, rfl⟩ := Array.getElem?_eq_some_iff.1 found
    obtain rfl : i = 0 := Nat.lt_one_iff.1 inBounds
    rfl
  · obtain ⟨inBounds, rfl⟩ := Array.getElem?_eq_some_iff.1 found
    obtain rfl : i = 0 := Nat.lt_one_iff.1 inBounds
    intro given
    cases given

namespace Placed

theorem of_types_eq (placed : d.Placed) (same : e.types = d.types) : e.Placed := by
  obtain ⟨root, own, older⟩ := placed
  exact ⟨by rwa [same], by rwa [same], by rwa [same]⟩

/-- A new type in the last place, with a base that is there. -/
theorem push (placed : d.Placed) {info : TypeInfo} (types : e.types = d.types.push info)
    (own : info.id = ⟨d.types.size⟩)
    (older : ∀ base, info.base = some base → base.index < d.types.size) : e.Placed := by
  refine ⟨by simp [types], fun i other found => ?_, fun i other base found given => ?_⟩
  · rw [types, Array.getElem?_push] at found
    split at found
    · rename_i last
      cases found
      rw [last]
      exact own
    · exact placed.own i other found
  · rw [types, Array.getElem?_push] at found
    split at found
    · rename_i last
      cases found
      rw [last]
      exact older base given
    · exact placed.older i other base found given

/-- Every type that there is lies at its position. -/
theorem get?_of_mem (placed : d.Placed) {info : TypeInfo} (member : info ∈ d.types) :
    d.get? info.id = some info := by
  obtain ⟨i, inBounds, there⟩ := Array.mem_iff_getElem.1 member
  have found : d.types[i]? = some info := Array.getElem?_eq_some_iff.2 ⟨inBounds, there⟩
  rw [placed.own i info found]
  exact found

theorem inBounds (placed : d.Placed) {info : TypeInfo} (member : info ∈ d.types) :
    info.id.index < d.types.size :=
  (Array.getElem?_eq_some_iff.1 (placed.get?_of_mem member)).1

theorem get? (placed : d.Placed) {id : TypeId} {info : TypeInfo} (found : d.get? id = some info) :
    info.id = id :=
  placed.own id.index info found

theorem define (placed : d.Placed) (decl : TypeDecl) : (d.define decl).2.Placed := by
  rcases define_cases d decl with
    ⟨cause, after, refused, same, -⟩ | ⟨base, made, after, defines, result⟩
  · rw [refused]
    exact placed.of_types_eq same
  · rw [result]
    refine placed.push (defines.types_addType _) rfl fun base' given => ?_
    cases given
    exact placed.inBounds (mem_of_baseFor defines.based)

theorem arrayType (placed : d.Placed) (element : ValueType) : (d.arrayType element).2.Placed := by
  unfold Domain.arrayType
  cases d.findArray? element with
  | some id => exact placed
  | none =>
    refine placed.push rfl rfl fun base given => ?_
    cases given
    exact placed.root

end Placed

theorem Evolves.placed (changed : Evolves d e) (placed : d.Placed) : e.Placed := by
  induction changed with
  | refl => exact placed
  | define _ decl ih => exact ih.define decl
  | arrayType _ element ih => exact ih.arrayType element
  | reserveTokens _ count ih => exact ih.of_types_eq (types_reserveTokens _ count)

/-- What a type inherits from stays the same. -/
theorem Extends.chain (grown : Extends d e) (placed : d.Placed) {id : TypeId} {info : TypeInfo}
    (found : d.get? id = some info) : e.chain id = d.chain id := by
  obtain ⟨i⟩ := id
  induction i using Nat.strongRecOn generalizing info with
  | ind i ih =>
    rw [Domain.chain, Domain.chain, found, grown.get? found]
    dsimp only
    cases based : info.base with
    | none => rfl
    | some base =>
      dsimp only
      have older := placed.older i info base found based
      have inBounds := (Array.getElem?_eq_some_iff.1 found).1
      have there : d.get? base = some d.types[base.index] :=
        Array.getElem?_eq_getElem (Nat.lt_trans older inBounds)
      rw [if_pos older, if_pos older, ih base.index older there]

end ScriptHost.Host.Domain

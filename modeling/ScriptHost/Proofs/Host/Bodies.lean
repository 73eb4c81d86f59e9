import ScriptHost.Proofs.Host.HostM
/-!
Domains without the bodies of their methods. What a domain takes in, which names and tokens it knows
and what an object may be used for does not depend on bodies.
-/
namespace ScriptHost.Host

/-! ## Leaving bodies out -/

/-- A method without its body. -/
def Method.strip (m : Method) : Method :=
  { m with body := .absent }

/-- A type without the bodies of its methods. -/
def TypeInfo.strip (t : TypeInfo) : TypeInfo :=
  { t with constructors := t.constructors.map (·.strip), methods := t.methods.map (·.strip) }

/-- A declaration without its body. -/
def MethodDecl.strip (decl : MethodDecl) : MethodDecl :=
  { decl with body := .absent }

/-- A declaration without the bodies of its methods. -/
def TypeDecl.strip (decl : TypeDecl) : TypeDecl :=
  { decl with methods := decl.methods.map (·.strip) }

/-- A domain without the bodies of its methods. -/
def Domain.strip (d : Domain) : Domain :=
  { d with types := d.types.map (·.strip) }

/-- A host without the bodies of its methods. -/
def State.strip (s : State) : State :=
  { s with domain := s.domain.strip }

theorem TypeInfo.members_strip (t : TypeInfo) : t.strip.members = t.members.map (·.strip) :=
  List.map_append.symm

theorem filter_strip (made : List Method) (p : MethodKind → Bool) :
    (made.map (·.strip)).filter (p ·.kind) = (made.filter (p ·.kind)).map (·.strip) := by
  rw [List.filter_map]
  rfl

namespace Domain

variable {d e : Domain}

theorem get?_strip (d : Domain) (id : TypeId) : d.strip.get? id = (d.get? id).map (·.strip) :=
  Array.getElem?_map

/-- The type of a name. -/
theorem find?_strip (d : Domain) (name : String) :
    d.strip.find? name = (d.find? name).map (·.strip) := by
  unfold find? strip
  rw [Array.findRev?_eq_find?_reverse, Array.findRev?_eq_find?_reverse, ← Array.map_reverse,
    Array.find?_map]
  rfl

theorem method?_strip (d : Domain) (t : MethodToken) :
    d.strip.method? t = (d.method? t).map (·.strip) := by
  unfold method? strip
  rw [Array.findSome?_map, Array.map_findSome?]
  congr 1
  funext info
  rw [Function.comp_apply, Function.comp_apply, TypeInfo.members_strip, List.find?_map]
  rfl

theorem length_methods_strip (d : Domain) : d.strip.methods.length = d.methods.length := by
  have same (t : TypeInfo) : t.strip.members.length = t.members.length := by
    rw [TypeInfo.members_strip, List.length_map]
  unfold methods strip
  rw [Array.toList_map, List.flatMap_map, List.length_flatMap, List.length_flatMap]
  simp only [same]

theorem isTaken_strip (d : Domain) (pending : List MethodToken) (t : MethodToken) :
    d.strip.isTaken pending t = d.isTaken pending t := by
  unfold isTaken
  rw [method?_strip, Option.isSome_map]

theorem freeToken?_strip (d : Domain) (pending : List MethodToken) (count : Nat) (start : UInt32) :
    d.strip.freeToken? pending count start = d.freeToken? pending count start := by
  induction count generalizing start with
  | zero => rfl
  | succ count ih =>
    unfold freeToken?
    rw [isTaken_strip, ih]

/-- Bodies have no part in the choice of tokens. -/
theorem assignToken_strip (d : Domain) (own : Option MethodToken) (pending : List MethodToken) :
    d.strip.assignToken own pending =
      ((d.assignToken own pending).1, (d.assignToken own pending).2.strip) := by
  unfold assignToken
  cases own with
  | none =>
    have same : d.strip.nextToken = d.nextToken := rfl
    simp only [freeToken?_strip, length_methods_strip, same]
    split <;> rfl
  | some token =>
    simp only [isTaken_strip]
    split <;> rfl

/-- The methods of a type are made with their bodies as they are made without. -/
theorem makeMethods_strip (id : TypeId) (name : String) (d : Domain) (pending : List MethodToken)
    (decls : List MethodDecl) :
    makeMethods id name d.strip pending (decls.map (·.strip)) =
      ((makeMethods id name d pending decls).1.map (List.map (·.strip)),
        (makeMethods id name d pending decls).2.strip) := by
  induction decls generalizing d pending with
  | nil => rfl
  | cons decl rest ih =>
    rw [List.map_cons]
    unfold makeMethods
    rw [show decl.strip.token = decl.token from rfl, show decl.strip.name = decl.name from rfl,
      assignToken_strip]
    cases d.assignToken decl.token pending with
    | mk outcome after =>
      cases outcome with
      | error cause => rfl
      | ok token =>
        dsimp only
        split
        · rfl
        · rw [ih]
          cases makeMethods id name after (pending ++ [token]) rest with
          | mk made last => cases made <;> rfl

/-- Whether a type may be defined, and on which base, does not depend on bodies. -/
theorem baseFor_strip (d : Domain) (decl : TypeDecl) :
    d.strip.baseFor decl.strip = (d.baseFor decl).map (·.strip) := by
  have choose (found : Option TypeInfo) (missing : DomainError) :
      ((found.map (·.strip)).elim (throw missing) pure >>= fun base =>
          if base.isArray then throw (.arrayBase decl.name) else pure base :
          Except DomainError TypeInfo) =
        ((found.elim (throw missing) pure >>= fun base =>
          if base.isArray then throw (.arrayBase decl.name) else pure base :
          Except DomainError TypeInfo)).map (·.strip) := by
    cases found with
    | none => rfl
    | some base =>
      change (if base.isArray then _ else _) = Except.map _ (if base.isArray then _ else _)
      split <;> rfl
  have taken : (d.strip.find? decl.name).isSome = (d.find? decl.name).isSome := by
    rw [find?_strip, Option.isSome_map]
  unfold baseFor
  change (if decl.name.isEmpty = true then _ else
    if (d.strip.find? decl.name).isSome = true then _ else _) = _
  rw [taken]
  by_cases empty : decl.name.isEmpty = true
  · rw [if_pos empty, if_pos empty]
    rfl
  rw [if_neg empty, if_neg empty]
  by_cases known : (d.find? decl.name).isSome = true
  · rw [if_pos known, if_pos known]
    rfl
  rw [if_neg known, if_neg known]
  cases base : decl.base with
  | none =>
    have base' : decl.strip.base = none := base
    rw [base']
    have chosen := choose (d.get? rootId) (.unknownType rootName)
    rw [← get?_strip] at chosen
    exact chosen
  | some name =>
    have base' : decl.strip.base = some name := base
    rw [base']
    have chosen := choose (d.find? name) (.unknownType name)
    rw [← find?_strip] at chosen
    exact chosen

theorem addType_strip (d : Domain) (info : TypeInfo) :
    (d.addType info).strip = d.strip.addType info.strip := by
  unfold addType strip
  rw [TypeInfo.members_strip, List.foldl_map, Array.map_push]
  rfl

/-- The type that a declaration makes, without bodies. -/
theorem toType_strip (decl : TypeDecl) (id : TypeId) (base : TypeInfo) (made : List Method) :
    decl.strip.toType id base.strip (made.map (·.strip)) = (decl.toType id base made).strip := by
  unfold TypeDecl.toType
  rw [filter_strip made (· == .constructor), filter_strip made (· != .constructor)]
  rfl

/-- A type is defined with its bodies as it is defined without. -/
theorem define_strip (d : Domain) (decl : TypeDecl) :
    d.strip.define decl.strip = ((d.define decl).1, (d.define decl).2.strip) := by
  unfold define
  rw [baseFor_strip]
  cases d.baseFor decl with
  | error cause => rfl
  | ok base =>
    have size : d.strip.types.size = d.types.size := Array.size_map
    have making := makeMethods_strip ⟨d.types.size⟩ decl.name d [] decl.methods
    dsimp only [Except.map]
    rw [size, show decl.strip.name = decl.name from rfl,
      show decl.strip.methods = decl.methods.map (·.strip) from rfl, making]
    cases makeMethods ⟨d.types.size⟩ decl.name d [] decl.methods with
    | mk outcome after =>
      cases outcome with
      | error cause => rfl
      | ok made =>
        have below : (made.map (·.strip)).any (·.token.id == lastToken) =
            made.any (·.token.id == lastToken) := List.any_map
        dsimp only [Except.map]
        rw [below, toType_strip]
        split
        · rfl
        · rw [addType_strip]

theorem findArray?_strip (d : Domain) (element : ValueType) :
    d.strip.findArray? element = d.findArray? element := by
  unfold findArray? strip
  rw [Array.find?_map, Option.map_map]
  rfl

/-- An array type is made in the same place. -/
theorem arrayType_strip (d : Domain) (element : ValueType) :
    d.strip.arrayType element = ((d.arrayType element).1, (d.arrayType element).2.strip) := by
  unfold arrayType
  rw [findArray?_strip]
  cases d.findArray? element with
  | some id => rfl
  | none =>
    have size : d.strip.types.size = d.types.size := Array.size_map
    dsimp only
    rw [size]
    unfold strip
    rw [Array.map_push]
    rfl

end Domain

/-- A host takes in a type with its bodies as it does without. -/
theorem State.define_strip (s : State) (decl : TypeDecl) :
    s.strip.define decl.strip = ((s.define decl).1, (s.define decl).2.strip) := by
  unfold State.define
  rw [show s.strip.domain = s.domain.strip from rfl, Domain.define_strip]
  cases s.domain.define decl with
  | mk outcome after => cases outcome <;> rfl

end ScriptHost.Host

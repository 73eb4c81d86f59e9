import ScriptHost.Proofs.Host.Growth
import ScriptHost.Proofs.Host.Lineage
/-!
Definitions of types: that tokens name one method each, what a definition makes of a declaration, that
this stays as it is while further types are defined, and that a definition goes through if its base
allows it and its methods come with free tokens.
-/
namespace ScriptHost.Host.Domain

variable {d e : Domain}

/-! ## Methods by token -/

theorem methods_of_push {info : TypeInfo} (types : e.types = d.types.push info) :
    e.methods = d.methods ++ info.members := by
  unfold methods
  rw [types, Array.toList_push, List.flatMap_append, List.flatMap_singleton]

theorem method?_eq_find? (d : Domain) (t : MethodToken) :
    d.method? t = d.methods.find? (·.token == t) := by
  unfold method? methods
  rw [List.find?_flatMap, Array.findSome?_toList]

theorem method?_eq_none_iff {t : MethodToken} :
    d.method? t = none ↔ ∀ m ∈ d.methods, m.token ≠ t := by
  rw [method?_eq_find?, List.find?_eq_none]
  simp

theorem isTaken_eq_false_iff {pending : List MethodToken} {t : MethodToken} :
    d.isTaken pending t = false ↔ (∀ m ∈ d.methods, m.token ≠ t) ∧ t ∉ pending := by
  unfold isTaken
  rw [Bool.or_eq_false_iff, Option.isSome_eq_false_iff, Option.isNone_iff_eq_none,
    method?_eq_none_iff]
  simp

/-- The members of a new type are the methods that were made for it. -/
theorem members_perm (decl : TypeDecl) (id : TypeId) (base : TypeInfo) (made : List Method) :
    (decl.toType id base made).members.Perm made := by
  unfold TypeInfo.members TypeDecl.toType
  exact List.filter_append_perm (fun m : Method => m.kind == .constructor) made

/-! ## The counter -/

theorem le_max_left (a b : UInt32) : a ≤ max a b := by
  change a ≤ if a ≤ b then b else a
  split
  · assumption
  · exact UInt32.le_refl a

theorem le_max_right (a b : UInt32) : b ≤ max a b := by
  change b ≤ if a ≤ b then b else a
  split
  · exact UInt32.le_refl b
  · grind

theorem lt_add_one_of_ne {t : UInt32} (notLast : t ≠ lastToken) : t < t + 1 := by
  unfold lastToken at notLast
  grind

/-- A counter that is raised above tokens is above them. -/
theorem lt_foldl_max {members : List Method} (n : UInt32)
    (passable : ∀ m ∈ members, m.token.id ≠ lastToken) :
    n ≤ members.foldl (fun next m => max next (m.token.id + 1)) n ∧
      ∀ m ∈ members, m.token.id < members.foldl (fun next m => max next (m.token.id + 1)) n := by
  induction members generalizing n with
  | nil => exact ⟨UInt32.le_refl n, fun _ member => (List.not_mem_nil member).elim⟩
  | cons m rest ih =>
    obtain ⟨first, others⟩ := List.forall_mem_cons.1 passable
    obtain ⟨start, above⟩ := ih (max n (m.token.id + 1)) others
    rw [List.foldl_cons]
    refine ⟨UInt32.le_trans (le_max_left _ _) start, List.forall_mem_cons.2 ⟨?_, above⟩⟩
    exact UInt32.lt_of_lt_of_le (lt_add_one_of_ne first) (UInt32.le_trans (le_max_right _ _) start)

/-! ## The invariant -/

/-- Every token is below the counter and names one method. -/
structure Numbered (d : Domain) : Prop where
  below : ∀ m ∈ d.methods, m.token.id < d.nextToken
  distinct : (d.methods.map (·.token)).Nodup

theorem numbered_empty : Numbered {} :=
  ⟨fun _ member => (List.not_mem_nil member).elim, List.nodup_nil⟩

namespace Numbered

/-- Every method is found under its token. -/
theorem method?_of_mem (numbered : d.Numbered) {m : Method} (member : m ∈ d.methods) :
    d.method? m.token = some m := by
  rw [method?_eq_find?]
  cases found : d.methods.find? (·.token == m.token) with
  | none => exact (List.find?_eq_none.1 found m member (beq_self_eq_true _)).elim
  | some other =>
    have same := List.find?_some (p := fun x : Method => x.token == m.token) found
    rw [List.inj_on_of_nodup_map numbered.distinct (List.mem_of_find?_eq_some found) member
      (eq_of_beq same)]

/-- A token from the counter on is not in use. -/
theorem unused (numbered : d.Numbered) {t : MethodToken} (above : d.nextToken ≤ t.id) :
    ∀ m ∈ d.methods, m.token ≠ t := by
  rintro m member rfl
  exact UInt32.not_le.2 (numbered.below m member) above

/-- The counter may rise while the methods stay. -/
theorem raise (numbered : d.Numbered) (same : e.methods = d.methods)
    (risen : d.nextToken ≤ e.nextToken) : e.Numbered := by
  refine ⟨fun m member => ?_, by rw [same]; exact numbered.distinct⟩
  rw [same] at member
  exact UInt32.lt_of_lt_of_le (numbered.below m member) risen

/-- A definition gives tokens that are not in use, and raises the counter above them. -/
theorem define (numbered : d.Numbered) (decl : TypeDecl) : (d.define decl).2.Numbered := by
  rcases define_cases d decl with
    ⟨cause, after, refused, same, risen⟩ | ⟨base, made, after, defines, result⟩
  · rw [refused]
    exact numbered.raise (by unfold methods; rw [same]) risen
  · rw [result]
    obtain ⟨free, distinct⟩ := makeMethods_free defines.making
    have perm := members_perm decl ⟨d.types.size⟩ base made
    have passable : ∀ m ∈ (decl.toType ⟨d.types.size⟩ base made).members,
        m.token.id ≠ lastToken :=
      fun m member => defines.passable m (perm.subset member)
    obtain ⟨start, above⟩ := lt_foldl_max after.nextToken passable
    have grown : (after.addType (decl.toType ⟨d.types.size⟩ base made)).methods =
        d.methods ++ (decl.toType ⟨d.types.size⟩ base made).members :=
      methods_of_push (defines.types_addType _)
    constructor
    · intro m member
      rw [grown] at member
      rcases List.mem_append.1 member with old | new
      · exact UInt32.lt_of_lt_of_le (numbered.below m old) (UInt32.le_trans defines.risen start)
      · exact above m new
    · rw [grown, List.map_append, List.nodup_append]
      refine ⟨numbered.distinct, (perm.map _).nodup_iff.2 distinct, ?_⟩
      rintro t old _ new rfl
      obtain ⟨m, inOld, rfl⟩ := List.mem_map.1 old
      obtain ⟨n, inNew, same⟩ := List.mem_map.1 new
      have unused := (isTaken_eq_false_iff.1 (free n (perm.subset inNew))).1 m inOld
      exact unused same.symm

theorem arrayType (numbered : d.Numbered) (element : ValueType) :
    (d.arrayType element).2.Numbered := by
  unfold Domain.arrayType
  cases d.findArray? element with
  | some id => exact numbered
  | none =>
    refine numbered.raise ?_ (UInt32.le_refl _)
    rw [methods_of_push rfl]
    exact List.append_nil _

theorem reserveTokens (numbered : d.Numbered) (count : Nat) :
    (d.reserveTokens count).2.Numbered :=
  numbered.raise (by unfold methods; rw [types_reserveTokens]) (nextToken_le_reserveTokens d count)

end Numbered

/-- Whatever happens to a domain, each token goes on naming one method. -/
theorem Evolves.numbered (changed : Evolves d e) (numbered : d.Numbered) : e.Numbered := by
  induction changed with
  | refl => exact numbered
  | define _ decl ih => exact ih.define decl
  | arrayType _ element ih => exact ih.arrayType element
  | reserveTokens _ count ih => exact ih.reserveTokens count

/-! ## What stays -/

open List (Forall₂)

variable {f : Domain} {decl : TypeDecl} {id : TypeId} {base : TypeInfo} {made : List Method}

/-- The second domain has every type of the first one, under its id and under its name. -/
structure Keeps (d e : Domain) : Prop where
  grown : Extends d e
  finds : ∀ {name : String} {info : TypeInfo}, d.find? name = some info → e.find? name = some info

namespace Keeps

theorem refl (d : Domain) : Keeps d d :=
  ⟨.refl d, id⟩

theorem trans (first : Keeps d e) (second : Keeps e f) : Keeps d f :=
  ⟨first.grown.trans second.grown, fun found => second.finds (first.finds found)⟩

theorem of_types_eq (same : e.types = d.types) : Keeps d e :=
  ⟨.of_types_eq same, fun found => (find?_of_types_eq same _).trans found⟩

theorem define (d : Domain) (decl : TypeDecl) : Keeps d (d.define decl).2 :=
  ⟨extends_define d decl, fun found => find?_define found decl⟩

/-- What a type derives from that is declared with a base. -/
theorem derives (keeps : Keeps d e) {named : Option String} {info : TypeInfo}
    (found : named.elim (d.get? rootId) d.find? = some info) :
    named.elim (e.get? rootId) e.find? = some info := by
  cases named with
  | none => exact keeps.grown.get? found
  | some name => exact keeps.finds found

end Keeps

/-! ## What a declaration becomes -/

/-- A domain in which a declaration has become a type with a base and some methods. -/
structure Embodies (d : Domain) (decl : TypeDecl) (id : TypeId) (base : TypeInfo)
    (made : List Method) : Prop where
  there : d.get? id = some (decl.toType id base made)
  named : d.find? decl.name = some (decl.toType id base made)
  based : decl.base.elim (d.get? rootId) d.find? = some base
  making : Forall₂ (fun m method => ∃ token, method = m.toMethod token id decl.name ∧
    ∀ own, m.token = some own → own = token) decl.methods made

theorem Embodies.mono (embodies : d.Embodies decl id base made) (keeps : Keeps d e) :
    e.Embodies decl id base made where
  there := keeps.grown.get? embodies.there
  named := keeps.finds embodies.named
  based := keeps.derives embodies.based
  making := embodies.making

/-- A definition makes a type of its declaration, in the place after all others. -/
theorem embodies_of_define (defined : d.define decl = (.ok id, e)) :
    id = ⟨d.types.size⟩ ∧ e.types.size = d.types.size + 1 ∧
      ∃ base made, e.Embodies decl id base made := by
  have keeps := Keeps.define d decl
  rw [defined] at keeps
  obtain ⟨base, made, after, defines, rfl, rfl⟩ := define_eq_ok defined
  have types := defines.types_addType (decl.toType ⟨d.types.size⟩ base made)
  refine ⟨rfl, by rw [types, Array.size_push], base, made, ?_, ?_, ?_, ?_⟩
  · unfold Domain.get?
    rw [types, Array.getElem?_push_size]
  · rw [find?_of_push types]
    exact if_pos rfl
  · exact keeps.derives (baseFor_eq_ok_iff.1 defines.based).2.2.1
  · exact forall₂_of_makeMethods defines.making

/-! ## Tokens of one's own -/

/-- The tokens that methods are declared with. -/
structure OwnTokens (d : Domain) (methods : List MethodDecl) (tokens : List MethodToken) : Prop where
  own : methods.map (·.token) = tokens.map some
  distinct : tokens.Nodup
  free : ∀ t ∈ tokens, ∀ m ∈ d.methods, m.token ≠ t
  passable : ∀ t ∈ tokens, t.id ≠ lastToken

/-- A definition goes through if there is a base for the type, its methods have names, and they have
free tokens of their own, which become theirs. -/
theorem define_own {tokens : List MethodToken} (based : d.baseFor decl = .ok base)
    (named : ∀ m ∈ decl.methods, m.name.isEmpty = false)
    (owned : OwnTokens d decl.methods tokens) :
    ∃ e made, d.define decl = (.ok ⟨d.types.size⟩, e) ∧ made.map (·.token) = tokens ∧
      e.types = d.types.push (decl.toType ⟨d.types.size⟩ base made) := by
  have free : ∀ t ∈ tokens, d.isTaken [] t = false :=
    fun t member => isTaken_eq_false_iff.2 ⟨owned.free t member, List.not_mem_nil⟩
  obtain ⟨made, making, given⟩ :
      ∃ made, makeMethods ⟨d.types.size⟩ decl.name d [] decl.methods = (.ok made, d) ∧
        made.map (·.token) = tokens :=
    makeMethods_own owned.own named owned.distinct free
  have passable : made.any (·.token.id == lastToken) = false := by
    refine List.any_eq_false.2 fun m member last => ?_
    have inTokens : m.token ∈ tokens := by
      rw [← given]
      exact List.mem_map_of_mem member
    exact owned.passable m.token inTokens (eq_of_beq last)
  refine ⟨d.addType (decl.toType ⟨d.types.size⟩ base made), made, ?_, given, rfl⟩
  unfold define
  rw [based]
  dsimp only
  rw [making]
  dsimp only
  rw [passable, if_neg Bool.false_ne_true]

end ScriptHost.Host.Domain

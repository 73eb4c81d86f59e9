import ScriptHost.Proofs.Host.Definitions
import ScriptHost.Proofs.Image.History
import ScriptHost.Proofs.Image.Remap
/-!
Refusals. Whatever can be wrong with an image is found before the first of its types is defined, so
that a host either takes in all of it or stays as it is.
-/
namespace ScriptHost.Image

open Host
open Host.Domain (OwnTokens baseFor_eq_ok_iff define_own find?_of_push)
open List (Forall₂)
open Results (bind_eq_ok exists_of_forall₂ map_eq_ok)

variable {image : Image} {first : UInt32}

/-! ## The tokens that are set aside -/

/-- Each method of an image has its own place among the tokens that are set aside. -/
theorem toNat_mappedToken? {t mapped : MethodToken}
    (room : first.toNat + image.methods.length < UInt32.size)
    (mapsTo : image.mappedToken? first t = some mapped) :
    ∃ i m, image.methods[i]? = some m ∧ m.token = t ∧ mapped.id.toNat = first.toNat + i := by
  obtain ⟨i, found, rfl⟩ := Option.map_eq_some_iff.1 mapsTo
  obtain ⟨inBounds, same, _⟩ := List.findIdx?_eq_some_iff_getElem.1 found
  refine ⟨i, image.methods[i], List.getElem?_eq_getElem inBounds, eq_of_beq same, ?_⟩
  have small : i < UInt32.size := by omega
  rw [UInt32.toNat_add, UInt32.toNat_ofNat_of_lt' small]
  exact Nat.mod_eq_of_lt (Nat.lt_trans (Nat.add_lt_add_left inBounds _) room)

theorem le_mappedToken? {t mapped : MethodToken}
    (room : first.toNat + image.methods.length < UInt32.size)
    (mapsTo : image.mappedToken? first t = some mapped) : first ≤ mapped.id := by
  obtain ⟨i, m, -, -, place⟩ := toNat_mappedToken? room mapsTo
  rw [UInt32.le_iff_toNat_le, place]
  exact Nat.le_add_right _ _

theorem mappedToken?_ne_last {t mapped : MethodToken}
    (room : first.toNat + image.methods.length < UInt32.size)
    (mapsTo : image.mappedToken? first t = some mapped) : mapped.id ≠ Domain.lastToken := by
  obtain ⟨i, m, found, -, place⟩ := toNat_mappedToken? room mapsTo
  obtain ⟨inBounds, -⟩ := List.getElem?_eq_some_iff.1 found
  intro last
  rw [last] at place
  have value : Domain.lastToken.toNat + 1 = UInt32.size := by decide
  omega

/-- No two tokens of an image go to the same token. -/
theorem mappedToken?_inj {t u mapped : MethodToken}
    (room : first.toNat + image.methods.length < UInt32.size)
    (mapsTo : image.mappedToken? first t = some mapped)
    (mapsTo' : image.mappedToken? first u = some mapped) : t = u := by
  obtain ⟨i, m, found, rfl, place⟩ := toNat_mappedToken? room mapsTo
  obtain ⟨j, n, found', rfl, place'⟩ := toNat_mappedToken? room mapsTo'
  obtain rfl : i = j := Nat.add_left_cancel (place.symm.trans place')
  cases found.symm.trans found'
  rfl

/-! ## Types that wait to be defined -/

/-- How far the definition of the types of an image has come in a domain: those at some positions
are there, and the names of the others and the tokens of their methods are not in use. -/
structure Underway (image : Image) (d : Domain) (placed : List Nat) (e : Domain) : Prop where
  keeps : d.Keeps e
  pending : ∀ i t, image.types[i]? = some t → i ∉ placed → e.find? t.name = none
  present : ∀ i t, image.types[i]? = some t → i ∈ placed →
    ∃ info, e.find? t.name = some info ∧ info.isArray = false
  used : ∀ m ∈ e.methods, m ∈ d.methods ∨ ∃ i ∈ placed, ∃ t, image.types[i]? = some t ∧
    ∃ own ∈ image.methods, own.declaring = t.name ∧
      image.mappedToken? d.nextToken own.token = some m.token

section

variable {s : State} {order placed : List Nat} {e : Domain} {i : Nat} {t : TypeDef} {decl : TypeDecl}

theorem underway_reserved (admitted : Admitted image s order) :
    Underway image s.domain [] (image.reserved s).domain := by
  have same : (image.reserved s).domain.types = s.domain.types :=
    Domain.types_reserveTokens s.domain image.methods.length
  obtain ⟨admissible, -, -⟩ := definitionOrder_eq_ok admitted.ordered
  refine ⟨.of_types_eq same, fun i t found _ => ?_,
    fun i t _ member => (List.not_mem_nil member).elim, fun m member => .inl ?_⟩
  · rw [Domain.find?_of_types_eq same]
    exact (admissible t (List.mem_of_getElem? found)).new
  · unfold Domain.methods at member ⊢
    rwa [same] at member

/-- The token of a method that is declared is mapped. -/
theorem mappedToken?_of_declares {m : MethodDef} (declares : Declares image first t decl)
    (member : m ∈ image.methods.filter (·.declaring == t.name)) :
    image.mappedToken? first m.token =
      some (tokenMap image first m.token) := by
  obtain ⟨_, _, _, _, token, _, becomes⟩ := exists_of_forall₂ declares.becomes.flip member
  exact tokenMap_eq (Option.isSome_of_eq_some (becomes rootId).token)

variable (reached : s.Reachable) (admitted : Admitted image s order)
  (underway : Underway image s.domain placed e) (found : image.types[i]? = some t)
  (notYet : i ∉ placed) (declares : Declares image s.domain.nextToken t decl)

include reached admitted underway found notYet declares

/-- A type whose base is there, if the image holds that base, may be defined. -/
theorem Underway.baseFor (based : ∀ base, image.baseIndex? i = some base → base ∈ placed) :
    ∃ base, e.baseFor decl = .ok base := by
  obtain ⟨admissible, -, -⟩ := definitionOrder_eq_ok admitted.ordered
  have member := admissible t (List.mem_of_getElem? found)
  suffices known : ∃ base, t.base.elim (e.get? rootId) e.find? = some base ∧ base.isArray = false by
    obtain ⟨base, known, plain⟩ := known
    refine ⟨base, baseFor_eq_ok_iff.2 ⟨?_, ?_, ?_, plain⟩⟩
    · rw [declares.name]
      exact member.named
    · rw [declares.name]
      exact underway.pending i t found notYet
    · rw [declares.base]
      exact known
  cases given : t.base with
  | none =>
    have grown := (State.LeadsTo.evolves reached).extends.trans underway.keeps.grown
    have root : ({} : Domain).get? rootId = some _ := rfl
    exact ⟨_, grown.get? root, rfl⟩
  | some name =>
    cases inImage : image.typeIndex? name with
    | some b =>
      obtain ⟨u, there, rfl⟩ := mem_of_typeIndex? inImage
      exact underway.present b u there (based b ((baseIndex?_eq found given).trans inImage))
    | none =>
      obtain ⟨info, there, plain⟩ := member.based name given inImage
      exact ⟨info, underway.keeps.finds there, plain⟩

/-- The methods of a type are declared with tokens of their own that are not in use. -/
theorem Underway.ownTokens :
    OwnTokens e decl.methods ((image.methods.filter (·.declaring == t.name)).map fun m =>
      tokenMap image s.domain.nextToken m.token) := by
  have mapsTo := fun m => mappedToken?_of_declares (m := m) declares
  have distinct := nodup_of_verify admitted.verified
  have same : ∀ m ∈ image.methods, ∀ n ∈ image.methods, m.token = n.token → m = n :=
    fun m inImage n inImage' => List.inj_on_of_nodup_map distinct inImage inImage'
  constructor
  case own =>
    rw [List.map_map, ← List.forall₂_eq_eq_eq, List.forall₂_map_left_iff, List.forall₂_map_right_iff]
    refine declares.becomes.flip.imp ?_
    rintro methodDecl m ⟨_, _, token, own, becomes⟩
    have known := (becomes rootId).token
    rw [own, Function.comp_apply, ← tokenMap_eq (Option.isSome_of_eq_some known), known]
    rfl
  case distinct =>
    refine List.Nodup.map_on (fun m inType n inType' equal => ?_) (distinct.of_map.filter _)
    have known := mapsTo m inType
    rw [equal] at known
    exact same m (List.mem_of_mem_filter inType) n (List.mem_of_mem_filter inType')
      (mappedToken?_inj admitted.room known (mapsTo n inType'))
  case free =>
    intro u member other inDomain taken
    obtain ⟨m, inType, rfl⟩ := List.mem_map.1 member
    have known := mapsTo m inType
    rcases underway.used other inDomain with old | ⟨j, isPlaced, t', there, own, inImage, declaring, mapped⟩
    · -- The tokens of older methods are below the counter.
      have numbered := (State.LeadsTo.evolves reached).numbered Domain.numbered_empty
      refine UInt32.not_le.2 (numbered.below other old) ?_
      rw [taken]
      exact le_mappedToken? admitted.room known
    · -- A method that has this token is the same, and its type waits still.
      rw [taken] at mapped
      obtain ⟨inImage', names⟩ := List.mem_filter.1 inType
      obtain rfl := same own inImage m inImage' (mappedToken?_inj admitted.room mapped known)
      have position := eq_of_name_eq (nodup_types_of_verify admitted.verified) there found
        (declaring.symm.trans (eq_of_beq names))
      exact notYet (position ▸ isPlaced)
  case passable =>
    intro u member
    obtain ⟨m, inType, rfl⟩ := List.mem_map.1 member
    exact mappedToken?_ne_last admitted.room (mapsTo m inType)

/-- The next type is defined, if its base is, should the image hold that base. -/
theorem Underway.define (based : ∀ base, image.baseIndex? i = some base → base ∈ placed) :
    ∃ id after, e.define decl = (.ok id, after) ∧
      Underway image s.domain (placed ++ [i]) after := by
  obtain ⟨base, chosen⟩ := underway.baseFor reached admitted found notYet declares based
  have owned := underway.ownTokens reached admitted found notYet declares
  have named : ∀ m ∈ decl.methods, m.name.isEmpty = false := by
    intro m member
    obtain ⟨_, _, _, named, _⟩ := exists_of_forall₂ declares.becomes member
    exact named
  obtain ⟨after, made, defined, tokens, types⟩ := define_own chosen named owned
  have keeps := Domain.Keeps.define e decl
  rw [defined] at keeps
  refine ⟨_, after, defined, underway.keeps.trans keeps, fun j u there waits => ?_,
    fun j u there isPlaced => ?_, fun m member => ?_⟩
  · rw [List.mem_append, List.mem_singleton, not_or] at waits
    rw [find?_of_push types, if_neg, underway.pending j u there waits.1]
    intro same
    exact waits.2 (eq_of_name_eq (nodup_types_of_verify admitted.verified) there found
      (same.symm.trans declares.name))
  · rcases List.mem_append.1 isPlaced with before | last
    · obtain ⟨info, known, plain⟩ := underway.present j u there before
      exact ⟨info, keeps.finds known, plain⟩
    · cases List.mem_singleton.1 last
      cases there.symm.trans found
      refine ⟨_, (find?_of_push types _).trans (if_pos declares.name), ?_⟩
      unfold TypeInfo.isArray TypeDecl.toType
      cases decl.isStruct <;> rfl
  · rw [Domain.methods_of_push types] at member
    rcases List.mem_append.1 member with old | new
    · rcases underway.used m old with older | ⟨j, isPlaced, rest⟩
      · exact .inl older
      · exact .inr ⟨j, List.mem_append_left _ isPlaced, rest⟩
    · have inMade := (Domain.members_perm decl _ base made).subset new
      have inTokens : m.token ∈ made.map (·.token) := List.mem_map_of_mem inMade
      rw [tokens] at inTokens
      obtain ⟨own, inType, same⟩ := List.mem_map.1 inTokens
      obtain ⟨inImage, names⟩ := List.mem_filter.1 inType
      refine .inr ⟨i, List.mem_append_right _ List.mem_cons_self, t, found, own, inImage,
        eq_of_beq names, ?_⟩
      rw [← same]
      exact mappedToken?_of_declares declares inType

end

/-- Once an image is admitted and its types are declared, none of their definitions fails. -/
theorem Underway.defineAll {s u : State} {order placed rest : List Nat}
    {decls : List (Nat × TypeDecl)} (reached : s.Reachable) (admitted : Admitted image s order)
    (underway : Underway image s.domain placed u.domain) (split : order = placed ++ rest)
    (declared : image.declarations s.domain.nextToken rest = .ok decls) :
    ∃ found after, Image.defineAll u decls = (.ok found, after) := by
  obtain ⟨-, perm, first⟩ := definitionOrder_eq_ok admitted.ordered
  induction rest generalizing placed u decls with
  | nil =>
    cases declared
    exact ⟨[], u, rfl⟩
  | cons i rest ih =>
    have inOrder : i ∈ order := by
      rw [split]
      exact List.mem_append_right _ List.mem_cons_self
    have inBounds := List.mem_range.1 (perm.subset inOrder)
    have found : image.types[i]? = some image.types[i] := List.getElem?_eq_getElem inBounds
    have notYet : i ∉ placed := by
      have distinct := perm.nodup_iff.2 List.nodup_range
      rw [split] at distinct
      exact fun isPlaced => (List.nodup_append.1 distinct).2.2 i isPlaced i List.mem_cons_self rfl
    obtain ⟨decl, others, declaredType, declaredRest, rfl⟩ := (declarations_cons found).1 declared
    obtain ⟨id, domain, defined, further⟩ := underway.define reached admitted found notYet
      (declares_of_typeDecl declaredType) fun base => first placed i rest base split
    have inDomain := domain_define u decl
    rw [defined] at inDomain
    unfold Image.defineAll
    cases result : u.define decl with
    | mk outcome between =>
      rw [result] at inDomain
      cases inDomain
      obtain ⟨ids, after, remaining⟩ := ih further (by rw [split]; simp) declaredRest
      exact ⟨(i, id) :: ids, after, by dsimp only; rw [remaining]; rfl⟩

/-! ## What a refusal leaves -/

/-- A host that is as it was before, but that it may have skipped some tokens. -/
structure Untouched (s after : State) : Prop where
  types : after.domain.types = s.domain.types
  lookup : after.domain.lookup = s.domain.lookup
  arrays : after.domain.findArray? = s.domain.findArray?
  methods : after.domain.method? = s.domain.method?
  heap : after.heap = s.heap
  statics : after.statics = s.statics
  /-- What is skipped is skipped on the way up, and it was not in use. -/
  risen : s.domain.nextToken ≤ after.domain.nextToken
  unused : ∀ t, s.domain.nextToken ≤ t.id → after.domain.method? t = none

/-- A host that refuses an image is untouched. Once the image is admitted and its types are declared,
it is not refused any more: every definition goes through. -/
theorem untouched_of_refusal {s : State} (reached : s.Reachable) :
    (∀ e after, image.load s = (.error e, after) → Untouched s after) ∧
    ∀ order decls, Admitted image s order →
      image.declarations s.domain.nextToken order = .ok decls →
      ∃ found after, defineAll (image.reserved s) decls = (.ok found, after) := by
  have numbered := (State.LeadsTo.evolves reached).numbered Domain.numbered_empty
  have goesThrough : ∀ order decls, Admitted image s order →
      image.declarations s.domain.nextToken order = .ok decls →
      ∃ found after, defineAll (image.reserved s) decls = (.ok found, after) :=
    fun order decls admitted declared =>
      (underway_reserved admitted).defineAll reached admitted rfl declared
  refine ⟨fun e after refused => ?_, goesThrough⟩
  have skips : ∀ {t : State}, t.domain.types = s.domain.types → t.heap = s.heap →
      t.statics = s.statics → s.domain.nextToken ≤ t.domain.nextToken → Untouched s t := by
    intro t types heap statics risen
    have methods : t.domain.method? = s.domain.method? := by
      funext token
      unfold Domain.method?
      rw [types]
    refine ⟨types, ?_, ?_, methods, heap, statics, risen, fun token above => ?_⟩
    · funext name
      unfold Domain.lookup
      rw [Domain.find?_of_types_eq types]
    · funext element
      unfold Domain.findArray?
      rw [types]
    · rw [methods, Domain.method?_eq_none_iff]
      exact numbered.unused above
  rcases load_cases image s with ⟨_, same⟩ | ⟨order, admitted, ⟨_, _, same⟩ | ⟨decls, declared, same⟩⟩
  · cases same.symm.trans refused
    exact skips rfl rfl rfl (UInt32.le_refl _)
  · cases same.symm.trans refused
    exact skips (Domain.types_reserveTokens _ _) rfl rfl (Domain.nextToken_le_reserveTokens _ _)
  · obtain ⟨found, last, defined⟩ := goesThrough order decls admitted declared
    rw [defined] at same
    cases same.symm.trans refused

/-- A host with one type, whose method has the first token. -/
def sketched : State :=
  (({} : State).define ⟨"Sketch", none, false, [], [⟨"Area", .ofInstance, [], .numeric .int32, .absent, none⟩]⟩).2

theorem reachable_sketched : sketched.Reachable :=
  State.reachable_empty.define _

/-- A disc, and a ring that is made on it and has a method without a name. -/
def nameless : Image where
  name := "Nameless"
  types := [{ name := "Disc", base := some "Sketch" }, { name := "Ring", base := some "Disc" }]
  methods := [
    { token := ⟨1⟩, declaring := "Disc", name := "Area", kind := .ofInstance, ret := .numeric .int32 },
    { token := ⟨2⟩, declaring := "Ring", name := "", kind := .ofInstance, ret := .void }]

/-- The image without its methods. -/
def methodless : Image :=
  { nameless with methods := [] }

/-- The disc is not defined either, and only tokens are lost. Without the methods both types are
defined. -/
theorem untouched_nameless :
    sketched.Reachable ∧ (nameless.load sketched).1 = .error (.unnamedMethod "Ring") ∧
      Untouched sketched (nameless.load sketched).2 ∧ sketched.domain.nextToken = 2 ∧
      (nameless.load sketched).2.domain.nextToken = 4 ∧
      ∃ found after, defineAll (methodless.reserved sketched) [(0, ⟨"Disc", some "Sketch", false, [], []⟩),
        (1, ⟨"Ring", some "Disc", false, [], []⟩)] = (.ok found, after) := by
  have refused : (nameless.load sketched).1 = .error (.unnamedMethod "Ring") := by decide +kernel
  have admitted : Admitted methodless sketched [0, 1] :=
    ⟨by decide +kernel, by decide +kernel, by decide +kernel⟩
  exact ⟨reachable_sketched, refused,
    (untouched_of_refusal reachable_sketched).1 _ _ (Prod.ext refused rfl), by decide +kernel,
    by decide +kernel, (untouched_of_refusal reachable_sketched).2 _ _ admitted (by decide +kernel)⟩

end ScriptHost.Image

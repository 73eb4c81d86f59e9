import ScriptHost.Proofs.Host.Lineage
/-!
Slots of types. The instance slots of a type are those of its base and then one for each instance
field that it declares, so that code made for the base finds its fields in whatever derives from it.
Static slots are counted from zero in every type.
-/
namespace ScriptHost.Host

/-! ## The slots of one type -/

namespace TypeInfo

/-- The declared fields that each instance has a slot for. -/
def instanceFields (t : TypeInfo) : List Field :=
  t.fields.filter (!·.isStatic)

/-- The declared fields that the type itself has a slot for. -/
def staticFields (t : TypeInfo) : List Field :=
  t.fields.filter (·.isStatic)

/-- The slots of a type go on where those of its base end. -/
structure LaidOver (t base : TypeInfo) : Prop where
  layout : t.layout = base.layout ++ t.instanceFields.map (·.type)
  slots : t.instanceFields.map (·.slot) =
    List.range' base.layout.length t.instanceFields.length
  statics : t.staticFields.map (·.slot) = List.range' 0 t.staticFields.length

variable {t base : TypeInfo}

/-- The slot of an instance field is behind the slots of the base, and it has the type of the
field. -/
theorem LaidOver.getElem?_layout (laid : t.LaidOver base) {f : Field}
    (member : f ∈ t.instanceFields) : t.layout[f.slot]? = some f.type := by
  obtain ⟨k, inBounds, rfl⟩ := List.mem_iff_getElem.1 member
  have slot : (t.instanceFields[k]).slot = base.layout.length + k := by
    have at_k := congrArg (·[k]?) laid.slots
    simpa [List.getElem?_eq_getElem inBounds, List.getElem?_range', inBounds] using at_k
  rw [laid.layout, slot, List.getElem?_append_right (Nat.le_add_right _ _),
    Nat.add_sub_cancel_left, List.getElem?_map, List.getElem?_eq_getElem inBounds, Option.map_some]

end TypeInfo

/-- The slots of placed fields are counted one after the other, and keep the declared types. -/
theorem instanceFields_placeFields (i s : Nat) (decls : List FieldDecl) :
    ((placeFields i s decls).filter (!·.isStatic)).map (·.slot) =
        List.range' i ((placeFields i s decls).filter (!·.isStatic)).length ∧
      ((placeFields i s decls).filter (!·.isStatic)).map (·.type) =
        (decls.filter (!·.isStatic)).map (·.type) := by
  induction decls generalizing i s with
  | nil => exact ⟨rfl, rfl⟩
  | cons decl rest ih =>
    unfold placeFields
    cases static : decl.isStatic with
    | true => simpa [static] using ih i (s + 1)
    | false =>
      obtain ⟨slots, types⟩ := ih (i + 1) s
      simp [static, slots, types, List.range'_succ]

theorem staticFields_placeFields (i s : Nat) (decls : List FieldDecl) :
    ((placeFields i s decls).filter (·.isStatic)).map (·.slot) =
        List.range' s ((placeFields i s decls).filter (·.isStatic)).length ∧
      ((placeFields i s decls).filter (·.isStatic)).length =
        (decls.filter (·.isStatic)).length := by
  induction decls generalizing i s with
  | nil => exact ⟨rfl, rfl⟩
  | cons decl rest ih =>
    unfold placeFields
    cases static : decl.isStatic with
    | false => simpa [static] using ih (i + 1) s
    | true =>
      obtain ⟨slots, same⟩ := ih i (s + 1)
      simp [static, slots, same, List.range'_succ]

/-- A declared type is laid over the base that it is declared on. -/
theorem TypeDecl.laidOver (decl : TypeDecl) (id : TypeId) (base : TypeInfo) (made : List Method) :
    (decl.toType id base made).LaidOver base := by
  obtain ⟨slots, types⟩ := instanceFields_placeFields base.layout.length 0 decl.fields
  refine ⟨?_, slots, (staticFields_placeFields base.layout.length 0 decl.fields).1⟩
  unfold TypeDecl.toType TypeInfo.instanceFields
  rw [types]

namespace Domain

variable {d e : Domain} {id : TypeId} {info t : TypeInfo}

/-! ## The slots of all types -/

/-- The root has no slots, and every other type is laid over an older one. -/
structure Layered (d : Domain) : Prop where
  placed : d.Placed
  root : ∀ info, d.get? rootId = some info → info.base = none ∧ info.fields = [] ∧ info.layout = []
  derived : ∀ id info, d.get? id = some info → id ≠ rootId → ∃ base below,
    info.base = some base ∧ base.index < id.index ∧ d.get? base = some below ∧ info.LaidOver below

theorem layered_empty : Layered {} := by
  have only : ∀ id info, Domain.get? {} id = some info → id = rootId := by
    intro id info found
    obtain ⟨inBounds, _⟩ := Array.getElem?_eq_some_iff.1 found
    obtain ⟨i⟩ := id
    obtain rfl : i = 0 := Nat.lt_one_iff.1 inBounds
    rfl
  refine ⟨placed_empty, fun info found => ?_, fun id info found notRoot => ?_⟩
  · cases found
    exact ⟨rfl, rfl, rfl⟩
  · exact (notRoot (only id info found)).elim

namespace Layered

theorem of_types_eq (layered : d.Layered) (same : e.types = d.types) : e.Layered := by
  obtain ⟨placed, root, derived⟩ := layered
  have get? : e.get? = d.get? := by
    funext id
    unfold Domain.get?
    rw [same]
  exact ⟨placed.of_types_eq same, by rwa [get?], by rwa [get?]⟩

/-- A new type in the last place, laid over one that is there. -/
theorem push (layered : d.Layered) (types : e.types = d.types.push info)
    (own : info.id = ⟨d.types.size⟩) {below : TypeInfo} (there : below ∈ d.types)
    (based : info.base = some below.id) (laid : info.LaidOver below) : e.Layered := by
  have inBounds := layered.placed.inBounds there
  have foundBelow := layered.placed.get?_of_mem there
  have grown : d.Extends e := ⟨#[info], by rw [types]; exact Array.push_eq_append⟩
  have cases : ∀ id other, e.get? id = some other →
      d.get? id = some other ∨ id = ⟨d.types.size⟩ ∧ other = info := by
    intro id other found
    unfold Domain.get? at found ⊢
    rw [types, Array.getElem?_push] at found
    split at found
    · rename_i last
      cases found
      exact .inr ⟨by rw [← last], rfl⟩
    · exact .inl found
  refine ⟨layered.placed.push types own fun base given => ?_, fun other found => ?_,
    fun id other found notRoot => ?_⟩
  · cases based.symm.trans given
    exact inBounds
  · rcases cases _ _ found with old | ⟨last, _⟩
    · exact layered.root other old
    · have first : 0 = d.types.size := congrArg TypeId.index last
      exact (Nat.ne_of_gt layered.placed.root first.symm).elim
  · rcases cases _ _ found with old | ⟨rfl, rfl⟩
    · obtain ⟨base, below, given, older, there, laid⟩ := layered.derived id other old notRoot
      exact ⟨base, below, given, older, grown.get? there, laid⟩
    · exact ⟨below.id, below, based, inBounds, grown.get? foundBelow, laid⟩

theorem define (layered : d.Layered) (decl : TypeDecl) : (d.define decl).2.Layered := by
  rcases define_cases d decl with
    ⟨cause, after, refused, same, -⟩ | ⟨base, made, after, defines, result⟩
  · rw [refused]
    exact layered.of_types_eq same
  · rw [result]
    refine (layered.of_types_eq defines.types).push rfl (by rw [defines.types]; rfl) ?_ rfl
      (decl.laidOver _ base made)
    rw [defines.types]
    exact mem_of_baseFor defines.based

/-- The root is where the walk from a type to its bases can end. -/
theorem exists_root (layered : d.Layered) :
    ∃ info, d.get? rootId = some info ∧ info ∈ d.types ∧ info.id = rootId := by
  have inBounds := layered.placed.root
  have there : d.get? rootId = some d.types[0] := Array.getElem?_eq_getElem inBounds
  exact ⟨_, there, Array.getElem_mem inBounds, layered.placed.get? there⟩

theorem arrayType (layered : d.Layered) (element : ValueType) : (d.arrayType element).2.Layered := by
  unfold Domain.arrayType
  cases d.findArray? element with
  | some id => exact layered
  | none =>
    obtain ⟨info, found, there, own⟩ := layered.exists_root
    refine layered.push rfl rfl there (congrArg some own.symm) ⟨?_, rfl, rfl⟩
    rw [(layered.root info found).2.2]
    rfl

end Layered

theorem Evolves.layered (changed : Evolves d e) (layered : d.Layered) : e.Layered := by
  induction changed with
  | refl => exact layered
  | define _ decl ih => exact ih.define decl
  | arrayType _ element ih => exact ih.arrayType element
  | reserveTokens _ count ih => exact ih.of_types_eq (types_reserveTokens _ count)

/-! ## The walk from a type to its bases -/

/-- The walk from a type starts with the type itself. -/
theorem exists_chain_eq_cons (found : d.get? id = some info) :
    ∃ bases, d.chain id = info :: bases := by
  rw [chain, found]
  dsimp only
  split
  · exact ⟨[], rfl⟩
  · split
    · exact ⟨_, rfl⟩
    · exact ⟨[], rfl⟩

namespace Layered

/-- What holds of the root and passes from a type to what derives from it holds of every type. -/
theorem induction (layered : d.Layered) {motive : TypeId → TypeInfo → Prop}
    (root : ∀ info, d.get? rootId = some info → d.chain rootId = [info] → motive rootId info)
    (derived : ∀ id info base below, d.get? id = some info → d.get? base = some below →
      base.index < id.index → info.LaidOver below → d.chain id = info :: d.chain base →
      motive base below → motive id info) :
    ∀ id info, d.get? id = some info → motive id info := by
  rintro ⟨i⟩
  induction i using Nat.strongRecOn with
  | ind i ih =>
    intro info found
    by_cases isRoot : (⟨i⟩ : TypeId) = rootId
    · rw [isRoot] at found ⊢
      refine root info found ?_
      rw [Domain.chain, found]
      dsimp only
      rw [(layered.root info found).1]
    · obtain ⟨base, below, given, older, there, laid⟩ := layered.derived _ info found isRoot
      refine derived _ info base below found there older laid ?_ (ih base.index older below there)
      rw [Domain.chain, found]
      dsimp only
      rw [given]
      dsimp only
      rw [if_pos older]

/-- The walk passes a type, and then what it passes from the base on. -/
theorem chain_eq (layered : d.Layered) (found : d.get? id = some info) :
    d.chain id = info :: info.base.elim [] d.chain := by
  by_cases isRoot : id = rootId
  · rw [Domain.chain, found]
    dsimp only
    rw [isRoot] at found
    rw [(layered.root info found).1]
    rfl
  · obtain ⟨base, below, given, older, -, -⟩ := layered.derived id info found isRoot
    rw [Domain.chain, found]
    dsimp only
    rw [given]
    dsimp only
    rw [if_pos older]
    rfl

/-- The walk passes types of the domain, none younger than the one that it starts with. -/
theorem mem_chain (layered : d.Layered) :
    ∀ id info, d.get? id = some info →
      ∀ t ∈ d.chain id, d.get? t.id = some t ∧ t.id.index ≤ id.index := by
  refine layered.induction ?_ ?_
  · intro info found walk t member
    rw [walk, List.mem_singleton] at member
    rw [member, layered.placed.get? found]
    exact ⟨found, Nat.le_refl _⟩
  · intro id info base below found _ older _ walk ih t member
    rw [walk, List.mem_cons] at member
    rcases member with rfl | further
    · rw [layered.placed.get? found]
      exact ⟨found, Nat.le_refl _⟩
    · obtain ⟨there, atMost⟩ := ih t further
      exact ⟨there, Nat.le_of_lt (Nat.lt_of_le_of_lt atMost older)⟩

/-- Each type on the walk is older than those before it. -/
theorem pairwise_chain (layered : d.Layered) :
    ∀ id info, d.get? id = some info →
      (d.chain id).Pairwise fun a b => b.id.index < a.id.index := by
  refine layered.induction ?_ ?_
  · intro info _ walk
    rw [walk]
    exact List.pairwise_singleton _ _
  · intro id info base below found there older _ walk ih
    rw [walk, List.pairwise_cons]
    refine ⟨fun t member => ?_, ih⟩
    rw [layered.placed.get? found]
    exact Nat.lt_of_le_of_lt (layered.mem_chain base below there t member).2 older

/-- The walk passes each type once. -/
theorem nodup_chain (layered : d.Layered) (found : d.get? id = some info) :
    ((d.chain id).map (·.id)).Nodup := by
  rw [List.nodup_iff_pairwise_ne, List.pairwise_map]
  refine (layered.pairwise_chain id info found).imp fun older same => ?_
  rw [same] at older
  exact Nat.lt_irrefl _ older

/-- The walk ends at the root. -/
theorem getLast?_chain (layered : d.Layered) :
    ∀ id info, d.get? id = some info → (d.chain id).getLast? = d.get? rootId := by
  refine layered.induction ?_ ?_
  · intro info found walk
    rw [walk, found]
    rfl
  · intro id info base below _ there _ _ walk ih
    rw [walk, List.getLast?_cons, ih]
    obtain ⟨root, found, -, -⟩ := layered.exists_root
    rw [found]
    rfl

/-- From a type on the walk, the rest of the walk is its own. -/
theorem suffix_chain (layered : d.Layered) :
    ∀ id info, d.get? id = some info → ∀ t ∈ d.chain id, d.chain t.id <:+ d.chain id := by
  refine layered.induction ?_ ?_
  · intro info found walk t member
    rw [walk, List.mem_singleton] at member
    exact ⟨[], by rw [List.nil_append, member, layered.placed.get? found]⟩
  · intro id info base below found _ _ _ walk ih t member
    have cases := member
    rw [walk, List.mem_cons] at cases
    rcases cases with rfl | further
    · exact ⟨[], by rw [List.nil_append, layered.placed.get? found]⟩
    · rw [walk]
      exact (ih t further).trans (List.suffix_cons _ _)

/-! ## Subtypes -/

theorem isSubtype_iff {sub sup : TypeId} :
    d.isSubtype sub sup = true ↔ ∃ t ∈ d.chain sub, t.id = sup := by
  unfold isSubtype
  simp

theorem isSubtype_self (placed : d.Placed) (found : d.get? id = some info) :
    d.isSubtype id id = true := by
  obtain ⟨bases, walk⟩ := exists_chain_eq_cons found
  exact isSubtype_iff.2 ⟨info, walk ▸ List.mem_cons_self, placed.get? found⟩

/-- What has bases to walk to is a type of the domain. -/
theorem exists_of_isSubtype {sub sup : TypeId} (derives : d.isSubtype sub sup = true) :
    ∃ info, d.get? sub = some info := by
  obtain ⟨t, member, -⟩ := isSubtype_iff.1 derives
  rw [Domain.chain] at member
  cases found : d.get? sub with
  | none =>
    rw [found] at member
    cases member
  | some info => exact ⟨info, rfl⟩

theorem isSubtype_refl (layered : d.Layered) (found : d.get? id = some info) :
    d.isSubtype id id = true :=
  isSubtype_self layered.placed found

theorem isSubtype_trans (layered : d.Layered) {sub mid sup : TypeId}
    (lower : d.isSubtype sub mid = true) (upper : d.isSubtype mid sup = true) :
    d.isSubtype sub sup = true := by
  obtain ⟨info, found⟩ := exists_of_isSubtype lower
  obtain ⟨t, member, rfl⟩ := isSubtype_iff.1 lower
  obtain ⟨u, further, rfl⟩ := isSubtype_iff.1 upper
  exact isSubtype_iff.2 ⟨u, (layered.suffix_chain sub info found t member).subset further, rfl⟩

theorem le_of_isSubtype (layered : d.Layered) {sub sup : TypeId}
    (derives : d.isSubtype sub sup = true) : sup.index ≤ sub.index := by
  obtain ⟨info, found⟩ := exists_of_isSubtype derives
  obtain ⟨t, member, rfl⟩ := isSubtype_iff.1 derives
  exact (layered.mem_chain sub info found t member).2

theorem isSubtype_antisymm (layered : d.Layered) {a b : TypeId} (forth : d.isSubtype a b = true)
    (back : d.isSubtype b a = true) : a = b := by
  have atMost := layered.le_of_isSubtype forth
  have atLeast := layered.le_of_isSubtype back
  obtain ⟨i⟩ := a
  obtain ⟨j⟩ := b
  exact congrArg TypeId.mk (Nat.le_antisymm atLeast atMost)

theorem isSubtype_root (layered : d.Layered) (found : d.get? id = some info) :
    d.isSubtype id rootId = true := by
  obtain ⟨root, there, -, own⟩ := layered.exists_root
  have last := layered.getLast?_chain id info found
  rw [there] at last
  exact isSubtype_iff.2 ⟨root, List.mem_of_getLast? last, own⟩

/-! ## The slots on the walk -/

/-- The slots of a base come first in the slots of what derives from it. -/
theorem layout_prefix (layered : d.Layered) :
    ∀ id info, d.get? id = some info → ∀ t ∈ d.chain id, t.layout <+: info.layout := by
  refine layered.induction ?_ ?_
  · intro info _ walk t member
    rw [walk, List.mem_singleton] at member
    exact ⟨[], by rw [List.append_nil, member]⟩
  · intro id info base below _ _ _ laid walk ih t member
    rw [walk, List.mem_cons] at member
    rcases member with rfl | further
    · exact List.prefix_rfl
    · rw [laid.layout]
      exact (ih t further).trans (List.prefix_append _ _)

/-- An instance field has the slot of its type in the type that declares it. -/
theorem getElem?_own_layout (layered : d.Layered) (found : d.get? id = some info) {f : Field}
    (member : f ∈ info.instanceFields) : info.layout[f.slot]? = some f.type := by
  by_cases isRoot : id = rootId
  · rw [isRoot] at found
    unfold TypeInfo.instanceFields at member
    rw [(layered.root info found).2.1] at member
    cases member
  · obtain ⟨-, below, -, -, -, laid⟩ := layered.derived id info found isRoot
    exact laid.getElem?_layout member

/-- An instance field has the slot of its type in whatever derives from the type that declares
it. -/
theorem getElem?_layout (layered : d.Layered) (found : d.get? id = some info)
    (passed : t ∈ d.chain id) {f : Field} (member : f ∈ t.instanceFields) :
    info.layout[f.slot]? = some f.type := by
  have there := (layered.mem_chain id info found t passed).1
  obtain ⟨more, same⟩ := layered.layout_prefix id info found t passed
  have own := layered.getElem?_own_layout there member
  obtain ⟨inBounds, -⟩ := List.getElem?_eq_some_iff.1 own
  rw [← same, List.getElem?_append_left inBounds]
  exact own

/-- The instance fields on the walk, oldest type first, have the slots from zero on. -/
theorem slots_chain (layered : d.Layered) :
    ∀ id info, d.get? id = some info →
      (d.chain id).reverse.flatMap (fun t => t.instanceFields.map (·.slot)) =
        List.range info.layout.length := by
  refine layered.induction ?_ ?_
  · intro info found walk
    obtain ⟨-, noFields, noSlots⟩ := layered.root info found
    rw [walk, noSlots]
    simp [TypeInfo.instanceFields, noFields]
  · intro id info base below _ _ _ laid walk ih
    rw [walk, List.reverse_cons, List.flatMap_append, ih, List.flatMap_singleton, laid.slots,
      laid.layout, List.length_append, List.length_map, List.range_eq_range', List.range_eq_range']
    have whole := List.range'_append_1 (s := 0) (m := below.layout.length)
      (n := info.instanceFields.length)
    rwa [Nat.zero_add] at whole

/-- No two instance fields on the walk share a slot. -/
theorem nodup_slots (layered : d.Layered) (found : d.get? id = some info) :
    ((d.chain id).flatMap fun t => t.instanceFields.map (·.slot)).Nodup := by
  have perm := (d.chain id).reverse_perm.flatMap_right fun t => t.instanceFields.map (·.slot)
  rw [layered.slots_chain id info found] at perm
  exact perm.nodup_iff.1 List.nodup_range

/-- No two static fields of a type share a slot, and their slots are counted from zero. -/
theorem static_slots (layered : d.Layered) (found : d.get? id = some info) :
    info.staticFields.map (·.slot) = List.range info.staticFields.length := by
  rw [List.range_eq_range']
  by_cases isRoot : id = rootId
  · rw [isRoot] at found
    simp [TypeInfo.staticFields, (layered.root info found).2.1]
  · obtain ⟨-, below, -, -, -, laid⟩ := layered.derived id info found isRoot
    exact laid.statics

end Layered

end Domain

end ScriptHost.Host

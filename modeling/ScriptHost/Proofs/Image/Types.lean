import ScriptHost.Proofs.Image.History
/-!
The types of a host: they form a tree below the root, whatever derives from a type has its fields
where the type has them, and each has a name. Definitions never take a name that is in use, but an
array type takes the name that its element type gives it, whoever has that name already.
-/
namespace ScriptHost.Host

/-! ## The tree of types -/

variable {s t : State}

/-- What the type graph of a host is like, and where its fields lie. -/
structure State.WellLaid (s : State) : Prop where
  /-- Every type but the root derives from an older one. -/
  older : ∀ id info, s.domain.get? id = some info → id ≠ rootId →
    ∃ base, info.base = some base ∧ base.index < id.index ∧ (s.domain.get? base).isSome
  /-- The walk from a type goes to its base and on from there, and is never cut short. -/
  walks : ∀ id info, s.domain.get? id = some info →
    s.domain.chain id = info :: info.base.elim [] s.domain.chain
  /-- The walk passes each type once. -/
  once : ∀ id info, s.domain.get? id = some info → ((s.domain.chain id).map (·.id)).Nodup
  /-- The walk ends at the root, which has no base. -/
  ends : ∀ id info, s.domain.get? id = some info →
    ∃ root, (s.domain.chain id).getLast? = some root ∧ root.id = rootId ∧ root.base = none
  /-- Deriving is a partial order on the types. -/
  refl : ∀ id info, s.domain.get? id = some info → s.domain.isSubtype id id = true
  trans : ∀ a b c, s.domain.isSubtype a b = true → s.domain.isSubtype b c = true →
    s.domain.isSubtype a c = true
  antisymm : ∀ a b, s.domain.isSubtype a b = true → s.domain.isSubtype b a = true → a = b
  /-- Every type derives from the root. -/
  top : ∀ id info, s.domain.get? id = some info → s.domain.isSubtype id rootId = true
  /-- The slots of a base come first in a type that derives from it. -/
  inherits : ∀ id info base below, s.domain.get? id = some info → info.base = some base →
    s.domain.get? base = some below → below.layout <+: info.layout
  /-- A new object has a slot for every instance field that its type or a base of it declares, and
  the layout gives that slot the declared type. -/
  inObject : ∀ id ref t, s.instantiate id = (.ok ref, t) →
    ∃ info, s.domain.get? id = some info ∧ ref.type = id ∧
      t.heap.size ref = info.layout.length ∧
      ∀ declaring ∈ s.domain.chain id, ∀ f ∈ declaring.instanceFields,
        f.slot < t.heap.size ref ∧ info.layout[f.slot]? = some f.type ∧
          t.heap.get? ref f.slot = some (.defaultFor f.type)
  /-- No two instance fields that a type has, its own or inherited, share a slot. -/
  apart : ∀ id info, s.domain.get? id = some info →
    ((s.domain.chain id).flatMap fun declaring => declaring.instanceFields.map (·.slot)).Nodup
  /-- Every static field has a slot in its type. -/
  inType : ∀ id info, s.domain.get? id = some info → ∀ f ∈ info.staticFields,
    (s.static? id f.slot).isSome
  /-- No two static fields of a type share a slot. -/
  staticApart : ∀ id info, s.domain.get? id = some info →
    (info.staticFields.map (·.slot)).Nodup

/-- A new object has the slots of its type, with defaults in them. -/
theorem State.instantiate_eq_ok {id : TypeId} {ref : ObjectRef}
    (made : s.instantiate id = (.ok ref, t)) :
    ∃ info, s.domain.get? id = some info ∧ ref.type = id ∧
      t.heap.slots ref = (info.layout.map Value.defaultFor).toArray := by
  unfold State.instantiate at made
  cases found : s.domain.get? id with
  | none =>
    rw [found] at made
    cases made
  | some info =>
    rw [found] at made
    dsimp only at made
    split at made
    · cases made
    · cases made
      refine ⟨info, rfl, rfl, ?_⟩
      simp [State.allocate, Heap.allocate, Heap.slots]

/-- A static slot that is counted among those of its type is there. -/
theorem State.Stocked.isSome_static? (stocked : s.Stocked) {id : TypeId} {info : TypeInfo}
    (found : s.domain.get? id = some info) {slot : Nat} (counted : slot < info.staticFields.length) :
    (s.static? id slot).isSome := by
  unfold State.static?
  rw [← stocked.rows id.index info found] at counted
  rw [Array.getElem?_eq_getElem counted]
  rfl

/-- However types came about, every one but the root derives from an older one, so that deriving is
a partial order with the root on top; each instance field has a slot of its own, the same in every
type that has the field; and each static field has a slot of its own in its type. -/
theorem wellLaid_of_reachable (reached : s.Reachable) : s.WellLaid := by
  have layered := reached.evolves.layered Domain.layered_empty
  have stocked := State.LeadsTo.stocked reached State.stocked_empty
  constructor
  case older =>
    intro id info found notRoot
    obtain ⟨base, below, given, older, there, -⟩ := layered.derived id info found notRoot
    exact ⟨base, given, older, Option.isSome_iff_exists.2 ⟨below, there⟩⟩
  case walks => exact fun id info found => layered.chain_eq found
  case once => exact fun id info found => layered.nodup_chain found
  case ends =>
    intro id info found
    obtain ⟨root, there, -, own⟩ := layered.exists_root
    exact ⟨root, (layered.getLast?_chain id info found).trans there, own, (layered.root root there).1⟩
  case refl => exact fun id info found => layered.isSubtype_refl found
  case trans => exact fun a b c => layered.isSubtype_trans
  case antisymm => exact fun a b => layered.isSubtype_antisymm
  case top => exact fun id info found => layered.isSubtype_root found
  case inherits =>
    intro id info base below found given there
    refine layered.layout_prefix id info found below ?_
    rw [layered.chain_eq found, given, Option.elim_some, layered.chain_eq there]
    exact List.mem_cons_of_mem _ List.mem_cons_self
  case inObject =>
    intro id ref t made
    obtain ⟨info, found, type, slots⟩ := State.instantiate_eq_ok made
    have size : t.heap.size ref = info.layout.length := by
      unfold Heap.size
      rw [slots, List.size_toArray, List.length_map]
    refine ⟨info, found, type, size, fun declaring passed f member => ?_⟩
    have inLayout := layered.getElem?_layout found passed member
    obtain ⟨inBounds, -⟩ := List.getElem?_eq_some_iff.1 inLayout
    refine ⟨by rwa [size], inLayout, ?_⟩
    unfold Heap.get?
    rw [slots, List.getElem?_toArray, List.getElem?_map, inLayout, Option.map_some]
  case apart => exact fun id info found => layered.nodup_slots found
  case inType =>
    intro id info found f member
    have slot : f.slot ∈ info.staticFields.map (·.slot) := List.mem_map_of_mem member
    rw [layered.static_slots found] at slot
    exact stocked.isSome_static? found (List.mem_range.1 slot)
  case staticApart =>
    intro id info found
    rw [layered.static_slots found]
    exact List.nodup_range

/-- Figures, which count how many were made of them. -/
def figure : TypeDecl :=
  ⟨"Figure", none, false, [⟨"id", .numeric .int32, false⟩, ⟨"made", .numeric .int32, true⟩], []⟩

/-- Two kinds of figures, one derived from the other and standing before it. -/
def discs : Image where
  name := "Discs"
  types := [
    { name := "Ring", base := some "Disc"
      fields := [⟨"made", .numeric .int64, true⟩, ⟨"hole", .numeric .double, false⟩] },
    { name := "Disc", base := some "Figure", fields := [⟨"radius", .numeric .double, false⟩] }]

/-- A host with figures, arrays of them, and the kinds of figures of the image. -/
def drawn : State :=
  (discs.load (((({} : State).define figure).2.define figure).2.arrayType (.named "Figure")).2).2

theorem reachable_drawn : drawn.Reachable :=
  (((State.reachable_empty.define figure).define figure).arrayType _).load discs

/-- Rings have the slots of figures, of discs and their own. -/
theorem wellLaid_drawn :
    drawn.Reachable ∧ drawn.WellLaid ∧ (drawn.domain.chain ⟨4⟩).map (·.name) =
      ["Ring", "Disc", "Figure", "System.Object"] ∧
      (drawn.domain.find? "Ring").map (·.layout.length) = some 3 :=
  ⟨reachable_drawn, wellLaid_of_reachable reachable_drawn, by decide +kernel, by decide +kernel⟩

/-! ## Names -/

namespace Domain

variable {d e : Domain} {name : String} {info : TypeInfo}

/-! ### What is made of names -/

/-- Array types are named after their elements, there is one for each element type, only an array
type has the name of an older type, and what is found under a name is the youngest type of it. -/
structure Labelled (d : Domain) : Prop where
  placed : d.Placed
  arrays : ∀ info ∈ d.types, ∀ element, info.element = some element →
    info.name = (ValueType.array element).name ∧ d.findArray? element = some info.id
  younger : ∀ a b older younger, d.get? a = some older → d.get? b = some younger →
    a.index < b.index → older.name = younger.name → ∃ element, younger.element = some element
  youngest : ∀ info ∈ d.types, ∃ last, d.find? info.name = some last ∧ info.id.index ≤ last.id.index

theorem labelled_empty : Labelled {} := by
  refine ⟨placed_empty, fun info member element given => ?_,
    fun a b older younger _ found less _ => ?_, fun info member => ?_⟩
  · obtain rfl := Array.mem_singleton.1 member
    cases given
  · obtain ⟨inBounds, -⟩ := Array.getElem?_eq_some_iff.1 found
    rw [Nat.lt_one_iff.1 inBounds] at less
    exact (Nat.not_lt_zero _ less).elim
  · obtain rfl := Array.mem_singleton.1 member
    exact ⟨_, rfl, Nat.le_refl _⟩

namespace Labelled

theorem of_types_eq (labelled : d.Labelled) (same : e.types = d.types) : e.Labelled := by
  obtain ⟨placed, arrays, younger, youngest⟩ := labelled
  have get? : e.get? = d.get? := by
    funext id
    unfold Domain.get?
    rw [same]
  have findArray? : e.findArray? = d.findArray? := by
    funext element
    unfold Domain.findArray?
    rw [same]
  refine ⟨placed.of_types_eq same, by rwa [same, findArray?], by rwa [get?], fun info member => ?_⟩
  rw [same] at member
  rw [find?_of_types_eq same]
  exact youngest info member

/-- A new type in the last place, which is an array type of new elements or has a new name. -/
theorem push (labelled : d.Labelled) (placed : e.Placed) (types : e.types = d.types.push info)
    (own : info.id = ⟨d.types.size⟩)
    (array : ∀ element, info.element = some element →
      info.name = (ValueType.array element).name ∧ d.findArray? element = none)
    (fresh : info.element = none → ∀ other ∈ d.types, other.name ≠ info.name) : e.Labelled := by
  have grown : d.Extends e := ⟨#[info], by rw [types]; exact Array.push_eq_append⟩
  refine ⟨placed, fun other member element given => ?_,
    fun a b older younger foundOlder found less same => ?_, fun other member => ?_⟩
  · rw [types, Array.mem_push] at member
    rcases member with old | rfl
    · obtain ⟨named, found⟩ := labelled.arrays other old element given
      exact ⟨named, grown.findArray? found⟩
    · obtain ⟨named, new⟩ := array element given
      refine ⟨named, ?_⟩
      unfold Domain.findArray? at new ⊢
      rw [Option.map_eq_none_iff] at new
      rw [types, Array.find?_push, new, given]
      simp
  · have notLast : a.index ≠ d.types.size := by
      have inBounds := (Array.getElem?_eq_some_iff.1 found).1
      rw [types, Array.size_push] at inBounds
      omega
    unfold Domain.get? at foundOlder found
    rw [types, Array.getElem?_push] at foundOlder found
    rw [if_neg notLast] at foundOlder
    split at found
    · cases found
      cases given : info.element with
      | some element => exact ⟨element, rfl⟩
      | none => exact (fresh given older (Array.mem_of_getElem? foundOlder) same).elim
    · exact labelled.younger a b older younger foundOlder found less same
  · rw [find?_of_push types]
    split
    · refine ⟨info, rfl, ?_⟩
      have inBounds := placed.inBounds member
      rw [types, Array.size_push] at inBounds
      rw [own]
      exact Nat.lt_succ_iff.1 inBounds
    · rename_i another
      rw [types, Array.mem_push] at member
      rcases member with old | rfl
      · exact labelled.youngest other old
      · exact (another rfl).elim

theorem define (labelled : d.Labelled) (decl : TypeDecl) : (d.define decl).2.Labelled := by
  have placed := labelled.placed.define decl
  rcases define_cases d decl with
    ⟨cause, after, refused, same, -⟩ | ⟨base, made, after, defines, result⟩
  · rw [refused]
    exact labelled.of_types_eq same
  · rw [result] at placed ⊢
    refine labelled.push placed (defines.types_addType _) rfl (fun _ given => ?_) fun _ => ?_
    · cases given
    · exact find?_eq_none_iff.1 (baseFor_eq_ok_iff.1 defines.based).2.1

theorem arrayType (labelled : d.Labelled) (element : ValueType) :
    (d.arrayType element).2.Labelled := by
  have placed := labelled.placed.arrayType element
  unfold Domain.arrayType at placed ⊢
  cases found : d.findArray? element with
  | some id => exact labelled
  | none =>
    rw [found] at placed
    refine labelled.push placed rfl rfl (fun other given => ?_) fun given => ?_
    · cases given
      exact ⟨rfl, found⟩
    · cases given

end Labelled

theorem Evolves.labelled (changed : Evolves d e) (labelled : d.Labelled) : e.Labelled := by
  induction changed with
  | refl => exact labelled
  | define _ decl ih => exact ih.define decl
  | arrayType _ element ih => exact ih.arrayType element
  | reserveTokens _ count ih => exact ih.of_types_eq (types_reserveTokens _ count)

/-! ### What is found under a name later -/

/-- Since the first domain the type of some arrays has come that has a name. -/
def ArrayTakes (d e : Domain) (name : String) : Prop :=
  ∃ element, (ValueType.array element).name = name ∧ d.findArray? element = none ∧
    (e.findArray? element).isSome

theorem ArrayTakes.mono {f : Domain} (takes : ArrayTakes d e name) (grown : Extends e f) :
    ArrayTakes d f name := by
  obtain ⟨element, named, before, after⟩ := takes
  obtain ⟨id, found⟩ := Option.isSome_iff_exists.1 after
  exact ⟨element, named, before, by rw [grown.findArray? found]; rfl⟩

/-- A type that is found under a name is found under it for good, unless an array type takes the
name. -/
theorem Evolves.find? (changed : Evolves d e) (found : d.find? name = some info) :
    e.find? name = some info ∨ ArrayTakes d e name := by
  induction changed with
  | refl => exact .inl found
  | define _ decl ih =>
    rcases ih with still | takes
    · exact .inl (find?_define still decl)
    · exact .inr (takes.mono (extends_define _ decl))
  | @arrayType e before element ih =>
    rcases ih with still | takes
    · unfold Domain.arrayType
      cases known : e.findArray? element with
      | some id => exact .inl still
      | none =>
        rw [find?_of_push rfl]
        by_cases same : (ValueType.array element).name = name
        · have new : d.findArray? element = none := by
            cases older : d.findArray? element with
            | none => rfl
            | some id => cases (before.extends.findArray? older).symm.trans known
          refine .inr ⟨element, same, new, ?_⟩
          unfold Domain.findArray?
          simp
        · exact .inl (by rw [if_neg same, still])
    · exact .inr (takes.mono (extends_arrayType e element))
  | reserveTokens _ count ih =>
    rcases ih with still | takes
    · rw [find?_of_types_eq (types_reserveTokens _ count)]
      exact .inl still
    · exact .inr (takes.mono (.of_types_eq (types_reserveTokens _ count)))

/-- What derives from an existing type is settled. -/
theorem Extends.isSubtype (grown : Extends d e) (placed : d.Placed) {sub : TypeId}
    (found : d.get? sub = some info) (sup : TypeId) : e.isSubtype sub sup = d.isSubtype sub sup := by
  unfold Domain.isSubtype
  rw [grown.chain placed found]

/-- Whether an object that there is may stand where a type is declared is settled, unless an array
type takes the name of that type. -/
theorem Evolves.accepts (changed : Evolves d e) (layered : d.Layered) {ref : ObjectRef}
    (made : d.get? ref.type = some info) :
    e.accepts (.named name) ref = d.accepts (.named name) ref ∨ ArrayTakes d e name := by
  have grown := changed.extends
  have placed := layered.placed
  unfold Domain.accepts Domain.lookup
  dsimp only
  cases found : d.find? name with
  | some expected =>
    rcases changed.find? found with still | takes
    · rw [still]
      exact .inl (grown.isSubtype placed made expected.id)
    · exact .inr takes
  | none =>
    cases later : e.find? name with
    | none => exact .inl rfl
    | some expected =>
      -- The type of the name is younger than the object, and so is no base of its type.
      refine .inl ((grown.isSubtype placed made expected.id).trans (Bool.eq_false_iff.2 fun derives => ?_))
      obtain ⟨t, passed, same⟩ := Layered.isSubtype_iff.1 derives
      obtain ⟨there, -⟩ := layered.mem_chain ref.type info made t passed
      obtain ⟨inLater, named⟩ := of_find?_eq_some later
      have inEarlier := grown.get? there
      rw [same, (changed.placed placed).get?_of_mem inLater] at inEarlier
      cases inEarlier
      exact find?_eq_none_iff.1 found expected (Array.mem_of_getElem? there) named

end Domain

/-- Two types have one name only if the younger one is an array type that has it from its elements.
A type is found under its name unless such a younger type is, and a type that is found under a name
is found under it for good, and goes on to tell the objects that it accepts, unless an array type
that has this name from its elements comes later. -/
theorem names_of_reachable (reached : s.Reachable) (history : s.LeadsTo t) :
    (∀ a b older younger, s.domain.get? a = some older → s.domain.get? b = some younger →
      a.index < b.index → older.name = younger.name →
        ∃ element, younger.element = some element ∧ younger.name = (ValueType.array element).name) ∧
    (∀ id info, s.domain.get? id = some info → s.domain.lookup info.name = some id ∨
      ∃ b younger element, s.domain.lookup info.name = some b ∧ s.domain.get? b = some younger ∧
        id.index < b.index ∧ younger.element = some element ∧
        info.name = (ValueType.array element).name) ∧
    (∀ name id, s.domain.lookup name = some id →
      t.domain.lookup name = some id ∨ s.domain.ArrayTakes t.domain name) ∧
    ∀ name (ref : ObjectRef), ref.type.index < s.domain.types.size →
      t.domain.accepts (.named name) ref = s.domain.accepts (.named name) ref ∨
        s.domain.ArrayTakes t.domain name := by
  have labelled := reached.evolves.labelled Domain.labelled_empty
  have layered := reached.evolves.layered Domain.layered_empty
  have clash : ∀ a b older younger, s.domain.get? a = some older → s.domain.get? b = some younger →
      a.index < b.index → older.name = younger.name → ∃ element,
        younger.element = some element ∧ younger.name = (ValueType.array element).name := by
    intro a b older younger foundOlder found less same
    obtain ⟨element, given⟩ := labelled.younger a b older younger foundOlder found less same
    exact ⟨element, given, (labelled.arrays younger (Array.mem_of_getElem? found) element given).1⟩
  refine ⟨clash, fun id info found => ?_, fun name id found => ?_, fun name ref inBounds => ?_⟩
  · obtain ⟨last, latest, atMost⟩ := labelled.youngest info (Array.mem_of_getElem? found)
    obtain ⟨inDomain, named⟩ := Domain.of_find?_eq_some latest
    have foundLast := labelled.placed.get?_of_mem inDomain
    rw [labelled.placed.get? found] at atMost
    unfold Domain.lookup
    rw [latest, Option.map_some]
    rcases Nat.lt_or_eq_of_le atMost with less | same
    · obtain ⟨element, given, fromElement⟩ := clash id last.id info last found foundLast less named.symm
      exact .inr ⟨last.id, last, element, rfl, foundLast, less, given, named.symm.trans fromElement⟩
    · exact .inl (congrArg some (congrArg TypeId.mk same.symm))
  · obtain ⟨info, there, rfl⟩ := Option.map_eq_some_iff.1 found
    unfold Domain.lookup
    exact (history.evolves.find? there).imp_left fun still => by rw [still]; rfl
  · exact history.evolves.accepts layered (Array.getElem?_eq_getElem inBounds)

/-- A type that is called like the arrays of numbers. -/
def numbers : TypeDecl :=
  ⟨"Int32[]", none, false, [], []⟩

/-- A host with that type, and the host once it has arrays of numbers too. -/
def withNumbers : State :=
  (({} : State).define numbers).2

def withNumberArrays : State :=
  (withNumbers.arrayType (.numeric .int32)).2

/-- Both have the name, the older type is no longer found under it, and an object of that type is no
longer accepted where the name is declared. -/
theorem name_of_two_types :
    withNumbers.Reachable ∧ withNumbers.LeadsTo withNumberArrays ∧
      withNumberArrays.domain.types.toList.map (·.name) = ["System.Object", "Int32[]", "Int32[]"] ∧
      withNumbers.domain.lookup "Int32[]" = some ⟨1⟩ ∧ withNumberArrays.domain.lookup "Int32[]" = some ⟨2⟩ ∧
      withNumbers.domain.accepts (.named "Int32[]") ⟨0, ⟨1⟩⟩ = true ∧
      withNumberArrays.domain.accepts (.named "Int32[]") ⟨0, ⟨1⟩⟩ = false :=
  ⟨State.reachable_empty.define numbers, .arrayType .refl _, by decide +kernel, by decide +kernel,
    by decide +kernel, by decide +kernel, by decide +kernel⟩

/-- While no array type takes its name, the type is found under it. -/
theorem name_of_one_type :
    withNumbers.Reachable ∧
      (withNumbers.arrayType (.named "Int32[]")).2.domain.lookup "Int32[]" = some ⟨1⟩ := by
  have reached : withNumbers.Reachable := State.reachable_empty.define numbers
  have history : withNumbers.LeadsTo (withNumbers.arrayType (.named "Int32[]")).2 := .arrayType .refl _
  refine ⟨reached, ((names_of_reachable reached history).2.2.1 "Int32[]" ⟨1⟩ ?_).resolve_right ?_⟩
  · decide +kernel
  · rintro ⟨element, named, -, after⟩
    -- The only array type there is has another name.
    have others : ((withNumbers.arrayType (.named "Int32[]")).2.domain.types.all fun info =>
        info.element.all fun e => (ValueType.array e).name != "Int32[]") = true := by decide +kernel
    unfold Domain.findArray? at after
    rw [Option.isSome_map, Array.find?_isSome] at after
    obtain ⟨info, member, given⟩ := after
    obtain ⟨i, inBounds, rfl⟩ := Array.mem_iff_getElem.1 member
    have apart := Array.all_eq_true.1 others i inBounds
    rw [eq_of_beq given] at apart
    simp [named] at apart

end ScriptHost.Host

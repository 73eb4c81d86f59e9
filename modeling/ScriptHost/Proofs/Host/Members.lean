import Mathlib.Data.List.Nodup
import ScriptHost.Host.Domain
import ScriptHost.Host.State
/-!
What members of types stand for: places that hold values, which are slots of objects and static slots
of types, and the properties that accessors make up.
-/
namespace ScriptHost.Host

/-! ## Places -/

/-- A slot of an object, or a static slot of a type. -/
inductive Place
  | slot (object index : Nat)
  | static (type : TypeId) (index : Nat)
  deriving DecidableEq

/-- What a cell of a table of rows holds. -/
def cell? (rows : Array (Array Value)) (row i : Nat) : Option Value :=
  (rows.getD row #[])[i]?

/-- A table with another value in a cell that it has. -/
def setCell (rows : Array (Array Value)) (row i : Nat) (v : Value) : Array (Array Value) :=
  rows.modify row (·.setIfInBounds i v)

theorem cell?_setCell (rows : Array (Array Value)) (row i : Nat) (v : Value) (row' i' : Nat) :
    cell? (setCell rows row i v) row' i' =
      if row = row' ∧ i = i' then (cell? rows row i).map fun _ => v else cell? rows row' i' := by
  unfold cell? setCell
  rw [Array.getD_eq_getD_getElem?, Array.getD_eq_getD_getElem?, Array.getD_eq_getD_getElem?,
    Array.getElem?_modify]
  by_cases sameRow : row = row'
  · subst sameRow
    rw [if_pos rfl]
    cases rows[row]? with
    | none => simp
    | some values =>
      dsimp only [Option.map, Option.getD]
      rw [Array.getElem?_setIfInBounds]
      by_cases same : i = i'
      · subst same
        rw [if_pos rfl, if_pos (c := row = row ∧ i = i) ⟨rfl, rfl⟩]
        split
        · rename_i inBounds
          rw [Array.getElem?_eq_getElem inBounds]
        · rename_i outside
          rw [Array.getElem?_eq_none (Nat.le_of_not_lt outside)]
      · rw [if_neg same, if_neg fun both => same both.2]
  · rw [if_neg sameRow, if_neg fun both => sameRow both.1]

namespace State

/-- What a place holds, if the host has it. -/
def at? (s : State) : Place → Option Value
  | .slot object i => cell? s.heap.objects object i
  | .static type i => cell? s.statics type.index i

/-- The host with another value in a place that it has. -/
def put (s : State) : Place → Value → State
  | .slot object i, v => { s with heap := ⟨setCell s.heap.objects object i v⟩ }
  | .static type i, v => { s with statics := setCell s.statics type.index i v }

variable {s : State} {p q : Place}

/-- What is put into a place is found there. -/
theorem at?_put_self (v : Value) (there : (s.at? p).isSome) : (s.put p v).at? p = some v := by
  obtain ⟨old, found⟩ := Option.isSome_iff_exists.1 there
  cases p with
  | slot object i | static type i =>
    refine (cell?_setCell ..).trans ?_
    rw [if_pos ⟨rfl, rfl⟩]
    exact congrArg (Option.map fun _ => v) found

/-- No other place changes. -/
theorem at?_put_of_ne (v : Value) (other : q ≠ p) : (s.put p v).at? q = s.at? q := by
  cases p with
  | slot object i =>
    cases q with
    | slot object' i' =>
      refine (cell?_setCell ..).trans (if_neg ?_)
      rintro ⟨rfl, rfl⟩
      exact other rfl
    | static => rfl
  | static type i =>
    cases q with
    | slot => rfl
    | static type' i' =>
      refine (cell?_setCell ..).trans (if_neg ?_)
      rintro ⟨same, rfl⟩
      exact other (congrArg (Place.static · i) (congrArg TypeId.mk same).symm)

theorem domain_put (s : State) (p : Place) (v : Value) : (s.put p v).domain = s.domain := by
  cases p <;> rfl

theorem objects_put (s : State) (p : Place) (v : Value) :
    (s.put p v).heap.objects.size = s.heap.objects.size := by
  cases p with
  | slot object i => exact Array.size_modify
  | static type i => rfl

/-- A place of an object stays what it is when another object is made. -/
theorem at?_duplicate (s : State) (ref : ObjectRef) {v : Value} (found : s.at? p = some v) :
    (s.duplicate ref).2.at? p = some v := by
  cases p with
  | static type i => exact found
  | slot object i =>
    change cell? (s.heap.objects.push (s.heap.slots ref)) object i = some v
    change cell? s.heap.objects object i = some v at found
    unfold cell? at found ⊢
    rw [Array.getD_eq_getD_getElem?] at found ⊢
    rw [Array.getElem?_push]
    split
    · rename_i last
      rw [last, Array.getElem?_eq_none (Nat.le_refl _)] at found
      cases found
    · exact found

/-- Storing into a slot that an object has puts the value there. -/
theorem setSlot_eq_put {ref : ObjectRef} {i : Nat} (there : (s.at? (.slot ref.id i)).isSome)
    (v : Value) : (s.setSlot ref i v).2 = s.put (.slot ref.id i) v := by
  have inBounds : i < s.heap.size ref := by
    obtain ⟨old, found⟩ := Option.isSome_iff_exists.1 there
    exact (Array.getElem?_eq_some_iff.1 found).1
  exact congrArg Prod.snd (if_pos inBounds)

end State

/-! ## Properties

A type has at most one property of each name for its instances and one for itself, and the first
accessor of a name decides which of the two a search by the name alone comes to.
-/

/-- The name and the kind of the property that a method is an accessor of. -/
def Method.accessed? (m : Method) : Option (String × Bool) :=
  (Accessor.of? m).map fun a => (a.property, m.kind == .static)

/-- Whether a method is an accessor of a property of some name. -/
def Method.accesses (m : Method) (name : String) : Bool :=
  m.accessed?.any (·.1 == name)

/-- The name of a property, and whether it is one of the type itself. -/
def Property.key (p : Property) : String × Bool :=
  (p.name, p.isStatic)

namespace Property

theorem key_add (p : Property) (isGetter : Bool) (m : Method) :
    (p.add isGetter m).key = p.key := by
  cases isGetter <;> rfl

theorem key_eq_iff {p : Property} {name : String} {isStatic : Bool} :
    p.key = (name, isStatic) ↔ (p.name == name && p.isStatic == isStatic) = true := by
  simp [key]

end Property

/-- An accessor joins the property that it is made for, or makes it. -/
theorem keys_addAccessor (properties : List Property) (m : Method) :
    (addAccessor properties m).map (·.key) =
      m.accessed?.elim (properties.map (·.key)) fun k =>
        if k ∈ properties.map (·.key) then properties.map (·.key)
        else properties.map (·.key) ++ [k] := by
  unfold addAccessor Method.accessed?
  cases Accessor.of? m with
  | none => rfl
  | some a =>
    dsimp only [Option.map, Option.elim]
    cases found : properties.findIdx? fun p =>
        p.name == a.property && p.isStatic == (m.kind == .static) with
    | some i =>
      obtain ⟨inBounds, fits, -⟩ := List.findIdx?_eq_some_iff_getElem.1 found
      have there : (a.property, m.kind == .static) ∈ properties.map (·.key) :=
        List.mem_map.2 ⟨properties[i], List.getElem_mem inBounds, Property.key_eq_iff.2 fits⟩
      rw [if_pos there]
      dsimp only
      apply List.ext_getElem?
      intro j
      rw [List.getElem?_map, List.getElem?_map, List.getElem?_modify]
      cases properties[j]? with
      | none => rfl
      | some p =>
        by_cases here : i = j
        · simp [here, Property.key_add]
        · simp [here]
    | none =>
      have absent : (a.property, m.kind == .static) ∉ properties.map (·.key) := by
        intro there
        obtain ⟨p, member, same⟩ := List.mem_map.1 there
        have fits := Property.key_eq_iff.1 same
        rw [List.findIdx?_eq_none_iff.1 found p member] at fits
        cases fits
      rw [if_neg absent]
      dsimp only
      rw [List.map_append, List.map_singleton, Property.key_add]
      rfl

/-- No two properties of a type share both name and kind. -/
theorem nodup_keys_foldl {properties : List Property} (nodup : (properties.map (·.key)).Nodup)
    (methods : List Method) : ((methods.foldl addAccessor properties).map (·.key)).Nodup := by
  induction methods generalizing properties with
  | nil => exact nodup
  | cons m rest ih =>
    apply ih
    rw [keys_addAccessor]
    cases m.accessed? with
    | none => exact nodup
    | some k =>
      dsimp only [Option.elim]
      split
      · exact nodup
      · rename_i absent
        rw [← List.concat_eq_append]
        exact nodup.concat absent

/-- A search by name and kind comes to what the first accessor is made for that fits. -/
theorem find?_keys_foldl (q : String × Bool → Bool) (properties : List Property)
    (methods : List Method) :
    ((methods.foldl addAccessor properties).map (·.key)).find? q =
      (properties.map (·.key) ++ methods.filterMap (·.accessed?)).find? q := by
  induction methods generalizing properties with
  | nil => rw [List.filterMap_nil, List.append_nil]; rfl
  | cons m rest ih =>
    rw [List.foldl_cons, ih, keys_addAccessor]
    cases accessed : m.accessed? with
    | none => rw [List.filterMap_cons_none accessed]; rfl
    | some k =>
      rw [List.filterMap_cons_some accessed]
      dsimp only [Option.elim]
      split
      · rename_i there
        rw [List.find?_append, List.find?_append, List.find?_cons]
        cases fits : q k with
        | false => rfl
        | true =>
          have some : ((properties.map (·.key)).find? q).isSome :=
            List.find?_isSome.2 ⟨k, there, fits⟩
          rw [Option.or_of_isSome some, Option.or_of_isSome some]
      · rw [List.append_assoc, List.singleton_append]

namespace TypeInfo

variable {t : TypeInfo} {name : String} {p : Property}

theorem nodup_keys (t : TypeInfo) : (t.properties.map (·.key)).Nodup :=
  @nodup_keys_foldl [] List.nodup_nil t.methods

/-- A type has one property of a name and a kind. -/
theorem property_unique {p q : Property} (memP : p ∈ t.properties) (memQ : q ∈ t.properties)
    (same : p.key = q.key) : p = q :=
  List.inj_on_of_nodup_map t.nodup_keys memP memQ same

/-- The property that a name comes to is of the kind of the first accessor of that name. -/
theorem key_property? (t : TypeInfo) (name : String) :
    (t.property? name).map (·.key) = (t.methods.find? (·.accesses name)).bind (·.accessed?) := by
  have found := find?_keys_foldl (·.1 == name) [] t.methods
  rw [List.map_nil, List.nil_append, List.find?_map] at found
  refine found.trans ?_
  clear found
  induction t.methods with
  | nil => rfl
  | cons m rest ih =>
    unfold Method.accesses at ih ⊢
    cases accessed : m.accessed? with
    | none =>
      rw [List.filterMap_cons_none accessed, List.find?_cons, accessed]
      exact ih
    | some k =>
      rw [List.filterMap_cons_some accessed, List.find?_cons, List.find?_cons, accessed,
        Option.any_some]
      cases k.1 == name with
      | true => exact accessed.symm
      | false => exact ih

/-- A property is found by its name if the accessors of that name begin with one of its kind. -/
theorem property?_of_first (member : p ∈ t.properties) (named : p.name = name)
    (first : ∀ m, t.methods.find? (·.accesses name) = some m → (m.kind == .static) = p.isStatic) :
    t.property? name = some p := by
  have some : (t.property? name).isSome :=
    List.find?_isSome.2 ⟨p, member, by simpa using named⟩
  obtain ⟨q, found⟩ := Option.isSome_iff_exists.1 some
  have keys := t.key_property? name
  rw [found] at keys
  obtain ⟨m, leads, accessed⟩ := Option.bind_eq_some_iff.1 keys.symm
  have sameName : q.name = name := by simpa using List.find?_some found
  have isStatic : q.isStatic = p.isStatic := by
    rw [← first m leads]
    unfold Method.accessed? at accessed
    obtain ⟨a, -, own⟩ := Option.map_eq_some_iff.1 accessed
    exact (congrArg Prod.snd own).symm
  have unique : q = p := property_unique (List.mem_of_find?_eq_some found) member
    (Prod.ext (sameName.trans named.symm) isStatic)
  rw [found, unique]

end TypeInfo

/-- What is looked up on the way from a type to its bases is found at the first type that has it. -/
theorem Domain.findSome?_chain {α : Type} {d : Domain} {id : TypeId} {f : TypeInfo → Option α}
    {before : List TypeInfo} {t : TypeInfo} {a : α} (walk : before ++ [t] <+: d.chain id)
    (passed : ∀ s ∈ before, f s = none) (found : f t = some a) :
    (d.chain id).findSome? f = some a := by
  obtain ⟨after, same⟩ := walk
  rw [← same, List.append_assoc, List.findSome?_append, List.findSome?_eq_none_iff.2 passed,
    Option.none_or, List.singleton_append, List.findSome?_cons, found]

end ScriptHost.Host

import Mathlib.Data.List.Nodup
import Mathlib.Data.List.Perm.Basic
import Mathlib.Logic.Relation
import ScriptHost.Image.Load
import ScriptHost.Proofs.Results
/-!
The order in which the types of an image are defined. Every type has one place in it, and each stands
behind its base, if the image holds that base. There is such an order where no type derives from
itself. The search for it goes up from each type in turn and marks what it passes for good, so that a
mark alone does not tell a type that it is just coming from. What it can tell from is that every type
is placed, still fresh, or on the way that the search has come.
-/
namespace ScriptHost.Image

open Host
open Relation (TransGen)
open Results (bind_eq_ok forM_eq_ok)

variable {image : Image}

/-! ## Bases first -/

/-- Every position stands behind that of its base. -/
def BasesFirst (image : Image) (order : List Nat) : Prop :=
  ∀ before i later base, order = before ++ i :: later → image.baseIndex? i = some base →
    base ∈ before

theorem basesFirst_nil : BasesFirst image [] :=
  fun before i later base split => by simp at split

/-- A position may come last if that of its base has come. -/
theorem BasesFirst.concat {placed : List Nat} {i : Nat} (first : BasesFirst image placed)
    (based : ∀ base, image.baseIndex? i = some base → base ∈ placed) :
    BasesFirst image (placed ++ [i]) := by
  intro before j later base split above
  rcases List.append_eq_append_iff.1 split with ⟨gap, rfl, rest⟩ | ⟨gap, rfl, rest⟩
  · cases gap with
    | nil =>
      cases rest
      simpa using based base above
    | cons x gap => simp at rest
  · cases gap with
    | nil =>
      cases rest
      simpa using based base above
    | cons x gap =>
      cases rest
      exact first before j gap base rfl above

/-- A chain that hangs from a position: each element has the one before it as its base. -/
def Hangs (image : Image) (top : Option Nat) : List Nat → Prop
  | [] => True
  | i :: rest => image.baseIndex? i = top ∧ Hangs image (some i) rest

/-- A chain may follow where the position that it hangs from has come. -/
theorem BasesFirst.append {placed chain : List Nat} {top : Option Nat}
    (first : BasesFirst image placed) (hangs : Hangs image top chain)
    (known : ∀ base, top = some base → base ∈ placed) : BasesFirst image (placed ++ chain) := by
  induction chain generalizing placed top with
  | nil => rwa [List.append_nil]
  | cons i rest ih =>
    obtain ⟨above, rest⟩ := hangs
    rw [← List.singleton_append, ← List.append_assoc]
    refine ih (first.concat fun base given => known base (above.symm.trans given)) rest ?_
    rintro base ⟨⟩
    exact List.mem_append_right _ List.mem_cons_self

/-! ## Climbing and placing -/

/-- A climb passes positions that are fresh and leaves the others fresh; what it passes hangs
together, and from a position that is placed, if from any. -/
theorem climb_eq_ok {placed fresh : List Nat} {cursor : Option Nat} {chain left passed : List Nat}
    (climbed : image.climb placed fresh cursor chain = .ok (left, passed))
    (hangs : Hangs image cursor chain) :
    (passed ++ left).Perm (chain ++ fresh) ∧
      ∃ top, Hangs image top passed ∧ ∀ base, top = some base → base ∈ placed := by
  fun_induction climb image placed fresh cursor chain with
  | case1 fresh chain =>
    cases climbed
    exact ⟨.refl _, none, hangs, fun _ given => nomatch given⟩
  | case2 fresh chain i known =>
    cases climbed
    refine ⟨.refl _, some i, hangs, ?_⟩
    rintro base ⟨⟩
    exact known
  | case3 fresh chain i _ inFresh ih =>
    obtain ⟨moved, together⟩ := ih climbed ⟨rfl, hangs⟩
    refine ⟨moved.trans ?_, together⟩
    -- The position goes from the fresh ones to the chain.
    exact List.perm_middle.symm.trans ((List.perm_cons_erase inFresh).symm.append_left chain)
  | case4 => cases climbed

/-- Placing takes positions from the fresh ones, and bases come first if they did. -/
theorem place_eq_ok {starts placed fresh order : List Nat}
    (result : image.place starts placed fresh = .ok order) (first : BasesFirst image placed) :
    (∃ left, (order ++ left).Perm (placed ++ fresh)) ∧ BasesFirst image order := by
  induction starts generalizing placed fresh with
  | nil =>
    cases result
    exact ⟨⟨fresh, .refl _⟩, first⟩
  | cons start rest ih =>
    unfold place at result
    obtain ⟨⟨left, passed⟩, climbed, result⟩ := bind_eq_ok.1 result
    obtain ⟨moved, top, hangs, known⟩ := climb_eq_ok climbed trivial
    obtain ⟨⟨remaining, perm⟩, ordered⟩ := ih result (first.append hangs known)
    refine ⟨⟨remaining, perm.trans ?_⟩, ordered⟩
    rw [List.append_assoc]
    exact moved.append_left placed

/-- Climbing keeps what it passed before, and the type that it starts with is placed or passed. -/
theorem mem_of_climb {placed fresh : List Nat} {cursor : Option Nat} {chain : List Nat}
    {left passed : List Nat} (climbed : image.climb placed fresh cursor chain = .ok (left, passed)) :
    (∀ i ∈ chain, i ∈ passed) ∧ ∀ i, cursor = some i → i ∈ placed ∨ i ∈ passed := by
  fun_induction climb image placed fresh cursor chain with
  | case1 fresh chain =>
    cases climbed
    exact ⟨fun _ member => member, fun _ none => nomatch none⟩
  | case2 fresh chain i known =>
    cases climbed
    refine ⟨fun _ member => member, fun j same => .inl ?_⟩
    cases same
    exact known
  | case3 fresh chain i _ inFresh ih =>
    obtain ⟨kept, _⟩ := ih climbed
    refine ⟨fun j member => kept j (List.mem_cons_of_mem _ member), fun j same => .inr ?_⟩
    cases same
    exact kept i List.mem_cons_self
  | case4 => cases climbed

/-- Every type that starts a climb is placed. -/
theorem mem_of_place {starts placed fresh order : List Nat}
    (result : image.place starts placed fresh = .ok order) :
    ∀ i, i ∈ placed ∨ i ∈ starts → i ∈ order := by
  induction starts generalizing placed fresh with
  | nil =>
    cases result
    intro i member
    rcases member with known | none
    · exact known
    · exact (List.not_mem_nil none).elim
  | cons start rest ih =>
    unfold place at result
    cases climbed : image.climb placed fresh (some start) [] with
    | error e =>
      rw [climbed] at result
      cases result
    | ok found =>
      obtain ⟨left, passed⟩ := found
      rw [climbed] at result
      have reached := (mem_of_climb climbed).2 start rfl
      intro i member
      apply ih result i
      rcases member with known | isStart
      · exact .inl (List.mem_append_left _ known)
      · rcases List.mem_cons.1 isStart with rfl | later
        · exact .inl (List.mem_append.2 reached)
        · exact .inr later

/-! ## The checks before -/

/-- What is checked of a type before any type is placed: its name is new, and its base is in the
image or a type of the domain that is no array. -/
structure Admissible (image : Image) (d : Domain) (t : TypeDef) : Prop where
  named : t.name.isEmpty = false
  new : d.find? t.name = none
  based : ∀ base, t.base = some base → image.typeIndex? base = none →
    ∃ info, d.find? base = some info ∧ info.isArray = false

theorem admissible_of_checkNew {d : Domain} {t : TypeDef}
    (checked : image.checkNew d t = .ok ()) : Admissible image d t := by
  unfold checkNew at checked
  split at checked
  · cases checked
  rename_i named
  split at checked
  · cases checked
  rename_i new
  refine ⟨by simpa using named, by simpa using new, fun base given foreign => ?_⟩
  rw [given] at checked
  dsimp only at checked
  rw [foreign, Option.isSome_none, if_neg Bool.false_ne_true] at checked
  cases found : d.find? base with
  | none =>
    rw [found] at checked
    cases checked
  | some info =>
    refine ⟨info, rfl, ?_⟩
    cases array : info.isArray with
    | false => rfl
    | true =>
      rw [found] at checked
      dsimp only at checked
      rw [array, if_pos rfl] at checked
      cases checked

theorem admissible_of_checked {d : Domain} (checked : image.types.forM (image.checkNew d) = .ok ()) :
    ∀ t ∈ image.types, Admissible image d t :=
  fun t member => admissible_of_checkNew (forM_eq_ok.1 checked t member)

theorem checkNew_of_admissible {d : Domain} {t : TypeDef} (admissible : Admissible image d t) :
    image.checkNew d t = .ok () := by
  unfold checkNew
  rw [admissible.named, admissible.new, if_neg Bool.false_ne_true, Option.isSome_none,
    if_neg Bool.false_ne_true]
  cases given : t.base with
  | none => rfl
  | some base =>
    dsimp only
    cases inImage : image.typeIndex? base with
    | some i => rfl
    | none =>
      obtain ⟨info, found, plain⟩ := admissible.based base given inImage
      rw [Option.isSome_none, if_neg Bool.false_ne_true, found]
      dsimp only
      rw [plain, if_neg Bool.false_ne_true]

/-- An order of definition has one place for each type of the image, and bases come first in it. -/
theorem definitionOrder_eq_ok {d : Domain} {order : List Nat}
    (ordered : image.definitionOrder d = .ok order) :
    (∀ t ∈ image.types, Admissible image d t) ∧ order.Perm (List.range image.types.length) ∧
      BasesFirst image order := by
  unfold definitionOrder at ordered
  obtain ⟨_, checked, placed⟩ := bind_eq_ok.1 ordered
  obtain ⟨⟨left, perm⟩, first⟩ := place_eq_ok placed basesFirst_nil
  rw [List.nil_append] at perm
  have reached := mem_of_place placed
  refine ⟨admissible_of_checked checked, ?_, first⟩
  -- Every position was a start, so that none is left over.
  have distinct := perm.nodup_iff.2 List.nodup_range
  refine (List.perm_ext_iff_of_nodup (List.nodup_append.1 distinct).1 List.nodup_range).2 fun i => ?_
  exact ⟨fun member => perm.subset (List.mem_append_left _ member), fun member => reached i (.inr member)⟩

/-! ## Names and positions -/

/-- The base of a type that the image holds has its position there. -/
theorem baseIndex?_eq {i : Nat} {t : TypeDef} {base : String} (found : image.types[i]? = some t)
    (given : t.base = some base) : image.baseIndex? i = image.typeIndex? base := by
  unfold baseIndex?
  rw [found]
  simp [given]

theorem mem_of_typeIndex? {name : String} {i : Nat} (found : image.typeIndex? name = some i) :
    ∃ t, image.types[i]? = some t ∧ t.name = name := by
  obtain ⟨inBounds, same, _⟩ := List.findIdx?_eq_some_iff_getElem.1 found
  exact ⟨image.types[i], List.getElem?_eq_getElem inBounds, eq_of_beq same⟩

/-- Types of one name are at one position. -/
theorem eq_of_name_eq (distinct : (image.types.map (·.name)).Nodup) {i j : Nat} {t u : TypeDef}
    (found : image.types[i]? = some t) (found' : image.types[j]? = some u)
    (same : t.name = u.name) : i = j := by
  have inBounds : i < (image.types.map (·.name)).length := by
    rw [List.length_map]
    exact (List.getElem?_eq_some_iff.1 found).1
  refine (List.getElem?_inj inBounds distinct).1 ?_
  rw [List.getElem?_map, List.getElem?_map, found, found', Option.map_some, Option.map_some, same]

/-! ## Deriving -/

/-- The type at one position names the type at another as its base. -/
def DerivesFrom (image : Image) (i j : Nat) : Prop :=
  ∃ t u, image.types[i]? = some t ∧ image.types[j]? = some u ∧ t.base = some u.name

/-- A base is found where it stands, if names are distinct. -/
theorem derivesFrom_iff (distinct : (image.types.map (·.name)).Nodup) {i j : Nat} :
    image.DerivesFrom i j ↔ image.baseIndex? i = some j := by
  constructor
  · rintro ⟨t, u, found, there, given⟩
    rw [baseIndex?_eq found given]
    cases named : image.typeIndex? u.name with
    | none =>
      have apart := List.findIdx?_eq_none_iff.1 named u (List.mem_of_getElem? there)
      exact absurd (beq_self_eq_true u.name) (ne_true_of_eq_false apart)
    | some k =>
      obtain ⟨v, there', same⟩ := mem_of_typeIndex? named
      rw [eq_of_name_eq distinct there' there same]
  · intro above
    unfold baseIndex? at above
    obtain ⟨t, found, above⟩ := Option.bind_eq_some_iff.1 above
    obtain ⟨base, given, above⟩ := Option.bind_eq_some_iff.1 above
    obtain ⟨u, there, rfl⟩ := mem_of_typeIndex? above
    exact ⟨t, u, found, there, given⟩

theorem DerivesFrom.lt_length {i j : Nat} (derives : image.DerivesFrom i j) :
    i < image.types.length ∧ j < image.types.length := by
  obtain ⟨t, u, found, there, -⟩ := derives
  exact ⟨(List.getElem?_eq_some_iff.1 found).1, (List.getElem?_eq_some_iff.1 there).1⟩

/-! ## What an order says -/

/-- A base comes before a type, if the order has the type. -/
theorem BasesFirst.idxOf_lt {order : List Nat} {i base : Nat} (first : BasesFirst image order)
    (member : i ∈ order) (above : image.baseIndex? i = some base) :
    order.idxOf base < order.idxOf i := by
  obtain ⟨before, later, rfl, fresh⟩ := List.eq_append_cons_of_mem member
  have passed := first before i later base rfl above
  rw [List.idxOf_append_of_mem passed, List.idxOf_append_of_notMem fresh]
  exact Nat.lt_of_lt_of_le (List.idxOf_lt_length_of_mem passed) (Nat.le_add_right _ _)

/-- What a type derives from comes before it, through however many bases. -/
theorem BasesFirst.idxOf_lt_of_transGen {order : List Nat} {i base : Nat}
    (distinct : (image.types.map (·.name)).Nodup) (first : BasesFirst image order)
    (all : ∀ i < image.types.length, i ∈ order) (derives : TransGen image.DerivesFrom i base) :
    order.idxOf base < order.idxOf i := by
  have step : ∀ {i base}, image.DerivesFrom i base → order.idxOf base < order.idxOf i :=
    fun above => first.idxOf_lt (all _ above.lt_length.1) ((derivesFrom_iff distinct).1 above)
  induction derives with
  | single above => exact step above
  | tail _ above ih => exact Nat.lt_trans (step above) ih

/-! ## What a refusal says -/

/-- A refusal that names a type which derives from itself. -/
def NamesCycle (image : Image) (e : Error) : Prop :=
  ∃ i t, image.types[i]? = some t ∧ TransGen image.DerivesFrom i i ∧ e = .ownBase t.name

/-- From all of a chain one gets up to where the chain hangs. -/
theorem Hangs.transGen {chain : List Nat} {top : Nat}
    (distinct : (image.types.map (·.name)).Nodup) (hangs : Hangs image (some top) chain) :
    ∀ i ∈ chain, TransGen image.DerivesFrom i top := by
  induction chain generalizing top with
  | nil => exact fun i member => (List.not_mem_nil member).elim
  | cons head rest ih =>
    obtain ⟨above, below⟩ := hangs
    have last : image.DerivesFrom head top := (derivesFrom_iff distinct).2 above
    intro i member
    rcases List.mem_cons.1 member with rfl | behind
    · exact .single last
    · exact (ih below i behind).tail last

/-- A climb stops at a type that it has passed before. -/
theorem climb_eq_error {placed fresh : List Nat} {cursor : Option Nat} {chain : List Nat} {e : Error}
    (distinct : (image.types.map (·.name)).Nodup)
    (stopped : image.climb placed fresh cursor chain = .error e) (hangs : Hangs image cursor chain)
    (known : ∀ i < image.types.length, i ∈ placed ∨ i ∈ chain ∨ i ∈ fresh)
    (inside : ∀ i, cursor = some i → i < image.types.length) : image.NamesCycle e := by
  fun_induction climb image placed fresh cursor chain with
  | case1 => cases stopped
  | case2 => cases stopped
  | case3 fresh chain i _ inFresh ih =>
    refine ih stopped ⟨rfl, hangs⟩ (fun j inBounds => ?_) fun base above => ?_
    · -- The position goes from the fresh ones to the chain.
      rcases known j inBounds with isPlaced | passed | isFresh
      · exact .inl isPlaced
      · exact .inr (.inl (List.mem_cons_of_mem _ passed))
      · by_cases same : j = i
        · exact .inr (.inl (same ▸ List.mem_cons_self))
        · exact .inr (.inr ((List.mem_erase_of_ne same).2 isFresh))
    · exact ((derivesFrom_iff distinct).2 above).lt_length.2
  | case4 fresh chain i unplaced stale =>
    cases stopped
    have inBounds := inside i rfl
    have passed : i ∈ chain := ((known i inBounds).resolve_left unplaced).resolve_right stale
    have found : image.types[i]? = some image.types[i] := List.getElem?_eq_getElem inBounds
    refine ⟨i, image.types[i], found, hangs.transGen distinct i passed, ?_⟩
    rw [found]
    rfl

/-- Placing stops in a climb that does. Between two climbs every type is placed or fresh. -/
theorem place_eq_error {starts placed fresh : List Nat} {e : Error}
    (distinct : (image.types.map (·.name)).Nodup)
    (stopped : image.place starts placed fresh = .error e)
    (known : ∀ i < image.types.length, i ∈ placed ∨ i ∈ fresh)
    (inside : ∀ i ∈ starts, i < image.types.length) : image.NamesCycle e := by
  induction starts generalizing placed fresh with
  | nil => cases stopped
  | cons start rest ih =>
    unfold place at stopped
    cases climbed : image.climb placed fresh (some start) [] with
    | error cause =>
      rw [climbed] at stopped
      cases stopped
      refine climb_eq_error distinct climbed trivial (fun i inBounds => ?_) ?_
      · exact (known i inBounds).imp_right .inr
      · rintro _ ⟨⟩
        exact inside start List.mem_cons_self
    | ok found =>
      obtain ⟨left, passed⟩ := found
      rw [climbed] at stopped
      obtain ⟨moved, -⟩ := climb_eq_ok climbed trivial
      refine ih stopped (fun i inBounds => ?_) fun i member => inside i (List.mem_cons_of_mem _ member)
      rcases known i inBounds with isPlaced | isFresh
      · exact .inl (List.mem_append_left _ isPlaced)
      · exact (List.mem_append.1 (moved.mem_iff.2 isFresh)).imp_left (List.mem_append_right _)

/-! ## The order of definition -/

/-- Without a type that is refused for itself, all is up to the search. -/
theorem definitionOrder_eq_place {d : Domain} (admissible : ∀ t ∈ image.types, Admissible image d t) :
    image.definitionOrder d =
      image.place (List.range image.types.length) [] (List.range image.types.length) := by
  have checked : image.types.forM (image.checkNew d) = .ok () :=
    forM_eq_ok.2 fun t member => checkNew_of_admissible (admissible t member)
  unfold definitionOrder
  rw [checked]
  rfl

/-- Types whose names are new and distinct and whose bases are there have an order of definition
exactly if none of them derives from itself. The order has each of them once, and behind all that it
derives from; and if there is no order, a type is named that derives from itself. -/
theorem definitionOrder_sorts {d : Domain} (distinct : (image.types.map (·.name)).Nodup)
    (admissible : ∀ t ∈ image.types, Admissible image d t) :
    ((∃ order, image.definitionOrder d = .ok order) ↔ ∀ i, ¬ TransGen image.DerivesFrom i i) ∧
    (∀ order, image.definitionOrder d = .ok order →
      order.Perm (List.range image.types.length) ∧
        ∀ i base, TransGen image.DerivesFrom i base → order.idxOf base < order.idxOf i) ∧
    ∀ e, image.definitionOrder d = .error e → image.NamesCycle e := by
  have sorted : ∀ order, image.definitionOrder d = .ok order →
      order.Perm (List.range image.types.length) ∧
        ∀ i base, TransGen image.DerivesFrom i base → order.idxOf base < order.idxOf i := by
    intro order ordered
    obtain ⟨-, perm, first⟩ := definitionOrder_eq_ok ordered
    refine ⟨perm, fun i base => first.idxOf_lt_of_transGen distinct fun i inBounds => ?_⟩
    exact perm.mem_iff.2 (List.mem_range.2 inBounds)
  have cyclic : ∀ e, image.definitionOrder d = .error e → image.NamesCycle e := by
    intro e stopped
    rw [definitionOrder_eq_place admissible] at stopped
    exact place_eq_error distinct stopped (fun i inBounds => .inr (List.mem_range.2 inBounds))
      fun i member => List.mem_range.1 member
  refine ⟨⟨?_, fun acyclic => ?_⟩, sorted, cyclic⟩
  · rintro ⟨order, ordered⟩ i cycle
    exact Nat.lt_irrefl _ ((sorted order ordered).2 i i cycle)
  · cases result : image.definitionOrder d with
    | ok order => exact ⟨order, rfl⟩
    | error e =>
      obtain ⟨i, t, -, cycle, -⟩ := cyclic e result
      exact (acyclic i cycle).elim

/-! ## A forest, and a cycle with a tail -/

/-- A host in which there are creatures. -/
def inhabited : Domain :=
  (({} : State).define ⟨"Creature", none, false, [], []⟩).2.domain

/-- Animals, some of them before what they derive from, and a stone. -/
def menagerie : Image where
  name := "Menagerie"
  types := [{ name := "Cat", base := some "Animal" }, { name := "Stone" },
    { name := "Animal", base := some "Creature" }, { name := "Dog", base := some "Animal" }]

/-- Two types that derive from each other, and one before them that derives from both. -/
def chasing : Image where
  name := "Chasing"
  types := [{ name := "Tail", base := some "Snake" }, { name := "Snake", base := some "Skin" },
    { name := "Skin", base := some "Snake" }]

/-- The forest is put in order, so that it has no cycle. The cycle is found, behind its tail. -/
theorem definitionOrder_sorts_menagerie :
    ((menagerie.types.map (·.name)).Nodup ∧ (∀ t ∈ menagerie.types, Admissible menagerie inhabited t) ∧
      menagerie.definitionOrder inhabited = .ok [2, 0, 1, 3] ∧
      ∀ i, ¬ TransGen menagerie.DerivesFrom i i) ∧
    (chasing.types.map (·.name)).Nodup ∧ (∀ t ∈ chasing.types, Admissible chasing {} t) ∧
      chasing.definitionOrder {} = .error (.ownBase "Snake") ∧
      chasing.NamesCycle (.ownBase "Snake") := by
  have animals : ∀ t ∈ menagerie.types, Admissible menagerie inhabited t :=
    admissible_of_checked (by decide +kernel)
  have snakes : ∀ t ∈ chasing.types, Admissible chasing {} t :=
    admissible_of_checked (by decide +kernel)
  have ordered : menagerie.definitionOrder inhabited = .ok [2, 0, 1, 3] := by decide +kernel
  have stopped : chasing.definitionOrder {} = .error (.ownBase "Snake") := by decide +kernel
  exact ⟨⟨by decide, animals, ordered,
      (definitionOrder_sorts (by decide) animals).1.1 ⟨_, ordered⟩⟩,
    by decide, snakes, stopped, (definitionOrder_sorts (by decide) snakes).2.2 _ stopped⟩

end ScriptHost.Image

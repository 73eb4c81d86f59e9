import Mathlib.Data.Nat.Bitwise
import ScriptHost.Engine.State
import ScriptHost.Proofs.Handles.Books
import ScriptHost.Proofs.Tables
/-!
Who has which wrapper. Each wrapper stands for a handle of its own, those that are gone wait in a
queue, and the books know the handles of all of them.
-/
namespace ScriptHost

open Bridge (BehaviourKeys Books Handle Ledger PatchTable Registry Retired releaseCount)
open Bridge.Registry (Entry Operation)
open Host (TypeId)
open Script (Behaviour BehaviourPart FunctionRef Remains Value Wrapper)

/-! ## Wrappers and functions -/

theorem Bridge.Handle.ofWord_toWord (h : Handle) : Handle.ofWord h.toWord = h := by
  obtain ⟨index, generation⟩ := h
  unfold Handle.ofWord Handle.toWord
  dsimp only
  congr 1
  · apply UInt32.toBitVec_inj.1
    simp
  · have low := index.toNat_lt
    have high := generation.toNat_lt
    have word : UInt64.toNat 32 % 64 = 32 := rfl
    apply UInt32.toNat_inj.1
    simp only [UInt64.toNat_toUInt32, UInt64.toNat_shiftRight, UInt64.toNat_or,
      UInt64.toNat_shiftLeft, UInt32.toNat_toUInt64, word]
    have fits : generation.toNat <<< 32 < 2 ^ 64 := by
      rw [Nat.shiftLeft_eq]
      omega
    rw [Nat.mod_eq_of_lt fits, Nat.shiftRight_or_distrib, Nat.shiftLeft_shiftRight,
      Nat.shiftRight_eq_div_pow, Nat.div_eq_of_lt low, Nat.or_zero, Nat.mod_eq_of_lt high]

/-- The handle that a wrapper stands for. -/
def Script.Wrapper.handle (w : Wrapper) : Handle :=
  .ofWord w.slot

/-- What is left of a wrapper that nothing refers to any more. -/
def Script.Wrapper.remains (w : Wrapper) : Remains :=
  ⟨w.behaviour, w.slot⟩

/-- The handle that a wrapper stood for. -/
def Script.Remains.handle (r : Remains) : Handle :=
  .ofWord r.slot

/-- A function that is no finalizer of the bridge. -/
def Script.FunctionRef.Fair (f : FunctionRef) : Prop :=
  ∀ type, f.body ≠ .bridge (.ofType .finalize type)

/-- A value that can be had by anyone: neither a wrapper nor a finalizer. -/
def Script.Value.Plain : Value → Prop
  | .handle _ => False
  | .function f => f.Fair
  | .nil | .bool _ | .number _ | .string _ | .pointer _ => True

/-- What the custody of wrappers depends on apart from where they are. -/
structure Fixtures where
  ledger : Ledger
  registry : Registry
  exposed : Table TypeId BehaviourKeys
  classes : Table TypeId Value
  patches : PatchTable FunctionRef
  members : Table (TypeId × String) FunctionRef
  behaviours : Array Behaviour

/-- What the custody of wrappers on an engine depends on apart from where they are. -/
def Engine.fixtures (e : Engine) : Fixtures where
  ledger := e.ledger
  registry := e.bridge.registry
  exposed := e.bridge.exposed
  classes := e.bridge.classes
  patches := e.bridge.patches
  members := e.bridge.wrappers
  behaviours := e.script.behaviours

/-- An entry for an object of a type. -/
def Bridge.Registry.Entry.IsOf (type : TypeId) : Entry → Prop
  | .strong ref | .weak ref => ref.type = type
  | .type _ => False

namespace Fixtures

/-- A handle that, unless it was released, is one of an object, and a behaviour that is the one of
the instances of its type. -/
def InstanceOf (x : Fixtures) (type : TypeId) (behaviour : Nat) (h : Handle) : Prop :=
  (∃ keys, x.exposed.find? type = some keys ∧ behaviour = keys.ofInstance) ∧
    ∀ entry, x.registry.entry? h = some entry → entry.IsOf type

/-- A wrapper that stands for a type. -/
structure ClassOf (x : Fixtures) (type : TypeId) (w : Wrapper) : Prop where
  behaviour : ∃ keys, x.exposed.find? type = some keys ∧ w.behaviour = keys.ofClass
  entry : ∀ entry, x.registry.entry? w.handle = some entry → entry = .type type

/-- A behaviour with the finalizer of a type. -/
def Finalizes (x : Fixtures) (type : TypeId) (key : Nat) : Prop :=
  ∃ b f, x.behaviours[key]? = some b ∧ b.gc = some f ∧ f.body = .bridge (.ofType .finalize type)

/-- The functions that can be had are fair. -/
structure Fair (x : Fixtures) : Prop where
  finalizes : ∀ type keys, x.exposed.find? type = some keys →
    x.Finalizes type keys.ofInstance ∧ x.Finalizes type keys.ofClass
  parts : ∀ b ∈ x.behaviours, ∀ part, part ≠ .gc → ∀ f, b.part part = some f → f.Fair
  patches : ∀ signature f, x.patches.find? signature = some f → f.Fair
  members : ∀ key f, x.members.find? key = some f → f.Fair

end Fixtures

/-- What scripts do with objects gets to the bridge: reading an instance of a type that they know asks
for a member of that type, and the function that was made for a member calls it. -/
structure Furnished (exposed : Table TypeId BehaviourKeys)
    (members : Table (TypeId × String) FunctionRef) (behaviours : Array Behaviour) : Prop where
  index : ∀ type keys, exposed.find? type = some keys → ∃ b f,
    behaviours[keys.ofInstance]? = some b ∧ b.part .index = some f ∧
      f.body = .bridge (.ofType .instanceIndex type)
  members : ∀ type name f, members.find? (type, name) = some f →
    f.body = .bridge (.member type name)

/-- The handles of the wrappers that somebody has, and of those that wait. -/
def Carried (has : Value → Prop) (queue : List Remains) (h : Handle) : Prop :=
  (∃ w, has (.handle w) ∧ w.handle = h) ∨ ∃ r ∈ queue, r.handle = h

/-- The custody of wrappers, given which values somebody has and which wrappers wait to be
finalized. -/
structure Custody (x : Fixtures) (queue : List Remains) (has : Value → Prop) : Prop where
  books : Books x.ledger x.registry (Carried has queue)
  fair : x.Fair
  functions : ∀ f, has (.function f) → f.Fair
  /-- A wrapper stands for an object, or it is the one that stands for its type. -/
  wrapper : ∀ w, has (.handle w) → (∃ type, x.InstanceOf type w.behaviour w.handle) ∨
    ∃ type, x.classes.find? type = some (.handle w)
  /-- No two wrappers stand for one handle. -/
  same : ∀ w, has (.handle w) → ∀ w', has (.handle w') → w.handle = w'.handle → w = w'
  classes : ∀ type v, x.classes.find? type = some v →
    has v ∧ ∃ w, v = .handle w ∧ x.ClassOf type w
  classes_inj : ∀ type other v, x.classes.find? type = some v → x.classes.find? other = some v →
    type = other
  queued : ∀ r ∈ queue, ∃ type, x.InstanceOf type r.behaviour r.handle
  gone : ∀ r ∈ queue, ∀ w, has (.handle w) → w.handle ≠ r.handle
  nodup : (queue.map (·.handle)).Nodup

variable {x : Fixtures} {queue : List Remains} {has has' : Value → Prop} {type : TypeId}
  {keys : BehaviourKeys} {h : Handle} {entry : Entry} {w : Wrapper} {b : Nat} {f : FunctionRef}

/-! ## What stays as it is -/

/-- A function with steps of its own is no finalizer. -/
theorem Script.FunctionRef.Fair.of_block {steps : Script.Block} (block : f.body = .block steps) :
    f.Fair := by
  intro type same
  rw [block] at same
  cases same

/-- What is known about an instance depends on its handle only. -/
theorem Fixtures.InstanceOf.mono {y : Fixtures} (is : x.InstanceOf type b h)
    (exposed : ∀ keys, x.exposed.find? type = some keys → y.exposed.find? type = some keys)
    (entries : ∀ entry, y.registry.entry? h = some entry → x.registry.entry? h = some entry) :
    y.InstanceOf type b h := by
  obtain ⟨⟨keys, found, same⟩, sort⟩ := is
  exact ⟨⟨keys, exposed keys found, same⟩, fun entry there => sort entry (entries entry there)⟩

theorem Fixtures.ClassOf.mono {y : Fixtures} (is : x.ClassOf type w)
    (exposed : ∀ keys, x.exposed.find? type = some keys → y.exposed.find? type = some keys)
    (entries : ∀ entry, y.registry.entry? w.handle = some entry →
      x.registry.entry? w.handle = some entry) : y.ClassOf type w := by
  obtain ⟨⟨keys, found, same⟩, sort⟩ := is
  exact ⟨⟨keys, exposed keys found, same⟩, fun entry there => sort entry (entries entry there)⟩

namespace Custody

/-- Nobody has anything yet. -/
theorem empty (nothing : ∀ v, ¬ has v) :
    Custody ⟨[], {}, {}, {}, {}, {}, #[]⟩ [] has where
  books := Books.empty.congr fun h => by simp [Carried, nothing]
  fair := ⟨nofun, fun _ member => (Array.not_mem_empty _ member).elim, nofun, nofun⟩
  functions := fun _ there => (nothing _ there).elim
  wrapper := fun _ there => (nothing _ there).elim
  same := fun _ there => (nothing _ there).elim
  classes := nofun
  classes_inj := nofun
  queued := nofun
  gone := nofun
  nodup := List.nodup_nil

/-- Values move about, and none but plain ones appear or disappear. -/
theorem move (custody : Custody x queue has) (moved : ∀ v, has' v → has v ∨ v.Plain)
    (kept : ∀ w, has (.handle w) → has' (.handle w)) : Custody x queue has' := by
  have wrappers : ∀ w, has' (.handle w) ↔ has (.handle w) := fun w =>
    ⟨fun there => (moved _ there).resolve_right id, kept w⟩
  constructor
  case books =>
    refine custody.books.congr fun h => ?_
    unfold Carried
    simp only [wrappers]
  case fair => exact custody.fair
  case functions => exact fun f there => (moved _ there).elim (custody.functions f) id
  case wrapper => exact fun w there => custody.wrapper w ((wrappers w).1 there)
  case same =>
    exact fun w there w' there' => custody.same w ((wrappers w).1 there) w' ((wrappers w').1 there')
  case classes =>
    intro type v found
    obtain ⟨there, w, rfl, is⟩ := custody.classes type v found
    exact ⟨kept w there, w, rfl, is⟩
  case classes_inj => exact custody.classes_inj
  case queued => exact custody.queued
  case gone => exact fun r member w there => custody.gone r member w ((wrappers w).1 there)
  case nodup => exact custody.nodup

/-- Wrappers that nobody has any more wait from then on. -/
theorem bury (custody : Custody x queue has) (has' : Value → Prop) {dead : List Wrapper}
    (distinct : dead.Nodup)
    (was : ∀ w ∈ dead, has (.handle w)) (gone : ∀ w ∈ dead, ¬ has' (.handle w))
    (moved : ∀ v, has' v → has v) (kept : ∀ w, has (.handle w) → has' (.handle w) ∨ w ∈ dead)
    (classes : ∀ type v, x.classes.find? type = some v → has' v) :
    Custody x (queue ++ dead.map (·.remains)) has' := by
  have waiting : ∀ r, r ∈ queue ++ dead.map (·.remains) ↔ r ∈ queue ∨ ∃ w ∈ dead, w.remains = r :=
    fun r => by rw [List.mem_append, List.mem_map]
  constructor
  case books =>
    refine custody.books.congr fun h => ?_
    unfold Carried
    simp only [waiting]
    constructor
    · rintro (⟨w, there, same⟩ | ⟨r, queued | ⟨w, member, rfl⟩, same⟩)
      · exact .inl ⟨w, moved _ there, same⟩
      · exact .inr ⟨r, queued, same⟩
      · exact .inl ⟨w, was w member, same⟩
    · rintro (⟨w, there, same⟩ | ⟨r, queued, same⟩)
      · rcases kept w there with stays | member
        · exact .inl ⟨w, stays, same⟩
        · exact .inr ⟨w.remains, .inr ⟨w, member, rfl⟩, same⟩
      · exact .inr ⟨r, .inl queued, same⟩
  case fair => exact custody.fair
  case functions => exact fun f there => custody.functions f (moved _ there)
  case wrapper => exact fun w there => custody.wrapper w (moved _ there)
  case same =>
    exact fun w there w' there' => custody.same w (moved _ there) w' (moved _ there')
  case classes =>
    intro type v found
    exact ⟨classes type v found, (custody.classes type v found).2⟩
  case classes_inj => exact custody.classes_inj
  case queued =>
    intro r member
    rcases (waiting r).1 member with queued | ⟨w, inside, rfl⟩
    · exact custody.queued r queued
    · -- A wrapper that stands for a type is still there.
      refine (custody.wrapper w (was w inside)).resolve_right fun ⟨type, found⟩ => ?_
      exact gone w inside (classes type _ found)
  case gone =>
    intro r member w there same
    rcases (waiting r).1 member with queued | ⟨other, inside, rfl⟩
    · exact custody.gone r queued w (moved _ there) same
    · have equal := custody.same w (moved _ there) other (was other inside) same
      exact gone other inside (equal ▸ there)
  case nodup =>
    rw [List.map_append, List.map_map, List.nodup_append]
    refine ⟨custody.nodup, ?_, ?_⟩
    · refine List.Nodup.map_on (fun w member w' member' same => ?_) distinct
      exact custody.same w (was w member) w' (was w' member') same
    · intro a queued b member equal
      obtain ⟨r, waits, rfl⟩ := List.mem_map.1 queued
      obtain ⟨w, inside, rfl⟩ := List.mem_map.1 member
      exact custody.gone r waits w (was w inside) equal.symm

/-! ## What becomes of everything else -/

/-- What wrappers stand for stays as it is, whatever becomes of the rest. -/
theorem rebase (custody : Custody x queue has) {y : Fixtures} {rest : List Remains}
    (fewer : rest.Sublist queue) (books : Books y.ledger y.registry (Carried has rest))
    (fair : y.Fair) (classes : y.classes = x.classes)
    (exposed : ∀ type keys, x.exposed.find? type = some keys → y.exposed.find? type = some keys)
    (entries : ∀ h, Carried has queue h → ∀ entry, y.registry.entry? h = some entry →
      x.registry.entry? h = some entry) : Custody y rest has := by
  have carried : ∀ w, has (.handle w) → Carried has queue w.handle :=
    fun w there => .inl ⟨w, there, rfl⟩
  constructor
  case books => exact books
  case fair => exact fair
  case functions => exact custody.functions
  case wrapper =>
    intro w there
    rw [classes]
    exact (custody.wrapper w there).imp_left fun ⟨type, is⟩ =>
      ⟨type, is.mono (exposed type) (entries _ (carried w there))⟩
  case same => exact custody.same
  case classes =>
    intro type v found
    rw [classes] at found
    obtain ⟨there, w, rfl, is⟩ := custody.classes type v found
    exact ⟨there, w, rfl, is.mono (exposed type) (entries _ (carried w there))⟩
  case classes_inj =>
    rw [classes]
    exact custody.classes_inj
  case queued =>
    intro r member
    obtain ⟨type, is⟩ := custody.queued r (fewer.subset member)
    refine ⟨type, is.mono (exposed type) (entries _ ?_)⟩
    exact .inr ⟨r, fewer.subset member, rfl⟩
  case gone => exact fun r member => custody.gone r (fewer.subset member)
  case nodup => exact custody.nodup.sublist (fewer.map _)

/-- Whatever becomes of functions, as long as those that can be had are fair. -/
theorem refit (custody : Custody x queue has) {exposed : Table TypeId BehaviourKeys}
    {patches : PatchTable FunctionRef} {members : Table (TypeId × String) FunctionRef}
    {behaviours : Array Behaviour}
    (kept : ∀ type keys, x.exposed.find? type = some keys → exposed.find? type = some keys)
    (fair : Fixtures.Fair { x with exposed, patches, members, behaviours }) :
    Custody { x with exposed, patches, members, behaviours } queue has :=
  custody.rebase (.refl _) custody.books fair rfl kept fun _ _ _ => id

end Custody

namespace Fixtures.Fair

/-- Handles and wrappers have nothing to do with it. -/
theorem keeps (fair : x.Fair) {ledger : Ledger} {registry : Registry}
    {classes : Table TypeId Value} : Fixtures.Fair { x with ledger, registry, classes } :=
  ⟨fair.finalizes, fair.parts, fair.patches, fair.members⟩

theorem finalizes_push (fair : x.Fair) {more : Array Behaviour}
    (found : x.exposed.find? type = some keys) :
    Fixtures.Finalizes { x with behaviours := x.behaviours ++ more } type keys.ofInstance ∧
      Fixtures.Finalizes { x with behaviours := x.behaviours ++ more } type keys.ofClass := by
  have grown : ∀ key, x.Finalizes type key →
      Fixtures.Finalizes { x with behaviours := x.behaviours ++ more } type key := by
    rintro key ⟨b, f, there, gc, body⟩
    refine ⟨b, f, ?_, gc, body⟩
    obtain ⟨inBounds, _⟩ := Array.getElem?_eq_some_iff.1 there
    rw [Array.getElem?_append_left inBounds]
    exact there
  obtain ⟨first, second⟩ := fair.finalizes type keys found
  exact ⟨grown _ first, grown _ second⟩

/-- More behaviours, none of which hands out a finalizer. -/
theorem push (fair : x.Fair) {more : Array Behaviour}
    (parts : ∀ b ∈ more, ∀ part, part ≠ .gc → ∀ f, b.part part = some f → f.Fair) :
    Fixtures.Fair { x with behaviours := x.behaviours ++ more } where
  finalizes := fun _ _ found => fair.finalizes_push found
  parts := fun b member => (Array.mem_append.1 member).elim (fair.parts b) (parts b)
  patches := fair.patches
  members := fair.members

/-- A type is made known to scripts. -/
theorem expose (fair : x.Fair) {ofInstance ofClass : Behaviour} {f g : FunctionRef}
    (instanceGc : ofInstance.gc = some f) (classGc : ofClass.gc = some g)
    (first : f.body = .bridge (.ofType .finalize type))
    (second : g.body = .bridge (.ofType .finalize type))
    (parts : ∀ b ∈ #[ofInstance, ofClass], ∀ part, part ≠ .gc →
      ∀ f, b.part part = some f → f.Fair) :
    Fixtures.Fair { x with
      exposed := x.exposed.insert type ⟨x.behaviours.size, x.behaviours.size + 1⟩
      behaviours := x.behaviours ++ #[ofInstance, ofClass] } where
  finalizes := fun other keys found => by
    dsimp only at found
    rw [Table.find?_insert] at found
    split at found
    · rename_i same
      cases found
      subst same
      refine ⟨⟨ofInstance, f, ?_, instanceGc, first⟩, ⟨ofClass, g, ?_, classGc, second⟩⟩
      · simp
      · simp
    · exact fair.finalizes_push found
  parts := fun b member => (Array.mem_append.1 member).elim (fair.parts b) (parts b)
  patches := fair.patches
  members := fair.members

theorem insertPatch (fair : x.Fair) (signature : String) (isFair : f.Fair) :
    Fixtures.Fair { x with patches := x.patches.insert signature f } where
  finalizes := fair.finalizes
  parts := fair.parts
  patches := fun other g found => by
    dsimp only at found
    rw [Table.find?_insert] at found
    split at found
    · cases found
      exact isFair
    · exact fair.patches other g found
  members := fair.members

theorem erasePatch (fair : x.Fair) (signature : String) :
    Fixtures.Fair { x with patches := x.patches.erase signature } where
  finalizes := fair.finalizes
  parts := fair.parts
  patches := fun other g found => by
    dsimp only at found
    rw [Table.find?_erase] at found
    split at found
    · cases found
    · exact fair.patches other g found
  members := fair.members

theorem insertMember (fair : x.Fair) (key : TypeId × String) (isFair : f.Fair) :
    Fixtures.Fair { x with members := x.members.insert key f } where
  finalizes := fair.finalizes
  parts := fair.parts
  patches := fair.patches
  members := fun other g found => by
    dsimp only at found
    rw [Table.find?_insert] at found
    split at found
    · cases found
      exact isFair
    · exact fair.members other g found

end Fixtures.Fair

namespace Furnished

variable {exposed : Table TypeId BehaviourKeys} {members : Table (TypeId × String) FunctionRef}
  {behaviours : Array Behaviour}

/-- More behaviours, whatever is in them. -/
theorem append (furnished : Furnished exposed members behaviours) (more : Array Behaviour) :
    Furnished exposed members (behaviours ++ more) where
  index := fun type keys found => by
    obtain ⟨b, f, there, part, body⟩ := furnished.index type keys found
    obtain ⟨inside, _⟩ := Array.getElem?_eq_some_iff.1 there
    exact ⟨b, f, by rw [Array.getElem?_append_left inside, there], part, body⟩
  members := furnished.members

/-- A type is made known to scripts. -/
theorem expose (furnished : Furnished exposed members behaviours) {ofInstance ofClass : Behaviour}
    (part : ofInstance.part .index = some f) (body : f.body = .bridge (.ofType .instanceIndex type)) :
    Furnished (exposed.insert type ⟨behaviours.size, behaviours.size + 1⟩) members
      (behaviours ++ #[ofInstance, ofClass]) where
  index := fun other keys found => by
    rw [Table.find?_insert] at found
    split at found
    · rename_i same
      cases found
      subst same
      exact ⟨ofInstance, f, by simp, part, body⟩
    · exact (furnished.append _).index other keys found
  members := furnished.members

/-- A function is made for a member. -/
theorem insertMember (furnished : Furnished exposed members behaviours) {name : String}
    (body : f.body = .bridge (.member type name)) :
    Furnished exposed (members.insert (type, name) f) behaviours where
  index := furnished.index
  members := fun other called g found => by
    rw [Table.find?_insert] at found
    split at found
    · rename_i same
      cases same
      cases found
      exact body
    · exact furnished.members other called g found

end Furnished

/-! ## What becomes of handles -/

namespace Custody

theorem registry_fresh (custody : Custody x queue has) (entry : Entry)
    (room : (x.registry.insert entry).2.slots.size ≤ UInt32.size) :
    (∀ w, has (.handle w) → w.handle ≠ (x.registry.insert entry).1) ∧
      ∀ r ∈ queue, r.handle ≠ (x.registry.insert entry).1 := by
  obtain ⟨-, -, notCarried⟩ := custody.books.fresh entry room
  exact ⟨fun w there same => notCarried (.inl ⟨w, there, same⟩),
    fun r member same => notCarried (.inr ⟨r, member, same⟩)⟩

/-- What a handle that is not the new one stands for. -/
theorem entry?_insert (custody : Custody x queue has) {entry : Entry}
    (room : (x.registry.insert entry).2.slots.size ≤ UInt32.size) {k : Handle}
    (other : k ≠ (x.registry.insert entry).1) :
    Registry.entry? (x.registry.insert entry).2 k = x.registry.entry? k := by
  rw [custody.books.tidy.lookup_insert entry room, if_neg other]

/-- The host is given a handle. -/
theorem give (custody : Custody x queue has) (entry : Entry)
    (room : (x.registry.insert entry).2.slots.size ≤ UInt32.size) :
    Custody { x with
      ledger := .given (x.registry.insert entry).1 :: x.ledger
      registry := (x.registry.insert entry).2 } queue has := by
  obtain ⟨-, -, notCarried⟩ := custody.books.fresh entry room
  refine custody.rebase (.refl _) (custody.books.give entry room) custody.fair.keeps rfl
    (fun _ _ => id) fun h carried other found => ?_
  have apart : h ≠ (x.registry.insert entry).1 := fun same => notCarried (same ▸ carried)
  rwa [← custody.entry?_insert room apart]

/-- The wrappers that there are when one more is made. -/
theorem carried_insert (w : Wrapper) (k : Handle) :
    Carried (fun v => v = .handle w ∨ has v) queue k ↔ k = w.handle ∨ Carried has queue k := by
  unfold Carried
  constructor
  · rintro (⟨w', same | there, rfl⟩ | queued)
    · cases same
      exact .inl rfl
    · exact .inr (.inl ⟨w', there, rfl⟩)
    · exact .inr (.inr queued)
  · rintro (rfl | ⟨w', there, rfl⟩ | queued)
    · exact .inl ⟨w, .inl rfl, rfl⟩
    · exact .inl ⟨w', .inr there, rfl⟩
    · exact .inr queued

/-- A wrapper is made for a new handle. -/
theorem carry (custody : Custody x queue has) (entry : Entry)
    (room : (x.registry.insert entry).2.slots.size ≤ UInt32.size)
    (handle : w.handle = (x.registry.insert entry).1) {classes : Table TypeId Value}
    (wrapper : (∃ type, Fixtures.InstanceOf
        { x with registry := (x.registry.insert entry).2 } type w.behaviour w.handle) ∨
      ∃ type, classes.find? type = some (.handle w))
    (grown : ∀ type v, classes.find? type = some v →
      x.classes.find? type = some v ∨ (x.classes.find? type = none ∧ v = .handle w ∧
        Fixtures.ClassOf { x with registry := (x.registry.insert entry).2 } type w))
    (kept : ∀ type v, x.classes.find? type = some v → classes.find? type = some v)
    (single : ∀ type other, classes.find? type = some (.handle w) →
      classes.find? other = some (.handle w) → type = other) :
    Custody { x with registry := (x.registry.insert entry).2, classes } queue
      fun v => v = .handle w ∨ has v := by
  obtain ⟨apart, waiting⟩ := custody.registry_fresh entry room
  rw [← handle] at apart waiting
  have entries : ∀ {k : Handle}, k ≠ w.handle → ∀ other,
      Registry.entry? (x.registry.insert entry).2 k = some other →
        x.registry.entry? k = some other := fun {k} other _ found => by
    rwa [← custody.entry?_insert room (handle ▸ other)]
  have new : ∀ type v, x.classes.find? type = some v → v ≠ .handle w := by
    rintro type v found rfl
    exact apart w (custody.classes type _ found).1 rfl
  constructor
  case books =>
    refine (custody.books.carry entry room).congr fun k => ?_
    rw [carried_insert, handle]
  case fair => exact custody.fair.keeps
  case functions =>
    rintro f (same | there)
    · cases same
    · exact custody.functions f there
  case wrapper =>
    rintro w' (same | there)
    · cases same
      refine wrapper.imp_left fun ⟨type, is⟩ => ⟨type, is.mono (fun _ found => found) ?_⟩
      exact fun _ found => found
    · rcases custody.wrapper w' there with ⟨type, is⟩ | ⟨type, found⟩
      · exact .inl ⟨type, is.mono (fun _ found => found) (entries (apart w' there))⟩
      · exact .inr ⟨type, kept type _ found⟩
  case same =>
    rintro w₁ (first | there) w₂ (second | there') equal
    · cases first
      cases second
      rfl
    · cases first
      exact (apart w₂ there' equal.symm).elim
    · cases second
      exact (apart w₁ there equal).elim
    · exact custody.same w₁ there w₂ there' equal
  case classes =>
    intro type v found
    rcases grown type v found with old | ⟨_, rfl, is⟩
    · obtain ⟨there, w', rfl, is⟩ := custody.classes type v old
      exact ⟨.inr there, w', rfl, is.mono (fun _ found => found) (entries (apart w' there))⟩
    · exact ⟨.inl rfl, w, rfl, is.behaviour, is.entry⟩
  case classes_inj =>
    intro type other v first second
    rcases grown type v first with old | ⟨_, rfl, _⟩
    · rcases grown other v second with old' | ⟨_, rfl, _⟩
      · exact custody.classes_inj type other v old old'
      · exact (new type _ old rfl).elim
    · exact single type other first second
  case queued =>
    intro r member
    obtain ⟨type, is⟩ := custody.queued r member
    exact ⟨type, is.mono (fun _ found => found) (entries (waiting r member))⟩
  case gone =>
    rintro r member w' (same | there)
    · cases same
      exact fun equal => waiting r member equal.symm
    · exact custody.gone r member w' there
  case nodup => exact custody.nodup

/-- A wrapper is made for an object. -/
theorem carryObject (custody : Custody x queue has) (isOf : entry.IsOf type)
    (room : (x.registry.insert entry).2.slots.size ≤ UInt32.size)
    (handle : w.handle = (x.registry.insert entry).1)
    (exposed : x.exposed.find? type = some keys) (behaviour : w.behaviour = keys.ofInstance) :
    Custody { x with registry := (x.registry.insert entry).2 } queue
      fun v => v = .handle w ∨ has v := by
  obtain ⟨apart, -⟩ := custody.registry_fresh entry room
  have new : ∀ type, x.classes.find? type ≠ some (.handle w) := fun type found =>
    apart w (custody.classes type _ found).1 handle
  refine custody.carry entry room handle (.inl ⟨type, ⟨keys, exposed, behaviour⟩, ?_⟩)
    (fun _ _ => .inl) (fun _ _ => id) fun type _ found => (new type found).elim
  intro other found
  rw [custody.books.tidy.lookup_insert entry room, if_pos handle] at found
  cases found
  exact isOf

/-- A wrapper is made for a type that had none. -/
theorem carryClass (custody : Custody x queue has)
    (room : (x.registry.insert (.type type)).2.slots.size ≤ UInt32.size)
    (handle : w.handle = (x.registry.insert (.type type)).1)
    (exposed : x.exposed.find? type = some keys) (behaviour : w.behaviour = keys.ofClass)
    (none : x.classes.find? type = none) :
    Custody { x with
      registry := (x.registry.insert (.type type)).2
      classes := x.classes.insert type (.handle w) } queue fun v => v = .handle w ∨ has v := by
  obtain ⟨apart, -⟩ := custody.registry_fresh (.type type) room
  have new : ∀ other, x.classes.find? other ≠ some (.handle w) := fun other found =>
    apart w (custody.classes other _ found).1 handle
  have found : (x.classes.insert type (.handle w)).find? type = some (.handle w) :=
    Table.find?_insert_self ..
  have single : ∀ other, (x.classes.insert type (.handle w)).find? other = some (.handle w) →
      other = type := by
    intro other there
    rw [Table.find?_insert] at there
    split at there
    · assumption
    · exact (new other there).elim
  refine custody.carry (.type type) room handle (.inr ⟨type, found⟩) ?_ ?_
    fun first second one other => (single first one).trans (single second other).symm
  · intro other v there
    rw [Table.find?_insert] at there
    split at there
    · rename_i same
      cases there
      subst same
      refine .inr ⟨none, rfl, ⟨keys, exposed, behaviour⟩, fun entry standing => ?_⟩
      dsimp only at standing
      rw [custody.books.tidy.lookup_insert _ room, if_pos handle] at standing
      cases standing
      rfl
    · exact .inl there
  · intro other v there
    rw [Table.find?_insert, if_neg]
    · exact there
    · rintro rfl
      rw [none] at there
      cases there

theorem entry?_release (issued : x.registry.isIssued h = true) {k : Handle}
    (found : Registry.entry? (Operation.apply x.registry (.release h)) k = some entry) :
    x.registry.entry? k = some entry := by
  rw [Registry.lookup_release issued] at found
  split at found
  · cases found
  · exact found

/-- The host releases a handle. -/
theorem revoke (custody : Custody x queue has) (issued : x.registry.isIssued h = true)
    (bound : releaseCount h.index (.revoked h :: x.ledger) < UInt32.size) :
    Custody { x with
      ledger := .revoked h :: x.ledger
      registry := Operation.apply x.registry (.release h) } queue has :=
  custody.rebase (.refl _) (custody.books.revoke issued bound) custody.fair.keeps rfl
    (fun _ _ => id) fun _ _ _ => entry?_release issued

/-- The handles that are carried without the first that waits. -/
theorem carried_tail {r : Remains} (custody : Custody x (r :: queue) has) (k : Handle) :
    Carried has queue k ↔ Carried has (r :: queue) k ∧ k ≠ r.handle := by
  have distinct := custody.nodup
  rw [List.map_cons, List.nodup_cons] at distinct
  unfold Carried
  constructor
  · rintro (⟨w, there, rfl⟩ | ⟨other, member, rfl⟩)
    · exact ⟨.inl ⟨w, there, rfl⟩, custody.gone r List.mem_cons_self w there⟩
    · refine ⟨.inr ⟨other, List.mem_cons_of_mem _ member, rfl⟩, fun same => distinct.1 ?_⟩
      rw [← same]
      exact List.mem_map_of_mem member
  · rintro ⟨⟨w, there, rfl⟩ | ⟨other, member, rfl⟩, apart⟩
    · exact .inl ⟨w, there, rfl⟩
    · rcases List.mem_cons.1 member with rfl | member
      · exact (apart rfl).elim
      · exact .inr ⟨other, member, rfl⟩

/-- The first wrapper that waits is done with. -/
theorem settle {r : Remains} (custody : Custody x (r :: queue) has) {ledger : Ledger}
    {registry : Registry} (books : Books ledger registry fun k =>
      Carried has (r :: queue) k ∧ k ≠ r.handle)
    (entries : ∀ k entry, registry.entry? k = some entry → x.registry.entry? k = some entry) :
    Custody { x with ledger, registry } queue has :=
  custody.rebase (List.sublist_cons_self r queue) (books.congr custody.carried_tail)
    custody.fair.keeps rfl (fun _ _ => id) fun k _ => entries k

/-- A finalizer releases the handle of its wrapper. -/
theorem finalize {r : Remains} (custody : Custody x (r :: queue) has)
    (issued : x.registry.isIssued r.handle = true)
    (bound : releaseCount r.handle.index (.finalized r.handle :: x.ledger) < UInt32.size) :
    Custody { x with
      ledger := .finalized r.handle :: x.ledger
      registry := Operation.apply x.registry (.release r.handle) } queue has := by
  refine custody.settle ?_ fun _ _ => entry?_release issued
  exact custody.books.finalize issued (.inr ⟨r, List.mem_cons_self, rfl⟩) bound

/-- A finalizer finds that the handle of its wrapper was released already. -/
theorem pass {r : Remains} (custody : Custody x (r :: queue) has)
    (dead : x.registry.isIssued r.handle = false) : Custody x queue has :=
  custody.settle (custody.books.lose dead) fun _ _ found => found

end Custody

end ScriptHost

import ScriptHost.Proofs.Engine.Calls
import ScriptHost.Proofs.Engine.Values
import ScriptHost.Proofs.Handles.Custody
import ScriptHost.Proofs.Host.Typing
/-!
Balanced worlds: whatever wrapper an engine holds, or a computation has at hand, is in custody, and
every reference to an object is typed. Computations that keep a world balanced are put together like
the computations themselves. They come in pairs that do the same, so that what runs the functions of
scripts can be replaced by something that does the same wherever it is asked in a balanced world.
-/
namespace ScriptHost

open Bridge (Deed Registry releaseCount)
open Bridge.Registry (Entry)
open Host (World)
open Script (FunctionRef Remains Value Wrapper)

variable {ε δ α β : Type} {queue : List Remains} {loose loose' : List Value} {s : Host.State}
  {e : Engine} {w v u : World Engine}

/-! ## Balanced worlds -/

/-- An engine whose bridge is there, and past which no wrapper was made and no finalizer was handed
out. No finalizer was refused, no slot was released so often that its generation came round, and
there are not more slots than indices. -/
structure Engine.Regular (e : Engine) : Prop where
  bridge : e.bridgeDropped = false
  owned : .bypassed ∉ e.ledger
  finalized : ∀ slot, .refused slot ∉ e.ledger
  counts : ∀ slot, releaseCount slot e.ledger < UInt32.size
  room : e.bridge.registry.slots.size ≤ UInt32.size

/-- An engine that handed out no handle and released none. -/
theorem Engine.Regular.of_nil (bridge : e.bridgeDropped = false) (nothing : e.ledger = [])
    (room : e.bridge.registry.slots.size ≤ UInt32.size) : e.Regular := by
  constructor
  case bridge => exact bridge
  case owned => simp [nothing]
  case finalized => simp [nothing]
  case counts =>
    intro slot
    rw [nothing]
    exact Nat.zero_lt_succ _
  case room => exact room

theorem Engine.Regular.congr {e' : Engine} (regular : e.Regular)
    (dropped : e'.bridgeDropped = e.bridgeDropped) (ledger : e'.ledger = e.ledger)
    (registry : e'.bridge.registry = e.bridge.registry) : e'.Regular := by
  obtain ⟨bridge, owned, finalized, counts, room⟩ := regular
  constructor
  case bridge => rwa [dropped]
  case owned => rwa [ledger]
  case finalized => rwa [ledger]
  case counts => rwa [ledger]
  case room => rwa [registry]

/-- An engine that is regular was so before anything was written into its books. -/
theorem Engine.Regular.earlier {e' : Engine} {deed : Deed} (regular : e'.Regular)
    (dropped : e'.bridgeDropped = e.bridgeDropped) (ledger : e'.ledger = deed :: e.ledger)
    (slots : e.bridge.registry.slots.size ≤ e'.bridge.registry.slots.size) : e.Regular := by
  obtain ⟨bridge, owned, finalized, counts, room⟩ := regular
  rw [ledger] at owned finalized counts
  constructor
  case bridge => rwa [← dropped]
  case owned => exact fun member => owned (List.mem_cons_of_mem _ member)
  case finalized => exact fun slot member => finalized slot (List.mem_cons_of_mem _ member)
  case counts =>
    exact fun slot => Nat.lt_of_le_of_lt (Bridge.releaseCount_le_cons ..) (counts slot)
  case room => exact Nat.le_trans slots room

/-- What an engine holds, or a computation has at hand. -/
def Engine.Has (e : Engine) (loose : List Value) (v : Value) : Prop :=
  v ∈ e.values ∨ v ∈ loose

/-- An entry for an object of one of the first `n` types. -/
def Bridge.Registry.Entry.Within (n : Nat) : Entry → Prop
  | .strong ref | .weak ref => (Host.Value.object ref).Within n
  | .type _ => True

/-- The wrappers of an engine are in custody, given some that wait to be finalized before the others
and the values that a computation has at hand, and references are typed. -/
structure Sound (queue : List Remains) (loose : List Value) (s : Host.State) (e : Engine) :
    Prop where
  typed : s.Typed
  names : ∀ entry ∈ e.names, (Host.Value.object entry.2).Within s.types
  entries : e.bridge.registry.All (·.Within s.types)
  globals : e.script.globals.keys.Nodup
  bindings : e.bindings.keys.Nodup
  classes : e.bridge.classes.keys.Nodup
  furnished : Furnished e.bridge.exposed e.bridge.wrappers e.script.behaviours
  custody : e.Regular → Custody e.fixtures (queue ++ e.script.graveyard.toList) (e.Has loose)

/-- The engine and the host of a world are sound, given the values that a computation has at hand. -/
def Balanced (loose : List Value) (w : World Engine) : Prop :=
  Sound [] loose w.host w.outer

namespace Sound

/-- Values move about, and none but plain ones appear or disappear. -/
theorem move (sound : Sound queue loose s e) {e' : Engine} (fixtures : e'.fixtures = e.fixtures)
    (graveyard : e'.script.graveyard = e.script.graveyard) (names : e'.names = e.names)
    (regular : e'.Regular → e.Regular) (globals : e'.script.globals.keys.Nodup)
    (bindings : e'.bindings.keys.Nodup)
    (moved : e.Regular → ∀ v, e'.Has loose' v → e.Has loose v ∨ v.Plain)
    (kept : ∀ w, e.Has loose (.handle w) → e'.Has loose' (.handle w)) :
    Sound queue loose' s e' where
  typed := sound.typed
  names := names ▸ sound.names
  entries := by
    have registry : e'.bridge.registry = e.bridge.registry := congrArg (·.registry) fixtures
    rw [registry]
    exact sound.entries
  globals := globals
  bindings := bindings
  classes := by
    have classes : e'.bridge.classes = e.bridge.classes := congrArg (·.classes) fixtures
    rw [classes]
    exact sound.classes
  furnished := by
    have exposed : e'.bridge.exposed = e.bridge.exposed := congrArg (·.exposed) fixtures
    have members : e'.bridge.wrappers = e.bridge.wrappers := congrArg (·.members) fixtures
    have behaviours : e'.script.behaviours = e.script.behaviours :=
      congrArg (·.behaviours) fixtures
    rw [exposed, members, behaviours]
    exact sound.furnished
  custody := fun later => by
    have before := regular later
    rw [fixtures, graveyard]
    exact (sound.custody before).move (moved before) kept

/-- Nothing is claimed about the wrappers of an engine that is not regular. -/
theorem irregular {queue' : List Remains} (sound : Sound queue loose s e)
    (irregular : ¬ e.Regular) : Sound queue' loose' s e :=
  ⟨sound.typed, sound.names, sound.entries, sound.globals, sound.bindings, sound.classes,
    sound.furnished, fun regular => (irregular regular).elim⟩

/-- What is at hand is exchanged for something of the same worth. -/
theorem trade (sound : Sound queue loose s e)
    (moved : e.Regular → ∀ v ∈ loose', e.Has loose v ∨ v.Plain)
    (kept : ∀ w, .handle w ∈ loose → e.Has loose' (.handle w)) : Sound queue loose' s e :=
  sound.move rfl rfl rfl id sound.globals sound.bindings
    (fun regular v => Or.rec (fun there => .inl (.inl there)) (moved regular v))
    fun w => Or.rec .inl (kept w)

/-- Something is at hand that is held anyway, or that anyone can have. -/
theorem adopt (sound : Sound queue loose s e) {x : Value}
    (had : e.Regular → x ∈ e.values ∨ x.Plain) : Sound queue (x :: loose) s e := by
  refine sound.trade (fun regular u member => ?_) fun w there => .inr (List.mem_cons_of_mem _ there)
  rcases List.mem_cons.1 member with rfl | there
  · exact (had regular).imp_left .inl
  · exact .inl (.inr there)

/-- The host alone changes. -/
theorem rehost (sound : Sound queue loose s e) {t : Host.State} (types : s.Types t) :
    Sound queue loose t e where
  typed := types.typed
  names := fun entry member => (sound.names entry member).mono types.grown
  entries := fun slot member entry found => by
    have before := sound.entries slot member entry found
    cases entry with
    | strong ref | weak ref =>
      exact Host.Value.Within.mono (v := .object ref) before types.grown
    | type => trivial
  globals := sound.globals
  bindings := sound.bindings
  classes := sound.classes
  furnished := sound.furnished
  custody := sound.custody

end Sound

/-! ### Changes to the scripts alone -/

namespace Engine

theorem has_iff {x : Value} : e.Has loose x ↔
    x ∈ e.script.stack ∨ x ∈ e.script.globals.values ∨ x ∈ e.bindings.values ∨
      x ∈ e.bridge.classes.values ∨ x ∈ e.held.flatten ∨ x ∈ loose := by
  unfold Engine.Has Engine.values
  simp only [List.mem_append, Array.mem_toList_iff, or_assoc]

theorem mem_values_of_stack {x : Value} (there : x ∈ e.script.stack) : x ∈ e.values := by
  unfold Engine.values
  simp [there]

theorem mem_values_of_held {x : Value} (there : x ∈ e.held.flatten) : x ∈ e.values := by
  unfold Engine.values
  exact List.mem_append_right _ there

theorem mem_values_of_binding {x : Value} {name : String} (found : e.bindings.find? name = some x) :
    x ∈ e.values := by
  unfold Engine.values
  simp [Table.mem_values_of_find? found]

theorem mem_values_of_global {x : Value} {name : String}
    (found : e.script.globals.find? name = some x) : x ∈ e.values := by
  unfold Engine.values
  simp [Table.mem_values_of_find? found]

theorem mem_values_of_class {x : Value} {type : Host.TypeId}
    (found : e.bridge.classes.find? type = some x) : x ∈ e.values := by
  unfold Engine.values
  simp [Table.mem_values_of_find? found]

end Engine

namespace Balanced

/-- Only the stack and what is at hand change, and no wrapper appears or disappears. -/
theorem restack (balanced : Balanced loose w) {t : Script.State}
    (globals : t.globals = w.outer.script.globals)
    (behaviours : t.behaviours = w.outer.script.behaviours)
    (graveyard : t.graveyard = w.outer.script.graveyard)
    (moved : ∀ x, x ∈ t.stack ∨ x ∈ loose' →
      (x ∈ w.outer.script.stack ∨ x ∈ loose) ∨ x.Plain)
    (kept : ∀ h, .handle h ∈ w.outer.script.stack ∨ .handle h ∈ loose →
      .handle h ∈ t.stack ∨ .handle h ∈ loose') :
    Balanced loose' (Run.withScript w t) := by
  have fixtures : (Run.withScript w t).outer.fixtures = w.outer.fixtures := by
    unfold Engine.fixtures Run.withScript
    rw [behaviours]
  refine Sound.move balanced fixtures graveyard rfl (fun regular => regular.congr rfl rfl rfl)
    (globals ▸ balanced.globals) balanced.bindings (fun _ x => ?_) fun h => ?_
  · simp only [Engine.has_iff]
    rw [show (Run.withScript w t).outer.script.globals = w.outer.script.globals from globals]
    have step := moved x
    change x ∈ t.stack ∨ _ ∨ x ∈ w.outer.bindings.values ∨ x ∈ w.outer.bridge.classes.values ∨
      x ∈ w.outer.held.flatten ∨ _ → _
    tauto
  · simp only [Engine.has_iff]
    rw [show (Run.withScript w t).outer.script.globals = w.outer.script.globals from globals]
    have step := kept h
    change _ → _ ∈ t.stack ∨ _ ∨ _ ∈ w.outer.bindings.values ∨ _ ∈ w.outer.bridge.classes.values ∨
      _ ∈ w.outer.held.flatten ∨ _
    tauto

/-- What is at hand is put on the stack. -/
theorem pushAll {values : List Value} (balanced : Balanced (values ++ loose) w) :
    Balanced loose (Run.withScript w (w.outer.script.pushAll values)) := by
  refine balanced.restack rfl rfl rfl (fun x => ?_) fun h => ?_ <;>
  · simp only [Script.State.pushAll, Array.mem_append, List.mem_toArray, List.mem_append]
    tauto

theorem push {x : Value} (balanced : Balanced (x :: loose) w) :
    Balanced loose (Run.withScript w (w.outer.script.push x)) := by
  refine balanced.restack rfl rfl rfl (fun y => ?_) fun h => ?_ <;>
  · simp only [Script.State.push, Array.mem_push, List.mem_cons]
    tauto

theorem mem_take_or_extract (values : Array Value) (pos : Nat) (x : Value) :
    x ∈ values.take pos ∨ x ∈ (values.extract pos).toList ↔ x ∈ values := by
  have whole : values.toList.take pos ++ values.toList.drop pos = values.toList :=
    List.take_append_drop pos _
  have above : (values.extract pos).toList = values.toList.drop pos := by
    rw [Array.toList_extract, List.extract_eq_take_drop, List.take_of_length_le]
    rw [List.length_drop, Array.length_toList]
  have listed : x ∈ values ↔ x ∈ values.toList := Array.mem_toList_iff.symm
  rw [← Array.mem_toList_iff, above, listed, ← whole,
    List.mem_append, Array.take_eq_extract, Array.toList_extract]
  simp

/-- What is taken off the stack is at hand. -/
theorem takeFrom (balanced : Balanced loose w) (pos : Nat) :
    Balanced (loose ++ (w.outer.script.takeFrom pos).1)
      (Run.withScript w (w.outer.script.takeFrom pos).2) := by
  refine balanced.restack rfl rfl rfl (fun x => ?_) fun h => ?_ <;>
  · rw [← mem_take_or_extract w.outer.script.stack pos]
    simp only [Script.State.takeFrom, List.mem_append]
    tauto

/-- A function is put below some values of the stack. -/
theorem insertAt {x : Value} (balanced : Balanced (x :: loose) w) (pos : Nat) :
    Balanced loose (Run.withScript w (w.outer.script.insertAt pos x)) := by
  refine balanced.restack rfl rfl rfl (fun y => ?_) fun h => ?_ <;>
  · rw [← mem_take_or_extract w.outer.script.stack pos]
    simp only [Script.State.insertAt, Script.State.takeFrom, Script.State.push,
      Script.State.pushAll, Array.mem_append, Array.mem_push, List.mem_toArray, List.mem_cons]
    tauto

/-- Frames do not matter. -/
theorem reframe (balanced : Balanced loose w) (frames : List Script.Frame) :
    Balanced loose (Run.withScript w { w.outer.script with frames }) :=
  balanced.restack rfl rfl rfl (fun _ => .inl) fun _ => id

/-- Values that are held are not at hand any more. -/
theorem keeping {values : List Value} (balanced : Balanced values w) :
    Balanced [] (Run.keeping values w) := by
  refine Sound.move balanced rfl rfl rfl (fun regular => regular.congr rfl rfl rfl) balanced.globals
    balanced.bindings (fun _ x => ?_) fun h => ?_ <;>
  · simp only [Engine.has_iff, Run.keeping, List.flatten_cons, List.mem_append, List.not_mem_nil]
    tauto

/-- Values that are not held any more are at hand. -/
theorem unkeeping {values : List Value} {held : List (List Value)}
    (balanced : Balanced loose w) (same : w.outer.held = values :: held) :
    Balanced (loose ++ values) { w with outer := { w.outer with held } } := by
  refine Sound.move balanced rfl rfl rfl (fun regular => regular.congr rfl rfl rfl) balanced.globals
    balanced.bindings (fun _ x => ?_) fun h => ?_ <;>
  · simp only [Engine.has_iff, same, List.flatten_cons, List.mem_append]
    tauto

end Balanced

/-! ### Letting values go -/

theorem nodup_lastReferences (staying going : List Value) :
    (lastReferences staying going).Nodup := by
  induction going with
  | nil => exact List.nodup_nil
  | cons x rest ih =>
    unfold lastReferences
    split
    · split
      · exact ih
      · rename_i last
        rw [Bool.or_eq_true, holdsWrapper_iff, holdsWrapper_iff, not_or] at last
        exact List.nodup_cons.2 ⟨fun member => last.1 ((mem_lastReferences ..).1 member).1, ih⟩
    · exact ih

/-- Wrappers that go wait to be finalized, unless somebody else has them. -/
theorem Sound.discard {inUse going : List Value} (sound : Sound queue (inUse ++ going) s e) :
    Sound queue inUse s (e.discard inUse going) := by
  unfold Engine.discard
  split
  · -- None of the values that go is a wrapper.
    rename_i plain
    refine sound.trade (fun _ x there => .inl (.inr (List.mem_append_left _ there)))
      fun h there => ?_
    refine .inr ((List.mem_append.1 there).resolve_right fun member => ?_)
    have none := List.all_eq_true.1 plain _ member
    simp [Script.Value.wrapper?] at none
  · refine ⟨sound.typed, sound.names, sound.entries, sound.globals, sound.bindings, sound.classes,
      sound.furnished, fun regular => ?_⟩
    have custody := sound.custody (regular.congr rfl rfl rfl)
    have staying : ∀ x, x ∈ inUse ++ e.values ↔ e.Has inUse x := fun x => by
      rw [List.mem_append, or_comm]
      exact Iff.rfl
    have buried := custody.bury (e.Has inUse)
      (nodup_lastReferences (inUse ++ e.values) going) ?_ ?_ ?_ ?_ ?_
    · rw [List.append_assoc] at buried
      dsimp only
      rw [Array.toList_append]
      exact buried
    · exact fun h dead => .inr (List.mem_append_right _ ((mem_lastReferences ..).1 dead).1)
    · exact fun h dead there => ((mem_lastReferences ..).1 dead).2 ((staying _).2 there)
    · exact fun x => Or.imp_right (List.mem_append_left _)
    · rintro h (there | there)
      · exact .inl (.inl there)
      · rcases List.mem_append.1 there with stays | goes
        · exact .inl (.inr stays)
        · by_cases also : e.Has inUse (.handle h)
          · exact .inl also
          · exact .inr ((mem_lastReferences ..).2 ⟨goes, mt (staying _).1 also⟩)
    · exact fun type x found => .inl (Engine.mem_values_of_class found)

theorem Balanced.discard {inUse going : List Value} (balanced : Balanced (inUse ++ going) w) :
    Balanced inUse { w with outer := w.outer.discard inUse going } :=
  Sound.discard balanced

end ScriptHost

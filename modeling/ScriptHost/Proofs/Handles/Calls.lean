import ScriptHost.Engine.Provided
import ScriptHost.Proofs.Handles.Pairs
/-!
Calls keep a world balanced if the functions do that they reach. Whatever becomes of callee,
arguments and results, none of them gets lost.
-/
namespace ScriptHost

open Host (World)
open Script (BehaviourPart FunctionRef Value)

/-! ## What is at hand -/

namespace Balanced

variable {w : World Engine} {loose : List Value}

/-- A function that an engine holds is fair. -/
theorem fair (balanced : Balanced loose w) {f : FunctionRef}
    (there : w.outer.Has loose (.function f)) (regular : w.outer.Regular) : f.Fair :=
  (balanced.custody regular).functions f there

/-- A part of a behaviour is fair, unless it is the finalizer. -/
theorem fairPart (balanced : Balanced loose w) {x : Value}
    {part : BehaviourPart} {f : FunctionRef} (found : w.outer.script.part? x part = some f)
    (other : part ≠ .gc) (regular : w.outer.Regular) : f.Fair := by
  unfold Script.State.part? at found
  obtain ⟨_, _, found⟩ := Option.bind_eq_some_iff.1 found
  obtain ⟨b, there, found⟩ := Option.bind_eq_some_iff.1 found
  have member : b ∈ w.outer.script.behaviours := Array.mem_of_getElem? there
  exact (balanced.custody regular).fair.parts b member part other f found

/-- What stands at a position of the stack can be held. -/
theorem onStack (balanced : Balanced [] w) (pos : Nat) :
    Balanced [w.outer.script.stack.getD pos .nil] w := by
  refine Sound.adopt balanced fun _ => ?_
  rw [Array.getD_eq_getD_getElem?]
  cases found : w.outer.script.stack[pos]? with
  | none => exact .inr trivial
  | some x => exact .inl (Engine.mem_values_of_stack (Array.mem_of_getElem? found))

/-- What is left over when a list is made as long as wanted goes, and nothing else. -/
theorem adjust {results : List Value} (balanced : Balanced results w) (wanted : Int) :
    Balanced (Run.adjust results wanted ++ results.drop (Run.adjust results wanted).length) w := by
  refine Sound.trade balanced (fun _ x member => ?_) fun h there => .inr ?_
  · unfold Run.adjust at member
    split at member
    · exact .inl (.inr (by simpa using member))
    · rcases List.mem_append.1 member with kept | left
      · rcases List.mem_append.1 kept with taken | filled
        · exact .inl (.inr (List.mem_of_mem_take taken))
        · rw [List.eq_of_mem_replicate filled]
          exact .inr trivial
      · exact .inl (.inr (List.mem_of_mem_drop left))
  · unfold Run.adjust
    split
    · exact List.mem_append_left _ there
    · rw [← List.take_append_drop wanted.toNat results, List.mem_append] at there
      rcases there with taken | left
      · exact List.mem_append_left _ (List.mem_append_left _ taken)
      · -- Something is left over only if nothing had to be filled in.
        have long : wanted.toNat < results.length := by
          refine Nat.lt_of_not_le fun short => ?_
          rw [List.drop_eq_nil_of_le short] at left
          cases left
        refine List.mem_append_right _ ?_
        rw [Nat.sub_eq_zero_of_le (Nat.le_of_lt long), List.replicate_zero, List.append_nil,
          List.length_take, Nat.min_eq_left (Nat.le_of_lt long)]
        exact left

/-- Values that an engine holds, or that anyone can have, are at hand. -/
theorem regain (balanced : Balanced [] w) {values : List Value}
    (had : w.outer.Regular → ∀ x ∈ values, x ∈ w.outer.values ∨ x.Plain) : Balanced values w :=
  Sound.trade balanced (fun regular x member => (had regular x member).imp_left .inl) nofun

/-- Values that are held are at hand. -/
theorem held {values others : List Value} (balanced : Balanced [] (Run.keeping values w))
    (within : ∀ x ∈ others, x ∈ values) : Balanced others (Run.keeping values w) :=
  balanced.regain fun _ x member =>
    .inl (Engine.mem_values_of_held (List.mem_append_left _ (within x member)))

/-- A function that is no finalizer is at hand. -/
theorem withFunction (balanced : Balanced loose w) {f : FunctionRef}
    (fair : w.outer.Regular → f.Fair) : Balanced (.function f :: loose) w :=
  Sound.adopt balanced fun regular => .inr (fair regular)

/-- Values that are no wrappers need not be at hand. -/
theorem forget (balanced : Balanced loose w) (plain : ∀ h, Value.handle h ∉ loose) :
    Balanced [] w :=
  Sound.trade balanced nofun fun h there => (plain h there).elim

/-- Only which values are at hand matters. -/
theorem reorder {loose' : List Value} (balanced : Balanced loose w)
    (same : ∀ x, x ∈ loose' ↔ x ∈ loose) : Balanced loose' w :=
  Sound.trade balanced (fun _ x member => .inl (.inr ((same x).1 member)))
    fun _ there => .inr ((same _).2 there)

/-- The last of at most one value. -/
theorem last {results : List Value} (balanced : Balanced results w)
    (few : results.length ≤ 1) : Balanced [results.getLastD .nil] w := by
  match results, few with
  | [], _ => exact Sound.adopt balanced fun _ => .inr trivial
  | [x], _ => exact balanced

end Balanced

namespace Run

variable {ε α β : Type} {w v : World Engine} {run run' : Runner}

/-- Two ways to run functions that do the same in every balanced world that a function can be called
in, and keep it balanced. The finalizers of the bridge are run as they are. -/
structure Agrees (run run' : Runner) : Prop where
  fair : ∀ (f : FunctionRef) (w : World Engine), (w.outer.Regular → f.Fair) →
    w.outer.script.Fits → Balanced [] w → Balances w (run f) (run' f) fun _ => Balanced []
  finalizer : ∀ (f : FunctionRef) (type : Host.TypeId),
    f.body = .bridge (.ofType .finalize type) → ∀ w, run f w = run' f w ∧
      ((run f w).1 = .error .exhausted ∨
        ∃ inner, run f w = runBridgeFunction inner (.ofType .finalize type) w)

/-! ## Values on the stack -/

theorem balances_cutStack {inUse : List Value} (balanced : Balanced inUse w) (pos : Nat) :
    Balances w (cutStack pos inUse : Run ε Unit) (cutStack pos inUse) fun _ => Balanced inUse :=
  Balances.bind (P := fun gone => Balanced (inUse ++ gone))
    (.onScript (balanced.takeFrom pos)) fun _ _ _ taken => .discarded _ taken

theorem balances_truncate (balanced : Balanced [] w) (depth : Nat) :
    Balances w (truncate depth : Run ε Unit) (truncate depth) fun _ => Balanced [] :=
  .script (balances_cutStack balanced _)

theorem size_pushAll (s : Script.State) (values : List Value) :
    (s.pushAll values).stack.size = s.stack.size + values.length := by
  simp [Script.State.pushAll]

/-- How many values a call may leave on the stack, if it was asked for a number of results. -/
def Leaves (pos : Nat) (wanted : Int) (w : World Engine) : Prop :=
  0 ≤ wanted → w.outer.script.stack.size ≤ pos + wanted.toNat

theorem balances_finish (balanced : Balanced [] w) (pos count : Nat) (wanted : Int) :
    Balances w (finish pos count wanted : Run ε Unit) (finish pos count wanted)
      fun _ v => Balanced [] v ∧ Leaves pos wanted v := by
  refine .script ?_
  dsimp only
  refine Balances.bind (P := fun results => Balanced results) (.onScript (balanced.takeFrom _))
    fun results v _ taken => ?_
  have cut : Balances v (cutStack pos results : Run ε Unit) (cutStack pos results)
      fun _ u => Balanced results u ∧ u.outer.script.stack.size ≤ pos := by
    have balances := balances_cutStack (ε := ε) taken pos
    obtain ⟨s, cut, stack, _⟩ := retouches_cutStack (ε := ε) pos results v
    unfold Balances at balances ⊢
    rw [cut] at balances ⊢
    obtain ⟨same, passes, given⟩ := balances
    refine ⟨same, passes, given, ?_⟩
    change s.stack.size ≤ pos
    rw [stack, Array.take_eq_extract, Array.size_extract]
    omega
  refine cut.bind fun _ u _ ⟨given, short⟩ => ?_
  refine Balances.bind (P := fun _ u => Balanced (adjust results wanted) u ∧
    u.outer.script.stack.size ≤ pos) (.discard ⟨(given.adjust wanted).discard, ?_⟩)
    fun _ x _ ⟨kept, short⟩ => ?_
  · obtain ⟨_, same⟩ := discard_eq u.outer (adjust results wanted)
      (results.drop (adjust results wanted).length)
    rw [same]
    exact short
  · refine .modifyScript ⟨?_, fun counted => ?_⟩
    · exact Balanced.pushAll (by rwa [List.append_nil])
    · have count := length_adjust results counted
      have size := size_pushAll x.outer.script (adjust results wanted)
      change (x.outer.script.pushAll _).stack.size ≤ _
      omega

/-! ## Calls -/

theorem balances_enter (agrees : Agrees run run') (balanced : Balanced [] w) {pos : Nat}
    (below : pos < w.outer.script.stack.size) {f : FunctionRef} (fair : w.outer.Regular → f.Fair)
    (wanted : Int) :
    Balances w (enter run pos f wanted) (enter run' pos f wanted)
      fun _ v => Balanced [] v ∧ Leaves pos wanted v := by
  unfold enter
  refine .script ?_
  split
  · exact (balances_cutStack balanced pos).bind fun _ _ _ cut => .failHere cut _
  · refine .afterScript (.attempt (agrees.fair f _ (fun regular => ?_) ?_ ?_) ?_ ?_ ?_ rfl rfl)
    · exact fair (regular.congr rfl rfl rfl)
    · exact below
    · exact balanced.reframe _
    · intro count v _ given
      exact (balances_finish given pos count wanted).bind fun _ u _ ⟨finished, leaves⟩ =>
        .modifyScript ⟨finished.reframe _, leaves⟩
    · intro e v _ given
      refine .script ((balances_cutStack given pos).bind fun _ u _ cut => ?_)
      exact .afterScript (.fail (cut.reframe _) _)
    · exact fun message v _ given => .breakOff given message

theorem balances_call (agrees : Agrees run run') (balanced : Balanced [] w) (arguments : Nat)
    (wanted : Int) :
    Balances w (call run arguments wanted) (call run' arguments wanted) fun _ v =>
      Balanced [] v ∧ Leaves (w.outer.script.stack.size - arguments - 1) wanted v := by
  unfold call
  refine .script ?_
  split
  · exact .failHere balanced _
  · rename_i enough
    generalize place : w.outer.script.stack.size - arguments - 1 = pos
    have below : pos < w.outer.script.stack.size := by
      unfold Script.State.top at enough
      omega
    have held := balanced.onStack pos
    dsimp only
    generalize w.outer.script.stack.getD pos .nil = x at held
    refine Balances.holding (P := fun _ => Leaves pos wanted) ?_ fun _ _ _ same leaves => by
      unfold Leaves
      rwa [same]
    have kept := held.keeping
    have refused : ∀ message, Balances (keeping [x] w)
        (do cutStack pos; failHere message : Run Script.Error Unit)
        (do cutStack pos; failHere message)
        fun _ v => Balanced [] v ∧ Leaves pos wanted v := fun message =>
      (balances_cutStack kept pos).bind fun _ _ _ cut => .failHere cut _
    cases x with
    | function f =>
      refine balances_enter agrees kept below (fun regular => ?_) wanted
      exact held.fair (.inr List.mem_cons_self) (regular.congr rfl rfl rfl)
    | handle h =>
      cases found : w.outer.script.part? (.handle h) .call with
      | none => exact refused _
      | some f =>
        have isFair : w.outer.Regular → f.Fair := held.fairPart found (by decide)
        have ready : Balanced [.function f] (keeping [.handle h] w) :=
          Sound.adopt kept fun regular => .inr (isFair (regular.congr rfl rfl rfl))
        refine .afterScript (balances_enter agrees (ready.insertAt pos) ?_ (fun regular => ?_) wanted)
        · change pos < ((w.outer.script.stack.take pos).push _ ++ _).size
          rw [Array.size_append, Array.size_push, Array.take_eq_extract, Array.size_extract]
          omega
        · exact isFair (regular.congr rfl rfl rfl)
    | nil | bool | number | string | pointer => exact refused _

theorem balances_protectedCall (agrees : Agrees run run') (balanced : Balanced [] w)
    (arguments : Nat) (wanted : Int) :
    Balances w (protectedCall run arguments wanted) (protectedCall run' arguments wanted) fun _ v =>
      Balanced [] v ∧ Leaves (w.outer.script.stack.size - arguments - 1) wanted v := by
  unfold protectedCall
  refine .script (.attempt (balances_call agrees balanced arguments wanted) ?_ ?_ ?_ rfl rfl)
  · exact fun _ _ _ given => .pure given
  · exact fun e _ _ given => .fail given e
  · intro message v _ given
    refine .script (.afterScript ?_)
    exact (balances_cutStack (given.reframe _) _).bind fun _ _ _ cut => .fail cut _

/-- The results of a call that was asked for a number of them, taken off the stack. -/
theorem balances_results (balanced : Balanced [] w) {depth : Nat} {wanted : Int}
    (leaves : Leaves depth wanted w) :
    Balances w (onScript (·.takeFrom depth) : Run ε _) (onScript (·.takeFrom depth))
      fun results v => Balanced results v ∧ (0 ≤ wanted → results.length ≤ wanted.toNat) := by
  refine .onScript ⟨balanced.takeFrom depth, fun counted => ?_⟩
  have most := leaves counted
  simp only [Script.State.takeFrom, Array.length_toList, Array.size_extract]
  omega

section

variable (agrees : Agrees run run')
include agrees

/-- Calling a function with some arguments that are at hand. -/
theorem balances_callFunction {f : FunctionRef} {arguments : List Value}
    (balanced : Balanced (.function f :: arguments) w) (wanted : Int) :
    Balances w (callFunction run f arguments wanted) (callFunction run' f arguments wanted)
      fun results v => Balanced results v ∧ (0 ≤ wanted → results.length ≤ wanted.toNat) := by
  unfold callFunction
  refine .script (.afterScript ?_)
  have pushed : Balanced [] (withScript w (w.outer.script.pushAll (.function f :: arguments))) :=
    .pushAll (by rwa [List.append_nil])
  refine (balances_call agrees pushed arguments.length wanted).bind fun _ v _ ⟨given, leaves⟩ => ?_
  have place :
      (withScript w (w.outer.script.pushAll (.function f :: arguments))).outer.script.stack.size
      - arguments.length - 1 = w.outer.script.stack.size := by
    have size := size_pushAll w.outer.script (.function f :: arguments)
    rw [List.length_cons] at size
    change (w.outer.script.pushAll _).stack.size - _ - _ = _
    omega
  rw [place] at leaves
  exact balances_results given leaves

/-- Calling a value with some arguments that are at hand. -/
theorem balances_callValue {callee : Value} {arguments : List Value}
    (balanced : Balanced (callee :: arguments) w) :
    Balances w (callValue run callee arguments) (callValue run' callee arguments)
      Balanced := by
  unfold callValue
  refine .script (.afterScript ?_)
  have pushed : Balanced [] (withScript w (w.outer.script.pushAll (callee :: arguments))) :=
    .pushAll (by rwa [List.append_nil])
  refine (balances_protectedCall agrees pushed _ _).bind fun _ v _ ⟨given, _⟩ => ?_
  exact .onScript (given.takeFrom _)

/-! ## Members of values -/

omit agrees in
theorem balances_handler (balanced : Balanced [] w) (target : Value) {part : BehaviourPart}
    (other : part ≠ .gc) :
    Balances w (handler target part) (handler target part)
      fun f v => v = w ∧ (w.outer.Regular → f.Fair) := by
  refine .script ?_
  cases found : w.outer.script.part? target part with
  | none => exact .failHere balanced _
  | some f => exact .pure ⟨rfl, balanced.fairPart found other⟩

/-- A call of the handler of a value, with the value among the arguments. -/
theorem balances_handled {f : FunctionRef} {arguments : List Value}
    (balanced : Balanced arguments w) (fair : w.outer.Regular → f.Fair) (wanted : Int) :
    Balances w (holding arguments id (callFunction run f arguments wanted))
      (holding arguments id (callFunction run' f arguments wanted))
      fun results v => Balanced results v ∧ (0 ≤ wanted → results.length ≤ wanted.toNat) := by
  refine Balances.holding
    (P := fun (results : List Value) _ => 0 ≤ wanted → results.length ≤ wanted.toNat)
    (balances_callFunction agrees ?_ wanted) fun _ _ _ _ => id
  exact (balanced.keeping.held fun _ => id).withFunction fun regular =>
    fair (regular.congr rfl rfl rfl)

theorem balances_index {target key : Value} (balanced : Balanced [] w)
    (kept : Balanced [target, key] w) :
    Balances w (index run target key) (index run' target key) fun x => Balanced [x] := by
  refine (balances_handler balanced target (by decide)).look fun f fair => ?_
  refine (balances_handled agrees kept fair 1).bind fun results v _ ⟨given, few⟩ => ?_
  exact .pure (given.last (few (by decide)))

theorem balances_setIndex {target key x : Value} (balanced : Balanced [] w)
    (kept : Balanced [target, key, x] w) :
    Balances w (setIndex run target key x) (setIndex run' target key x)
      fun _ => Balanced [] := by
  refine (balances_handler balanced target (by decide)).look fun f fair => ?_
  refine (balances_handled agrees kept fair 0).bind fun results v _ ⟨given, few⟩ => ?_
  rw [List.eq_nil_of_length_eq_zero (Nat.le_zero.1 (few (by decide)))] at given
  exact .pure given

/-- Calling the member of a value that is held, like the arguments. -/
theorem balances_callMethod {target : Value} {arguments : List Value} (balanced : Balanced [] w)
    (held : ∀ x ∈ target :: arguments, x ∈ w.outer.held.flatten) (name : String) :
    Balances w (callMethod run target name arguments) (callMethod run' target name arguments)
      Balanced := by
  have had : ∀ {v : World Engine}, Passes w v →
      ∀ x ∈ target :: arguments, x ∈ v.outer.held.flatten :=
    fun passes x member => passes.keeps (held x member)
  have looked : Balanced [target, .text name] w := by
    refine balanced.regain fun _ x member => ?_
    rcases List.mem_cons.1 member with rfl | member
    · exact .inl (Engine.mem_values_of_held (held x List.mem_cons_self))
    · rw [List.mem_singleton.1 member]
      exact .inr trivial
  refine (balances_index agrees balanced looked).bind fun f v passes given => ?_
  refine Balances.holds _ (Balances.holds _ (balances_callValue agrees ?_))
  -- The function and its arguments are held by now.
  have still : Balanced [] (keeping [f] v) := given.keeping
  have within : ∀ x ∈ target :: arguments, x ∈ (keeping [f] v).outer.values := fun x member =>
    Engine.mem_values_of_held (List.mem_append_right _ (had passes x member))
  refine (still.regain fun _ x member => .inl (within x member)).keeping.regain
    fun _ x member => .inl ?_
  refine Engine.mem_values_of_held ?_
  change x ∈ (target :: arguments) ++ ([f] ++ v.outer.held.flatten)
  rcases List.mem_cons.1 member with rfl | there
  · exact List.mem_append_right _ List.mem_cons_self
  · exact List.mem_append_left _ there

theorem balances_display {x : Value} (balanced : Balanced [] w) (kept : Balanced [x] w) :
    Balances w (display run x) (display run' x) fun _ => Balanced [] := by
  refine .script ?_
  cases found : w.outer.script.part? x .tostring with
  | none => exact .pure balanced
  | some f =>
    have fair := balanced.fairPart found (by decide)
    refine (balances_handled agrees kept fair 1).bind fun results v _ ⟨given, few⟩ => ?_
    have last := given.last (few (by decide))
    have others : ∀ message : String, Balances v
        (do discard [] results; failHere message : Run Script.Error String)
        (do discard [] results; failHere message) fun _ => Balanced [] := fun message =>
      (Balances.discarded [] given).bind fun _ _ _ gone => .failHere gone _
    split
    · rename_i bytes same
      rw [same] at last
      exact .pure (last.forget (by simp))
    · exact others _

end

end Run

end ScriptHost

import ScriptHost.Proofs.Engine.MethodCalls
import ScriptHost.Proofs.Handles.Collection
/-!
What a collection does. Where the limits of the scripts leave room for a call, everything that was
taken from what waits is finalized in turn, and there are rounds as long as something came to wait
meanwhile. A finalizer runs as it is called, in a frame of its own that goes when it is done.
-/
namespace ScriptHost.Run

open Host (World)
open Script (Discipline FunctionRef Remains Value)
open Script.State (Fits)

variable {run inner : Runner} {w v : World Engine} {f : FunctionRef} {arguments : List Value}
  {r : Remains} {remains : List Remains}

/-! ## Functions without results that count -/

/-- What a function keeps of the world that it starts in when it ends: what is below its frame, what
is held, and the limits of the scripts. -/
structure KeepsTo (u v : World Engine) : Prop where
  frame : Discipline.framed.Allows u.outer.script v.outer.script
  held : v.outer.held = u.outer.held
  maxDepth : v.outer.script.maxDepth = u.outer.script.maxDepth
  maxStack : v.outer.script.maxStack = u.outer.script.maxStack

/-- The world in which more waits to be finalized, after what waits anyway. -/
def burying (w : World Engine) (more : Array Remains) : World Engine :=
  withScript w { w.outer.script with graveyard := w.outer.script.graveyard ++ more }

/-- The values of a frame, and the callee below them. -/
def frameAbove (w v : World Engine) : List Value :=
  (v.outer.script.takeFrom w.outer.script.stack.size).1

theorem KeepsTo.below (keeps : KeepsTo (entered f arguments w) v) :
    w.outer.script.stack.size < v.outer.script.stack.size ∧
      v.outer.script.stack.take w.outer.script.stack.size = w.outer.script.stack ∧
      v.outer.script.frames.tail = w.outer.script.frames := by
  obtain ⟨frames, shares⟩ := keeps.frame
  refine ⟨shares.1, ?_, congrArg List.tail frames⟩
  have shared := (shares.mono (Nat.le_succ w.outer.script.stack.size)).2
  rw [shared]
  change (w.outer.script.stack ++ (Value.function f :: arguments).toArray).take _ = _
  simp [Array.take_eq_extract]

/-- What is left once the frame of a function has been cleared. -/
theorem KeepsTo.released (keeps : KeepsTo (entered f arguments w) v) (graveyard : Array Remains) :
    released (withScript v ({ v.outer.script with
      stack := w.outer.script.stack, graveyard } : Script.State).leave) =
        withScript (returned w v) { (returned w v).outer.script with graveyard } := by
  have frames : v.outer.script.frames.tail = w.outer.script.frames := keeps.below.2.2
  have held : v.outer.held.tail = w.outer.held := congrArg List.tail keeps.held
  unfold Run.released returned withScript Script.State.leave
  dsimp only
  rw [frames, held]

/-- Values that are no wrappers are held without consequences. -/
theorem holding_plain_apply {ε α : Type} {values : List Value} (inUse : α → List Value)
    (m : Run ε α) (plain : ∀ x ∈ values, x.wrapper? = none) (w : World Engine) :
    holding values inUse m w =
      ((m (keeping values w)).1, released (m (keeping values w)).2) := by
  rw [holding_apply]
  cases m (keeping values w) with
  | mk result v =>
    cases result <;>
    · dsimp only
      rw [discard_plain plain]
      rfl

/-- How a call of a function goes on once the function has been entered and left. -/
theorem callFunction_of_enter (fits : w.outer.script.Fits) (wanted : Int) :
    callFunction run f arguments wanted w =
      match enter run w.outer.script.stack.size f wanted (calling f arguments w) with
      | (.ok (), v) => (.ok ((released v).outer.script.takeFrom w.outer.script.stack.size).1,
          withScript (released v)
            ((released v).outer.script.takeFrom w.outer.script.stack.size).2)
      | (.error stop, v) => (.error stop, released v) := by
  unfold callFunction
  rw [script_bind_apply, (Retouches.modifyScript _).andThen, bind_apply, call_function fits,
    holding_plain_apply _ _ (by simp [Value.wrapper?])]
  have start : keeping [.function f]
      (withScript w (w.outer.script.pushAll (.function f :: arguments))) = calling f arguments w := rfl
  rw [start]
  rcases enter run w.outer.script.stack.size f wanted (calling f arguments w) with ⟨_ | _, v⟩ <;> rfl

section

variable (fits : w.outer.script.Fits)
  (shallow : w.outer.script.frames.length < w.outer.script.maxDepth)
  (room : w.outer.script.stack.size + arguments.length + 1 < w.outer.script.maxStack)
include fits shallow room

/-- A call from which no results are wanted leaves the world as its function left it, but for stack
and frames and for what was in the frame. -/
theorem callFunction_none {count : Nat} (ran : run f (entered f arguments w) = (.ok count, v))
    (keeps : KeepsTo (entered f arguments w) v) :
    ∃ more, LeftBy (frameAbove w v) more ∧
      callFunction run f arguments 0 w = (.ok [], burying (returned w v) more) := by
  obtain ⟨below, stack, -⟩ := keeps.below
  obtain ⟨more, left, finished⟩ := finish_leaves (ε := Script.Error) count 0 v below
  have none : adjust (lastValues v.outer.script (w.outer.script.stack.size + 1) count) 0 = [] := by
    refine List.eq_nil_of_length_eq_zero ?_
    rw [length_adjust _ (Int.le_refl 0)]
    rfl
  rw [none, stack, Array.append_empty] at finished
  have ends := finished.bind (f := fun _ => modifyScript (·.leave)) (.modifyScript _)
  refine ⟨more, left, ?_⟩
  rw [callFunction_of_enter fits, enter_free shallow room, ran]
  dsimp only
  rw [ends]
  refine (congrArg (fun u : World Engine =>
    (Except.ok (u.outer.script.takeFrom w.outer.script.stack.size).1,
      withScript u (u.outer.script.takeFrom w.outer.script.stack.size).2))
    (keeps.released (v.outer.script.graveyard ++ more))).trans ?_
  change (Except.ok ((burying (returned w v) more).outer.script.takeFrom
      (burying (returned w v) more).outer.script.stack.size).1,
    withScript (burying (returned w v) more) ((burying (returned w v) more).outer.script.takeFrom
      (burying (returned w v) more).outer.script.stack.size).2) = _
  rw [takeFrom_size]
  rfl

theorem callFunction_failed {e : Script.Error} (wanted : Int)
    (ran : run f (entered f arguments w) = (.error (.failed e), v))
    (keeps : KeepsTo (entered f arguments w) v) :
    ∃ more e', LeftBy (frameAbove w v) more ∧ e'.message = e.message ∧
      callFunction run f arguments wanted w =
        (.error (.failed e'), burying (returned w v) more) := by
  obtain ⟨below, stack, -⟩ := keeps.below
  obtain ⟨more, left, cut⟩ := cutStack_leaves (ε := Script.Error) w.outer.script.stack.size [] v
  rw [stack] at cut
  refine ⟨more, e.withTraceback v.outer.script.traceback, left, ?_, ?_⟩
  · unfold Script.Error.withTraceback
    split <;> rfl
  · rw [callFunction_of_enter fits, enter_free shallow room, ran]
    dsimp only
    rw [cut.andThen, (Retouches.modifyScript _).andThen]
    exact congrArg (Prod.mk _) (keeps.released (v.outer.script.graveyard ++ more))

end

/-! ## Finalizing one after the other -/

/-- The finalizer for what is left of a wrapper. -/
def finalizer? (w : World Engine) (r : Remains) : Option FunctionRef :=
  w.outer.script.behaviours[r.behaviour]?.bind (·.gc)

/-- The world in which a finalizer starts. -/
def finalizing (f : FunctionRef) (r : Remains) (w : World Engine) : World Engine :=
  entered f [.pointer r.slot] w

/-- The world in which the error of a finalizer is logged. -/
def logging (w : World Engine) (r : Remains) (e : Script.Error) : World Engine :=
  { w with
    journal := w.journal.push (.log .error
      ("finalizer for slot 0x" ++ Text.hexDigits r.slot.toNat ++ " failed: " ++ e.message))
    outer := { w.outer with ledger := .refused r.slot :: w.outer.ledger } }

/-- What is left of a wrapper is finalized: nothing happens if its behaviour does not say how, and
otherwise its finalizer runs once. What the finalizer did stays, its frame goes, and an error is
logged. -/
inductive Finalized (run : Runner) (w : World Engine) (r : Remains) : World Engine → Prop
  | idle (nothing : finalizer? w r = none) : Finalized run w r w
  | done {f : FunctionRef} {count : Nat} {v : World Engine} {more : Array Remains}
      (found : finalizer? w r = some f) (ran : run f (finalizing f r w) = (.ok count, v))
      (keeps : KeepsTo (finalizing f r w) v) (left : LeftBy (frameAbove w v) more) :
      Finalized run w r (burying (returned w v) more)
  | failed {f : FunctionRef} {e : Script.Error} {v : World Engine} {more : Array Remains}
      (found : finalizer? w r = some f)
      (ran : run f (finalizing f r w) = (.error (.failed e), v))
      (keeps : KeepsTo (finalizing f r w) v) (left : LeftBy (frameAbove w v) more) :
      Finalized run w r (logging (burying (returned w v) more) r e)

/-- A finalizer succeeds or fails, and it keeps to its frame. -/
def EndsWell (run : Runner) (w : World Engine) (r : Remains) : Prop :=
  ∀ f, finalizer? w r = some f → broke (run f (finalizing f r w)).1 = false ∧
    KeepsTo (finalizing f r w) (run f (finalizing f r w)).2

/-- Nothing is cut off a stack at its end. -/
theorem cutStack_size {ε : Type} (w : World Engine) :
    (cutStack w.outer.script.stack.size : Run ε Unit) w = (.ok (), w) := by
  rw [cutStack_plain [] (by rw [takeFrom_size]; simp)]
  exact congrArg (fun s => (Except.ok (), withScript w s))
    (congrArg Prod.snd (takeFrom_size w.outer.script))

/-- Where there is room for a call, what is left of a wrapper is finalized. -/
theorem finalize_finalizes (fits : w.outer.script.Fits) (room : ¬ Full w.outer.script)
    (ends : EndsWell run w r) : ∃ u, finalize run r w = (.ok (), u) ∧ Finalized run w r u := by
  unfold Full at room
  rw [not_or, Nat.not_le, Nat.not_le] at room
  obtain ⟨shallow, free⟩ := room
  unfold finalize
  rw [script_bind_apply]
  cases found : finalizer? w r with
  | none =>
    refine ⟨w, ?_, .idle found⟩
    unfold finalizer? at found
    rw [found]
    rfl
  | some f =>
    obtain ⟨whole, keeps⟩ := ends f found
    have there := found
    unfold finalizer? at there
    rw [there]
    dsimp only
    rw [bind_apply, outcome_apply]
    dsimp only
    cases ran : run f (finalizing f r w) with
    | mk result v =>
      rw [ran] at whole keeps
      cases result with
      | ok count =>
        obtain ⟨more, left, called⟩ := callFunction_none fits shallow (by exact free) ran keeps
        refine ⟨burying (returned w v) more, ?_, .done found ran keeps left⟩
        rw [called]
        exact cutStack_size (burying (returned w v) more)
      | error stop =>
        cases stop with
        | failed e =>
          obtain ⟨more, e', left, message, called⟩ :=
            callFunction_failed fits shallow (by exact free) 0 ran keeps
          refine ⟨logging (burying (returned w v) more) r e, ?_, .failed found ran keeps left⟩
          rw [called]
          dsimp only
          rw [message]
          exact cutStack_size (logging (burying (returned w v) more) r e)
        | panicked message => cases whole
        | exhausted => cases whole

/-- Two states of the scripts with the same stack, frames and limits. -/
structure Alike (s t : Script.State) : Prop where
  stack : t.stack = s.stack
  frames : t.frames = s.frames
  maxDepth : t.maxDepth = s.maxDepth
  maxStack : t.maxStack = s.maxStack

theorem Alike.trans {s t u : Script.State} (first : Alike s t) (second : Alike t u) : Alike s u :=
  ⟨second.stack.trans first.stack, second.frames.trans first.frames,
    second.maxDepth.trans first.maxDepth, second.maxStack.trans first.maxStack⟩

theorem Alike.fits {s t : Script.State} (alike : Alike s t) (fits : s.Fits) : t.Fits := by
  unfold Script.State.Fits at *
  rw [Discipline.base_eq alike.frames, alike.stack]
  exact fits

theorem Alike.room {s t : Script.State} (alike : Alike s t) (room : ¬ Full s) : ¬ Full t := by
  unfold Full at *
  rw [alike.stack, alike.frames, alike.maxDepth, alike.maxStack]
  exact room

/-- What a finalizer leaves behind that has touched neither stack nor frames nor what is held. -/
structure Untouched (u v : World Engine) : Prop where
  alike : Alike u.outer.script v.outer.script
  held : v.outer.held = u.outer.held

theorem Untouched.keepsTo (untouched : Untouched (finalizing f r w) v) :
    KeepsTo (finalizing f r w) v := by
  refine ⟨.of_eq untouched.alike.stack untouched.alike.frames ?_, untouched.held,
    untouched.alike.maxDepth, untouched.alike.maxStack⟩
  change w.outer.script.stack.size + 1 ≤
    (w.outer.script.stack ++ [Value.function f, .pointer r.slot].toArray).size
  rw [Array.size_append]
  exact Nat.add_le_add_left (Nat.le_succ 1) _

/-- Nothing in its frame comes to wait. -/
theorem Untouched.buries_nothing (untouched : Untouched (finalizing f r w) v)
    {more : Array Remains} (left : LeftBy (frameAbove w v) more) :
    burying (returned w v) more = returned w v := by
  have stack : v.outer.script.stack =
      w.outer.script.stack ++ [Value.function f, .pointer r.slot].toArray := untouched.alike.stack
  have frame : frameAbove w v = [.function f, .pointer r.slot] :=
    congrArg Prod.fst (takeFrom_append stack)
  have none : more = #[] := left.eq_empty (by simp [frame, Value.wrapper?])
  unfold burying
  rw [none, Array.append_empty]
  rfl

theorem Finalized.alike (finalized : Finalized run w r v) :
    Alike w.outer.script v.outer.script := by
  cases finalized with
  | idle nothing => exact ⟨rfl, rfl, rfl, rfl⟩
  | done found ran keeps left => exact ⟨rfl, rfl, keeps.maxDepth, keeps.maxStack⟩
  | failed found ran keeps left => exact ⟨rfl, rfl, keeps.maxDepth, keeps.maxStack⟩

/-- Several are finalized, one after the other. -/
inductive FinalizedAll (run : Runner) : World Engine → List Remains → World Engine → Prop
  | none (w : World Engine) : FinalizedAll run w [] w
  | next {w v u : World Engine} {r : Remains} {rest : List Remains} (first : Finalized run w r v)
      (others : FinalizedAll run v rest u) : FinalizedAll run w (r :: rest) u

/-- The world in which nothing waits. -/
def emptied (w : World Engine) : World Engine :=
  withScript w { w.outer.script with graveyard := #[] }

/-- A collection, with all that it finalizes: in rounds, each of which takes what waits and
finalizes it, until nothing waits. -/
inductive Collected (run : Runner) : World Engine → List Remains → World Engine → Prop
  | done {w : World Engine} (nothing : w.outer.script.graveyard = #[]) : Collected run w [] w
  | round {w v u : World Engine} {later : List Remains} (some : w.outer.script.graveyard ≠ #[])
      (all : FinalizedAll run (emptied w) w.outer.script.graveyard.toList v)
      (rest : Collected run v later u) :
      Collected run w (w.outer.script.graveyard.toList ++ later) u

/-! ## Collecting -/

/-- Finalizers that succeed or fail, and that leave more waiting than before only as often as there
is a budget for it. Something that holds of what is to be finalized and of the world may be supposed,
if it is kept up. -/
structure Finitely (run : Runner) (I : List Remains → World Engine → Prop)
    (budget : World Engine → Nat) : Prop where
  taken : ∀ w, I [] w →
    I w.outer.script.graveyard.toList (emptied w) ∧ budget (emptied w) ≤ budget w
  ends : ∀ w r rest, I (r :: rest) w → EndsWell run w r
  next : ∀ w r rest v, I (r :: rest) w → Finalized run w r v → I rest v ∧ budget v ≤ budget w ∧
    (w.outer.script.graveyard.size < v.outer.script.graveyard.size → budget v < budget w)

section

variable {I : List Remains → World Engine → Prop} {budget : World Engine → Nat}

/-- A round: everything that was taken is finalized, and if something came to wait, this was paid
for. -/
theorem forM_finalize (finitely : Finitely run I budget) (given : I remains w)
    (fits : w.outer.script.Fits) (room : ¬ Full w.outer.script) :
    ∃ v, remains.forM (finalize run) w = (.ok (), v) ∧ FinalizedAll run w remains v ∧ I [] v ∧
      Alike w.outer.script v.outer.script ∧ budget v ≤ budget w ∧
      (w.outer.script.graveyard = #[] → v.outer.script.graveyard ≠ #[] → budget v < budget w) := by
  induction remains generalizing w with
  | nil =>
    exact ⟨w, rfl, .none w, given, ⟨rfl, rfl, rfl, rfl⟩, Nat.le_refl _,
      fun nothing some => (some nothing).elim⟩
  | cons r rest ih =>
    obtain ⟨u, step, first⟩ := finalize_finalizes fits room (finitely.ends w r rest given)
    obtain ⟨given', spent, paid⟩ := finitely.next w r rest u given first
    obtain ⟨v, run', others, given'', alike, spent', paid'⟩ :=
      ih given' (first.alike.fits fits) (first.alike.room room)
    refine ⟨v, ?_, .next first others, given'', first.alike.trans alike, Nat.le_trans spent' spent,
      fun nothing some => ?_⟩
    · change (finalize run r >>= fun _ => rest.forM (finalize run)) w = _
      rw [bind_apply, step]
      exact run'
    · by_cases still : u.outer.script.graveyard = #[]
      · exact Nat.lt_of_lt_of_le (paid' still some) spent
      · refine Nat.lt_of_le_of_lt spent' (paid ?_)
        rw [nothing]
        exact Array.size_pos_iff.2 still

/-- Everything that waits is finalized, also what comes to wait meanwhile, and then nothing waits. -/
theorem collect_collects (finitely : Finitely run I budget) (given : I [] w)
    (fits : w.outer.script.Fits) (room : ¬ Full w.outer.script) {rounds : Nat}
    (some : 0 < rounds) (enough : w.outer.script.graveyard ≠ #[] → budget w + 1 < rounds) (n : Nat) :
    ∃ all v, collect run rounds n w = (.ok (n + all.length), v) ∧ Collected run w all v ∧
      v.outer.script.graveyard = #[] ∧ Alike w.outer.script v.outer.script := by
  induction rounds generalizing w n with
  | zero => exact (Nat.lt_irrefl 0 some).elim
  | succ rounds ih =>
    unfold collect
    rw [script_bind_apply]
    by_cases nothing : w.outer.script.graveyard = #[]
    · refine ⟨[], w, ?_, .done nothing, nothing, ⟨rfl, rfl, rfl, rfl⟩⟩
      rw [nothing]
      rfl
    · obtain ⟨given', spent⟩ := finitely.taken w given
      obtain ⟨u, ran, all, given'', alike, spent', paid⟩ :=
        forM_finalize finitely given' (w := emptied w) fits room
      have budgeted := enough nothing
      -- Another round does something only if this one was paid for.
      obtain ⟨later, v, ran', rest, empty, alike'⟩ := ih given'' (alike.fits fits)
        (alike.room room) (by omega) (fun still => by have := paid rfl still; omega)
        (n + w.outer.script.graveyard.size)
      refine ⟨_, v, ?_, .round nothing all rest, empty,
        Alike.trans ⟨alike.stack, alike.frames, alike.maxDepth, alike.maxStack⟩ alike'⟩
      have listed : w.outer.script.graveyard.forM (finalize run) =
          w.outer.script.graveyard.toList.forM (finalize run) := List.forM_toArray' _ _ rfl
      rw [if_neg (by simpa [Array.isEmpty_iff] using nothing), (Retouches.modifyScript _).andThen,
        listed, bind_apply]
      unfold emptied at ran
      rw [ran]
      rw [List.length_append, Array.length_toList, ← Nat.add_assoc]
      exact ran'

end

/-! ## The finalizers of the bridge -/

/-- What is to be finalized or waits for it has finalizers of the bridge, and the bridge is there. -/
structure Owned (remains : List Remains) (w : World Engine) : Prop where
  bridge : w.outer.bridgeDropped = false
  finalizes : ∀ r ∈ remains ++ w.outer.script.graveyard.toList,
    ∃ type, w.outer.fixtures.Finalizes type r.behaviour

/-- A finalizer of the bridge keeps to its frame, in which there is nothing that could wait. -/
theorem run_finalizer (serves : Serves run inner) {type : Host.TypeId}
    (body : f.body = .bridge (.ofType .finalize type)) (r : Remains) (w : World Engine) :
    ∃ v, run f (finalizing f r w) = (.ok 0, v) ∧ Untouched (finalizing f r w) v ∧
      returned w v = { w with outer := w.outer.finalized r } := by
  have ran := runFinalizer_apply (w := finalizing f r w) (r := r) inner type
    (frameValues_entered f _ w)
  rw [← serves f _ body] at ran
  have moved : { finalizing f r w with outer := (finalizing f r w).outer.finalized r } =
      finalizing f r { w with outer := w.outer.finalized r } := by
    unfold Engine.finalized finalizing entered calling keeping withScript
    dsimp only
    split
    · rfl
    · cases w.outer.bridge.registry.release? r.handle <;> rfl
  obtain ⟨registry, ledger, same⟩ := exists_finalized w.outer r
  rw [moved, same] at ran
  refine ⟨_, ran, ⟨⟨rfl, rfl, rfl, rfl⟩, rfl⟩, ?_⟩
  rw [same]
  rfl

theorem Owned.finalizer (owned : Owned (r :: remains) w) :
    ∃ f type, finalizer? w r = some f ∧ f.body = .bridge (.ofType .finalize type) := by
  obtain ⟨type, b, f, there, gc, body⟩ := owned.finalizes r (by simp)
  refine ⟨f, type, ?_, body⟩
  change w.outer.script.behaviours[r.behaviour]? = some b at there
  unfold finalizer?
  rw [there]
  exact gc

theorem Owned.endsWell (serves : Serves run inner) (owned : Owned (r :: remains) w) :
    EndsWell run w r := by
  obtain ⟨f, type, found, body⟩ := owned.finalizer
  intro g found'
  obtain rfl := Option.some.inj (found.symm.trans found')
  obtain ⟨v, ran, untouched, -⟩ := run_finalizer serves body r w
  rw [ran]
  exact ⟨rfl, untouched.keepsTo⟩

/-- Finalizing with a finalizer of the bridge releases the handle and does nothing else. -/
theorem Owned.finalized (serves : Serves run inner) (owned : Owned (r :: remains) w)
    (finalized : Finalized run w r v) : v = { w with outer := w.outer.finalized r } := by
  obtain ⟨f, type, found, body⟩ := owned.finalizer
  obtain ⟨v', ran, untouched, back⟩ := run_finalizer serves body r w
  cases finalized with
  | idle nothing => cases nothing.symm.trans found
  | done found' ran' keeps' left =>
    obtain rfl := Option.some.inj (found.symm.trans found')
    obtain rfl := (Prod.mk.inj (ran.symm.trans ran')).2
    rw [untouched.buries_nothing left, back]
  | failed found' ran' keeps' left =>
    obtain rfl := Option.some.inj (found.symm.trans found')
    cases (Prod.mk.inj (ran.symm.trans ran')).1

theorem Owned.next (owned : Owned (r :: remains) w) :
    Owned remains { w with outer := w.outer.finalized r } := by
  obtain ⟨registry, ledger, same⟩ := exists_finalized w.outer r
  rw [same]
  exact ⟨owned.bridge, fun r' member => owned.finalizes r' (by simp_all)⟩

/-- The finalizers of the bridge make no garbage. -/
theorem finitely_owned (serves : Serves run inner) : Finitely run Owned fun _ => 0 where
  taken := fun w owned => ⟨⟨owned.bridge, fun r member => owned.finalizes r
      (by simpa [emptied, withScript] using member)⟩,
    Nat.le_refl 0⟩
  ends := fun w r rest owned => owned.endsWell serves
  next := fun w r rest v owned finalized => by
    obtain rfl := owned.finalized serves finalized
    refine ⟨owned.next, Nat.le_refl 0, fun more => ?_⟩
    dsimp only at more
    rw [script_finalized] at more
    exact (Nat.lt_irrefl _ more).elim

/-- The release by a finalizer concerns its own handle. -/
theorem isIssued_finalized {e : Engine} (there : e.bridgeDropped = false) (k : Bridge.Handle) :
    (e.finalized r).bridge.registry.isIssued k = true ↔
      e.bridge.registry.isIssued k = true ∧ r.handle ≠ k := by
  cases issued : e.bridge.registry.isIssued r.handle with
  | true =>
    rw [finalized_of_issued there issued, Bridge.Registry.isIssued_release issued, and_comm, ne_comm]
  | false =>
    rw [finalized_of_dead issued]
    refine ⟨fun alive => ⟨alive, ?_⟩, And.left⟩
    rintro rfl
    rw [issued] at alive
    cases alive

/-- When everything is finalized by the bridge, every handle is released, and nothing comes to
wait. -/
theorem Owned.finalizedAll (serves : Serves run inner) (owned : Owned remains w)
    (all : FinalizedAll run w remains v) :
    v.outer.script.graveyard = w.outer.script.graveyard ∧
      ∀ k, v.outer.bridge.registry.isIssued k = true ↔
        w.outer.bridge.registry.isIssued k = true ∧ ∀ r ∈ remains, r.handle ≠ k := by
  induction all with
  | none w => exact ⟨rfl, fun k => by simp⟩
  | next first others ih =>
    obtain rfl := owned.finalized serves first
    obtain ⟨graveyard, issued⟩ := ih owned.next
    refine ⟨graveyard.trans (congrArg (·.graveyard) (script_finalized ..)), fun k => ?_⟩
    rw [issued, isIssued_finalized owned.bridge, List.forall_mem_cons, and_assoc]

/-- A collection that the bridge's finalizers are enough for takes one round, after which no handle of
what waited is issued any more, and all others are. -/
theorem Owned.collected {all : List Remains} (serves : Serves run inner) (owned : Owned [] w)
    (collected : Collected run w all v) :
    all = w.outer.script.graveyard.toList ∧
      ∀ k, v.outer.bridge.registry.isIssued k = true ↔
        w.outer.bridge.registry.isIssued k = true ∧
          ∀ r ∈ w.outer.script.graveyard.toList, r.handle ≠ k := by
  cases collected with
  | done nothing => simp [nothing]
  | round some first rest =>
    have taken := ((finitely_owned serves).taken w owned).1
    obtain ⟨graveyard, issued⟩ := taken.finalizedAll serves first
    cases rest with
    | done nothing => exact ⟨List.append_nil _, issued⟩
    | round more _ _ => exact (more graveyard).elim

end ScriptHost.Run

import Mathlib.Data.List.DropRight
import ScriptHost.Proofs.Engine.Calls
/-!
What calls leave on the stack, to the last value. While functions keep to their frames, the results
of a call stand where its callee stood, a call that fails takes callee and arguments with it, and
there are never more frames than a limit.
-/
namespace ScriptHost

open Host (World)
open Script (Discipline FunctionRef Value)
open Script.State (Abandoned Fits Shares)

/-! ## States -/

namespace Script.State

variable {s t u : State} {levels : Nat} {broke : Bool}

/-- A state in which calls can be made that nest less than `levels` deep. No call nests deeper, since
the frames run out before. -/
structure Ready (levels : Nat) (s : State) : Prop where
  fits : s.Fits
  shallow : s.frames.length ≤ s.maxDepth
  ample : s.maxDepth < s.frames.length + levels

/-- What a computation does to stack and frames, given whether it broke off. -/
structure Settles (broke : Bool) (s t : State) : Prop where
  ends : Discipline.framed.Ends broke s t
  depth : t.maxDepth = s.maxDepth
  shallow : t.frames.length ≤ t.maxDepth

theorem Ready.refl (ready : s.Ready levels) : Settles false s s :=
  ⟨Discipline.Allows.refl (d := .framed) ready.fits, rfl, ready.shallow⟩

/-- A computation that breaks off on the spot. -/
theorem Ready.given_up (ready : s.Ready levels) : Settles true s s :=
  ⟨Discipline.Allows.given_up (d := .framed) (.refl ready.fits) ready.fits, rfl, ready.shallow⟩

theorem Settles.ready (settles : Settles broke s t) (ready : s.Ready levels) : t.Ready levels := by
  refine ⟨Discipline.Ends.fits settles.ends ready.fits, settles.shallow, ?_⟩
  have ample := ready.ample
  have ends := settles.ends
  have frames : s.frames.length ≤ t.frames.length := by
    cases broke with
    | false => exact Nat.le_of_eq (congrArg _ (Discipline.Allows.frames (d := .framed) ends).symm)
    | true =>
      obtain ⟨inner, same⟩ := Abandoned.frames ends
      rw [same, List.length_append]
      exact Nat.le_add_left ..
  rw [settles.depth]
  omega

theorem Settles.trans (first : Settles false s t) (ready : s.Ready levels)
    (second : Settles broke t u) : Settles broke s u :=
  ⟨Discipline.Allows.then (d := .framed) first.ends ready.fits second.ends,
    second.depth.trans first.depth, second.shallow⟩

/-- Only stack, frames and the limit on them matter. -/
theorem Settles.congr (settles : Settles broke s t) (stack : u.stack = t.stack)
    (frames : u.frames = t.frames) (depth : u.maxDepth = t.maxDepth) : Settles broke s u := by
  refine ⟨settles.ends.congr stack frames, depth.trans settles.depth, ?_⟩
  rw [frames, depth]
  exact settles.shallow

/-- What changes values above the start of the frame alone. -/
theorem Ready.settles (ready : s.Ready levels) (frames : t.frames = s.frames)
    (depth : t.maxDepth = s.maxDepth) (shares : Shares s.base s t) : Settles false s t := by
  refine ⟨⟨frames, shares⟩, depth, ?_⟩
  rw [frames, depth]
  exact ready.shallow

/-! ## Entering functions -/

/-- The function that stands for the value at a position when it is called, and the stack that it is
called on: a wrapper is called through its behaviour and becomes the first argument. -/
def callee? (s : State) (pos : Nat) : Option (FunctionRef × State) :=
  match s.stack.getD pos .nil with
  | .function f => some (f, s)
  | .handle h => (s.part? (.handle h) .call).map fun f => (f, s.insertAt pos (.function f))
  | _ => none

/-- The function that a call with some arguments enters, and the state that it finds. -/
def entered? (s : State) (arguments : Nat) : Option (FunctionRef × State) :=
  let pos := s.stack.size - arguments - 1
  if s.top < arguments + 1 then none
  else
    match s.callee? pos with
    | some (f, t) =>
      if t.maxDepth ≤ t.frames.length || t.maxStack ≤ t.stack.size then none
      else some (f, t.enter ⟨pos + 1, f.name⟩)
    | none => none

/-- What is below a position stays when a value is put there. -/
theorem shares_insertAt {pos : Nat} (below : pos < s.stack.size) (v : Value) :
    Shares pos s (s.insertAt pos v) ∧ pos < (s.insertAt pos v).stack.size := by
  have stack : (s.insertAt pos v).stack =
      s.stack.take pos ++ (#[v] ++ (s.stack.extract pos).toList.toArray) := by
    rw [← Array.append_assoc, ← Array.push_eq_append]
    rfl
  have cut : Shares pos s { s with stack := s.stack.take pos } :=
    .of_take rfl (Nat.le_of_lt below) (Nat.le_refl _)
  refine ⟨cut.trans (.of_append stack cut.1), ?_⟩
  rw [stack, Array.take_eq_extract, Array.size_append, Array.size_append, Array.size_extract]
  simp only [List.size_toArray, List.length_cons, List.length_nil]
  omega

/-- The state in which a function finds its arguments above a position. -/
structure Enters (pos : Nat) (f : FunctionRef) (s t : State) : Prop where
  frames : t.frames = ⟨pos + 1, f.name⟩ :: s.frames
  depth : t.maxDepth = s.maxDepth
  room : s.frames.length < s.maxDepth
  above : pos < t.stack.size
  shares : Shares pos s t

theorem Enters.ready {pos : Nat} {f : FunctionRef} (enters : Enters pos f s t)
    (ready : s.Ready (levels + 1)) : t.Ready levels := by
  obtain ⟨frames, depth, room, above, _⟩ := enters
  have ample := ready.ample
  refine ⟨?_, ?_, ?_⟩
  · unfold Fits base
    rw [frames]
    exact above
  · rw [frames, depth, List.length_cons]
    exact room
  · rw [frames, depth, List.length_cons]
    omega

theorem enters_of_entered? {arguments : Nat} {f : FunctionRef}
    (entered : s.entered? arguments = some (f, t)) :
    Enters (s.stack.size - arguments - 1) f s t := by
  unfold entered? at entered
  generalize place : s.stack.size - arguments - 1 = pos at entered ⊢
  dsimp only at entered
  split at entered
  · cases entered
  · rename_i enough
    have below : pos < s.stack.size := by
      unfold top at enough
      omega
    split at entered
    · rename_i g u found
      split at entered
      · cases entered
      · rename_i room
        cases entered
        simp only [Bool.or_eq_true, decide_eq_true_eq, not_or, Nat.not_le] at room
        unfold callee? at found
        split at found
        · cases found
          exact ⟨rfl, rfl, room.1, below, .refl (Nat.le_of_lt below)⟩
        · obtain ⟨_, _, same⟩ := Option.map_eq_some_iff.1 found
          cases same
          obtain ⟨shares, above⟩ := shares_insertAt below (.function f)
          exact ⟨rfl, rfl, room.1, above, shares⟩
        · cases found
    · cases entered

end Script.State

namespace Run

open Script.State (Ready Settles)

variable {ε δ α β : Type} {levels : Nat} {w : World Engine}

/-! ## Computations -/

/-- A computation that keeps to its frame and to the limit on frames, and comes to an end. -/
def Settled (levels : Nat) (m : Run ε α) : Prop :=
  ∀ w, w.outer.script.Ready levels →
    Settles (broke (m w).1) w.outer.script (m w).2.outer.script ∧ (m w).1 ≠ .error .exhausted

namespace Settled

theorem pure (a : α) : Settled levels (pure a : Run ε α) :=
  fun _ ready => ⟨ready.refl, nofun⟩

theorem fail (e : ε) : Settled levels (fail e : Run ε α) :=
  fun _ ready => ⟨ready.refl, nofun⟩

theorem breakOff (message : String) : Settled levels (breakOff message : Run ε α) :=
  fun _ ready => ⟨ready.given_up, nofun⟩

theorem bind {m : Run ε α} {f : α → Run ε β} (first : Settled levels m)
    (second : ∀ a, Settled levels (f a)) : Settled levels (m >>= f) := by
  intro w ready
  obtain ⟨settles, returns⟩ := first w ready
  rw [bind_apply]
  cases result : m w with
  | mk outcome v =>
    rw [result] at settles returns
    cases outcome with
    | ok a =>
      obtain ⟨later, returns⟩ := second a v (settles.ready ready)
      exact ⟨settles.trans ready later, returns⟩
    | error stop =>
      refine ⟨?_, ?_⟩
      · cases stop <;> exact settles
      · intro same
        cases same
        exact returns rfl

/-- A computation that succeeds and changes values of the current frame alone. -/
theorem of_retouches {m : Run ε α}
    (each : ∀ w, w.outer.script.Ready levels → ∃ a s, Retouches m w a s ∧
      Settles false w.outer.script s) : Settled levels m := by
  intro w ready
  obtain ⟨a, s, same, settles⟩ := each w ready
  rw [same]
  exact ⟨settles, nofun⟩

theorem script : Settled levels (script : Run ε _) :=
  of_retouches fun _ ready => ⟨_, _, .script, ready.refl⟩

theorem discard (inUse going : List Value) : Settled levels (discard inUse going : Run ε Unit) := by
  refine of_retouches fun w ready => ?_
  obtain ⟨_, gone⟩ := exists_discard (ε := ε) inUse going w
  exact ⟨_, _, gone, ready.refl.congr rfl rfl rfl⟩

theorem mapError {m : Run ε α} (settled : Settled levels m) (f : ε → δ) :
    Settled levels (m.mapError f) := by
  intro w ready
  obtain ⟨settles, returns⟩ := settled w ready
  rw [mapError_apply]
  cases result : m w with
  | mk outcome v =>
    rw [result] at settles returns
    cases outcome with
    | ok a => exact ⟨settles, nofun⟩
    | error stop =>
      cases stop with
      | failed e => exact ⟨settles, nofun⟩
      | panicked message => exact ⟨settles, nofun⟩
      | exhausted => exact (returns rfl).elim

theorem holding {m : Run ε α} (settled : Settled levels m) (values : List Value)
    (inUse : α → List Value) : Settled levels (holding values inUse m) := by
  intro w ready
  obtain ⟨settles, returns⟩ := settled (keeping values w) ready
  rw [holding_fst]
  refine ⟨?_, returns⟩
  rw [holding_apply]
  have let_go : ∀ gone, Settles (broke (m (keeping values w)).1) w.outer.script
      (({ (m (keeping values w)).2.outer with
        held := (m (keeping values w)).2.outer.held.tail }).discard gone values).script := by
    intro gone
    obtain ⟨graveyard, same⟩ := discard_eq { (m (keeping values w)).2.outer with
        held := (m (keeping values w)).2.outer.held.tail } gone values
    rw [same]
    exact settles.congr rfl rfl rfl
  generalize m (keeping values w) = ended at let_go
  obtain ⟨outcome, v⟩ := ended
  cases outcome with
  | ok a => exact let_go _
  | error stop => exact let_go _

theorem guarded {m : Run ε α} (settled : Settled levels m) : Settled levels (guarded m) := by
  intro w ready
  obtain ⟨settles, returns⟩ := settled w ready
  obtain ⟨_, same⟩ := exists_guarded m w
  rw [same]
  exact ⟨⟨settles.ends.restored ready.fits rfl rfl, settles.depth, settles.shallow⟩, returns⟩

end Settled

/-! ## Entering functions -/

/-- What a call comes back with, given how the body of the callee ended: results in place of the
callee, or nothing in its place. -/
inductive Concludes (pos : Nat) (wanted : Int) :
    Except (Stop Script.Error) Nat × World Engine →
      Except (Stop Script.Error) Unit × World Engine → Prop
  | ok {count : Nat} {u v : World Engine}
      (stack : v.outer.script.stack = u.outer.script.stack.take pos ++
        (adjust (lastValues u.outer.script (pos + 1) count) wanted).toArray)
      (frames : v.outer.script.frames = u.outer.script.frames.tail)
      (depth : v.outer.script.maxDepth = u.outer.script.maxDepth) :
      Concludes pos wanted (.ok count, u) (.ok (), v)
  | failed {e e' : Script.Error} {u v : World Engine}
      (stack : v.outer.script.stack = u.outer.script.stack.take pos)
      (frames : v.outer.script.frames = u.outer.script.frames.tail)
      (depth : v.outer.script.maxDepth = u.outer.script.maxDepth) :
      Concludes pos wanted (.error (.failed e), u) (.error (.failed e'), v)
  | panicked {message : String} {u v : World Engine}
      (stack : v.outer.script.stack = u.outer.script.stack)
      (frames : v.outer.script.frames = u.outer.script.frames)
      (depth : v.outer.script.maxDepth = u.outer.script.maxDepth) :
      Concludes pos wanted (.error (.panicked message), u) (.error (.panicked message), v)
  | exhausted {u v : World Engine} :
      Concludes pos wanted (.error .exhausted, u) (.error .exhausted, v)

/-- Values that are held meanwhile are no matter. -/
theorem Concludes.holding {pos : Nat} {wanted : Int}
    {ended : Except (Stop Script.Error) Nat × World Engine} {m : Run Script.Error Unit}
    {values : List Value} (concludes : Concludes pos wanted ended (m (keeping values w))) :
    Concludes pos wanted ended (holding values (fun _ => []) m w) := by
  rw [holding_apply]
  generalize m (keeping values w) = result at concludes
  have let_go : ∀ v : World Engine, ∃ graveyard,
      ({ v.outer with held := v.outer.held.tail }.discard [] values).script =
        { v.outer.script with graveyard } := by
    intro v
    obtain ⟨graveyard, same⟩ := discard_eq { v.outer with held := v.outer.held.tail } [] values
    exact ⟨graveyard, by rw [same]⟩
  cases concludes with
  | @ok _ _ v stack frames depth =>
    obtain ⟨_, same⟩ := let_go v
    refine .ok ?_ ?_ ?_ <;> dsimp only <;> rwa [same]
  | @failed _ _ _ v stack frames depth =>
    obtain ⟨_, same⟩ := let_go v
    refine .failed ?_ ?_ ?_ <;> dsimp only <;> rwa [same]
  | @panicked _ _ v stack frames depth =>
    obtain ⟨_, same⟩ := let_go v
    refine .panicked ?_ ?_ ?_ <;> dsimp only <;> rwa [same]
  | exhausted => exact .exhausted

/-- A function is entered while there is room for its frame. -/
theorem enter_concludes {run : Runner} {pos : Nat} (f : FunctionRef) (wanted : Int)
    (room : ¬(w.outer.script.maxDepth ≤ w.outer.script.frames.length ||
      w.outer.script.maxStack ≤ w.outer.script.stack.size) = true)
    (above : pos < (run f
      (withScript w (w.outer.script.enter ⟨pos + 1, f.name⟩))).2.outer.script.stack.size) :
    Concludes pos wanted (run f (withScript w (w.outer.script.enter ⟨pos + 1, f.name⟩)))
      (enter run pos f wanted w) := by
  unfold enter
  rw [script_bind_apply, if_neg room, (Retouches.modifyScript _).andThen, bind_apply, outcome_apply]
  dsimp only
  cases ended : run f (withScript w (w.outer.script.enter ⟨pos + 1, f.name⟩)) with
  | mk outcome u =>
    rw [ended] at above
    cases outcome with
    | ok count =>
      obtain ⟨_, finished⟩ := exists_finish (ε := Script.Error) count wanted u above
      have whole := finished.bind (f := fun _ => modifyScript (·.leave)) (.modifyScript _)
      dsimp only
      rw [whole]
      exact .ok rfl rfl rfl
    | error stop =>
      cases stop with
      | failed e =>
        obtain ⟨_, cut⟩ := exists_cutStack (ε := Script.Error) pos [] u
        dsimp only
        rw [script_bind_apply, cut.andThen, (Retouches.modifyScript _).andThen]
        exact .failed rfl rfl rfl
      | panicked message => exact .panicked rfl rfl rfl
      | exhausted => exact .exhausted

/-- The function that a call enters, and the world that it finds. -/
def entered? (arguments : Nat) (w : World Engine) : Option (FunctionRef × World Engine) :=
  let callee := w.outer.script.stack.getD (w.outer.script.stack.size - arguments - 1) .nil
  (w.outer.script.entered? arguments).map fun (f, s) => (f, withScript (keeping [callee] w) s)

theorem enters_of_entered? {arguments : Nat} {f : FunctionRef} {u : World Engine}
    (entered : entered? arguments w = some (f, u)) :
    Script.State.Enters (w.outer.script.stack.size - arguments - 1) f w.outer.script
      u.outer.script := by
  obtain ⟨⟨g, t⟩, found, same⟩ := Option.map_eq_some_iff.1 entered
  cases same
  exact Script.State.enters_of_entered? found

/-- A call that enters a function does so while its callee is held. -/
theorem call_enters (run : Runner) {arguments : Nat} (wanted : Int) {f : FunctionRef}
    {u : World Engine} (entered : entered? arguments w = some (f, u)) :
    ∃ (callee : Value) (m : Run Script.Error Unit) (v : World Engine),
      call run arguments wanted w = holding [callee] (fun _ => []) m w ∧
      m (keeping [callee] w) =
        enter run (w.outer.script.stack.size - arguments - 1) f wanted v ∧
      u = withScript v (v.outer.script.enter
        ⟨w.outer.script.stack.size - arguments - 1 + 1, f.name⟩) ∧
      ¬(v.outer.script.maxDepth ≤ v.outer.script.frames.length ||
        v.outer.script.maxStack ≤ v.outer.script.stack.size) = true := by
  unfold entered? Script.State.entered? at entered
  unfold call
  rw [script_bind_apply]
  generalize w.outer.script.stack.size - arguments - 1 = pos at *
  dsimp only at entered ⊢
  generalize shown : w.outer.script.stack.getD pos .nil = callee at *
  split at entered
  · cases entered
  · rename_i enough
    rw [if_neg enough]
    split at entered
    · rename_i g t found
      split at entered
      · cases entered
      · rename_i room
        cases entered
        unfold Script.State.callee? at found
        rw [shown] at found
        cases callee with
        | function g =>
          cases found
          exact ⟨.function g, _, keeping [.function g] w, rfl, rfl, rfl, room⟩
        | handle h =>
          obtain ⟨g, part, same⟩ := Option.map_eq_some_iff.1 found
          cases same
          dsimp only
          rw [part]
          exact ⟨.handle h, _,
            withScript (keeping [.handle h] w) (w.outer.script.insertAt pos (.function g)), rfl,
            (Retouches.modifyScript _).andThen _, rfl, room⟩
        | _ => cases found
    · cases entered

theorem call_concludes (run : Runner) {arguments : Nat} (wanted : Int) {f : FunctionRef}
    {u : World Engine} (entered : entered? arguments w = some (f, u))
    (above : w.outer.script.stack.size - arguments - 1 < (run f u).2.outer.script.stack.size) :
    Concludes (w.outer.script.stack.size - arguments - 1) wanted (run f u)
      (call run arguments wanted w) := by
  obtain ⟨callee, m, v, called, enters, rfl, room⟩ := call_enters run wanted entered
  rw [called]
  refine .holding ?_
  rw [enters]
  exact enter_concludes f wanted room above

/-- A failure with nothing left from a position on. -/
def Refuses (pos : Nat) (s : Script.State) (r : Except (Stop ε) α × World Engine) : Prop :=
  ∃ e v, r = (.error (.failed e), v) ∧ v.outer.script.stack = s.stack.take pos ∧
    v.outer.script.frames = s.frames ∧ v.outer.script.maxDepth = s.maxDepth

theorem Refuses.holding {pos : Nat} {s : Script.State} {m : Run ε α} {values : List Value}
    {inUse : α → List Value} (refuses : Refuses pos s (m (keeping values w))) :
    Refuses pos s (holding values inUse m w) := by
  obtain ⟨e, v, result, stack, frames, depth⟩ := refuses
  obtain ⟨graveyard, same⟩ := discard_eq { v.outer with held := v.outer.held.tail } [] values
  rw [holding_apply, result]
  exact ⟨e, _, rfl, by dsimp only; rwa [same], by dsimp only; rwa [same], by dsimp only; rwa [same]⟩

theorem refuses_cut (pos : Nat) (message : String) (w : World Engine) :
    Refuses pos w.outer.script
      ((do cutStack pos; failHere message : Run Script.Error Unit) w) := by
  obtain ⟨_, cut⟩ := exists_cutStack (ε := Script.Error) pos [] w
  rw [cut.andThen]
  exact ⟨_, _, rfl, rfl, rfl, rfl⟩

theorem enter_refused (run : Runner) (pos : Nat) (f : FunctionRef) (wanted : Int)
    (full : (w.outer.script.maxDepth ≤ w.outer.script.frames.length ||
      w.outer.script.maxStack ≤ w.outer.script.stack.size) = true) :
    Refuses pos w.outer.script (enter run pos f wanted w) := by
  unfold enter
  rw [script_bind_apply, if_pos full]
  exact refuses_cut pos _ w

/-- A call that enters no function fails, with nothing left of callee and arguments. -/
theorem call_refused (run : Runner) {arguments : Nat} (wanted : Int)
    (enough : arguments + 1 ≤ w.outer.script.top) (entered : entered? arguments w = none) :
    Refuses (w.outer.script.stack.size - arguments - 1) w.outer.script
      (call run arguments wanted w) := by
  have below : w.outer.script.stack.size - arguments - 1 < w.outer.script.stack.size := by
    unfold Script.State.top at enough
    omega
  have unentered := Option.map_eq_none_iff.1 entered
  unfold Script.State.entered? at unentered
  unfold call
  rw [script_bind_apply]
  generalize w.outer.script.stack.size - arguments - 1 = pos at *
  dsimp only at unentered ⊢
  rw [if_neg (Nat.not_lt.2 enough)] at unentered ⊢
  refine .holding ?_
  unfold Script.State.callee? at unentered
  generalize w.outer.script.stack.getD pos .nil = callee at *
  -- What a call would enter has no room if it is not entered.
  have full : ∀ {f : FunctionRef} {t : Script.State},
      (if t.maxDepth ≤ t.frames.length || t.maxStack ≤ t.stack.size then none
        else some (f, t.enter ⟨pos + 1, f.name⟩)) = none →
      (t.maxDepth ≤ t.frames.length || t.maxStack ≤ t.stack.size) = true := by
    intro f t nothing
    by_contra room
    rw [if_neg room] at nothing
    cases nothing
  cases callee with
  | function f => exact enter_refused run (w := keeping _ w) pos f wanted (full unentered)
  | handle h =>
    cases part : w.outer.script.part? (.handle h) .call with
    | none => exact refuses_cut pos _ _
    | some f =>
      dsimp only at unentered ⊢
      rw [part] at unentered
      rw [(Retouches.modifyScript _).andThen]
      obtain ⟨e, v, result, stack, frames, depth⟩ := enter_refused run
        (w := withScript (keeping [.handle h] w) (w.outer.script.insertAt pos (.function f)))
        pos f wanted (full unentered)
      exact ⟨e, v, result, stack.trans (Script.State.shares_insertAt below _).1.2, frames, depth⟩
  | nil | bool | number | string | pointer => exact refuses_cut pos _ _

/-! ## Calls -/

/-- The last values of a stack above the start of the frame are the last values of the frame. -/
theorem lastValues_base (s : Script.State) (count : Nat) :
    lastValues s s.base count = s.frameValues.rtake count := by
  unfold lastValues Script.State.takeFrom Script.State.frameValues List.rtake
  simp only [Array.toList_extract, List.extract_eq_take_drop, List.length_drop, List.length_take,
    Array.length_toList, List.drop_take, List.drop_drop, Nat.min_self]
  have many : s.stack.size - (s.stack.size - min count (s.stack.size - s.base)) =
      s.stack.size - s.base - (s.stack.size - s.base - count) := by omega
  rw [many]
  by_cases fits : s.base ≤ s.stack.size
  · have start : s.stack.size - min count (s.stack.size - s.base) =
        s.base + (s.stack.size - s.base - count) := by omega
    rw [start]
  · have none : s.stack.size - s.base - (s.stack.size - s.base - count) = 0 := by omega
    rw [none, List.take_zero, List.take_zero]

theorem adjust_of_neg (values : List Value) {wanted : Int} (all : wanted < 0) :
    adjust values wanted = values := if_pos all

/-- How a call comes back whose callee stands at a position. A function that does not fail leaves its
results there, as many as wanted; a failure leaves nothing there. -/
structure Returned (run : Runner) (pos : Nat) (wanted : Int)
    (entry : Option (FunctionRef × World Engine)) (w : World Engine)
    (r : Except (Stop Script.Error) Unit) (v : World Engine) : Prop where
  ok : r = .ok () → v.outer.script.frames = w.outer.script.frames ∧
    ∃ f u count t results, entry = some (f, u) ∧ run f u = (.ok count, t) ∧
      v.outer.script.stack = w.outer.script.stack.take pos ++ results.toArray ∧
      results = adjust (t.outer.script.frameValues.rtake count) wanted ∧
      (0 ≤ wanted → results.length = wanted.toNat) ∧
      (wanted < 0 → results = t.outer.script.frameValues.rtake count)
  failed : ∀ e, r = .error (.failed e) → v.outer.script.frames = w.outer.script.frames ∧
    v.outer.script.stack = w.outer.script.stack.take pos
  panicked : ∀ message, r = .error (.panicked message) →
    (∃ inner, v.outer.script.frames = inner ++ w.outer.script.frames) ∧
      Shares pos w.outer.script v.outer.script ∧ v.outer.script.Fits
  ended : r ≠ .error .exhausted
  depth : v.outer.script.maxDepth = w.outer.script.maxDepth
  shallow : v.outer.script.frames.length ≤ v.outer.script.maxDepth

section

variable {run : Runner}

/-- A call in a state in which calls can be made. -/
theorem returned_call (settled : ∀ f, Settled levels (run f))
    (ready : w.outer.script.Ready (levels + 1)) {arguments : Nat}
    (enough : arguments + 1 ≤ w.outer.script.top) (wanted : Int) :
    Returned run (w.outer.script.stack.size - arguments - 1) wanted (entered? arguments w) w
      (call run arguments wanted w).1 (call run arguments wanted w).2 := by
  cases entered : entered? arguments w with
  | none =>
    obtain ⟨e, v, result, stack, frames, depth⟩ := call_refused run wanted enough entered
    rw [result]
    refine ⟨nofun, fun _ _ => ⟨frames, stack⟩, nofun, nofun, depth, ?_⟩
    rw [frames, depth]
    exact ready.shallow
  | some entry =>
    obtain ⟨f, u⟩ := entry
    have enters := enters_of_entered? entered
    obtain ⟨settles, ended⟩ := settled f u (enters.ready ready)
    have concludes := call_concludes run wanted entered
    generalize w.outer.script.stack.size - arguments - 1 = pos at *
    obtain ⟨frames, depth, room, above, shares⟩ := enters
    have start : u.outer.script.base = pos + 1 := by
      unfold Script.State.base
      rw [frames]
      rfl
    cases result : run f u with
    | mk outcome t =>
      rw [result] at settles ended concludes
      have kept : Shares (pos + 1) u.outer.script t.outer.script := by
        have ends := settles.ends
        rw [← start]
        cases broken : broke outcome with
        | true =>
          rw [broken] at ends
          exact Abandoned.shares ends
        | false =>
          rw [broken] at ends
          exact And.right ends
      have below := shares.trans (kept.mono (Nat.le_succ pos))
      generalize call run arguments wanted w = called at *
      -- The frames of the caller stand below the frame of the function.
      have back : broke outcome = false → t.outer.script.frames.tail = w.outer.script.frames := by
        intro unbroken
        have ends := settles.ends
        rw [unbroken] at ends
        rw [Discipline.Allows.frames (d := .framed) ends, frames]
        rfl
      have limit := settles.depth.trans depth
      cases concludes kept.1 with
      | @ok count _ v stack frames' depth' =>
        have same := frames'.trans (back rfl)
        refine ⟨fun _ => ⟨same, f, u, count, t, _, rfl, result, ?_, rfl, length_adjust _,
          adjust_of_neg _⟩, nofun, nofun, nofun, depth'.trans limit, ?_⟩
        · rw [← lastValues_base, Script.Discipline.base_eq
            (Discipline.Allows.frames (d := .framed) settles.ends), start, ← below.2]
          exact stack
        · rw [same, depth', limit]
          exact ready.shallow
      | @failed e e' _ v stack frames' depth' =>
        have same := frames'.trans (back rfl)
        refine ⟨nofun, fun _ _ => ⟨same, stack.trans below.2⟩, nofun, nofun, depth'.trans limit, ?_⟩
        rw [same, depth', limit]
        exact ready.shallow
      | @panicked message _ v stack frames' depth' =>
        obtain ⟨⟨inner, inner'⟩, _, fits⟩ : Abandoned u.outer.script t.outer.script := settles.ends
        refine ⟨nofun, nofun, fun _ _ => ⟨⟨inner ++ [⟨pos + 1, f.name⟩], ?_⟩, ?_, ?_⟩, nofun,
          depth'.trans limit, ?_⟩
        · rw [frames', inner', frames, List.append_assoc]
          rfl
        · unfold Shares
          rw [stack]
          exact below
        · unfold Fits
          rw [Script.Discipline.base_eq frames', stack]
          exact fits
        · rw [frames', depth']
          exact settles.shallow
      | exhausted => exact (ended rfl).elim

/-- Seen from the frame in which it is made, a call keeps to the frame. -/
theorem Returned.settles {pos : Nat} {wanted : Int} {entry : Option (FunctionRef × World Engine)}
    {r : Except (Stop Script.Error) Unit} {v : World Engine}
    (returned : Returned run pos wanted entry w r v) (ready : w.outer.script.Ready levels)
    (inside : w.outer.script.base ≤ pos) (below : pos ≤ w.outer.script.stack.size) :
    Settles (broke r) w.outer.script v.outer.script := by
  obtain ⟨ok, failed, panicked, ended, depth, shallow⟩ := returned
  cases r with
  | ok _ =>
    obtain ⟨frames, _, _, _, _, results, _, _, stack, _⟩ := ok rfl
    have cut : Shares pos w.outer.script
        { w.outer.script with stack := w.outer.script.stack.take pos } :=
      .of_take rfl below (Nat.le_refl _)
    exact ready.settles frames depth ((cut.trans (.of_append stack cut.1)).mono inside)
  | error stop =>
    cases stop with
    | failed e =>
      obtain ⟨frames, stack⟩ := failed e rfl
      exact ready.settles frames depth ((Shares.of_take stack below (Nat.le_refl _)).mono inside)
    | panicked message =>
      obtain ⟨inner, shares, fits⟩ := panicked message rfl
      exact ⟨⟨inner, shares.mono inside, fits⟩, depth, shallow⟩
    | exhausted => exact (ended rfl).elim

theorem settled_call (settled : ∀ f, Settled levels (run f)) (arguments : Nat) (wanted : Int) :
    Settled (levels + 1) (call run arguments wanted) := by
  intro w ready
  by_cases enough : arguments + 1 ≤ w.outer.script.top
  · have returned := returned_call settled ready enough wanted
    refine ⟨returned.settles ready ?_ ?_, returned.ended⟩
    · unfold Script.State.top at enough
      omega
    · omega
  · unfold call
    rw [script_bind_apply, if_pos (Nat.lt_of_not_le enough)]
    exact ⟨ready.refl, nofun⟩

/-- A protected call never breaks off. -/
theorem returned_protectedCall (settled : ∀ f, Settled levels (run f))
    (ready : w.outer.script.Ready (levels + 1)) {arguments : Nat}
    (enough : arguments + 1 ≤ w.outer.script.top) (wanted : Int) :
    Returned run (w.outer.script.stack.size - arguments - 1) wanted (entered? arguments w) w
        (protectedCall run arguments wanted w).1 (protectedCall run arguments wanted w).2 ∧
      broke (protectedCall run arguments wanted w).1 = false := by
  have returned := returned_call settled ready enough wanted
  have place : w.outer.script.stack.size - arguments - 1 =
    w.outer.script.stack.size - (arguments + 1) := by omega
  unfold protectedCall
  rw [script_bind_apply, bind_apply, outcome_apply]
  dsimp only
  cases result : call run arguments wanted w with
  | mk outcome u =>
    rw [result] at returned
    cases outcome with
    | ok _ => exact ⟨returned, rfl⟩
    | error stop =>
      cases stop with
      | failed e => exact ⟨returned, rfl⟩
      | exhausted => exact (returned.ended rfl).elim
      | panicked message =>
        -- The frames that were left behind are left, and the stack is cut off.
        obtain ⟨⟨inner, frames⟩, shares, _⟩ := returned.panicked message rfl
        have depth : u.outer.script.maxDepth = w.outer.script.maxDepth := returned.depth
        obtain ⟨_, cut⟩ := exists_cutStack (ε := Script.Error)
          (w.outer.script.stack.size - (arguments + 1)) []
          (withScript u (u.outer.script.leaveTo w.outer.script.frames.length))
        dsimp only
        rw [script_bind_apply, (Retouches.modifyScript _).andThen, cut.andThen]
        have back : u.outer.script.frames.drop
            (u.outer.script.frames.length - w.outer.script.frames.length) =
              w.outer.script.frames := by
          rw [frames, List.length_append, Nat.add_sub_cancel, List.drop_left]
        have same : (u.outer.script.leaveTo w.outer.script.frames.length).frames =
            w.outer.script.frames := back
        refine ⟨⟨nofun, fun _ _ => ⟨same, ?_⟩, nofun, nofun, depth, ?_⟩, rfl⟩
        · rw [place] at shares ⊢
          exact shares.2
        · change (u.outer.script.leaveTo _).frames.length ≤ u.outer.script.maxDepth
          rw [same, depth]
          exact ready.shallow

theorem settled_protectedCall (settled : ∀ f, Settled levels (run f)) (arguments : Nat)
    (wanted : Int) : Settled (levels + 1) (protectedCall run arguments wanted) := by
  intro w ready
  by_cases enough : arguments + 1 ≤ w.outer.script.top
  · obtain ⟨returned, _⟩ := returned_protectedCall settled ready enough wanted
    refine ⟨returned.settles ready ?_ ?_, returned.ended⟩
    · unfold Script.State.top at enough
      omega
    · omega
  · have refused : call run arguments wanted w = (.error (.failed (w.outer.script.error
        "attempt to call with too few values on the stack")), w) := by
      unfold call
      rw [script_bind_apply, if_pos (Nat.lt_of_not_le enough)]
      rfl
    unfold protectedCall
    rw [script_bind_apply, bind_apply, outcome_apply, refused]
    exact ⟨ready.refl, nofun⟩

/-- A call whose callee and arguments are pushed for it, and whose results are taken off. -/
theorem settled_exchange {m : Run Script.Error Unit} (settled : Settled levels m)
    (values : List Value) :
    Settled levels (do
      let depth := (← script).stack.size
      modifyScript (·.pushAll values)
      m
      onScript (·.takeFrom depth)) := by
  intro w ready
  have start : w.outer.script.base ≤ w.outer.script.stack.size := ready.fits
  have pushed : Settles false w.outer.script (w.outer.script.pushAll values) :=
    ready.settles rfl rfl (.of_append rfl start)
  obtain ⟨settles, ended⟩ := settled (withScript w (w.outer.script.pushAll values))
    (pushed.ready ready)
  rw [script_bind_apply, (Retouches.modifyScript _).andThen, bind_apply]
  cases result : m (withScript w (w.outer.script.pushAll values)) with
  | mk outcome u =>
    rw [result] at settles ended
    cases outcome with
    | error stop =>
      refine ⟨?_, ?_⟩
      · cases stop <;> exact pushed.trans ready settles
      · intro same
        cases same
        exact ended rfl
    | ok _ =>
      have reached : Settles false w.outer.script u.outer.script := pushed.trans ready settles
      have there := reached.ready ready
      have base : u.outer.script.base = w.outer.script.base :=
        Script.Discipline.base_eq (Discipline.Allows.frames (d := .framed) reached.ends)
      refine ⟨reached.trans ready (there.settles rfl rfl ?_), nofun⟩
      rw [base]
      refine .of_take rfl ?_ start
      rw [← base]
      exact there.fits

theorem settled_callFunction (settled : ∀ f, Settled levels (run f)) (f : FunctionRef)
    (arguments : List Value) (wanted : Int) :
    Settled (levels + 1) (callFunction run f arguments wanted) :=
  settled_exchange (settled_call settled arguments.length wanted) (.function f :: arguments)

theorem settled_callValue (settled : ∀ f, Settled levels (run f)) (callee : Value)
    (arguments : List Value) : Settled (levels + 1) (callValue run callee arguments) :=
  settled_exchange (settled_protectedCall settled arguments.length (-1)) (callee :: arguments)

theorem settled_failHere (message : String) : Settled levels (failHere message : Run _ α) :=
  Settled.script.bind fun _ => .fail _

theorem settled_handler (target : Value) (part : Script.BehaviourPart) :
    Settled levels (handler target part) := by
  refine Settled.script.bind fun s => ?_
  split
  · exact .pure _
  · exact settled_failHere _

theorem settled_index (settled : ∀ f, Settled levels (run f)) (target key : Value) :
    Settled (levels + 1) (index run target key) := by
  refine (settled_handler target .index).bind fun f => ?_
  exact ((settled_callFunction settled f _ _).holding _ _).bind fun _ => .pure _

theorem settled_setIndex (settled : ∀ f, Settled levels (run f)) (target key v : Value) :
    Settled (levels + 1) (setIndex run target key v) := by
  refine (settled_handler target .newindex).bind fun f => ?_
  exact ((settled_callFunction settled f _ _).holding _ _).bind fun _ => .pure _

theorem settled_display (settled : ∀ f, Settled levels (run f)) (v : Value) :
    Settled (levels + 1) (display run v) := by
  refine Settled.script.bind fun s => ?_
  split
  · exact .pure _
  · refine ((settled_callFunction settled _ _ _).holding _ _).bind fun results => ?_
    split
    · exact .pure _
    · exact (Settled.discard _ _).bind fun _ => settled_failHere _

end

end Run

end ScriptHost

import ScriptHost.Engine.Call
import ScriptHost.Proofs.Engine.Conduct
/-!
Calling script functions. A call leaves everything below its callee alone, puts the frames back, and
when it fails it cuts the stack off where the callee was.
-/
namespace ScriptHost.Run

open Host (World)
open Script (Discipline FunctionRef Value)
open Script.State (Abandoned Fits Shares)

variable {ε α β : Type} {hidden : Nat → Prop} {w v : World Engine}

/-- Functions that keep to their frames. -/
def OrderlyRunner (hidden : Nat → Prop) (run : Runner) : Prop :=
  ∀ f, Orderly hidden .framed (fun _ => True) (run f)

/-! ## Changes to the scripts alone -/

theorem script_bind_apply (f : Script.State → Run ε β) (w : World Engine) :
    (script >>= f) w = f w.outer.script w := rfl

/-- The world with another state of the scripts. -/
def withScript (w : World Engine) (s : Script.State) : World Engine :=
  { w with outer := { w.outer with script := s } }

/-- A computation that succeeds and changes nothing but the state of the scripts. -/
def Retouches (m : Run ε α) (w : World Engine) (a : α) (s : Script.State) : Prop :=
  m w = (.ok a, withScript w s)

namespace Retouches

variable {m : Run ε α} {f : α → Run ε β} {a : α} {b : β} {s t : Script.State}

theorem bind (first : Retouches m w a s) (second : Retouches (f a) (withScript w s) b t) :
    Retouches (m >>= f) w b t := by
  unfold Retouches at *
  rw [bind_apply, first]
  exact second

/-- What comes after a change to the scripts alone. -/
theorem andThen (first : Retouches m w a s) (f : α → Run ε β) :
    (m >>= f) w = f a (withScript w s) := by
  rw [bind_apply, first]

theorem script : Retouches (script : Run ε _) w w.outer.script w.outer.script := rfl

theorem onScript (g : Script.State → α × Script.State) :
    Retouches (onScript g : Run ε α) w (g w.outer.script).1 (g w.outer.script).2 := rfl

theorem modifyScript (g : Script.State → Script.State) :
    Retouches (modifyScript g : Run ε Unit) w () (g w.outer.script) := rfl

end Retouches

/-- Letting values go changes nothing but what waits to be finalized: what they left comes last. -/
theorem discard_leaves (inUse going : List Value) (w : World Engine) :
    ∃ more, LeftBy going more ∧ Retouches (discard inUse going : Run ε Unit) w ()
      { w.outer.script with graveyard := w.outer.script.graveyard ++ more } := by
  obtain ⟨more, left, same⟩ := w.outer.discard_leaves inUse going
  exact ⟨more, left, Prod.ext rfl (congrArg (fun outer => { w with outer }) same)⟩

/-- Cutting the stack off at a position, exactly. -/
theorem cutStack_leaves (pos : Nat) (inUse : List Value) (w : World Engine) :
    ∃ more, LeftBy (w.outer.script.takeFrom pos).1 more ∧
      Retouches (cutStack pos inUse : Run ε Unit) w () { w.outer.script with
        stack := w.outer.script.stack.take pos
        graveyard := w.outer.script.graveyard ++ more } := by
  obtain ⟨more, left, gone⟩ := discard_leaves (ε := ε) inUse (w.outer.script.takeFrom pos).1
    (withScript w (w.outer.script.takeFrom pos).2)
  exact ⟨more, left, (Retouches.onScript (·.takeFrom pos)).bind gone⟩

theorem exists_discard (inUse going : List Value) (w : World Engine) :
    ∃ graveyard, Retouches (discard inUse going : Run ε Unit) w ()
      { w.outer.script with graveyard } :=
  let ⟨_, _, gone⟩ := discard_leaves inUse going w
  ⟨_, gone⟩

theorem exists_cutStack (pos : Nat) (inUse : List Value) (w : World Engine) :
    ∃ graveyard, Retouches (cutStack pos inUse : Run ε Unit) w ()
      { w.outer.script with stack := w.outer.script.stack.take pos, graveyard } :=
  let ⟨_, _, cut⟩ := cutStack_leaves pos inUse w
  ⟨_, cut⟩

theorem exists_truncate (depth : Nat) (w : World Engine) :
    ∃ graveyard, Retouches (truncate depth : Run ε Unit) w () { w.outer.script with
      stack := w.outer.script.stack.take (max depth w.outer.script.base), graveyard } := by
  obtain ⟨graveyard, cut⟩ :=
    exists_cutStack (ε := ε) (max depth w.outer.script.base) [] w
  exact ⟨graveyard, Retouches.script.bind cut⟩

theorem length_adjust (results : List Value) {wanted : Int} (counted : 0 ≤ wanted) :
    (adjust results wanted).length = wanted.toNat := by
  unfold adjust
  rw [if_neg (Int.not_lt.2 counted), List.length_append, List.length_take, List.length_replicate]
  omega

/-- The last `count` values of a stack above a position, or all that there are. -/
def lastValues (s : Script.State) (pos count : Nat) : List Value :=
  (s.takeFrom (s.stack.size - min count (s.stack.size - pos))).1

/-- The results of a function take the place of the callee, exactly. -/
theorem finish_leaves {pos : Nat} (count : Nat) (wanted : Int) (w : World Engine)
    (below : pos < w.outer.script.stack.size) :
    ∃ more, LeftBy (w.outer.script.takeFrom pos).1 more ∧
      Retouches (finish pos count wanted : Run ε Unit) w () { w.outer.script with
        stack := w.outer.script.stack.take pos ++
          (adjust (lastValues w.outer.script (pos + 1) count) wanted).toArray
        graveyard := w.outer.script.graveyard ++ more } := by
  generalize place : w.outer.script.stack.size -
    min count (w.outer.script.stack.size - (pos + 1)) = start
  have inside : pos ≤ start := by omega
  have shorter : (w.outer.script.stack.take start).take pos = w.outer.script.stack.take pos := by
    simp [Array.take_eq_extract, Array.extract_extract, Nat.min_eq_left inside]
  have values : lastValues w.outer.script (pos + 1) count = (w.outer.script.takeFrom start).1 := by
    rw [← place, lastValues]
  -- What is cut off lies between the callee and the results.
  have above : w.outer.script.stack.extract pos =
      (w.outer.script.stack.take start).extract pos ++ w.outer.script.stack.extract start := by
    have within : start ≤ w.outer.script.stack.size := by omega
    have cut : (w.outer.script.stack.take start).extract pos =
        w.outer.script.stack.extract pos start := by
      simp [Array.take_eq_extract, Array.extract_extract, within]
    rw [cut, Array.extract_append_extract, Nat.min_eq_left inside, Nat.max_eq_right within]
  have among : (w.outer.script.takeFrom pos).1 =
      ((w.outer.script.takeFrom start).2.takeFrom pos).1 ++ (w.outer.script.takeFrom start).1 := by
    unfold Script.State.takeFrom
    rw [← Array.toList_append, above]
  have taken := Retouches.onScript (ε := ε) (w := w) (·.takeFrom start)
  rw [values, among]
  obtain ⟨cutOff, left, cut⟩ := cutStack_leaves (ε := ε) pos (w.outer.script.takeFrom start).1
    (withScript w (w.outer.script.takeFrom start).2)
  generalize (w.outer.script.takeFrom start).1 = results at taken left cut ⊢
  obtain ⟨dropped, left', gone⟩ := discard_leaves (ε := ε) (adjust results wanted)
    (results.drop (adjust results wanted).length)
    (withScript w { w.outer.script with
      stack := (w.outer.script.stack.take start).take pos
      graveyard := w.outer.script.graveyard ++ cutOff })
  have placed := gone.bind (f := fun _ => modifyScript (·.pushAll (adjust results wanted)))
    (.modifyScript _)
  refine ⟨cutOff ++ dropped, ?_, ?_⟩
  · refine (left.mono fun v => List.mem_append_left _).append (left'.mono fun v member => ?_)
    exact List.mem_append_right _ (List.mem_of_mem_drop member)
  · rw [← shorter, ← Array.append_assoc]
    refine Retouches.script.bind ?_
    dsimp only
    rw [place]
    exact taken.bind (cut.bind placed)

theorem exists_finish {pos : Nat} (count : Nat) (wanted : Int) (w : World Engine)
    (below : pos < w.outer.script.stack.size) :
    ∃ graveyard, Retouches (finish pos count wanted : Run ε Unit) w () { w.outer.script with
      stack := w.outer.script.stack.take pos ++
        (adjust (lastValues w.outer.script (pos + 1) count) wanted).toArray, graveyard } :=
  let ⟨_, _, finished⟩ := finish_leaves count wanted w below
  ⟨_, finished⟩

/-- Cutting the stack off at a position. -/
theorem retouches_cutStack (pos : Nat) (inUse : List Value) (w : World Engine) :
    ∃ s, Retouches (cutStack pos inUse : Run ε Unit) w () s ∧
      s.stack = w.outer.script.stack.take pos ∧ s.frames = w.outer.script.frames := by
  obtain ⟨_, cut⟩ := exists_cutStack (ε := ε) pos inUse w
  exact ⟨_, cut, rfl, rfl⟩

theorem retouches_truncate (depth : Nat) (w : World Engine) :
    ∃ s, Retouches (truncate depth : Run ε Unit) w () s ∧
      s.stack = w.outer.script.stack.take (max depth w.outer.script.base) ∧
      s.frames = w.outer.script.frames := by
  obtain ⟨_, cut⟩ := exists_truncate (ε := ε) depth w
  exact ⟨_, cut, rfl, rfl⟩

/-- The results of a function take the place of the callee. -/
theorem retouches_finish {pos count : Nat} (wanted : Int) (w : World Engine)
    (below : pos < w.outer.script.stack.size) :
    ∃ s, Retouches (finish pos count wanted : Run ε Unit) w () s ∧
      s.frames = w.outer.script.frames ∧ Shares pos w.outer.script s ∧
      s.stack = w.outer.script.stack.take pos ++ (adjust (w.outer.script.takeFrom
        (w.outer.script.stack.size - min count (w.outer.script.stack.size - (pos + 1)))).1
          wanted).toArray := by
  obtain ⟨g, finished⟩ := exists_finish (ε := ε) count wanted w below
  refine ⟨_, finished, rfl, ?_, rfl⟩
  have cut : Shares pos w.outer.script
      { w.outer.script with stack := w.outer.script.stack.take pos, graveyard := g } :=
    .of_take rfl (Nat.le_of_lt below) (Nat.le_refl _)
  exact cut.trans (.of_append rfl cut.1)

/-! ## Entering a function -/

/-- What comes back from a call whose callee stands at a position of the stack. -/
structure Returns (hidden : Nat → Prop) (pos : Nat) (w : World Engine) (r : Except (Stop ε) α)
    (v : World Engine) : Prop where
  host : w.host.Keeps hidden v.host
  engine : v.outer.Sealed hidden
  posts : Posts w v
  frames : broke r = false → v.outer.script.frames = w.outer.script.frames
  left : broke r = true →
    (∃ inner, v.outer.script.frames = inner ++ w.outer.script.frames) ∧ v.outer.script.Fits
  shares : Shares pos w.outer.script v.outer.script
  cut : ∀ e, r = .error (.failed e) → v.outer.script.stack.size = pos

namespace Returns

variable {pos : Nat} {r : Except (Stop ε) α}

/-- Seen from the frame that it was made in, a call changes something within that frame. -/
theorem leads (returns : Returns hidden pos w r v) (inside : w.outer.script.base ≤ pos) :
    Leads hidden .framed (broke r) w v := by
  refine ⟨returns.host, returns.engine, ?_, returns.posts⟩
  have shares := returns.shares.mono inside
  cases ends : broke r with
  | false => exact ⟨returns.frames ends, shares⟩
  | true => exact ⟨(returns.left ends).1, shares, (returns.left ends).2⟩

/-- Neither what is held meanwhile nor what goes matters for what comes back. -/
theorem congr {w' v' : World Engine} (returns : Returns hidden pos w' r v')
    (host : w'.host = w.host) (script : w'.outer.script = w.outer.script)
    (host' : v.host = v'.host) (engine : v.outer.Sealed hidden) (posts : Posts w v)
    (stack : v.outer.script.stack = v'.outer.script.stack)
    (frames : v.outer.script.frames = v'.outer.script.frames) : Returns hidden pos w r v := by
  obtain ⟨keeps, _, _, same, left, shares, cut⟩ := returns
  rw [host] at keeps
  rw [script] at same left shares
  refine ⟨host' ▸ keeps, engine, posts, fun ends => frames.trans (same ends), fun ends => ?_, ?_,
    fun e failed => ?_⟩
  · obtain ⟨inner, fits⟩ := left ends
    rw [frames]
    refine ⟨inner, ?_⟩
    unfold Fits at *
    rw [Discipline.base_eq frames, stack]
    exact fits
  · unfold Shares
    rw [stack]
    exact shares
  · rw [stack]
    exact cut e failed

/-- A call that fails before it is made cuts the stack off. -/
theorem of_cut {e : ε} {s : Script.State} (proper : Proper hidden w)
    (inside : pos ≤ w.outer.script.stack.size) (stack : s.stack = w.outer.script.stack.take pos)
    (frames : s.frames = w.outer.script.frames) :
    Returns hidden pos w (.error (.failed e) : Except (Stop ε) α) (withScript w s) := by
  refine ⟨proper.host.keeps, ⟨proper.engine.names, proper.engine.registry⟩, .refl w,
    fun _ => frames, fun ends => (nomatch ends), .of_take stack inside (Nat.le_refl _), fun _ _ => ?_⟩
  change s.stack.size = pos
  rw [stack, Array.take_eq_extract, Array.size_extract]
  omega

/-- What happened to the values above the callee before the call does not matter. -/
theorem after {s : Script.State} (returns : Returns hidden pos (withScript w s) r v)
    (frames : s.frames = w.outer.script.frames) (shares : Shares pos w.outer.script s) :
    Returns hidden pos w r v := by
  refine ⟨returns.host, returns.engine, returns.posts,
    fun ends => (returns.frames ends).trans frames, fun ends => ?_, shares.trans returns.shares, returns.cut⟩
  obtain ⟨⟨inner, same⟩, fits⟩ := returns.left ends
  exact ⟨⟨inner, same.trans (congrArg _ frames)⟩, fits⟩

/-- Holding values changes nothing for what comes back. -/
theorem holding {m : Run ε α} {values : List Value} {inUse : α → List Value}
    (returns : Returns hidden pos (keeping values w) (m (keeping values w)).1
      (m (keeping values w)).2) :
    Returns hidden pos w (holding values inUse m w).1 (holding values inUse m w).2 := by
  rw [holding_apply]
  cases result : m (keeping values w) with
  | mk outcome v =>
    rw [result] at returns
    have let_go : ∀ gone going, Returns hidden pos w outcome
        { v with outer := { v.outer with held := v.outer.held.tail }.discard gone going } := by
      intro gone going
      obtain ⟨graveyard, same⟩ := discard_eq { v.outer with held := v.outer.held.tail } gone going
      rw [same]
      exact returns.congr rfl rfl rfl ⟨returns.engine.names, returns.engine.registry⟩ returns.posts
        rfl rfl
    cases outcome with
    | ok a => exact let_go _ _
    | error stop => exact let_go _ _

end Returns

section

variable {run : Runner}

/-- Entering a function. -/
theorem returns_enter (orderly : OrderlyRunner hidden run) (proper : Proper hidden w) {pos : Nat}
    (below : pos < w.outer.script.stack.size) (f : FunctionRef) (wanted : Int) :
    Returns hidden pos w (enter run pos f wanted w).1 (enter run pos f wanted w).2 := by
  unfold enter
  rw [bind_apply]
  change Returns hidden pos w
    ((if _ then _ else _ : Run Script.Error Unit) w).1 ((if _ then _ else _ : Run Script.Error Unit) w).2
  split
  · obtain ⟨s, cut, stack, frames⟩ := retouches_cutStack (ε := Script.Error) pos [] w
    rw [bind_apply, cut]
    exact .of_cut proper (Nat.le_of_lt below) stack frames
  · -- The function runs in a frame that starts right above the callee.
    rw [bind_apply]
    change Returns hidden pos w
      ((outcome (run f) >>= _ : Run Script.Error Unit)
        (withScript w (w.outer.script.enter ⟨pos + 1, f.name⟩))).1
      ((outcome (run f) >>= _ : Run Script.Error Unit)
        (withScript w (w.outer.script.enter ⟨pos + 1, f.name⟩))).2
    have entered : Proper hidden (withScript w (w.outer.script.enter ⟨pos + 1, f.name⟩)) :=
      ⟨proper.host, ⟨proper.engine.names, proper.engine.registry⟩, below⟩
    obtain ⟨leads, _⟩ := orderly f _ entered
    rw [bind_apply, outcome_apply]
    dsimp only
    cases result : run f (withScript w (w.outer.script.enter ⟨pos + 1, f.name⟩)) with
    | mk outcome u =>
      rw [result] at leads
      cases outcome with
      | ok count =>
        obtain ⟨frames, shares⟩ :
          Discipline.framed.Allows (w.outer.script.enter ⟨pos + 1, f.name⟩) u.outer.script :=
            leads.script
        obtain ⟨s, finished, kept, shares', _⟩ :=
          retouches_finish (ε := Script.Error) wanted u shares.1
        have whole : Retouches (do finish pos count wanted; modifyScript (·.leave)) u () s.leave :=
          finished.bind (.modifyScript _)
        dsimp only
        rw [whole]
        have back : s.leave.frames = w.outer.script.frames := by
          change s.frames.tail = _
          rw [kept, frames]
          rfl
        refine ⟨leads.host, ⟨leads.engine.names, leads.engine.registry⟩, leads.posts,
            fun _ => back,
          fun ends => (nomatch ends), ?_, fun _ same => (nomatch same)⟩
        exact (shares.mono (Nat.le_succ pos)).trans shares'
      | error stop =>
        cases stop with
        | failed e =>
          obtain ⟨frames, shares⟩ :
            Discipline.framed.Allows (w.outer.script.enter ⟨pos + 1, f.name⟩) u.outer.script :=
              leads.script
          obtain ⟨s, cut, stack, frames'⟩ := retouches_cutStack (ε := Script.Error) pos [] u
          have inside : pos ≤ u.outer.script.stack.size := Nat.le_trans (Nat.le_succ pos) shares.1
          have back : s.leave.frames = w.outer.script.frames := by
            change s.frames.tail = _
            rw [frames', frames]
            rfl
          dsimp only
          rw [script_bind_apply, cut.andThen, (Retouches.modifyScript _).andThen]
          refine ⟨leads.host, ⟨leads.engine.names, leads.engine.registry⟩, leads.posts,
            fun _ => back,
            fun ends => (nomatch ends), ?_, fun _ _ => ?_⟩
          · exact (shares.mono (Nat.le_succ pos)).trans (.of_take stack inside (Nat.le_refl _))
          · change s.stack.size = pos
            rw [stack, Array.take_eq_extract, Array.size_extract]
            omega
        | panicked message | exhausted =>
          obtain ⟨⟨inner, frames⟩, shares, fits⟩ :
            Abandoned (w.outer.script.enter ⟨pos + 1, f.name⟩) u.outer.script := leads.script
          refine ⟨leads.host, leads.engine, leads.posts, fun ends => (nomatch ends), fun _ => ?_,
            ?_, fun _ same => (nomatch same)⟩
          · refine ⟨⟨inner ++ [⟨pos + 1, f.name⟩], ?_⟩, fits⟩
            change u.outer.script.frames = _
            rw [frames, List.append_assoc]
            rfl
          · exact shares.mono (Nat.le_succ pos)

/-- Calling the value below some arguments. -/
theorem returns_call (orderly : OrderlyRunner hidden run) (proper : Proper hidden w)
    {arguments : Nat} (enough : arguments + 1 ≤ w.outer.script.top) (wanted : Int) :
    Returns hidden (w.outer.script.stack.size - arguments - 1) w
      (call run arguments wanted w).1 (call run arguments wanted w).2 := by
  have size : arguments + 1 ≤ w.outer.script.stack.size :=
    Nat.le_trans enough (Nat.sub_le _ _)
  generalize place : w.outer.script.stack.size - arguments - 1 = pos
  have below : pos < w.outer.script.stack.size := by omega
  unfold call
  rw [script_bind_apply, if_neg (Nat.not_lt.2 enough), place]
  generalize w.outer.script.stack.getD pos .nil = callee
  generalize within : keeping [callee] w = u
  have proper' : Proper hidden u := by
    rw [← within]
    exact proper_keeping proper [callee]
  have script : u.outer.script = w.outer.script := by
    rw [← within]
    rfl
  have below' : pos < u.outer.script.stack.size := by rwa [script]
  have refused : ∀ message, Returns hidden pos u
      ((do cutStack pos; failHere message : Run Script.Error Unit) u).1
      ((do cutStack pos; failHere message : Run Script.Error Unit) u).2 := by
    intro message
    obtain ⟨s, cut, stack, frames⟩ := retouches_cutStack (ε := Script.Error) pos [] u
    rw [cut.andThen]
    exact .of_cut proper' (Nat.le_of_lt below') stack frames
  refine Returns.holding ?_
  rw [within]
  cases callee with
  | function f => exact returns_enter orderly proper' below' f wanted
  | handle h =>
    cases found : w.outer.script.part? (.handle h) .call with
    | none => exact refused _
    | some f =>
      dsimp only
      rw [(Retouches.modifyScript _).andThen]
      have stack : (u.outer.script.insertAt pos (.function f)).stack =
          (u.outer.script.stack.take pos).push (.function f) ++
            (u.outer.script.stack.extract pos).toList.toArray := rfl
      have inside : pos ≤ (u.outer.script.stack.take pos).size := by
        rw [Array.take_eq_extract, Array.size_extract]
        omega
      have above : pos < (u.outer.script.insertAt pos (.function f)).stack.size := by
        rw [stack, Array.size_append, Array.size_push]
        omega
      have shares : Shares pos u.outer.script (u.outer.script.insertAt pos (.function f)) := by
        have cutOff : Shares pos u.outer.script
            { u.outer.script with stack := u.outer.script.stack.take pos } :=
          .of_take rfl (Nat.le_of_lt below') (Nat.le_refl _)
        rw [Array.push_eq_append, Array.append_assoc] at stack
        exact cutOff.trans (.of_append stack inside)
      have fits : (u.outer.script.insertAt pos (.function f)).Fits := by
        have base : u.outer.script.base ≤ pos := by
          have start := enough
          unfold Script.State.top at start
          rw [script]
          omega
        exact Nat.le_trans base (Nat.le_of_lt above)
      have inserted : Proper hidden (withScript u (u.outer.script.insertAt pos (.function f))) :=
        ⟨proper'.host, ⟨proper'.engine.names, proper'.engine.registry⟩, fits⟩
      exact (returns_enter orderly inserted above f wanted).after rfl shares
  | nil | bool | number | string | pointer => exact refused _

/-- A protected call. -/
theorem returns_protectedCall (orderly : OrderlyRunner hidden run) (proper : Proper hidden w)
    {arguments : Nat} (enough : arguments + 1 ≤ w.outer.script.top) (wanted : Int) :
    Returns hidden (w.outer.script.stack.size - arguments - 1) w
      (protectedCall run arguments wanted w).1 (protectedCall run arguments wanted w).2 := by
  have returns := returns_call orderly proper enough wanted
  have size : arguments + 1 ≤ w.outer.script.stack.size :=
    Nat.le_trans enough (Nat.sub_le _ _)
  unfold protectedCall
  rw [script_bind_apply, bind_apply, outcome_apply]
  dsimp only
  cases result : call run arguments wanted w with
  | mk outcome u =>
    rw [result] at returns
    cases outcome with
    | ok _ => exact returns
    | error stop =>
      cases stop with
      | failed e => exact returns
      | exhausted => exact returns
      | panicked message =>
        -- The frames that were left behind are left, and the stack is cut off.
        obtain ⟨⟨inner, frames⟩, _⟩ := returns.left rfl
        dsimp only
        rw [script_bind_apply, (Retouches.modifyScript _).andThen]
        obtain ⟨s, cut, stack, frames'⟩ := retouches_cutStack (ε := Script.Error)
          (w.outer.script.stack.size - (arguments + 1)) []
          (withScript u (u.outer.script.leaveTo w.outer.script.frames.length))
        rw [cut.andThen]
        have back : s.frames = w.outer.script.frames := by
          rw [frames']
          change u.outer.script.frames.drop _ = _
          rw [frames, List.length_append, Nat.add_sub_cancel, List.drop_left]
        have place : w.outer.script.stack.size - arguments - 1 =
          w.outer.script.stack.size - (arguments + 1) := by omega
        have shares := returns.shares
        rw [place] at shares ⊢
        refine ⟨returns.host, ⟨returns.engine.names, returns.engine.registry⟩, returns.posts,
          fun _ => back,
          fun ends => (nomatch ends), ?_, fun _ _ => ?_⟩
        · exact shares.trans (.of_take stack shares.1 (Nat.le_refl _))
        · change s.stack.size = _
          rw [stack, Array.take_eq_extract, Array.size_extract]
          change min _ u.outer.script.stack.size - 0 = _
          have inside : _ ≤ u.outer.script.stack.size := shares.1
          omega

/-- Restoring the depth of the stack is all that is done after a computation. -/
theorem exists_guarded (m : Run ε α) (w : World Engine) :
    ∃ graveyard, guarded m w = ((m w).1, withScript (m w).2 { (m w).2.outer.script with
      stack := (m w).2.outer.script.stack.take
        (max w.outer.script.stack.size (m w).2.outer.script.base), graveyard }) := by
  unfold guarded
  rw [script_bind_apply, bind_apply, outcome_apply]
  dsimp only
  obtain ⟨graveyard, cut⟩ := exists_truncate (ε := ε) w.outer.script.stack.size (m w).2
  refine ⟨graveyard, ?_⟩
  rw [cut.andThen]
  cases (m w).1 <;> rfl

theorem guarded_apply (m : Run ε α) (w : World Engine) :
    ∃ s, guarded m w = ((m w).1, withScript (m w).2 s) := by
  obtain ⟨_, same⟩ := exists_guarded m w
  exact ⟨_, same⟩

theorem guarded_fst (m : Run ε α) (w : World Engine) : (guarded m w).1 = (m w).1 := by
  obtain ⟨_, same⟩ := guarded_apply m w
  rw [same]

/-- A computation that restores the depth of the stack leads where it leads. -/
theorem leads_guarded {d : Discipline} {m : Run ε α} (proper : Proper hidden w)
    (leads : Leads hidden d (broke (m w).1) w (m w).2) :
    Leads hidden d (broke (guarded m w).1) w (guarded m w).2 := by
  obtain ⟨_, same⟩ := exists_guarded m w
  rw [same]
  exact ⟨leads.host, ⟨leads.engine.names, leads.engine.registry⟩,
    leads.script.restored proper.fits rfl rfl, leads.posts⟩

/-- A computation restores the depth of the stack at its end. -/
theorem orderly_guarded {d : Discipline} {P : α → Prop} {m : Run ε α}
    (orderly : Orderly hidden d P m) : Orderly hidden d P (guarded m) := by
  intro w proper
  obtain ⟨leads, given⟩ := orderly w proper
  refine ⟨leads_guarded proper leads, ?_⟩
  rw [guarded_fst]
  exact given

/-- A call whose callee and arguments are pushed for it, and whose results are taken off. -/
theorem orderly_exchange {m : Run Script.Error Unit} {values : List Value}
    (returns : ∀ w, Proper hidden w → values.length ≤ w.outer.script.top →
      Returns hidden (w.outer.script.stack.size - values.length) w (m w).1 (m w).2) :
    Orderly hidden .still (fun _ => True) (do
      let depth := (← script).stack.size
      modifyScript (·.pushAll values)
      m
      onScript (·.takeFrom depth)) := by
  intro w proper
  rw [script_bind_apply, (Retouches.modifyScript _).andThen, bind_apply]
  have size : (w.outer.script.pushAll values).stack.size =
      w.outer.script.stack.size + values.length := by
    simp [Script.State.pushAll]
  have start : w.outer.script.base ≤ w.outer.script.stack.size := proper.fits
  have pushed : Shares w.outer.script.stack.size w.outer.script (w.outer.script.pushAll values) :=
    .of_append rfl (Nat.le_refl _)
  have fits : (w.outer.script.pushAll values).Fits := Nat.le_trans start pushed.1
  have back := returns (withScript w (w.outer.script.pushAll values))
    ⟨proper.host, ⟨proper.engine.names, proper.engine.registry⟩, fits⟩ (by
      change values.length ≤ (w.outer.script.pushAll values).stack.size - w.outer.script.base
      omega)
  have place : (withScript w (w.outer.script.pushAll values)).outer.script.stack.size -
      values.length = w.outer.script.stack.size := by
    change (w.outer.script.pushAll values).stack.size - values.length = _
    omega
  rw [place] at back
  replace back := back.after rfl pushed
  have whole : w.outer.script.stack.take w.outer.script.stack.size = w.outer.script.stack := by
    rw [Array.take_eq_extract, Array.extract_size]
  cases result : m (withScript w (w.outer.script.pushAll values)) with
  | mk outcome u =>
    rw [result] at back
    obtain ⟨inside, shared⟩ : Shares w.outer.script.stack.size w.outer.script u.outer.script :=
      back.shares
    cases outcome with
    | ok _ =>
      refine ⟨⟨back.host, ⟨back.engine.names, back.engine.registry⟩, ⟨?_, back.frames rfl⟩,
        back.posts⟩, fun _ _ => trivial⟩
      exact shared.trans whole
    | error stop =>
      refine ⟨?_, fun _ same => (nomatch same)⟩
      cases stop with
      | failed e =>
        refine ⟨back.host, back.engine, ⟨?_, back.frames rfl⟩, back.posts⟩
        have exactly : u.outer.script.stack.size = w.outer.script.stack.size := back.cut e rfl
        have kept : u.outer.script.stack.take w.outer.script.stack.size = u.outer.script.stack := by
          rw [← exactly, Array.take_eq_extract, Array.extract_size]
        exact kept.symm.trans (shared.trans whole)
      | panicked message | exhausted => exact (back.leads start).of_broken

variable (orderly : OrderlyRunner hidden run)
include orderly

theorem orderly_call (arguments : Nat) (wanted : Int) :
    Orderly hidden .framed (fun _ => True) (call run arguments wanted) := by
  intro w proper
  by_cases enough : arguments + 1 ≤ w.outer.script.top
  · refine ⟨(returns_call orderly proper enough wanted).leads ?_, fun _ _ => trivial⟩
    unfold Script.State.top at enough
    omega
  · unfold call
    rw [script_bind_apply, if_pos (Nat.lt_of_not_le enough)]
    exact ⟨proper.leads, fun _ _ => trivial⟩

theorem orderly_protectedCall (arguments : Nat) (wanted : Int) :
    Orderly hidden .framed (fun _ => True) (protectedCall run arguments wanted) := by
  intro w proper
  by_cases enough : arguments + 1 ≤ w.outer.script.top
  · refine ⟨(returns_protectedCall orderly proper enough wanted).leads ?_, fun _ _ => trivial⟩
    unfold Script.State.top at enough
    omega
  · have refused : call run arguments wanted w = (.error (.failed (w.outer.script.error
        "attempt to call with too few values on the stack")), w) := by
      unfold call
      rw [script_bind_apply, if_pos (Nat.lt_of_not_le enough)]
      rfl
    unfold protectedCall
    rw [script_bind_apply, bind_apply, outcome_apply, refused]
    exact ⟨proper.leads, fun _ _ => trivial⟩

theorem orderly_callFunction (f : FunctionRef) (arguments : List Value) (wanted : Int) :
    Orderly hidden .still (fun _ => True) (callFunction run f arguments wanted) :=
  have returns := fun w proper (enough : (Value.function f :: arguments).length ≤ _) =>
    returns_call orderly (w := w) proper enough wanted
  orderly_exchange returns

theorem orderly_callValue (callee : Value) (arguments : List Value) :
    Orderly hidden .still (fun _ => True) (callValue run callee arguments) :=
  have returns := fun w proper (enough : (callee :: arguments).length ≤ _) =>
    returns_protectedCall orderly (w := w) proper enough (-1)
  orderly_exchange returns

omit orderly in
theorem orderly_failHere {d : Discipline} {P : α → Prop} (message : String) :
    Orderly hidden d P (failHere message : Run Script.Error α) :=
  Orderly.script.bind fun _ _ => .fail _

omit orderly in
theorem orderly_handler (target : Value) (part : Script.BehaviourPart) :
    Orderly hidden .still (fun _ => True) (handler target part) := by
  refine Orderly.script.bind fun s _ => ?_
  split
  · exact .pure trivial
  · exact orderly_failHere _

theorem orderly_index (target key : Value) :
    Orderly hidden .still (fun _ => True) (index run target key) := by
  refine (orderly_handler target .index).bind fun f _ => ?_
  exact ((orderly_callFunction orderly f _ _).holding _ _).bind fun _ _ => .pure trivial

theorem orderly_setIndex (target key v : Value) :
    Orderly hidden .still (fun _ => True) (setIndex run target key v) := by
  refine (orderly_handler target .newindex).bind fun f _ => ?_
  exact ((orderly_callFunction orderly f _ _).holding _ _).bind fun _ _ => .pure trivial

theorem orderly_callMethod (target : Value) (name : String) (arguments : List Value) :
    Orderly hidden .still (fun _ => True) (callMethod run target name arguments) := by
  refine (orderly_index orderly target _).bind fun f _ => ?_
  exact ((orderly_callValue orderly f _).holding _ _).holding _ _

theorem orderly_display (v : Value) :
    Orderly hidden .still (fun _ => True) (display run v) := by
  refine Orderly.script.bind fun s _ => ?_
  split
  · exact .pure trivial
  · refine ((orderly_callFunction orderly _ _ _).holding _ _).bind fun results _ => ?_
    split
    · exact .pure trivial
    · exact (Orderly.discard _ _).bind fun _ _ => orderly_failHere _

theorem orderly_finalize (r : Script.Remains) :
    Orderly hidden .still (fun _ => True) (finalize run r) := by
  intro w proper
  have cleaned : ∀ u, Leads hidden .still false w u →
      Leads hidden .still (broke (cutStack (ε := Script.Error) w.outer.script.stack.size [] u).1) w
        (cutStack (ε := Script.Error) w.outer.script.stack.size [] u).2 := by
    intro u leads
    obtain ⟨stack, frames⟩ : Discipline.still.Allows w.outer.script u.outer.script := leads.script
    obtain ⟨s, cut, stack', frames'⟩ :=
      retouches_cutStack (ε := Script.Error) w.outer.script.stack.size [] u
    rw [cut]
    refine ⟨leads.host, ⟨leads.engine.names, leads.engine.registry⟩, ⟨?_, frames'.trans frames⟩,
      leads.posts⟩
    change s.stack = _
    rw [stack', stack, Array.take_eq_extract, Array.extract_size]
  unfold finalize
  rw [script_bind_apply]
  cases w.outer.script.behaviours[r.behaviour]?.bind (·.gc) with
  | none => exact ⟨proper.leads, fun _ _ => trivial⟩
  | some f =>
    obtain ⟨leads, _⟩ := orderly_callFunction orderly f [.pointer r.slot] 0 w proper
    refine ⟨?_, fun _ _ => trivial⟩
    dsimp only
    rw [bind_apply, outcome_apply]
    dsimp only
    cases result : callFunction run f [.pointer r.slot] 0 w with
    | mk outcome u =>
      rw [result] at leads
      cases outcome with
      | ok _ => exact cleaned u leads
      | error stop =>
        cases stop with
        | failed e =>
          exact cleaned { u with
            journal := u.journal.push _
            outer := { u.outer with ledger := .refused r.slot :: u.outer.ledger } }
            ⟨leads.host, ⟨leads.engine.names, leads.engine.registry⟩, leads.script, leads.posts⟩
        | panicked message | exhausted => exact leads

theorem orderly_collect (rounds finalized : Nat) :
    Orderly hidden .still (fun _ => True) (collect run rounds finalized) := by
  induction rounds generalizing finalized with
  | zero => exact .throw _
  | succ rounds ih =>
    refine Orderly.script.bind fun s _ => ?_
    dsimp only
    split
    · exact .pure trivial
    · refine Orderly.bind (.modifyScript fun _ _ => ⟨rfl, rfl⟩) fun _ _ => ?_
      refine Orderly.bind (P := fun _ => True) ?_ fun _ _ => ih _
      obtain ⟨remains⟩ := s.graveyard
      rw [List.forM_toArray' remains _ rfl]
      exact .forM fun r _ => orderly_finalize orderly r

end

end ScriptHost.Run

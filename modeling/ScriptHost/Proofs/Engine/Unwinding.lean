import ScriptHost.Proofs.Engine.Calls
/-!
How frames come and go. Whatever comes back, with results or with an error, leaves the frames that
it found. A function that breaks off leaves its own frame behind, and those of the functions that it
called; they stand until the nearest protected call takes them away.
-/
namespace ScriptHost

open Host (Completion Context HostM Method ObjectRef PatchRequest TypeId World)
open Script (Discipline Frame FunctionRef Value)

variable {ε δ α β : Type}

/-- The frames that may stand where something broke off: those that it found, under the stricter
discipline without others above them. -/
def Script.Discipline.Leaves : Discipline → (before after : List Frame) → Prop
  | .still, before, after => after = before
  | .framed, before, after => before <:+ after

namespace Run

/-! ## Computations -/

/-- How the frames stand after a computation that ended in some way. Where levels run out nothing is
said of them. -/
def Unwound (d : Discipline) : Except (Stop ε) α → (before after : List Frame) → Prop
  | .ok _, before, after | .error (.failed _), before, after => after = before
  | .error (.panicked _), before, after => d.Leaves before after
  | .error .exhausted, _, _ => True

/-- A computation that leaves the frames that it found, unless it breaks off. -/
def Unwinds (d : Discipline) (m : Run ε α) : Prop :=
  ∀ w : World Engine, Unwound d (m w).1 w.outer.script.frames (m w).2.outer.script.frames

variable {d : Discipline} {fs gs : List Frame}

theorem Unwound.of_eq (r : Except (Stop ε) α) (same : gs = fs) : Unwound d r fs gs := by
  subst same
  cases r with
  | ok a => exact rfl
  | error stop =>
    cases stop with
    | failed e => exact rfl
    | exhausted => trivial
    | panicked message =>
      cases d with
      | still => exact rfl
      | framed => exact List.suffix_refl gs

namespace Unwinds

/-- A computation that has nothing to do with frames. -/
theorem of_eq {m : Run ε α}
    (same : ∀ w : World Engine, (m w).2.outer.script.frames = w.outer.script.frames) :
    Unwinds d m :=
  fun w => .of_eq _ (same w)

theorem pure (a : α) : Unwinds d (pure a : Run ε α) := .of_eq fun _ => rfl

theorem fail (e : ε) : Unwinds d (fail e : Run ε α) := .of_eq fun _ => rfl

theorem ofExcept (r : Except ε α) : Unwinds d (ofExcept r) := by
  cases r with
  | ok a => exact .pure a
  | error e => exact .fail e

theorem framed {m : Run ε α} (unwinds : Unwinds .still m) : Unwinds d m := by
  intro w
  have unwound := unwinds w
  cases result : (m w).1 with
  | ok a =>
    rw [result] at unwound
    exact unwound
  | error stop =>
    rw [result] at unwound
    cases stop with
    | failed e => exact unwound
    | panicked message => exact .of_eq (.error (.panicked message) : Except (Stop ε) α) unwound
    | exhausted => trivial

theorem bind {m : Run ε α} {f : α → Run ε β} (first : Unwinds d m)
    (second : ∀ a, Unwinds d (f a)) : Unwinds d (m >>= f) := by
  intro w
  have unwound := first w
  rw [bind_apply]
  cases result : m w with
  | mk outcome v =>
    rw [result] at unwound
    cases outcome with
    | ok a =>
      have same : v.outer.script.frames = w.outer.script.frames := unwound
      dsimp only
      rw [← same]
      exact second a v
    | error stop => cases stop <;> exact unwound

theorem mapError {m : Run ε α} (unwinds : Unwinds d m) (f : ε → δ) : Unwinds d (m.mapError f) := by
  intro w
  have unwound := unwinds w
  rw [mapError_apply]
  cases result : (m w).1 with
  | ok a =>
    rw [result] at unwound
    exact unwound
  | error stop =>
    rw [result] at unwound
    cases stop <;> exact unwound

/-- A computation whose failures are handled, and which is not kept from breaking off. -/
theorem attempt {m : Run ε α} {f : Except (Stop ε) α → Run δ β} (unwinds : Unwinds d m)
    (ok : ∀ a, Unwinds d (f (.ok a))) (failed : ∀ e, Unwinds d (f (.error (.failed e))))
    (panicked : ∀ message, f (.error (.panicked message)) = Run.breakOff message)
    (exhausted : f (.error .exhausted) = MonadExcept.throw .exhausted) :
    Unwinds d (outcome m >>= f) := by
  intro w
  have unwound := unwinds w
  rw [bind_apply, outcome_apply]
  dsimp only
  cases result : m w with
  | mk outcome v =>
    rw [result] at unwound
    match outcome with
    | .ok a =>
      have same : v.outer.script.frames = w.outer.script.frames := unwound
      rw [← same]
      exact ok a v
    | .error (.failed e) =>
      have same : v.outer.script.frames = w.outer.script.frames := unwound
      rw [← same]
      exact failed e v
    | .error (.panicked message) =>
      rw [panicked]
      exact unwound
    | .error .exhausted =>
      rw [exhausted]
      trivial

theorem frames_discard (e : Engine) (inUse going : List Value) :
    (e.discard inUse going).script.frames = e.script.frames := by
  obtain ⟨graveyard, same⟩ := discard_eq e inUse going
  rw [same]

theorem discard (inUse going : List Value) : Unwinds d (discard inUse going : Run ε Unit) :=
  .of_eq fun w => frames_discard w.outer inUse going

/-- What is held does not matter for the frames. -/
theorem holding {m : Run ε α} (unwinds : Unwinds d m) (values : List Value)
    (inUse : α → List Value) : Unwinds d (holding values inUse m) := by
  intro w
  have unwound := unwinds (keeping values w)
  have same : ((Run.holding values inUse m) w).2.outer.script.frames =
      (m (keeping values w)).2.outer.script.frames := by
    rw [holding_apply]
    cases m (keeping values w) with
    | mk result v => cases result <;> exact frames_discard _ _ _
  rw [holding_fst, same]
  exact unwound

theorem guarded {m : Run ε α} (unwinds : Unwinds d m) : Unwinds d (guarded m) := by
  intro w
  obtain ⟨_, same⟩ := exists_guarded m w
  rw [same]
  exact unwinds w

theorem mapM {f : α → Run ε β} (each : ∀ a, Unwinds d (f a)) (as : List α) :
    Unwinds d (as.mapM f) := by
  induction as with
  | nil => exact .pure []
  | cons a rest ih =>
    rw [List.mapM_cons]
    exact (each a).bind fun b => ih.bind fun bs => .pure (b :: bs)

theorem forM {f : α → Run ε PUnit} (each : ∀ a, Unwinds d (f a)) (as : List α) :
    Unwinds d (as.forM f) := by
  induction as with
  | nil => exact .pure _
  | cons a rest ih => exact (each a).bind fun _ => ih

theorem foldlM {f : β → α → Run ε β} (each : ∀ b a, Unwinds d (f b a)) (as : List α) (b : β) :
    Unwinds d (as.foldlM f b) := by
  induction as generalizing b with
  | nil => exact .pure b
  | cons a rest ih => exact (each b a).bind fun c => ih c

end Unwinds

/-! ## Calls of scripts -/

/-- Functions that leave the frames that they find, and others only when they break off. -/
def UnwindsRunner (run : Runner) : Prop :=
  ∀ f, Unwinds .framed (run f)

theorem unwinds_cutStack (pos : Nat) (inUse : List Value) :
    Unwinds d (cutStack pos inUse : Run ε Unit) :=
  Unwinds.bind (.of_eq fun _ => rfl) fun _ => .discard _ _

theorem unwinds_failHere (message : String) : Unwinds d (failHere message : Run _ α) :=
  Unwinds.bind (.of_eq fun _ => rfl) fun _ => .fail _

/-- Putting results in place of a callee succeeds and leaves the frames. -/
theorem finish_frames (pos count : Nat) (wanted : Int) (w : World Engine) :
    ∃ s, Retouches (finish pos count wanted : Run ε Unit) w () s ∧
      s.frames = w.outer.script.frames := by
  unfold finish
  generalize place : w.outer.script.stack.size -
    min count (w.outer.script.stack.size - (pos + 1)) = start
  have taken := Retouches.onScript (ε := ε) (w := w) (·.takeFrom start)
  obtain ⟨g, cut⟩ := exists_cutStack (ε := ε) pos (w.outer.script.takeFrom start).1
    (withScript w (w.outer.script.takeFrom start).2)
  generalize (w.outer.script.takeFrom start).1 = results at taken cut
  obtain ⟨last, gone⟩ := exists_discard (ε := ε) (adjust results wanted)
    (results.drop (adjust results wanted).length)
    (withScript w { w.outer.script with
      stack := (w.outer.script.stack.take start).take pos, graveyard := g })
  have placed := gone.bind (f := fun _ => modifyScript (·.pushAll (adjust results wanted)))
    (.modifyScript _)
  refine ⟨{ w.outer.script with
    stack := (w.outer.script.stack.take start).take pos ++ (adjust results wanted).toArray
    graveyard := last }, Retouches.script.bind ?_, rfl⟩
  dsimp only
  rw [place]
  exact taken.bind (cut.bind placed)

section

variable {run : Runner}

theorem unwinds_enter (unwinds : UnwindsRunner run) (pos : Nat) (f : FunctionRef) (wanted : Int) :
    Unwinds .framed (enter run pos f wanted) := by
  refine Unwinds.bind (.of_eq fun _ => rfl) fun s => ?_
  split
  · exact (unwinds_cutStack _ _).bind fun _ => unwinds_failHere _
  intro w
  rw [(Retouches.modifyScript _).andThen, bind_apply, outcome_apply]
  have unwound := unwinds f (withScript w (w.outer.script.enter ⟨pos + 1, f.name⟩))
  dsimp only
  cases result : run f (withScript w (w.outer.script.enter ⟨pos + 1, f.name⟩)) with
  | mk outcome u =>
    rw [result] at unwound
    match outcome with
    | .ok count =>
      have same : u.outer.script.frames = ⟨pos + 1, f.name⟩ :: w.outer.script.frames := unwound
      obtain ⟨s, finished, kept⟩ := finish_frames (ε := Script.Error) pos count wanted u
      have whole := finished.bind (f := fun _ => modifyScript (·.leave)) (.modifyScript _)
      dsimp only
      rw [whole]
      exact congrArg List.tail (kept.trans same)
    | .error (.failed e) =>
      have same : u.outer.script.frames = ⟨pos + 1, f.name⟩ :: w.outer.script.frames := unwound
      obtain ⟨_, cut⟩ := exists_cutStack (ε := Script.Error) pos [] u
      dsimp only
      rw [script_bind_apply, cut.andThen, (Retouches.modifyScript _).andThen]
      exact congrArg List.tail same
    | .error (.panicked message) => exact (List.suffix_cons _ _).trans unwound
    | .error .exhausted => trivial

theorem unwinds_call (unwinds : UnwindsRunner run) (arguments : Nat) (wanted : Int) :
    Unwinds .framed (call run arguments wanted) := by
  refine Unwinds.bind (.of_eq fun _ => rfl) fun s => ?_
  split
  · exact unwinds_failHere _
  have refused : ∀ pos message, Unwinds .framed
      (do cutStack pos; failHere message : Run Script.Error Unit) := fun pos message =>
    (unwinds_cutStack pos []).bind fun _ => unwinds_failHere message
  refine Unwinds.holding ?_ _ _
  split
  · exact unwinds_enter unwinds _ _ _
  · split
    · exact Unwinds.bind (.of_eq fun _ => rfl) fun _ => unwinds_enter unwinds _ _ _
    · exact refused _ _
  · exact refused _ _

/-- A protected call takes away the frames that were left behind. -/
theorem unwinds_protectedCall (unwinds : UnwindsRunner run) (arguments : Nat) (wanted : Int) :
    Unwinds .still (protectedCall run arguments wanted) := by
  intro w
  unfold protectedCall
  rw [script_bind_apply, bind_apply, outcome_apply]
  have unwound := unwinds_call unwinds arguments wanted w
  dsimp only
  cases result : call run arguments wanted w with
  | mk outcome u =>
    rw [result] at unwound
    match outcome with
    | .ok _ => exact unwound
    | .error (.failed e) => exact unwound
    | .error .exhausted => trivial
    | .error (.panicked message) =>
      obtain ⟨inner, frames⟩ : w.outer.script.frames <:+ u.outer.script.frames := unwound
      obtain ⟨_, cut⟩ := exists_cutStack (ε := Script.Error)
        (w.outer.script.stack.size - (arguments + 1)) []
        (withScript u (u.outer.script.leaveTo w.outer.script.frames.length))
      dsimp only
      rw [script_bind_apply, (Retouches.modifyScript _).andThen, cut.andThen]
      change u.outer.script.frames.drop
        (u.outer.script.frames.length - w.outer.script.frames.length) = w.outer.script.frames
      rw [← frames, List.length_append, Nat.add_sub_cancel, List.drop_left]

theorem unwinds_exchange {m : Run Script.Error Unit} (unwinds : Unwinds d m)
    (values : List Value) :
    Unwinds d (do
      let depth := (← script).stack.size
      modifyScript (·.pushAll values)
      m
      onScript (·.takeFrom depth)) :=
  Unwinds.bind (.of_eq fun _ => rfl) fun _ => Unwinds.bind (.of_eq fun _ => rfl) fun _ =>
    unwinds.bind fun _ => .of_eq fun _ => rfl

theorem unwinds_callFunction (unwinds : UnwindsRunner run) (f : FunctionRef)
    (arguments : List Value) (wanted : Int) :
    Unwinds .framed (callFunction run f arguments wanted) :=
  unwinds_exchange (unwinds_call unwinds _ _) (.function f :: arguments)

theorem unwinds_callValue (unwinds : UnwindsRunner run) (callee : Value)
    (arguments : List Value) : Unwinds .still (callValue run callee arguments) :=
  unwinds_exchange (unwinds_protectedCall unwinds _ _) (callee :: arguments)

theorem unwinds_handler (target : Value) (part : Script.BehaviourPart) :
    Unwinds d (handler target part) := by
  refine Unwinds.bind (.of_eq fun _ => rfl) fun s => ?_
  split
  · exact .pure _
  · exact unwinds_failHere _

theorem unwinds_index (unwinds : UnwindsRunner run) (target key : Value) :
    Unwinds .framed (index run target key) :=
  (unwinds_handler _ _).bind fun f =>
    ((unwinds_callFunction unwinds f _ _).holding _ _).bind fun _ => .pure _

theorem unwinds_setIndex (unwinds : UnwindsRunner run) (target key v : Value) :
    Unwinds .framed (setIndex run target key v) :=
  (unwinds_handler _ _).bind fun f =>
    ((unwinds_callFunction unwinds f _ _).holding _ _).bind fun _ => .pure _

theorem unwinds_display (unwinds : UnwindsRunner run) (v : Value) :
    Unwinds .framed (display run v) := by
  refine Unwinds.bind (.of_eq fun _ => rfl) fun s => ?_
  split
  · exact .pure _
  · refine ((unwinds_callFunction unwinds _ _ _).holding _ _).bind fun results => ?_
    split
    · exact .pure _
    · exact (Unwinds.discard _ _).bind fun _ => unwinds_failHere _

end

end Run

end ScriptHost

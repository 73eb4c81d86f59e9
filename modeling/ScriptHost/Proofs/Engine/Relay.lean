import ScriptHost.Proofs.Engine.Concurrence
import ScriptHost.Proofs.Engine.Delivery
import ScriptHost.Proofs.Handles.Balance
/-!
What a call hands back of what its function gave, to the last value. While somebody else holds what
a call lets go, nothing comes to wait to be finalized, and the call leaves the world as its function
left it, with the stack and the frames of the caller.
-/
namespace ScriptHost.Run

open Host (World)
open Script (FunctionRef Value Wrapper)

variable {ε : Type} {run : Runner} {f : FunctionRef} {arguments : List Value} {w v : World Engine}

/-! ## Letting go of what is held -/

/-- Wrappers that somebody else holds go without consequences. -/
theorem discard_held {e : Engine} {inUse going : List Value}
    (held : ∀ h : Wrapper, .handle h ∈ going → .handle h ∈ inUse ++ e.values) :
    e.discard inUse going = e := by
  unfold Engine.discard
  split
  · rfl
  · have none : lastReferences (inUse ++ e.values) going = [] := by
      refine List.eq_nil_iff_forall_not_mem.2 fun h dead => ?_
      obtain ⟨goes, unheld⟩ := (mem_lastReferences ..).1 dead
      exact unheld (held h goes)
    rw [none]
    simp

/-- Values that are held meanwhile matter for what is held and what waits only. -/
theorem exists_holding {α : Type} (values : List Value) (inUse : α → List Value) (m : Run ε α)
    (w : World Engine) : ∃ held graveyard, holding values inUse m w =
      ((m (keeping values w)).1, { (m (keeping values w)).2 with
        outer := { (m (keeping values w)).2.outer with
          script := { (m (keeping values w)).2.outer.script with graveyard }, held } }) := by
  rw [holding_apply]
  cases m (keeping values w) with
  | mk result v =>
    cases result with
    | ok a =>
      obtain ⟨graveyard, same⟩ :=
        discard_eq { v.outer with held := v.outer.held.tail } (inUse a) values
      exact ⟨_, graveyard, congrArg (fun outer => (Except.ok a, { v with outer })) same⟩
    | error stop =>
      obtain ⟨graveyard, same⟩ := discard_eq { v.outer with held := v.outer.held.tail } [] values
      exact ⟨_, graveyard, congrArg (fun outer => (Except.error stop, { v with outer })) same⟩

theorem retouches_discard {inUse going : List Value}
    (held : ∀ h : Wrapper, .handle h ∈ going → .handle h ∈ inUse ++ w.outer.values) :
    Retouches (discard inUse going : Run ε Unit) w () w.outer.script :=
  Prod.ext rfl (congrArg (fun outer => { w with outer }) (discard_held held))

/-- The world after values were held in it and are held no more. -/
def released (v : World Engine) : World Engine :=
  { v with outer := { v.outer with held := v.outer.held.tail } }

/-- What is held elsewhere as well does not come to wait. -/
theorem holding_held {α : Type} {values : List Value} {inUse : α → List Value} {m : Run ε α} {a : α}
    (ran : m (keeping values w) = (.ok a, v))
    (held : ∀ h : Wrapper, .handle h ∈ values → .handle h ∈ inUse a ++ (released v).outer.values) :
    holding values inUse m w = (.ok a, released v) := by
  rw [holding_apply, ran]
  exact congrArg (fun outer => (Except.ok a, { v with outer })) (discard_held held)

theorem cutStack_held {pos : Nat} {inUse gone : List Value} {s : Script.State}
    (taken : w.outer.script.takeFrom pos = (gone, s))
    (held : ∀ h : Wrapper, .handle h ∈ gone → .handle h ∈ inUse ++ (withScript w s).outer.values) :
    Retouches (cutStack pos inUse : Run ε Unit) w () s := by
  have cut : Retouches (onScript (·.takeFrom pos) : Run ε _) w gone s := by
    unfold Retouches
    rw [onScript_apply, taken]
    rfl
  exact cut.bind (retouches_discard (w := withScript w s) held)

/-! ## Calling a function -/

/-- Calling a function on arguments is entering it while it is held. -/
theorem call_function (fits : w.outer.script.Fits) (run : Runner) (f : FunctionRef)
    (arguments : List Value) (wanted : Int) :
    call run arguments.length wanted
        (withScript w (w.outer.script.pushAll (.function f :: arguments))) =
      holding [.function f] (fun _ => []) (enter run w.outer.script.stack.size f wanted)
        (withScript w (w.outer.script.pushAll (.function f :: arguments))) := by
  have start : w.outer.script.base ≤ w.outer.script.stack.size := fits
  have size : (w.outer.script.stack ++ (Value.function f :: arguments).toArray).size =
      w.outer.script.stack.size + (arguments.length + 1) := Array.size_append
  have stack :
      (withScript w (w.outer.script.pushAll (.function f :: arguments))).outer.script.stack =
        w.outer.script.stack ++ (Value.function f :: arguments).toArray := rfl
  have base : (withScript w (w.outer.script.pushAll (.function f :: arguments))).outer.script.base =
      w.outer.script.base := rfl
  generalize withScript w (w.outer.script.pushAll (.function f :: arguments)) = u at *
  have enough : arguments.length + 1 ≤ u.outer.script.top := by
    unfold Script.State.top
    rw [stack, size, base]
    omega
  have place : u.outer.script.stack.size - arguments.length - 1 = w.outer.script.stack.size := by
    rw [stack, size]
    omega
  have callee : u.outer.script.stack.getD w.outer.script.stack.size .nil = .function f := by
    rw [stack, Array.getD_eq_getD_getElem?, Array.getElem?_append_right (Nat.le_refl _),
      Nat.sub_self]
    rfl
  unfold call
  rw [script_bind_apply, if_neg (Nat.not_lt.2 enough), place, callee]

/-- While there is room for a frame, a function is run in a frame of its own. -/
theorem enter_free (shallow : w.outer.script.frames.length < w.outer.script.maxDepth)
    (room : w.outer.script.stack.size + arguments.length + 1 < w.outer.script.maxStack)
    (wanted : Int) :
    enter run w.outer.script.stack.size f wanted (calling f arguments w) =
      match run f (entered f arguments w) with
      | (.ok count, v) => (do
          finish w.outer.script.stack.size count wanted
          modifyScript (·.leave) : Run Script.Error Unit) v
      | (.error (.failed e), v) => (do
          cutStack w.outer.script.stack.size
          modifyScript (·.leave)
          fail (e.withTraceback v.outer.script.traceback) : Run Script.Error Unit) v
      | (.error stop, v) => (.error stop, v) := by
  have size : (w.outer.script.stack ++ (Value.function f :: arguments).toArray).size =
      w.outer.script.stack.size + arguments.length + 1 := Array.size_append
  have free : ¬ (w.outer.script.maxDepth ≤ w.outer.script.frames.length ||
      w.outer.script.maxStack ≤
        (w.outer.script.stack ++ (Value.function f :: arguments).toArray).size) = true := by
    rw [size, Bool.or_eq_true, decide_eq_true_eq, decide_eq_true_eq]
    omega
  have start : withScript (calling f arguments w)
      ((calling f arguments w).outer.script.enter ⟨w.outer.script.stack.size + 1, f.name⟩) =
        entered f arguments w := rfl
  unfold enter
  rw [script_bind_apply]
  refine (congrArg (fun m : Run Script.Error Unit => m _) (if_neg free)).trans ?_
  rw [(Retouches.modifyScript _).andThen, start, bind_apply, outcome_apply]
  dsimp only
  cases run f (entered f arguments w) with
  | mk result v =>
    cases result with
    | ok count => rfl
    | error stop => cases stop <;> rfl

/-! ## A function with one result -/

theorem takeFrom_append {s : Script.State} {below : Array Value} {above : List Value}
    (stack : s.stack = below ++ above.toArray) :
    s.takeFrom below.size = (above, { s with stack := below }) := by
  unfold Script.State.takeFrom
  rw [stack]
  simp [Array.take_eq_extract]

/-- The world after a call, given the world that its function left: stack, frames and held values
are those of the caller. -/
def returned (w v : World Engine) : World Engine :=
  { v with outer := { v.outer with
    script := { v.outer.script with
      stack := w.outer.script.stack, frames := w.outer.script.frames }
    held := w.outer.held } }

/-- How a function leaves the engine whose frame is put on top of its caller's: one more value
stands on the stack, and frames and held values are as the function found them. -/
structure LeavesOne (f : FunctionRef) (arguments : List Value) (x : Value) (w v : World Engine) :
    Prop where
  stack : v.outer.script.stack = w.outer.script.stack ++ (.function f :: arguments).toArray ++ #[x]
  frames : v.outer.script.frames = ⟨w.outer.script.stack.size + 1, f.name⟩ :: w.outer.script.frames
  held : v.outer.held = [.function f] :: w.outer.held

theorem finish_one {x : Value} (left : LeavesOne f arguments x w v)
    (held : ∀ h : Wrapper, .handle h ∈ arguments → .handle h ∈ w.outer.held.flatten) :
    Retouches (finish w.outer.script.stack.size 1 1 : Run ε Unit) v ()
      { v.outer.script with stack := w.outer.script.stack ++ #[x] } := by
  obtain ⟨stack, -, others⟩ := left
  have size : v.outer.script.stack.size = w.outer.script.stack.size + arguments.length + 2 := by
    rw [stack, Array.size_append, Array.size_append]
    rfl
  have count : min 1 (v.outer.script.stack.size - (w.outer.script.stack.size + 1)) = 1 := by omega
  have last : v.outer.script.stack.size - 1 =
      (w.outer.script.stack ++ (Value.function f :: arguments).toArray).size := by
    rw [stack]
    generalize w.outer.script.stack ++ _ = below
    rw [Array.size_append]
    exact Nat.add_sub_cancel ..
  let laden : Script.State := { v.outer.script with
    stack := w.outer.script.stack ++ (Value.function f :: arguments).toArray }
  have taken : Retouches (onScript (·.takeFrom (v.outer.script.stack.size - 1)) : Run ε _) v [x]
      laden := by
    unfold Retouches
    rw [onScript_apply, last, takeFrom_append stack]
    rfl
  have emptied : Retouches (cutStack w.outer.script.stack.size [x] : Run ε Unit)
      (withScript v laden) () { v.outer.script with stack := w.outer.script.stack } := by
    refine cutStack_held (takeFrom_append (s := laden) rfl) fun h member => ?_
    refine List.mem_append_right _ (Engine.mem_values_of_held ?_)
    change Value.handle h ∈ v.outer.held.flatten
    rw [others]
    exact List.mem_append_right _ (held h ((List.mem_cons.1 member).resolve_left nofun))
  have gone : Retouches (discard (adjust [x] 1) ([x].drop (adjust [x] 1).length) : Run ε Unit)
      (withScript v { v.outer.script with stack := w.outer.script.stack }) ()
      { v.outer.script with stack := w.outer.script.stack } :=
    retouches_discard (w := withScript v _) fun _ member => (List.not_mem_nil member).elim
  unfold finish
  refine Retouches.script.bind ?_
  dsimp only
  rw [count]
  exact taken.bind (emptied.bind (gone.bind (.modifyScript _)))

/-- The world in which a function is called with arguments, back from it. -/
theorem enter_one {x : Value} (shallow : w.outer.script.frames.length < w.outer.script.maxDepth)
    (room : w.outer.script.stack.size + arguments.length + 1 < w.outer.script.maxStack)
    (ran : run f (entered f arguments w) = (.ok 1, v)) (left : LeavesOne f arguments x w v)
    (held : ∀ h : Wrapper, .handle h ∈ arguments → .handle h ∈ w.outer.held.flatten) :
    enter run w.outer.script.stack.size f 1 (calling f arguments w) =
      (.ok (), withScript v { v.outer.script with
        stack := w.outer.script.stack ++ #[x], frames := w.outer.script.frames }) := by
  have finished := (finish_one (ε := Script.Error) left held).bind
    (f := fun _ => modifyScript (·.leave)) (.modifyScript _)
  have frames : v.outer.script.frames.tail = w.outer.script.frames := by rw [left.frames]; rfl
  rw [enter_free shallow room, ran, ← frames]
  exact finished

/-- A call of a function that leaves one value gives this value, and leaves everything else as the
function does. -/
theorem callFunction_one {x : Value} (fits : w.outer.script.Fits)
    (shallow : w.outer.script.frames.length < w.outer.script.maxDepth)
    (room : w.outer.script.stack.size + arguments.length + 1 < w.outer.script.maxStack)
    (ran : run f (entered f arguments w) = (.ok 1, v)) (left : LeavesOne f arguments x w v)
    (held : ∀ h : Wrapper, .handle h ∈ arguments → .handle h ∈ w.outer.held.flatten) :
    callFunction run f arguments 1 w = (.ok [x], returned w v) := by
  have called : call run arguments.length 1
      (withScript w (w.outer.script.pushAll (.function f :: arguments))) =
        (.ok (), released (withScript v { v.outer.script with
          stack := w.outer.script.stack ++ #[x], frames := w.outer.script.frames })) := by
    rw [call_function fits]
    exact holding_held (enter_one shallow room ran left held) fun h member =>
      nomatch List.mem_singleton.1 member
  have taken := takeFrom_append (s := { v.outer.script with
    stack := w.outer.script.stack ++ #[x], frames := w.outer.script.frames })
    (show _ = w.outer.script.stack ++ [x].toArray from rfl)
  unfold callFunction
  rw [script_bind_apply, (Retouches.modifyScript _).andThen, bind_apply, called]
  dsimp only
  rw [onScript_apply]
  unfold released withScript
  dsimp only
  rw [taken, left.held]
  rfl

/-! ## A protected call -/

/-- What a caller gets of what a function gave: results that are related to those of the function,
or an error that says the same, also where the function broke off. -/
inductive Relays (P : List Value → List Value → Prop) (text : ε → String) :
    Except (Stop ε) (List Value) → Except (Stop Script.Error) (List Value) → Prop
  | ok {given got : List Value} (related : P given got) : Relays P text (.ok given) (.ok got)
  | failed {e : ε} {e' : Script.Error} (same : e'.message = text e) :
      Relays P text (.error (.failed e)) (.error (.failed e'))
  | panicked {message : String} {e : Script.Error} (same : e.message = message) :
      Relays P text (.error (.panicked message)) (.error (.failed e))
  | exhausted : Relays P text (.error .exhausted) (.error .exhausted)

/-- Where two functions end alike, what a caller gets of the second one is what it gets of the
first. -/
theorem Relays.ofLike {P : List Value → List Value → Prop} {text : ε → String}
    {r r' : Except (Stop ε) (List Value)} {got : Except (Stop Script.Error) (List Value)}
    (alike : EndsLike P r r') (relays : Relays Eq text r' got) : Relays P text r got := by
  cases alike with
  | ok related =>
    cases relays with
    | ok same => exact .ok (same ▸ related)
  | error stop =>
    cases relays with
    | failed same => exact .failed same
    | panicked same => exact .panicked same
    | exhausted => exact .exhausted

/-- How a call ends, given how its function ended: results stand on top of the stack of the caller,
and nothing else that matters is different from how the function left it. -/
inductive Settles (w v : World Engine) :
    Except (Stop Script.Error) (List Value) → Except (Stop Script.Error) Unit × World Engine → Prop
  | ok {results : List Value} {u : World Engine} (beside : World.Beside Engine.Agrees v u)
      (stack : u.outer.script.stack = w.outer.script.stack ++ results.toArray) :
      Settles w v (.ok results) (.ok (), u)
  | failed {e e' : Script.Error} {u : World Engine} (beside : World.Beside Engine.Agrees v u)
      (same : e'.message = e.message) :
      Settles w v (.error (.failed e)) (.error (.failed e'), u)
  | panicked {message : String} {u : World Engine} (beside : World.Beside Engine.Agrees v u) :
      Settles w v (.error (.panicked message)) (.error (.panicked message), u)
  | exhausted {u : World Engine} (beside : World.Beside Engine.Agrees v u) :
      Settles w v (.error .exhausted) (.error .exhausted, u)

theorem beside_withScript {s : Script.State}
    (behaviours : s.behaviours.size = v.outer.script.behaviours.size) :
    World.Beside Engine.Agrees v (withScript v s) :=
  ⟨rfl, rfl, rfl, rfl, rfl, rfl, behaviours⟩

theorem message_withTraceback (e : Script.Error) (traceback : String) :
    (e.withTraceback traceback).message = e.message := by
  unfold Script.Error.withTraceback
  split <;> rfl

variable {ended : Except (Stop Script.Error) (List Value)}

theorem settles_enter (shallow : w.outer.script.frames.length < w.outer.script.maxDepth)
    (room : w.outer.script.stack.size + arguments.length + 1 < w.outer.script.maxStack)
    (ran : run f (entered f arguments w) = (ended.map List.length, v))
    (left : ∀ results, ended = .ok results → v.outer.script.stack =
      w.outer.script.stack ++ (.function f :: arguments).toArray ++ results.toArray) :
    Settles w v ended (enter run w.outer.script.stack.size f (-1) (calling f arguments w)) := by
  rw [enter_free shallow room, ran]
  cases ended with
  | ok results =>
    have stack := left results rfl
    have below : w.outer.script.stack.size < v.outer.script.stack.size := by
      rw [stack, Array.append_assoc, Array.size_append]
      exact Nat.lt_add_of_pos_right (by simp)
    obtain ⟨s, finished, placed⟩ := finish_results stack
    obtain ⟨_, exactly⟩ := exists_finish (ε := Script.Error) results.length (-1) v below
    have behaviours : s.behaviours.size = v.outer.script.behaviours.size :=
      congrArg (fun ended => ended.2.outer.script.behaviours.size) (finished.symm.trans exactly)
    have whole := finished.bind (f := fun _ => modifyScript (·.leave)) (.modifyScript _)
    change Settles w v _ ((do
      finish w.outer.script.stack.size results.length (-1)
      modifyScript (·.leave) : Run Script.Error Unit) v)
    rw [whole]
    exact .ok (beside_withScript behaviours) placed
  | error stop =>
    cases stop with
    | failed e =>
      obtain ⟨_, cut⟩ := exists_cutStack (ε := Script.Error) w.outer.script.stack.size [] v
      change Settles w v _ ((do
        cutStack w.outer.script.stack.size
        modifyScript (·.leave)
        fail (e.withTraceback v.outer.script.traceback) : Run Script.Error Unit) v)
      rw [cut.andThen, (Retouches.modifyScript _).andThen]
      exact .failed (beside_withScript rfl) (message_withTraceback e _)
    | panicked message => exact .panicked ⟨rfl, rfl, .refl _⟩
    | exhausted => exact .exhausted ⟨rfl, rfl, .refl _⟩

/-- Values that are held meanwhile are no matter. -/
theorem Settles.holding {m : Run Script.Error Unit} {values : List Value} {u : World Engine}
    (settles : Settles w v ended (m (keeping values u))) :
    Settles w v ended (holding values (fun _ => []) m u) := by
  obtain ⟨held, graveyard, same⟩ := exists_holding values (fun _ => []) m u
  rw [same]
  generalize m (keeping values u) = result at settles ⊢
  have after : ∀ u : World Engine, World.Beside Engine.Agrees v u →
      World.Beside Engine.Agrees v { u with outer := { u.outer with
        script := { u.outer.script with graveyard }, held } } :=
    fun _ beside => beside.trans ⟨rfl, rfl, rfl, rfl, rfl, rfl, rfl⟩
  cases settles with
  | ok beside stack => exact .ok (after _ beside) stack
  | failed beside message => exact .failed (after _ beside) message
  | panicked beside => exact .panicked (after _ beside)
  | exhausted beside => exact .exhausted (after _ beside)

/-- A protected call of a function hands on what the function gave. -/
theorem callValue_relays (fits : w.outer.script.Fits)
    (shallow : w.outer.script.frames.length < w.outer.script.maxDepth)
    (room : w.outer.script.stack.size + arguments.length + 1 < w.outer.script.maxStack)
    (ran : run f (entered f arguments w) = (ended.map List.length, v))
    (left : ∀ results, ended = .ok results → v.outer.script.stack =
      w.outer.script.stack ++ (.function f :: arguments).toArray ++ results.toArray) :
    Relays Eq Script.Error.message ended (callValue run (.function f) arguments w).1 ∧
      World.Beside Engine.Agrees v (callValue run (.function f) arguments w).2 := by
  have settles : Settles w v ended (call run arguments.length (-1)
      (withScript w (w.outer.script.pushAll (.function f :: arguments)))) := by
    rw [call_function fits]
    exact Settles.holding (settles_enter shallow room ran left)
  unfold callValue protectedCall
  rw [script_bind_apply, (Retouches.modifyScript _).andThen, bind_apply, script_bind_apply,
    bind_apply, outcome_apply]
  generalize withScript w (w.outer.script.pushAll (.function f :: arguments)) = x at settles ⊢
  dsimp only
  generalize call run arguments.length (-1) x = called at settles ⊢
  cases settles with
  | @ok results u beside stack =>
    change Relays Eq _ _ (onScript (·.takeFrom w.outer.script.stack.size) u).1 ∧
      World.Beside _ v (onScript (ε := Script.Error) (·.takeFrom w.outer.script.stack.size) u).2
    rw [onScript_apply, takeFrom_append stack]
    exact ⟨.ok rfl, beside.trans (beside_withScript rfl)⟩
  | failed beside same => exact ⟨.failed same, beside⟩
  | @panicked message u beside =>
    dsimp only
    rw [script_bind_apply, (Retouches.modifyScript _).andThen]
    obtain ⟨_, cut⟩ := exists_cutStack (ε := Script.Error)
      (x.outer.script.stack.size - (arguments.length + 1)) []
      (withScript u (u.outer.script.leaveTo x.outer.script.frames.length))
    rw [cut.andThen]
    exact ⟨.panicked rfl, beside.trans (beside_withScript rfl)⟩
  | exhausted beside => exact ⟨.exhausted, beside⟩

end ScriptHost.Run

import ScriptHost.Proofs.Handles.Balance
/-!
Computations that keep a world balanced. They come in pairs that do the same, so that what runs the
functions of scripts can be replaced by something that does the same wherever it is asked in a
balanced world.
-/
namespace ScriptHost

open Host (World)
open Script (Value)

variable {ε δ α β : Type} {w v u : World Engine}

/-! ## What may become of a world -/

/-- The same values are held, types only come, and what is regular was so before. -/
structure Passes (w v : World Engine) : Prop where
  held : v.outer.held = w.outer.held
  types : w.host.domain.Evolves v.host.domain
  regular : v.outer.Regular → w.outer.Regular

namespace Passes

theorem refl (w : World Engine) : Passes w w :=
  ⟨rfl, .refl, id⟩

theorem trans (first : Passes w v) (second : Passes v u) : Passes w u :=
  ⟨second.held.trans first.held, first.types.trans second.types, first.regular ∘ second.regular⟩

theorem grown (passes : Passes w v) : w.host.types ≤ v.host.types :=
  passes.types.size

/-- Only the scripts change. -/
theorem withScript (w : World Engine) (s : Script.State) : Passes w (Run.withScript w s) :=
  ⟨rfl, .refl, fun regular => regular.congr rfl rfl rfl⟩

/-- Only the host changes. -/
theorem rehost {s : Host.State} (types : w.host.Types s) : Passes w { w with host := s } :=
  ⟨rfl, types.evolves, id⟩

/-- Values are let go. -/
theorem discard (w : World Engine) (inUse going : List Value) :
    Passes w { w with outer := w.outer.discard inUse going } := by
  obtain ⟨_, same⟩ := Run.discard_eq w.outer inUse going
  rw [same]
  exact .withScript ..

/-- An entry is made in the books together with a change to the registry. -/
theorem book (deed : Bridge.Deed) {registry : Bridge.Registry}
    (slots : w.outer.bridge.registry.slots.size ≤ registry.slots.size) :
    Passes w { w with outer := { w.outer with
      bridge := { w.outer.bridge with registry }, ledger := deed :: w.outer.ledger } } :=
  ⟨rfl, .refl, fun later => later.earlier rfl rfl slots⟩

/-- An entry is made in the books. -/
theorem note (w : World Engine) (deed : Bridge.Deed) :
    Passes w { w with outer := { w.outer with ledger := deed :: w.outer.ledger } } :=
  .book deed (Nat.le_refl w.outer.bridge.registry.slots.size)

/-- Values that are held stay so. -/
theorem keeps {x : Value} (passes : Passes w v) (there : x ∈ w.outer.held.flatten) :
    x ∈ v.outer.held.flatten := by
  rwa [passes.held]

end Passes

namespace Run

/-- What a computation that kept a world balanced ends with. One that was nested too deeply may leave
anything behind; what fails or breaks off has nothing at hand. -/
def Ends (w : World Engine) (post : α → World Engine → Prop) :
    Except (Stop ε) α → World Engine → Prop
  | .ok a, v => Passes w v ∧ post a v
  | .error (.failed _), v => Passes w v ∧ Balanced [] v
  | .error (.panicked _), v => Passes w v ∧ Balanced [] v
  | .error .exhausted, _ => True

/-- Two computations do the same on a world, and they keep it balanced. -/
def Balances (w : World Engine) (m m' : Run ε α) (post : α → World Engine → Prop) : Prop :=
  m w = m' w ∧ Ends w post (m w).1 (m w).2

theorem Ends.since {post : α → World Engine → Prop} {r : Except (Stop ε) α}
    (ends : Ends v post r u) (passes : Passes w v) : Ends w post r u := by
  match r, ends with
  | .ok _, ⟨later, given⟩ => exact ⟨passes.trans later, given⟩
  | .error (.failed _), ⟨later, balanced⟩ => exact ⟨passes.trans later, balanced⟩
  | .error (.panicked _), ⟨later, balanced⟩ => exact ⟨passes.trans later, balanced⟩
  | .error .exhausted, _ => trivial

namespace Balances

variable {m m' : Run ε α} {f g : α → Run ε β} {P P' : α → World Engine → Prop}
  {Q : β → World Engine → Prop} {a : α}

/-! ## Sequences -/

theorem pure (given : P a w) : Balances w (pure a : Run ε α) (pure a) P :=
  ⟨rfl, .refl w, given⟩

theorem fail (balanced : Balanced [] w) (e : ε) : Balances w (fail e : Run ε α) (fail e) P :=
  ⟨rfl, .refl w, balanced⟩

theorem breakOff (balanced : Balanced [] w) (message : String) :
    Balances w (breakOff message : Run ε α) (breakOff message) P :=
  ⟨rfl, .refl w, balanced⟩

theorem exhausted : Balances w (throw .exhausted : Run ε α) (throw .exhausted) P :=
  ⟨rfl, trivial⟩

theorem bind (first : Balances w m m' P)
    (second : ∀ a v, Passes w v → P a v → Balances v (f a) (g a) Q) :
    Balances w (m >>= f) (m' >>= g) Q := by
  obtain ⟨same, ends⟩ := first
  unfold Balances
  rw [bind_apply, bind_apply, ← same]
  generalize m w = ended at ends
  match ended, ends with
  | (.ok a, v), ⟨passes, given⟩ =>
    obtain ⟨same, ends⟩ := second a v passes given
    exact ⟨same, ends.since passes⟩
  | (.error (.failed _), v), ends => exact ⟨rfl, ends⟩
  | (.error (.panicked _), v), ends => exact ⟨rfl, ends⟩
  | (.error .exhausted, v), _ => exact ⟨rfl, trivial⟩

/-- What comes after a look at the world. -/
theorem look {R : α → Prop} (first : Balances w m m' fun a v => v = w ∧ R a)
    (second : ∀ a, R a → Balances w (f a) (g a) Q) : Balances w (m >>= f) (m' >>= g) Q :=
  first.bind fun a _ _ ⟨same, known⟩ => same ▸ second a known

/-- What comes after a step of which the outcome is known. -/
theorem after (step : m w = (.ok a, v)) (passes : Passes w v)
    (rest : Balances v (f a) (g a) Q) : Balances w (m >>= f) (m >>= g) Q := by
  obtain ⟨same, ends⟩ := rest
  unfold Balances
  rw [bind_apply, bind_apply, step]
  exact ⟨same, ends.since passes⟩

/-- A step of which the outcome is known. -/
theorem last (step : m w = (.ok a, v)) (passes : Passes w v) (given : P a v) :
    Balances w m m P := by
  unfold Balances
  rw [step]
  exact ⟨rfl, passes, given⟩

theorem weaken (balances : Balances w m m' P) (implies : ∀ a v, Passes w v → P a v → P' a v) :
    Balances w m m' P' := by
  obtain ⟨same, ends⟩ := balances
  refine ⟨same, ?_⟩
  generalize m w = ended at ends
  match ended, ends with
  | (.ok a, v), ⟨passes, given⟩ => exact ⟨passes, implies a v passes given⟩
  | (.error (.failed _), v), ends => exact ends
  | (.error (.panicked _), v), ends => exact ends
  | (.error .exhausted, v), _ => trivial

theorem mapError (balances : Balances w m m' P) (g : ε → δ) :
    Balances w (m.mapError g) (m'.mapError g) P := by
  obtain ⟨same, ends⟩ := balances
  unfold Balances
  rw [mapError_apply, mapError_apply, ← same]
  refine ⟨rfl, ?_⟩
  generalize m w = ended at ends
  match ended, ends with
  | (.ok a, v), ends => exact ends
  | (.error (.failed _), v), ends => exact ends
  | (.error (.panicked _), v), ends => exact ends
  | (.error .exhausted, v), _ => trivial

theorem ofExcept (balanced : Balanced [] w) {r : Except ε α} (given : ∀ a, r = .ok a → P a w) :
    Balances w (ofExcept r) (ofExcept r) P := by
  cases r with
  | ok a => exact .pure (given a rfl)
  | error e => exact .fail balanced e

/-- A computation of which the outcome is looked at. Only what was nested too deeply stays so. -/
theorem attempt {f f' : Except (Stop ε) α → Run δ β} {Q : β → World Engine → Prop}
    (first : Balances w m m' P)
    (ok : ∀ a v, Passes w v → P a v → Balances v (f (.ok a)) (f' (.ok a)) Q)
    (failed : ∀ e v, Passes w v → Balanced [] v →
      Balances v (f (.error (.failed e))) (f' (.error (.failed e))) Q)
    (panicked : ∀ message v, Passes w v → Balanced [] v →
      Balances v (f (.error (.panicked message))) (f' (.error (.panicked message))) Q)
    (exhausted : f (.error .exhausted) = throw .exhausted)
    (exhausted' : f' (.error .exhausted) = throw .exhausted) :
    Balances w (outcome m >>= f) (outcome m' >>= f') Q := by
  obtain ⟨same, ends⟩ := first
  unfold Balances
  rw [bind_apply, bind_apply, outcome_apply, outcome_apply, ← same]
  dsimp only
  generalize m w = ended at ends
  match ended, ends with
  | (.ok a, v), ⟨passes, given⟩ =>
    obtain ⟨same, ends⟩ := ok a v passes given
    exact ⟨same, ends.since passes⟩
  | (.error (.failed e), v), ⟨passes, balanced⟩ =>
    obtain ⟨same, ends⟩ := failed e v passes balanced
    exact ⟨same, ends.since passes⟩
  | (.error (.panicked message), v), ⟨passes, balanced⟩ =>
    obtain ⟨same, ends⟩ := panicked message v passes balanced
    exact ⟨same, ends.since passes⟩
  | (.error .exhausted, v), _ =>
    dsimp only
    rw [exhausted, exhausted']
    exact ⟨rfl, trivial⟩

/-! ## Reading and changing -/

theorem get {f f' : World Engine → Run ε β} (rest : Balances w (f w) (f' w) Q) :
    Balances w (get >>= f) (get >>= f') Q :=
  rest

theorem engine {f f' : Engine → Run ε β} (rest : Balances w (f w.outer) (f' w.outer) Q) :
    Balances w (engine >>= f) (engine >>= f') Q :=
  rest

theorem script {f f' : Script.State → Run ε β}
    (rest : Balances w (f w.outer.script) (f' w.outer.script) Q) :
    Balances w (script >>= f) (script >>= f') Q :=
  rest

theorem bridge {f f' : Bridge.State → Run ε β}
    (rest : Balances w (f w.outer.bridge) (f' w.outer.bridge) Q) :
    Balances w (bridge >>= f) (bridge >>= f') Q :=
  rest

theorem host {f f' : Host.State → Run ε β} (rest : Balances w (f w.host) (f' w.host) Q) :
    Balances w (host >>= f) (host >>= f') Q :=
  rest

theorem domain {f f' : Host.Domain → Run ε β}
    (rest : Balances w (f w.host.domain) (f' w.host.domain) Q) :
    Balances w (domain >>= f) (domain >>= f') Q :=
  rest

theorem failHere (balanced : Balanced [] w) (message : String) {P : α → World Engine → Prop} :
    Balances w (failHere message) (failHere message) P :=
  script (.fail balanced _)

/-- A change to the scripts that gives something. -/
theorem onScript {g : Script.State → α × Script.State}
    (given : P (g w.outer.script).1 (withScript w (g w.outer.script).2)) :
    Balances w (onScript g : Run ε α) (onScript g) P :=
  .last rfl (.withScript ..) given

theorem modifyScript {g : Script.State → Script.State} {P : Unit → World Engine → Prop}
    (given : P () (withScript w (g w.outer.script))) :
    Balances w (modifyScript g : Run ε Unit) (modifyScript g) P :=
  .last rfl (.withScript ..) given

/-- A change to the scripts, and what comes after it. -/
theorem afterScript {g : Script.State → Script.State} {f f' : Unit → Run ε β}
    (rest : Balances (withScript w (g w.outer.script)) (f ()) (f' ()) Q) :
    Balances w (Run.modifyScript g >>= f) (Run.modifyScript g >>= f') Q :=
  .after rfl (.withScript ..) rest

theorem report (entry : JournalEntry) {P : Unit → World Engine → Prop}
    (given : P () { w with journal := w.journal.push entry }) :
    Balances w (report entry : Run ε Unit) (report entry) P :=
  .last (v := { w with journal := w.journal.push entry }) rfl ⟨rfl, .refl, id⟩ given

/-- A change to the host, which stays typed. -/
theorem onHost {g : Host.State → α × Host.State} (types : w.host.Types (g w.host).2)
    (given : P (g w.host).1 { w with host := (g w.host).2 }) :
    Balances w (onHost g : Run ε α) (onHost g) P :=
  .last (v := { w with host := (g w.host).2 }) rfl (.rehost types) given

/-! ## Holding values and letting them go -/

theorem discard {inUse going : List Value} {P : Unit → World Engine → Prop}
    (given : P () { w with outer := w.outer.discard inUse going }) :
    Balances w (discard inUse going : Run ε Unit) (discard inUse going) P :=
  .last (v := { w with outer := w.outer.discard inUse going }) rfl (.discard ..) given

/-- Values that are let go were all that was at hand, apart from those in use. -/
theorem discarded (inUse : List Value) {going : List Value}
    (balanced : Balanced (inUse ++ going) w) :
    Balances w (Run.discard inUse going : Run ε Unit) (Run.discard inUse going)
      fun _ => Balanced inUse :=
  .discard balanced.discard

/-- Values are held while a computation runs, and let go at its end. What is known about the stack
stays true. -/
theorem holding {values : List Value} {inUse : α → List Value}
    (inner : Balances (Run.keeping values w) m m' fun a v => Balanced (inUse a) v ∧ P a v)
    (stays : ∀ a v u, u.outer.script.stack = v.outer.script.stack → P a v → P a u) :
    Balances w (Run.holding values inUse m) (Run.holding values inUse m')
      fun a v => Balanced (inUse a) v ∧ P a v := by
  obtain ⟨same, ends⟩ := inner
  unfold Balances
  rw [holding_apply, holding_apply, ← same]
  refine ⟨rfl, ?_⟩
  have lets : ∀ {v : World Engine} {loose : List Value}, Passes (Run.keeping values w) v →
      Balanced loose v →
        Passes w { v with outer := { v.outer with held := v.outer.held.tail }.discard loose values } ∧
        Balanced loose
          { v with outer := { v.outer with held := v.outer.held.tail }.discard loose values } := by
    intro v loose ⟨held, types, regular⟩ balanced
    have first : v.outer.held = values :: v.outer.held.tail := by
      rw [held]
      rfl
    have back := balanced.unkeeping first
    refine ⟨?_, back.discard⟩
    obtain ⟨_, same⟩ := discard_eq { v.outer with held := v.outer.held.tail } loose values
    rw [same]
    refine ⟨congrArg List.tail held, types, fun later => ?_⟩
    exact (regular (later.congr rfl rfl rfl)).congr rfl rfl rfl
  generalize m (Run.keeping values w) = ended at ends
  match ended, ends with
  | (.ok a, v), ⟨through, balanced, given⟩ =>
    refine ⟨(lets through balanced).1, (lets through balanced).2, stays a v _ ?_ given⟩
    obtain ⟨_, same⟩ := discard_eq { v.outer with held := v.outer.held.tail } (inUse a) values
    exact congrArg (·.script.stack) same
  | (.error (.failed _), v), ⟨through, balanced⟩ => exact lets through balanced
  | (.error (.panicked _), v), ⟨through, balanced⟩ => exact lets through balanced
  | (.error .exhausted, v), _ => trivial

/-- Values are held while a computation runs, and let go at its end. -/
theorem holds {values : List Value} (inUse : α → List Value)
    (inner : Balances (Run.keeping values w) m m' fun a => Balanced (inUse a)) :
    Balances w (Run.holding values inUse m) (Run.holding values inUse m')
      fun a => Balanced (inUse a) := by
  refine Balances.weaken (holding (P := fun _ _ => True) ?_ fun _ _ _ _ => id)
    fun _ _ _ => And.left
  exact inner.weaken fun _ _ _ given => ⟨given, trivial⟩

/-! ## Lists -/

/-- A list of looks at the world. -/
theorem reads {f : α → Run ε β} {as : List α} {P : β → Prop}
    (each : ∀ a ∈ as, Balances w (f a) (f a) fun b v => v = w ∧ P b) :
    Balances w (as.mapM f) (as.mapM f) fun bs v => v = w ∧ ∀ b ∈ bs, P b := by
  induction as with
  | nil => exact .pure ⟨rfl, fun _ member => (List.not_mem_nil member).elim⟩
  | cons a rest ih =>
    rw [List.mapM_cons]
    refine (each a List.mem_cons_self).look fun b known => ?_
    refine (ih fun x member => each x (List.mem_cons_of_mem a member)).bind fun bs v _ given => ?_
    obtain ⟨rfl, others⟩ := given
    exact .pure ⟨rfl, List.forall_mem_cons.2 ⟨known, others⟩⟩

/-- Steps that all keep something true. -/
theorem forM {f f' : α → Run ε PUnit} {as : List α} {I : World Engine → Prop} (start : I w)
    (each : ∀ a ∈ as, ∀ v, I v → Balances v (f a) (f' a) fun _ => I) :
    Balances w (as.forM f) (as.forM f') fun _ => I := by
  induction as generalizing w with
  | nil => exact .pure start
  | cons a rest ih =>
    refine (each a List.mem_cons_self w start).bind fun _ v _ given => ?_
    exact ih given fun x member => each x (List.mem_cons_of_mem a member)

end Balances

end Run

end ScriptHost

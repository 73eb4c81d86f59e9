import ScriptHost.Engine.State
import ScriptHost.Proofs.Engine.TaskQueue
import ScriptHost.Proofs.Host.Seclusion
import ScriptHost.Proofs.Script.Discipline
/-!
Orderly computations on an engine: they keep to their part of the stack, they leave hidden objects
alone, and they take no task out of the queue.
-/
namespace ScriptHost

open Host (AllOpen ObjectRef World)
open Script (Discipline)

variable {ε δ α β : Type} {hidden : Nat → Prop}

/-! ## Secluded engines -/

/-- An entry that does not refer to a hidden object. -/
def Bridge.Registry.Entry.Open (hidden : Nat → Prop) : Bridge.Registry.Entry → Prop
  | .strong ref | .weak ref => ref.Open hidden
  | .type _ => True

/-- A registry that refers to no hidden object. -/
def Bridge.Registry.Sealed (hidden : Nat → Prop) (r : Bridge.Registry) : Prop :=
  ∀ slot ∈ r.slots, ∀ entry, slot.entry = some entry → entry.Open hidden

/-- An engine that refers to hidden objects nowhere. -/
structure Engine.Sealed (hidden : Nat → Prop) (e : Engine) : Prop where
  names : ∀ entry ∈ e.names, entry.2.Open hidden
  registry : e.bridge.registry.Sealed hidden

/-- A world that refers to hidden objects nowhere, and whose current frame starts on the stack. -/
structure Proper (hidden : Nat → Prop) (w : World Engine) : Prop where
  host : w.host.Sealed hidden
  engine : w.outer.Sealed hidden
  fits : w.outer.script.Fits

/-- Nothing happens to the queue from one world to another but that tasks are posted. -/
def Posts (w v : World Engine) : Prop :=
  w.outer.tasks.Gathers v.outer.tasks ∧ v.outer.senderOpen = w.outer.senderOpen

theorem Posts.refl (w : World Engine) : Posts w w :=
  ⟨.refl _, rfl⟩

theorem Posts.trans {w v u : World Engine} (first : Posts w v) (second : Posts v u) : Posts w u :=
  ⟨first.1.trans second.1, second.2.trans first.2⟩

/-- What may become of a world. -/
structure Leads (hidden : Nat → Prop) (d : Discipline) (broke : Bool) (w v : World Engine) :
    Prop where
  host : w.host.Keeps hidden v.host
  engine : v.outer.Sealed hidden
  script : d.Ends broke w.outer.script v.outer.script
  posts : Posts w v

section

variable {d : Discipline} {broke : Bool} {w v u : World Engine}

theorem Leads.proper (leads : Leads hidden d broke w v) (proper : Proper hidden w) :
    Proper hidden v :=
  ⟨leads.host.isSealed, leads.engine, leads.script.fits proper.fits⟩

theorem Proper.leads (proper : Proper hidden w) : Leads hidden d false w w :=
  ⟨proper.host.keeps, proper.engine, .refl proper.fits, .refl w⟩

/-- A world hides nothing from scripts unless something is to be hidden. -/
theorem proper_of_fits (fits : w.outer.script.Fits) : Proper (fun _ => False) w := by
  have nothing : ∀ ref : ObjectRef, ref.Open fun _ => False := fun _ hidden => hidden
  have values : ∀ {values : List Host.Value}, AllOpen (fun _ => False) values := by
    intro values v _
    cases v with
    | object ref => exact nothing ref
    | _ => trivial
  refine ⟨⟨fun _ hidden => hidden.elim, fun _ _ => values, fun _ _ => values⟩, ⟨?_, ?_⟩, fits⟩
  · exact fun entry _ => nothing entry.2
  · intro _ _ entry _
    cases entry with
    | strong ref | weak ref => exact nothing ref
    | type id => trivial

/-- What may become of a world whose host alone changes. -/
theorem Proper.rehost (proper : Proper hidden w) (host : w.host.Keeps hidden v.host)
    (outer : v.outer = w.outer) : Leads hidden d false w v := by
  refine ⟨host, ?_, ?_, ?_⟩
  · rw [outer]
    exact proper.engine
  · rw [outer]
    exact Discipline.Allows.refl (d := d) proper.fits
  · unfold Posts
    rw [outer]
    exact Posts.refl w

/-- What may become of a world that breaks off on the spot. -/
theorem Proper.given_up (proper : Proper hidden w) : Leads hidden d true w w :=
  ⟨proper.host.keeps, proper.engine,
    Discipline.Allows.given_up (d := d) (.refl proper.fits) proper.fits, .refl w⟩

theorem Leads.trans (first : Leads hidden d false w v) (proper : Proper hidden w)
    (second : Leads hidden d broke v u) : Leads hidden d broke w u :=
  ⟨first.host.trans second.host, second.engine,
    Discipline.Allows.then first.script proper.fits second.script, first.posts.trans second.posts⟩

/-- What broke off is under no discipline. -/
theorem Leads.of_broken {d' : Discipline} (leads : Leads hidden d true w v) :
    Leads hidden d' true w v :=
  ⟨leads.host, leads.engine, leads.script, leads.posts⟩

theorem Leads.of_still (leads : Leads hidden .still broke w v) (proper : Proper hidden w) :
    Leads hidden d broke w v :=
  ⟨leads.host, leads.engine, leads.script.of_still proper.fits, leads.posts⟩

end

/-! ## Values that go -/

theorem holdsWrapper_iff (values : List Script.Value) (h : Script.Wrapper) :
    holdsWrapper values h = true ↔ .handle h ∈ values := by
  unfold holdsWrapper
  rw [List.any_eq_true]
  constructor
  · rintro ⟨x, member, same⟩
    cases x <;> simp [Script.Value.wrapper?] at same
    exact same ▸ member
  · exact fun member => ⟨_, member, by simp [Script.Value.wrapper?]⟩

theorem mem_lastReferences (staying going : List Script.Value) (h : Script.Wrapper) :
    h ∈ lastReferences staying going ↔ .handle h ∈ going ∧ .handle h ∉ staying := by
  induction going with
  | nil => simp [lastReferences]
  | cons x rest ih =>
    unfold lastReferences
    cases x with
    | handle k =>
      dsimp only [Script.Value.wrapper?]
      split
      · rename_i other
        rw [Bool.or_eq_true, holdsWrapper_iff, holdsWrapper_iff] at other
        rw [ih, List.mem_cons, Script.Value.handle.injEq]
        constructor
        · exact fun ⟨there, gone⟩ => ⟨.inr there, gone⟩
        · rintro ⟨rfl | there, gone⟩
          · exact ⟨other.resolve_right gone, gone⟩
          · exact ⟨there, gone⟩
      · rename_i last
        rw [Bool.or_eq_true, holdsWrapper_iff, holdsWrapper_iff, not_or] at last
        rw [List.mem_cons, ih, List.mem_cons, Script.Value.handle.injEq]
        constructor
        · rintro (rfl | ⟨there, gone⟩)
          · exact ⟨.inl rfl, last.2⟩
          · exact ⟨.inr there, gone⟩
        · rintro ⟨rfl | there, gone⟩
          · exact .inl rfl
          · exact .inr ⟨there, gone⟩
    | _ => simp [Script.Value.wrapper?, ih]

/-- What wrappers among some values left behind. -/
def LeftBy (going : List Script.Value) (more : Array Script.Remains) : Prop :=
  ∀ r ∈ more, ∃ h : Script.Wrapper, .handle h ∈ going ∧ r = ⟨h.behaviour, h.slot⟩

theorem LeftBy.mono {going going' : List Script.Value} {more : Array Script.Remains}
    (left : LeftBy going more) (among : ∀ v ∈ going, v ∈ going') : LeftBy going' more :=
  fun r member =>
    let ⟨h, there, same⟩ := left r member
    ⟨h, among _ there, same⟩

theorem LeftBy.append {going : List Script.Value} {more others : Array Script.Remains}
    (left : LeftBy going more) (left' : LeftBy going others) : LeftBy going (more ++ others) :=
  fun r member => (Array.mem_append.1 member).elim (left r) (left' r)

theorem LeftBy.eq_empty {going : List Script.Value} {more : Array Script.Remains}
    (left : LeftBy going more) (plain : ∀ v ∈ going, v.wrapper? = none) : more = #[] := by
  refine Array.eq_empty_iff_forall_not_mem.2 fun r member => ?_
  obtain ⟨h, there, -⟩ := left r member
  cases plain _ there

/-- Letting values go is of no consequence but for what waits to be finalized: what wrappers among
them left behind may wait, after what waits anyway. -/
theorem Engine.discard_leaves (e : Engine) (inUse going : List Script.Value) :
    ∃ more, LeftBy going more ∧ e.discard inUse going =
      { e with script := { e.script with graveyard := e.script.graveyard ++ more } } := by
  unfold Engine.discard
  split
  · exact ⟨#[], fun r member => (Array.not_mem_empty r member).elim, by rw [Array.append_empty]⟩
  · refine ⟨_, fun r member => ?_, rfl⟩
    obtain ⟨h, dead, same⟩ := List.mem_map.1 (List.mem_toArray.1 member)
    exact ⟨h, ((mem_lastReferences ..).1 dead).1, same.symm⟩

/-! ## Orderly computations -/

namespace Run

/-- Whether a computation broke off. -/
def broke : Except (Stop ε) α → Bool
  | .ok _ | .error (.failed _) => false
  | .error (.panicked _) | .error .exhausted => true

/-- A computation that keeps to a discipline and leaves hidden objects alone. What it gives has a
property. -/
def Orderly (hidden : Nat → Prop) (d : Discipline) (P : α → Prop) (m : Run ε α) : Prop :=
  ∀ w, Proper hidden w →
    Leads hidden d (broke (m w).1) w (m w).2 ∧ ∀ a, (m w).1 = .ok a → P a

/-- A sequence runs its second part where the first one ended, unless that one stopped. -/
theorem bind_apply (m : Run ε α) (f : α → Run ε β) (w : World Engine) :
    (m >>= f) w =
      match m w with
      | (.ok a, v) => f a v
      | (.error stop, v) => (.error stop, v) := by
  show ExceptT.bind m f w = _
  simp only [ExceptT.bind, ExceptT.mk, ExceptT.bindCont, bind, StateT.bind]
  cases m w with
  | mk result v => cases result <;> rfl

theorem mapError_apply (f : ε → δ) (m : Run ε α) (w : World Engine) :
    m.mapError f w = ((m w).1.mapError (·.map f), (m w).2) := rfl

theorem outcome_apply (m : Run ε α) (w : World Engine) :
    (outcome m : Run δ _) w = (.ok (m w).1, (m w).2) := rfl

theorem modifyEngine_apply (f : Engine → Engine) (w : World Engine) :
    (modifyEngine f : Run ε Unit) w = (.ok (), { w with outer := f w.outer }) := rfl

theorem onTasks_apply (f : TaskQueue Script.Block → α × TaskQueue Script.Block)
    (w : World Engine) :
    (onTasks f : Run ε α) w = (.ok (f w.outer.tasks.gather).1,
      { w with outer := { w.outer with tasks := (f w.outer.tasks.gather).2 } }) := rfl

theorem onScript_apply (f : Script.State → α × Script.State) (w : World Engine) :
    (onScript f : Run ε α) w = (.ok (f w.outer.script).1,
      { w with outer := { w.outer with script := (f w.outer.script).2 } }) := rfl

/-- The world while some values are held. -/
def keeping (values : List Script.Value) (w : World Engine) : World Engine :=
  { w with outer := { w.outer with held := values :: w.outer.held } }

/-- Holding values while a computation runs. -/
theorem holding_apply (values : List Script.Value) (inUse : α → List Script.Value) (m : Run ε α)
    (w : World Engine) :
    holding values inUse m w =
      match m (keeping values w) with
      | (.ok a, v) => (.ok a, { v with outer :=
          { v.outer with held := v.outer.held.tail }.discard (inUse a) values })
      | (.error stop, v) => (.error stop, { v with outer :=
          { v.outer with held := v.outer.held.tail }.discard [] values }) := by
  unfold holding
  rw [bind_apply, modifyEngine_apply]
  dsimp only
  rw [bind_apply, outcome_apply]
  dsimp only
  unfold keeping
  cases m { w with outer := { w.outer with held := values :: w.outer.held } } with
  | mk result v => cases result <;> rfl

/-- What is held is of no consequence for the answer. -/
theorem holding_fst (values : List Script.Value) (inUse : α → List Script.Value) (m : Run ε α)
    (w : World Engine) : (holding values inUse m w).1 = (m (keeping values w)).1 := by
  rw [holding_apply]
  cases m (keeping values w) with
  | mk result v => cases result <;> rfl

namespace Orderly

variable {d : Discipline} {P : α → Prop} {Q : β → Prop}

theorem pure {a : α} (given : P a) : Orderly hidden d P (pure a : Run ε α) :=
  fun _ proper => ⟨proper.leads, fun _ same => Except.ok.inj same ▸ given⟩

theorem fail (e : ε) : Orderly hidden d P (fail e : Run ε α) :=
  fun _ proper => ⟨proper.leads, fun _ same => (nomatch same)⟩

theorem breakOff (message : String) : Orderly hidden d P (breakOff message : Run ε α) :=
  fun _ proper => ⟨proper.given_up, fun _ same => (nomatch same)⟩

theorem throw (stop : Stop ε) : Orderly hidden d P (throw stop : Run ε α) := by
  cases stop with
  | failed e => exact .fail e
  | panicked message => exact .breakOff message
  | exhausted => exact fun _ proper => ⟨proper.given_up, fun _ same => (nomatch same)⟩

theorem bind {m : Run ε α} {f : α → Run ε β} (first : Orderly hidden d P m)
    (second : ∀ a, P a → Orderly hidden d Q (f a)) :
    Orderly hidden d Q (m >>= f) := by
  intro w proper
  obtain ⟨leads, given⟩ := first w proper
  rw [bind_apply]
  cases result : m w with
  | mk outcome v =>
    rw [result] at leads given
    cases outcome with
    | error stop =>
      refine ⟨?_, fun _ same => (nomatch same)⟩
      cases stop <;> exact leads
    | ok a =>
      obtain ⟨later, givenThen⟩ := second a (given a rfl) v (leads.proper proper)
      exact ⟨leads.trans proper later, givenThen⟩

theorem of_still {m : Run ε α} (orderly : Orderly hidden .still P m) :
    Orderly hidden d P m :=
  fun w proper => ⟨(orderly w proper).1.of_still proper, (orderly w proper).2⟩

theorem weaken {m : Run ε α} {other : α → Prop} (orderly : Orderly hidden d P m)
    (implies : ∀ a, P a → other a) : Orderly hidden d other m :=
  fun w proper => ⟨(orderly w proper).1, fun a same => implies a ((orderly w proper).2 a same)⟩

theorem any {m : Run ε α} (orderly : Orderly hidden d P m) :
    Orderly hidden d (fun _ => True) m :=
  orderly.weaken fun _ _ => trivial

theorem mapError {m : Run ε α} (orderly : Orderly hidden d P m) (f : ε → δ) :
    Orderly hidden d P (m.mapError f) := by
  intro w proper
  obtain ⟨leads, given⟩ := orderly w proper
  rw [mapError_apply]
  cases result : m w with
  | mk outcome v =>
    rw [result] at leads given
    refine ⟨?_, fun a same => ?_⟩
    · cases outcome with
      | ok a => exact leads
      | error stop => cases stop <;> exact leads
    · cases outcome with
      | ok b =>
        cases same
        exact given _ rfl
      | error stop => cases same

theorem ofExcept {r : Except ε α} (given : ∀ a, r = .ok a → P a) :
    Orderly hidden d P (ofExcept r) := by
  cases r with
  | ok a => exact .pure (given a rfl)
  | error e => exact .fail e

/-- A computation whose failures are handled, and which is not kept from breaking off. -/
theorem attempt {m : Run ε α} {f : Except (Stop ε) α → Run δ β}
    (orderly : Orderly hidden d P m)
    (ok : ∀ a, P a → Orderly hidden d Q (f (.ok a)))
    (failed : ∀ e, Orderly hidden d Q (f (.error (.failed e))))
    (panicked : ∀ message, f (.error (.panicked message)) = Run.breakOff message)
    (exhausted : f (.error .exhausted) = MonadExcept.throw .exhausted) :
    Orderly hidden d Q (outcome m >>= f) := by
  intro w proper
  obtain ⟨leads, given⟩ := orderly w proper
  rw [bind_apply, outcome_apply]
  dsimp only
  cases result : m w with
  | mk outcome v =>
    rw [result] at leads given
    cases outcome with
    | ok a =>
      obtain ⟨later, givenThen⟩ := ok a (given a rfl) v (leads.proper proper)
      exact ⟨leads.trans proper later, givenThen⟩
    | error stop =>
      cases stop with
      | failed e =>
        obtain ⟨later, givenThen⟩ := failed e v (leads.proper proper)
        exact ⟨leads.trans proper later, givenThen⟩
      | panicked message =>
        rw [panicked]
        exact ⟨leads, fun _ same => (nomatch same)⟩
      | exhausted =>
        rw [exhausted]
        exact ⟨leads, fun _ same => (nomatch same)⟩

/-! ### Reading -/

theorem get : Orderly hidden d (Proper hidden) (get : Run ε (World Engine)) :=
  fun _ proper => ⟨proper.leads, fun _ same => Except.ok.inj same ▸ proper⟩

theorem engine : Orderly hidden d (fun e => e.Sealed hidden ∧ e.script.Fits) (engine : Run ε Engine) :=
  get.bind fun _ proper => .pure ⟨proper.engine, proper.fits⟩

theorem script : Orderly hidden d (·.Fits) (script : Run ε Script.State) :=
  get.bind fun _ proper => .pure proper.fits

theorem bridge : Orderly hidden d (·.registry.Sealed hidden) (bridge : Run ε Bridge.State) :=
  get.bind fun _ proper => .pure proper.engine.registry

theorem host : Orderly hidden d (·.Sealed hidden) (host : Run ε Host.State) :=
  get.bind fun _ proper => .pure proper.host

theorem domain : Orderly hidden d (fun _ => True) (domain : Run ε Host.Domain) :=
  get.bind fun _ _ => .pure trivial

/-! ### Changing -/

theorem modifyEngine {f : Engine → Engine}
    (changes : ∀ e : Engine, e.Sealed hidden → e.script.Fits →
      (f e).Sealed hidden ∧ d.Allows e.script (f e).script ∧ e.tasks.Gathers (f e).tasks ∧
        (f e).senderOpen = e.senderOpen) :
    Orderly hidden d (fun _ => True) (modifyEngine f : Run ε Unit) := by
  intro w proper
  obtain ⟨isSealed, allows, posts⟩ := changes w.outer proper.engine proper.fits
  exact ⟨⟨proper.host.keeps, isSealed, allows, posts⟩, fun _ _ => trivial⟩

theorem onScript {f : Script.State → α × Script.State}
    (changes : ∀ s : Script.State, s.Fits → d.Allows s (f s).2) :
    Orderly hidden d (fun _ => True) (onScript f : Run ε α) := by
  intro w proper
  rw [onScript_apply]
  exact ⟨⟨proper.host.keeps, ⟨proper.engine.names, proper.engine.registry⟩,
    changes w.outer.script proper.fits, .refl w⟩, fun _ _ => trivial⟩

theorem modifyScript {f : Script.State → Script.State}
    (changes : ∀ s : Script.State, s.Fits → d.Allows s (f s)) :
    Orderly hidden d (fun _ => True) (modifyScript f : Run ε Unit) :=
  modifyEngine fun _ isSealed fits =>
    ⟨⟨isSealed.names, isSealed.registry⟩, changes _ fits, .refl _, rfl⟩

theorem modifyBridge {f : Bridge.State → Bridge.State}
    (changes : ∀ b : Bridge.State, b.registry.Sealed hidden → (f b).registry.Sealed hidden) :
    Orderly hidden d (fun _ => True) (modifyBridge f : Run ε Unit) :=
  modifyEngine fun _ isSealed fits =>
    ⟨⟨isSealed.names, changes _ isSealed.registry⟩, .refl fits, .refl _, rfl⟩

theorem onHost {f : Host.State → α × Host.State}
    (changes : ∀ s : Host.State, s.Sealed hidden → P (f s).1 ∧ s.Keeps hidden (f s).2) :
    Orderly hidden d P (onHost f : Run ε α) := by
  intro w proper
  obtain ⟨given, keeps⟩ := changes w.host proper.host
  exact ⟨⟨keeps, proper.engine, .refl proper.fits, .refl w⟩,
    fun _ same => Except.ok.inj same ▸ given⟩

theorem note (deed : Bridge.Deed) :
    Orderly hidden d (fun _ => True) (note deed : Run ε Unit) :=
  modifyEngine fun _ isSealed fits =>
    ⟨⟨isSealed.names, isSealed.registry⟩, .refl fits, .refl _, rfl⟩

/-- Turning to the queue is orderly as long as nothing is taken. -/
theorem onTasks {f : TaskQueue Script.Block → α × TaskQueue Script.Block}
    (gathers : ∀ q : TaskQueue Script.Block, q.Gathers (f q).2) :
    Orderly hidden d (fun _ => True) (onTasks f : Run ε α) := by
  intro w proper
  rw [onTasks_apply]
  exact ⟨⟨proper.host.keeps, ⟨proper.engine.names, proper.engine.registry⟩, .refl proper.fits,
    (TaskQueue.gathers_gather _).trans (gathers _), rfl⟩, fun _ _ => trivial⟩

theorem taskQueue : Orderly hidden d (fun _ => True) (taskQueue : Run ε _) :=
  onTasks TaskQueue.Gathers.refl

theorem report (entry : JournalEntry) :
    Orderly hidden d (fun _ => True) (report entry : Run ε Unit) :=
  fun w proper =>
    ⟨⟨proper.host.keeps, proper.engine, .refl proper.fits, .refl w⟩, fun _ _ => trivial⟩

end Orderly

/-! ### Letting values go -/

theorem discard_eq (e : Engine) (inUse going : List Script.Value) :
    ∃ graveyard, e.discard inUse going = { e with script := { e.script with graveyard } } :=
  let ⟨_, _, same⟩ := e.discard_leaves inUse going
  ⟨_, same⟩

/-- Letting values go leads from where one is. -/
theorem leads_discard {d : Discipline} {broke : Bool} {w v : World Engine}
    (leads : Leads hidden d broke w v) (held : List (List Script.Value))
    (inUse going : List Script.Value) :
    Leads hidden d broke w { v with outer := { v.outer with held }.discard inUse going } := by
  obtain ⟨graveyard, same⟩ := discard_eq { v.outer with held } inUse going
  rw [same]
  exact ⟨leads.host, ⟨leads.engine.names, leads.engine.registry⟩, leads.script.congr rfl rfl,
    leads.posts⟩

theorem Orderly.discard {d : Discipline} (inUse going : List Script.Value) :
    Orderly hidden d (fun _ => True) (discard inUse going : Run ε Unit) :=
  fun w proper => ⟨leads_discard proper.leads w.outer.held inUse going, fun _ _ => trivial⟩

theorem proper_keeping {w : World Engine} (proper : Proper hidden w) (values : List Script.Value) :
    Proper hidden (keeping values w) :=
  ⟨proper.host, ⟨proper.engine.names, proper.engine.registry⟩, proper.fits⟩

/-- A computation that runs while values are held leads where it leads. -/
theorem leads_holding {d : Discipline} {m : Run ε α} {values : List Script.Value} {w : World Engine}
    (inUse : α → List Script.Value)
    (leads : Leads hidden d (broke (m (keeping values w)).1) (keeping values w)
      (m (keeping values w)).2) :
    Leads hidden d (broke (holding values inUse m w).1) w (holding values inUse m w).2 := by
  rw [holding_fst, holding_apply]
  generalize m (keeping values w) = ended at leads ⊢
  obtain ⟨result, v⟩ := ended
  have same : Leads hidden d (broke result) w v :=
    ⟨leads.host, leads.engine, leads.script, leads.posts⟩
  cases result <;> exact leads_discard same _ _ _

/-- Holding values changes nothing for the computation that runs meanwhile. -/
theorem Orderly.holding {d : Discipline} {P : α → Prop} {m : Run ε α}
    (orderly : Orderly hidden d P m) (values : List Script.Value)
    (inUse : α → List Script.Value) : Orderly hidden d P (holding values inUse m) := by
  intro w proper
  obtain ⟨leads, given⟩ := orderly (keeping values w) (proper_keeping proper values)
  refine ⟨leads_holding inUse leads, ?_⟩
  rw [holding_fst]
  exact given

/-! ### Lists -/

section

variable {d : Discipline} {P : β → Prop}

theorem Orderly.mapM {f : α → Run ε β} {as : List α}
    (each : ∀ a ∈ as, Orderly hidden d P (f a)) :
    Orderly hidden d (fun bs => ∀ b ∈ bs, P b) (as.mapM f) := by
  induction as with
  | nil => exact .pure fun _ member => (List.not_mem_nil member).elim
  | cons a rest ih =>
    rw [List.mapM_cons]
    refine (each a List.mem_cons_self).bind fun b known => ?_
    refine (ih fun x member => each x (List.mem_cons_of_mem a member)).bind fun bs others => ?_
    exact .pure (List.forall_mem_cons.2 ⟨known, others⟩)

theorem Orderly.forM {f : α → Run ε PUnit} {as : List α}
    (each : ∀ a ∈ as, Orderly hidden d (fun _ => True) (f a)) :
    Orderly hidden d (fun _ => True) (as.forM f) := by
  induction as with
  | nil => exact .pure trivial
  | cons a rest ih =>
    refine Orderly.bind (each a List.mem_cons_self) fun _ _ => ?_
    exact ih fun x member => each x (List.mem_cons_of_mem a member)

theorem Orderly.foldlM {f : β → α → Run ε β} {as : List α} {b : β}
    (each : ∀ b a, Orderly hidden d (fun _ => True) (f b a)) :
    Orderly hidden d (fun _ => True) (as.foldlM f b) := by
  induction as generalizing b with
  | nil => exact .pure trivial
  | cons a rest ih => exact Orderly.bind (each b a) fun c _ => ih

end

end Run

end ScriptHost

import ScriptHost.Proofs.Host.Calls
import ScriptHost.Proofs.Host.Regime
/-!
What calls keep, given that patches keep it. Two runs are followed side by side, with patches of
their own: as long as the patches answer the same, the calls end the same, and the worlds that they
leave behind belong together as those that they found. Everything else is said of the first run.
-/
namespace ScriptHost.Host

variable {ε δ : Type}

/-- Whether a call was interrupted. -/
def Ending.broke : Ending → Bool
  | .returned _ | .threw _ => false
  | .interrupted _ => true

/-! ## Worlds side by side -/

/-- How worlds belong together. They have the same host, and go on to belong together whatever
becomes of it. What their journals say and what their calls hold may matter. -/
structure Pairing (ε δ : Type) where
  Beside : World ε → World δ → Prop
  host {w : World ε} {v : World δ} : Beside w v → v.host = w.host
  rehost {w : World ε} {v : World δ} (s : State) : Beside w v →
    Beside { w with host := s } { v with host := s }
  report {w : World ε} {v : World δ} (entry : JournalEntry) : Beside w v →
    Beside (World.report entry w).2 (World.report entry v).2
  hold {w : World ε} {v : World δ} (values : List Value) : Beside w v →
    Beside { w with pins := values :: w.pins } { v with pins := values :: v.pins }
  release {w : World ε} {v : World δ} : Beside w v →
    Beside { w with pins := w.pins.tail } { v with pins := v.pins.tail }

/-- A world belongs to itself. -/
def Pairing.same : Pairing ε ε where
  Beside := fun w v => v = w
  host := fun beside => by rw [beside]
  rehost := fun _ beside => by rw [beside]
  report := fun _ beside => by rw [beside]
  hold := fun _ beside => by rw [beside]
  release := fun beside => by rw [beside]

/-- Two worlds with the same host, in which the same values are held. Their surroundings are
related, and what their journals say does not matter. -/
structure World.Beside (S : ε → δ → Prop) (w : World ε) (v : World δ) : Prop where
  host : v.host = w.host
  pins : v.pins = w.pins
  outer : S w.outer v.outer

/-- Worlds belong together if their surroundings do. -/
def Pairing.beside (S : ε → δ → Prop) : Pairing ε δ where
  Beside := World.Beside S
  host := (·.host)
  rehost := fun _ beside => ⟨rfl, beside.pins, beside.outer⟩
  report := fun _ beside => ⟨beside.host, beside.pins, beside.outer⟩
  hold := fun values beside => ⟨beside.host, congrArg (values :: ·) beside.pins, beside.outer⟩
  release := fun beside => ⟨beside.host, congrArg List.tail beside.pins, beside.outer⟩

/-! ## Conduct -/

/-- Worlds in which calls are made, and what may become of them. The host is under a regime. Nothing
depends on what the journal says and what calls hold. -/
structure Conduct (ε : Type) extends Regime where
  Fits : World ε → Prop
  /-- What may become of a world in the course of a call that was interrupted or not. -/
  Becomes : (broke : Bool) → World ε → World ε → Prop
  /-- Interruptions after which nothing is said of a world. -/
  Excuses : Interrupt → Prop
  host {w : World ε} : Fits w → Stands w.host
  fits {w v : World ε} : Fits w → Becomes false w v → Fits v
  leads {w v : World ε} {broke : Bool} : Becomes broke w v → Leads w.host v.host
  stay {w : World ε} (broke : Bool) : Fits w → Becomes broke w w
  rehost {w : World ε} {s : State} : Fits w → Leads w.host s → Becomes false w { w with host := s }
  since {w v u : World ε} {broke : Bool} : Fits w → Becomes false w v → Becomes broke v u →
    Becomes broke w u
  aside {w : World ε} (journal : Journal) (pins : List (List Value)) : Fits w →
    Fits { w with journal, pins }
  surface {w v : World ε} {broke : Bool} {journal : Journal} {pins : List (List Value)}
    (journal' : Journal) (pins' : List (List Value)) : Becomes broke { w with journal, pins } v →
    Becomes broke w { v with journal := journal', pins := pins' }

/-- What becomes of a world in the course of a call that ends in some way. -/
inductive Conduct.Ends (C : Conduct ε) (w : World ε) (c : Completion) (v : World ε) : Prop
  | excused {i : Interrupt} (interrupted : c.ending = .interrupted i) (excuses : C.Excuses i)
  | told (becomes : C.Becomes c.ending.broke w v) (holds : c.Holds (C.Knows v.host))

/-- Patches that answer the same, and do with worlds what is allowed. -/
structure Conduct.Allows (C : Conduct ε) (P : Pairing ε δ) (ctx : Context ε) (ctx' : Context δ) :
    Prop where
  stepLimit : ctx'.stepLimit = ctx.stepLimit
  answer (r : PatchRequest) {w : World ε} {v : World δ} : P.Beside w v → C.Fits w →
    (∀ ref, r.target = some ref → C.Knows w.host (.object ref)) →
    C.Knows w.host (.object r.carrier) →
    (ctx'.dispatch r v).1 = (ctx.dispatch r w).1 ∧
      P.Beside (ctx.dispatch r w).2 (ctx'.dispatch r v).2 ∧
      ((∃ i, (ctx.dispatch r w).1 = .error i ∧ C.Excuses i) ∨
        C.Becomes (Ending.ofAnswer (ctx.dispatch r w).1).broke w (ctx.dispatch r w).2)

/-- Two calls that end the same, in worlds that belong together, after which the world of the first
is what it may become. -/
structure Conduct.Meets (C : Conduct ε) (P : Pairing ε δ) (w : World ε) (r : Completion × World ε)
    (r' : Completion × World δ) : Prop where
  same : r'.1 = r.1
  beside : P.Beside r.2 r'.2
  ends : C.Ends w r.1 r.2

/-- Calls that meet as long as they are given what is known. -/
def Conduct.Covers (C : Conduct ε) (P : Pairing ε δ)
    (call : Method → Option ObjectRef → Array Value → StateM (World ε) Completion)
    (call' : Method → Option ObjectRef → Array Value → StateM (World δ) Completion) : Prop :=
  ∀ (method : Method) (this : Option ObjectRef) (args : Array Value) {w : World ε} {v : World δ},
    P.Beside w v → C.Fits w → (∀ ref, this = some ref → C.Knows w.host (.object ref)) →
    (∀ x ∈ args.toList, C.Knows w.host x) →
    C.Meets P w (call method this args w) (call' method this args v)

namespace Conduct

variable {C : Conduct ε} {P : Pairing ε δ} {w w' : World ε} {v v' : World δ}

/-- Values stay known while a world becomes another. -/
theorem known {broke : Bool} (becomes : C.Becomes broke w w') {values : List Value}
    (all : ∀ x ∈ values, C.Knows w.host x) : ∀ x ∈ values, C.Knows w'.host x :=
  fun x member => C.mono (C.leads becomes) (all x member)

/-- A call that stops with the arguments that it has, and without a value. -/
theorem stops {ending : Ending} {args : Array Value} (becomes : C.Becomes ending.broke w w')
    (all : ∀ x ∈ args.toList, C.Knows w'.host x) (stopped : ∀ x, ending ≠ .returned x) :
    C.Ends w ⟨ending, args⟩ w' :=
  .told becomes ⟨all, fun x same => absurd same (stopped x)⟩

theorem Ends.since {c : Completion} {u : World ε} (ends : C.Ends w' c u) (fits : C.Fits w)
    (becomes : C.Becomes false w w') : C.Ends w c u := by
  cases ends with
  | excused interrupted excuses => exact .excused interrupted excuses
  | told later holds => exact .told (C.since fits becomes later) holds

theorem Meets.since {r : Completion × World ε} {r' : Completion × World δ}
    (meets : C.Meets P w' r r') (fits : C.Fits w) (becomes : C.Becomes false w w') :
    C.Meets P w r r' :=
  ⟨meets.same, meets.beside, meets.ends.since fits becomes⟩

/-- A computation on the host alone. -/
theorem onHost {α : Type} {Q : α → State → Prop} {m : HostM α} (beside : P.Beside w v)
    (fits : C.Fits w) (keeps : C.Keeps w.host Q m) :
    (World.onHost m v).1 = (World.onHost m w).1 ∧
      P.Beside (World.onHost m w).2 (World.onHost m v).2 ∧
      C.Becomes false w (World.onHost m w).2 ∧
      ∀ a, (World.onHost m w).1 = .ok a → Q a (World.onHost m w).2.host := by
  rw [World.onHost_apply, World.onHost_apply, P.host beside]
  exact ⟨rfl, P.rehost _ beside, C.rehost fits keeps.1, keeps.2⟩

/-- A call while values are held. -/
theorem Meets.holding {m : StateM (World ε) Completion} {n : StateM (World δ) Completion}
    {values : List Value}
    (meets : C.Meets P { w with pins := values :: w.pins } (m { w with pins := values :: w.pins })
      (n { v with pins := values :: v.pins })) :
    C.Meets P w (World.holding values m w) (World.holding values n v) := by
  refine ⟨meets.same, P.release meets.beside, ?_⟩
  cases meets.ends with
  | excused interrupted excuses => exact .excused interrupted excuses
  | told becomes holds => exact .told (C.surface _ _ becomes) holds

/-! ## Methods of actions -/

/-- The actions of a method, one after the other. -/
theorem meets_runNative (method : Method) {this : Option ObjectRef} {f : NativeFrame}
    (beside : P.Beside w v) (fits : C.Fits w)
    (target : ∀ ref, this = some ref → C.Knows w.host (.object ref))
    (holds : f.Holds (C.Knows w.host)) (actions : List NativeAction) :
    C.Meets P w (runNative method this actions f w) (runNative method this actions f v) := by
  induction actions generalizing f w v with
  | nil =>
    refine ⟨rfl, beside, .told (C.stay _ fits) ⟨holds.args, fun x same => ?_⟩⟩
    cases same
    exact holds.result
  | cons action rest ih =>
    by_cases breaks : ∃ message, action = .panic message
    · obtain ⟨message, rfl⟩ := breaks
      exact ⟨rfl, beside, stops (C.stay _ fits) holds.args nofun⟩
    by_cases reports : ∃ text, action = .trace text
    · obtain ⟨text, rfl⟩ := reports
      have meets := ih (P.report (.native text method.signature) beside) (C.aside _ w.pins fits)
        target holds
      exact meets.since fits (C.surface _ _ (C.stay false fits))
    obtain ⟨same, after, becomes, given⟩ :=
      onHost beside fits (Regime.keeps_perform method (C.host fits) target holds action)
    have noTrace : ∀ text, action ≠ .trace text := fun text same => reports ⟨text, same⟩
    have noPanic : ∀ message, action ≠ .panic message := fun message same => breaks ⟨message, same⟩
    rw [runNative_cons noTrace noPanic, runNative_cons noTrace noPanic]
    generalize World.onHost (action.perform method this f) w = left at same after becomes given
    generalize World.onHost (action.perform method this f) v = right at same after
    obtain ⟨outcome, w'⟩ := left
    obtain ⟨_, v'⟩ := right
    cases same
    cases outcome with
    | error e => exact ⟨rfl, after, stops becomes (known becomes holds.args) nofun⟩
    | ok g =>
      have reached := fun ref same => C.mono (C.leads becomes) (target ref same)
      exact (ih after (C.fits fits becomes) reached (given g rfl)).since fits becomes

/-! ## Bodies of instructions -/

/-- The instructions of a body, as long as the calls that they make are covered. -/
theorem meets_runBody
    {call : Method → Option ObjectRef → Array Value → StateM (World ε) Completion}
    {call' : Method → Option ObjectRef → Array Value → StateM (World δ) Completion}
    (calls : C.Covers P call call') (limit : Nat) (method : Method) (body : Body)
    {this : Option ObjectRef} (remaining : Nat) {a : Activation} (beside : P.Beside w v)
    (fits : C.Fits w) (target : ∀ ref, this = some ref → C.Knows w.host (.object ref))
    (holds : a.Holds (C.Knows w.host)) :
    C.Meets P w (runBody call limit method body this remaining a w)
      (runBody call' limit method body this remaining a v) := by
  induction remaining generalizing a w v with
  | zero =>
    cases found : body.code[a.pc]? with
    | none =>
      rw [runBody_end found, runBody_end found]
      exact ⟨rfl, beside, stops (C.stay _ fits) holds.args nofun⟩
    | some instr =>
      rw [runBody_zero found, runBody_zero found]
      exact ⟨rfl, beside, stops (C.stay _ fits) holds.args nofun⟩
  | succ remaining ih =>
    cases found : body.code[a.pc]? with
    | none =>
      rw [runBody_end found, runBody_end found]
      exact ⟨rfl, beside, stops (C.stay _ fits) holds.args nofun⟩
    | some instr =>
      obtain ⟨same, after, becomes, given⟩ := onHost beside fits
        (Regime.keeps_step method.returnsValue (C.host fits) target holds.advance instr)
      rw [runBody_succ found, runBody_succ found]
      unfold perform
      generalize World.onHost _ w = left at same after becomes given ⊢
      generalize World.onHost _ v = right at same after ⊢
      obtain ⟨outcome, w'⟩ := left
      obtain ⟨_, v'⟩ := right
      cases same
      have ready := C.fits fits becomes
      have reached := fun ref same => C.mono (C.leads becomes) (target ref same)
      match outcome with
      | .error e => exact ⟨rfl, after, stops becomes (known becomes holds.args) nofun⟩
      | .ok (.done x) =>
        refine ⟨rfl, after, .told becomes ⟨known becomes holds.args, fun y same => ?_⟩⟩
        cases same
        exact given _ rfl
      | .ok (.next b) => exact (ih after ready reached (given _ rfl)).since fits becomes
      | .ok (.call callee ref args keeps b) =>
        obtain ⟨receiverKnown, argsKnown, goesOn⟩ := given _ rfl
        have called := Meets.holding (calls callee ref args (P.hold (waiting this b) after)
          (C.aside w'.journal _ ready) receiverKnown argsKnown)
        refine Meets.since ?_ fits becomes
        dsimp only at ready goesOn reached ⊢
        generalize World.holding _ _ w' = left at called ⊢
        generalize World.holding _ _ v' = right at called ⊢
        obtain ⟨⟨ending, left⟩, last⟩ := left
        obtain ⟨_, last'⟩ := right
        obtain ⟨same, beside, ends⟩ := called
        cases same
        cases ends with
        | excused interrupted excuses =>
          -- The interruption ends this body as well, and nothing is said after it.
          dsimp only at interrupted
          subst interrupted
          exact ⟨rfl, beside, .excused rfl excuses⟩
        | told through value =>
          -- What the activation holds stayed known while the call ran.
          have stayed : b.Holds (C.Knows last.host) := goesOn.imp fun _ => C.mono (C.leads through)
          cases ending with
          | returned x =>
            have resumes : (if keeps then b.push x else b).Holds (C.Knows last.host) := by
              split
              · exact stayed.push (value.value x rfl)
              · exact stayed
            have reached := fun ref same => C.mono (C.leads through) (reached ref same)
            exact (ih beside (C.fits ready through) reached resumes).since ready through
          | threw e => exact ⟨rfl, beside, stops through stayed.args nofun⟩
          | interrupted i => exact ⟨rfl, beside, stops through stayed.args nofun⟩

/-! ## Consulting the patches -/

/-- What the hub is asked about is known if its arguments are. -/
theorem known_ofArgs {K : Value → Prop} {args : Array Value} {query : HubQuery}
    (all : ∀ x ∈ args.toList, K x) (read : HubQuery.ofArgs args = .ok query) :
    (∀ ref, query.target = some ref → K (.object ref)) ∧ K (.object query.carrier) := by
  unfold HubQuery.ofArgs at read
  split at read
  · rename_i signature token target carrier found
    rw [found] at all
    obtain ⟨_, _, read⟩ := Results.bind_eq_ok.1 read
    dsimp only at read
    split at read
    · split at read
      · obtain ⟨_, _, read⟩ := Results.bind_eq_ok.1 read
        obtain ⟨ref, carried, read⟩ := Results.bind_eq_ok.1 read
        cases read
        refine ⟨fun ref same => ?_, ?_⟩
        · rw [← Value.eq_object_of_asObject? same]
          exact all target (by simp)
        · cases object : carrier.asObject? with
          | none =>
            rw [object] at carried
            cases carried
          | some found =>
            rw [object] at carried
            cases carried
            rw [← Value.eq_object_of_asObject? object]
            exact all carrier (by simp)
      · cases read
    · cases read
  · cases read

theorem asObject?_resultDefault (method : Method) : (resultDefault method).asObject? = none := by
  unfold resultDefault
  split
  · exact Value.asObject?_defaultFor _
  · rfl

/-- What the hub answers is no object. -/
theorem asObject?_ofAnswer {answer : Except Interrupt Bool} {x : Value}
    (same : Ending.ofAnswer answer = .returned x) : x.asObject? = none := by
  cases answer <;> cases same
  rfl

section

variable {ctx : Context ε} {ctx' : Context δ}

/-- The hub answers what the patches do. Before it asks them it empties the result slot. -/
theorem meets_consultPatches (allows : C.Allows P ctx ctx') (beside : P.Beside w v)
    (fits : C.Fits w) {args : Array Value} (all : ∀ x ∈ args.toList, C.Knows w.host x) :
    C.Meets P w (⟨(consultPatches ctx args w).1, args⟩, (consultPatches ctx args w).2)
      (⟨(consultPatches ctx' args v).1, args⟩, (consultPatches ctx' args v).2) := by
  have host : v.host = w.host := P.host beside
  cases read : HubQuery.ofArgs args with
  | error e =>
    rw [consultPatches_error read, consultPatches_error read]
    exact ⟨rfl, beside, stops (C.stay _ fits) all nofun⟩
  | ok query =>
    cases named : w.host.domain.method? query.token with
    | none =>
      rw [consultPatches_unknown read named, consultPatches_unknown read (host ▸ named)]
      refine ⟨rfl, P.report _ beside, .told (C.surface _ _ (C.stay false fits)) ⟨all, ?_⟩⟩
      intro x same
      cases same
      exact C.plain rfl
    | some method =>
      by_cases size : w.host.heap.size query.carrier = method.params.length + 1
      · rw [consultPatches_asked read named size,
          consultPatches_asked read (host ▸ named) (host ▸ size), host]
        obtain ⟨target, carrier⟩ := known_ofArgs all read
        have stored := C.setSlot method.params.length (C.host fits) carrier
          (C.plain (asObject?_resultDefault method))
        have emptied := C.rehost fits stored
        have beside := P.hold args.toList (P.rehost
          (w.host.setSlot query.carrier method.params.length (resultDefault method)).2 beside)
        obtain ⟨same, after, answered⟩ := allows.answer (query.request method) beside
          (C.aside w.journal _ (C.fits fits emptied))
          (fun ref same => C.mono stored (target ref same)) (C.mono stored carrier)
        refine ⟨congrArg (fun answer => Completion.mk (.ofAnswer answer) args) same,
          P.release after, ?_⟩
        unfold World.holding
        dsimp only at answered ⊢
        generalize ctx.dispatch (query.request method) _ = asked at answered
        obtain ⟨answer, u⟩ := asked
        rcases answered with ⟨i, interrupted, excuses⟩ | becomes
        · refine .excused ?_ excuses
          exact congrArg Ending.ofAnswer interrupted
        · have whole := C.since fits emptied (C.surface u.journal u.pins.tail becomes)
          exact .told whole ⟨known whole all, fun x same => C.plain (asObject?_ofAnswer same)⟩
      · rw [consultPatches_size read named size,
          consultPatches_size read (host ▸ named) (host ▸ size), host]
        exact ⟨rfl, beside, stops (C.stay _ fits) all nofun⟩

/-! ## Calls -/

theorem broke_ofCall (method : Method) (this : Option ObjectRef) (c : Completion) :
    (c.ofCall method this).ending.broke = c.ending.broke := by
  unfold Completion.ofCall
  split
  · rename_i returned _
    rw [returned]
    rfl
  · rfl

theorem interrupted_ofCall {method : Method} {this : Option ObjectRef} {c : Completion}
    {i : Interrupt} (interrupted : c.ending = .interrupted i) :
    (c.ofCall method this).ending = .interrupted i := by
  unfold Completion.ofCall
  rw [interrupted]
  exact interrupted

/-- The object that a constructor made is its value. -/
theorem Ends.ofCall {method : Method} {this : Option ObjectRef} {c : Completion}
    (ends : C.Ends w c w') (target : C.Becomes c.ending.broke w w' →
      ∀ ref, this = some ref → C.Knows w'.host (.object ref)) :
    C.Ends w (c.ofCall method this) w' := by
  cases ends with
  | excused interrupted excuses => exact .excused (interrupted_ofCall interrupted) excuses
  | told becomes holds =>
    refine .told ((broke_ofCall method this c).symm ▸ becomes) ?_
    unfold Completion.ofCall
    split
    · refine ⟨holds.args, fun x same => ?_⟩
      cases same
      exact target becomes _ rfl
    · exact holds

/-- A method that has its receiver. -/
theorem covers_runMethod (allows : C.Allows P ctx ctx') {depth : Nat}
    (calls : C.Covers P (invoke ctx depth) (invoke ctx' depth)) :
    C.Covers P (runMethod ctx depth) (runMethod ctx' depth) := by
  intro method this args w v beside fits target all
  unfold runMethod
  cases method.body with
  | native actions =>
    exact meets_runNative method beside fits target ⟨all, C.plain rfl⟩ actions
  | code body =>
    dsimp only
    rw [allows.stepLimit]
    exact meets_runBody calls _ method body _ beside fits target
      (.start (fun _ => C.plain) body all)
  | patchHub => exact meets_consultPatches allows beside fits all
  | absent => exact ⟨rfl, beside, stops (C.stay _ fits) all nofun⟩

/-- Calling a method, at whatever depth. -/
theorem covers_invoke (allows : C.Allows P ctx ctx') (depth : Nat) :
    C.Covers P (invoke ctx depth) (invoke ctx' depth) := by
  induction depth with
  | zero =>
    exact fun method this args _ _ beside fits target all =>
      ⟨rfl, beside, stops (C.stay _ fits) all nofun⟩
  | succ depth ih =>
    intro method this args w v beside fits target all
    rw [invoke_succ, invoke_succ]
    split
    · exact ⟨rfl, beside, stops (C.stay _ fits) all nofun⟩
    obtain ⟨same, after, becomes, given⟩ :=
      onHost beside fits (Regime.keeps_receiver method (C.host fits) target)
    generalize World.onHost _ w = left at same after becomes given ⊢
    generalize World.onHost _ v = right at same after ⊢
    obtain ⟨outcome, w'⟩ := left
    obtain ⟨_, v'⟩ := right
    cases same
    cases outcome with
    | error e => exact ⟨rfl, after, stops becomes (known becomes all) nofun⟩
    | ok ref =>
      have made := given ref rfl
      obtain ⟨same, beside, ends⟩ := covers_runMethod allows ih method ref args after
        (C.fits fits becomes) made (known becomes all)
      refine ⟨congrArg (Completion.ofCall method ref) same, beside, Ends.since ?_ fits becomes⟩
      exact ends.ofCall fun ran ref same => C.mono (C.leads ran) (made ref same)

end

/-! ## One run -/

section

variable {ctx : Context ε}

/-- Patches answer the same as themselves. -/
theorem allows_same
    (answer : ∀ (r : PatchRequest) (w : World ε), C.Fits w →
      (∀ ref, r.target = some ref → C.Knows w.host (.object ref)) →
      C.Knows w.host (.object r.carrier) →
      (∃ i, (ctx.dispatch r w).1 = .error i ∧ C.Excuses i) ∨
        C.Becomes (Ending.ofAnswer (ctx.dispatch r w).1).broke w (ctx.dispatch r w).2) :
    C.Allows .same ctx ctx := by
  refine ⟨rfl, fun r w v beside fits target carrier => ?_⟩
  cases beside
  exact ⟨rfl, rfl, answer r w fits target carrier⟩

/-- What becomes of a world in the course of a call. -/
theorem ends_invoke (allows : C.Allows .same ctx ctx) (depth : Nat) (method : Method)
    {this : Option ObjectRef} {args : Array Value} (fits : C.Fits w)
    (target : ∀ ref, this = some ref → C.Knows w.host (.object ref))
    (all : ∀ x ∈ args.toList, C.Knows w.host x) :
    C.Ends w (invoke ctx depth method this args w).1 (invoke ctx depth method this args w).2 :=
  (covers_invoke allows depth method this args rfl fits target all).ends

end

end Conduct

/-! ## Two runs -/

variable {S : ε → δ → Prop}

/-- Two computations that give the same in worlds that stand side by side, and leave such worlds. -/
def Concur {α : Type} (S : ε → δ → Prop) (m : StateM (World ε) α) (n : StateM (World δ) α) : Prop :=
  ∀ w v, World.Beside S w v → (n v).1 = (m w).1 ∧ World.Beside S (m w).2 (n v).2

/-- Patches that answer the same in worlds that stand side by side, and leave such worlds. -/
structure Context.Concur (S : ε → δ → Prop) (ctx : Context ε) (ctx' : Context δ) : Prop where
  stepLimit : ctx'.stepLimit = ctx.stepLimit
  dispatch : ∀ r, Host.Concur S (ctx.dispatch r) (ctx'.dispatch r)

/-- The conduct that asks for nothing. -/
def Conduct.free : Conduct ε where
  toRegime := .free
  Fits := fun _ => True
  Becomes := fun _ _ _ => True
  Excuses := fun _ => False
  host := id
  fits := fun _ => id
  leads := id
  stay := fun _ => id
  rehost := fun _ => id
  since := fun _ _ => id
  aside := fun _ _ => id
  surface := fun _ _ => id

/-- Calls end the same in worlds with the same host, as long as patches answer the same in both. -/
theorem concur_invoke {ctx : Context ε} {ctx' : Context δ} (concur : ctx.Concur S ctx')
    (depth : Nat) (method : Method) (this : Option ObjectRef) (args : Array Value) :
    Concur S (invoke ctx depth method this args) (invoke ctx' depth method this args) := by
  intro w v beside
  have allows : Conduct.free.Allows (.beside S) ctx ctx' :=
    ⟨concur.stepLimit, fun r _ _ beside _ _ _ =>
      have ⟨same, after⟩ := concur.dispatch r _ _ beside
      ⟨same, after, .inr trivial⟩⟩
  obtain ⟨same, after, -⟩ := Conduct.covers_invoke allows depth method this args beside trivial
    (fun _ _ => trivial) fun _ _ => trivial
  exact ⟨same, after⟩

end ScriptHost.Host

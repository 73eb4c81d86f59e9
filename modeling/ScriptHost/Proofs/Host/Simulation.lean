import ScriptHost.Proofs.Host.Agreement
import ScriptHost.Proofs.Host.Moments
/-!
Runs on hosts that are alike. A body that was checked runs the same on both sides, if the calls that
it makes come to the same and the budget of the second side is no smaller.
-/
namespace ScriptHost.Host

open Verify

variable {ε δ : Type} {versions : Versions} {p q : Places}

/-! ## Endings -/

/-- An ending that neither the budget of steps nor the depth of calls brought about. -/
structure Ending.Finished (ending : Ending) : Prop where
  inBudget : ∀ limit signature, ending ≠ .threw (.stepLimit limit signature)
  inDepth : ending ≠ .interrupted .exhausted

/-- Endings with values that are alike, or for the same reason. -/
inductive Ending.Like (p : Places) : Ending → Ending → Prop
  | returned {v v' : Value} (same : v.Like p v') : Like p (.returned v) (.returned v')
  | threw (e : HostException) : Like p (.threw e) (.threw e)
  | interrupted (i : Interrupt) : Like p (.interrupted i) (.interrupted i)

/-- Completions that are alike. -/
structure Completion.Like (p : Places) (c c' : Completion) : Prop where
  ending : c.ending.Like p c'.ending
  args : AllLike p c.args.toList c'.args.toList

/-- Two runs come to the same: the completions are alike, and so are the hosts that they leave. -/
def SameRun (versions : Versions) (p : Places) (r : Completion × World ε) (r' : Completion × World δ) :
    Prop :=
  ∃ q, p.Grows q ∧ r.2.host.Like versions q r'.2.host ∧ r.1.Like q r'.1

theorem Ending.finished_returned (v : Value) : Ending.Finished (.returned v) :=
  ⟨fun _ _ same => (nomatch same), fun same => (nomatch same)⟩

theorem SameRun.mono {r : Completion × World ε} {r' : Completion × World δ}
    (same : SameRun versions q r r') (grown : p.Grows q) : SameRun versions p r r' := by
  obtain ⟨places, later, hosts, alike⟩ := same
  exact ⟨places, grown.trans later, hosts, alike⟩

/-- A constructor gives its new object on both sides. -/
theorem SameRun.ofCall {r : Completion × World ε} {r' : Completion × World δ}
    {method method' : Method} {this this' : Option ObjectRef} (same : SameRun versions p r r')
    (kind : method'.kind = method.kind) (target : Option.Rel (ObjectRef.Like p) this this') :
    SameRun versions p (r.1.ofCall method this, r.2) (r'.1.ofCall method' this', r'.2) := by
  obtain ⟨q, grown, hosts, alike⟩ := same
  refine ⟨q, grown, hosts, ?_⟩
  obtain ⟨⟨ending, args⟩, w⟩ := r
  obtain ⟨⟨ending', args'⟩, v⟩ := r'
  obtain ⟨endings, left⟩ := alike
  dsimp only at endings left ⊢
  unfold Completion.ofCall
  rw [kind]
  cases endings with
  | threw e => exact ⟨.threw e, left⟩
  | interrupted i => exact ⟨.interrupted i, left⟩
  | returned given =>
    cases method.kind with
    | ofInstance | static => exact ⟨.returned given, left⟩
    | constructor =>
      cases target with
      | none => exact ⟨.returned given, left⟩
      | some ref => exact ⟨.returned (.object (ref.mono grown)), left⟩

theorem Completion.finished_ofCall {method : Method} {this : Option ObjectRef} {c : Completion}
    (finished : (c.ofCall method this).ending.Finished) : c.ending.Finished := by
  unfold Completion.ofCall at finished
  split at finished
  · rename_i returned _
    rw [returned]
    exact Ending.finished_returned _
  · exact finished

/-! ## Patches that decline -/

/-- Patches that take the place of no method and leave the host as it is. -/
def Context.Declines (ctx : Context ε) : Prop :=
  ∀ request w, (ctx.dispatch request w).1 = .ok false ∧ (ctx.dispatch request w).2.host = w.host

theorem declines_direct (stepLimit : Nat) : (Context.direct (ε := ε) stepLimit).Declines :=
  fun _ _ => ⟨rfl, rfl⟩

theorem Context.Declines.keepsTypes {ctx : Context ε} (declines : ctx.Declines) : ctx.KeepsTypes := by
  intro request w
  rw [(declines request w).2]
  exact .refl

theorem Context.Declines.holding {ctx : Context ε} (declines : ctx.Declines) (values : List Value)
    (request : PatchRequest) (w : World ε) :
    (World.holding values (ctx.dispatch request) w).1 = .ok false ∧
      (World.holding values (ctx.dispatch request) w).2.host = w.host :=
  declines request { w with pins := values :: w.pins }

theorem like_resultDefault (method : Method) :
    (resultDefault method).Like p (resultDefault method) := by
  unfold resultDefault
  split
  · exact .defaultFor method.ret
  · exact .plain rfl

/-- What the hub is asked on the one side, and on the other. -/
structure HubQuery.Like (p : Places) (a b : HubQuery) : Prop where
  signature : b.signature = a.signature
  token : b.token = a.token
  target : Option.Rel (ObjectRef.Like p) a.target b.target
  carrier : a.carrier.Like p b.carrier

theorem sameOutcome_ofArgs {args args' : Array Value} (like : AllLike p args.toList args'.toList) :
    SameOutcome (HubQuery.Like p) (HubQuery.ofArgs args) (HubQuery.ofArgs args') := by
  unfold HubQuery.ofArgs
  generalize args.toList = values at like
  generalize args'.toList = values' at like
  rcases like with _ | ⟨signature, _ | ⟨token, _ | ⟨target, _ | ⟨carrier, _ | ⟨_, _⟩⟩⟩⟩⟩
  · exact .error _
  · exact .error _
  · exact .error _
  · exact .error _
  · rename_i a a' b b' c c' d d'
    dsimp only
    rw [signature.asBytes?, token.asNat?]
    cases a.asBytes? with
    | none => exact .error _
    | some bytes =>
      cases b.asNat? with
      | none => exact .error _
      | some t =>
        by_cases small : t < 0x100000000
        · have object := carrier.asObject?
          generalize d.asObject? = x at object
          generalize d'.asObject? = y at object
          simp only [if_pos small]
          cases object with
          | none => exact .error _
          | some same => exact .ok ⟨rfl, rfl, target.asObject?, same⟩
        · simp only [if_neg small]
          exact .error _
  · exact .error _

/-- The hub answers the same on both sides when the patches decline. -/
theorem like_consultPatches {ctx : Context ε} {ctx' : Context δ} (declines : ctx.Declines)
    (declines' : ctx'.Declines) {args args' : Array Value} {w : World ε} {v : World δ}
    (like : AllLike p args.toList args'.toList) (hosts : w.host.Like versions p v.host) :
    (consultPatches ctx args w).1.Like p (consultPatches ctx' args' v).1 ∧
      (consultPatches ctx args w).2.host.Like versions p (consultPatches ctx' args' v).2.host := by
  have same := sameOutcome_ofArgs like
  cases read : HubQuery.ofArgs args with
  | error e =>
    cases read' : HubQuery.ofArgs args' with
    | ok query =>
      rw [read, read'] at same
      cases same
    | error e' =>
      rw [read, read'] at same
      cases same
      rw [consultPatches_error read, consultPatches_error read']
      exact ⟨.threw e, hosts⟩
  | ok query =>
    cases read' : HubQuery.ofArgs args' with
    | error e' =>
      rw [read, read'] at same
      cases same
    | ok query' =>
      rw [read, read'] at same
      cases same with
      | ok given =>
        obtain ⟨unknown, unknown'⟩ | ⟨method, method', known, known', stripped⟩ :=
          hosts.method? query.token
        · rw [← given.token] at unknown'
          rw [consultPatches_unknown read unknown, consultPatches_unknown read' unknown']
          exact ⟨.returned (.plain rfl), hosts⟩
        · rw [← given.token] at known'
          have params : method'.params = method.params := (congrArg Method.params stripped :)
          have default : resultDefault method' = resultDefault method :=
            (congrArg resultDefault stripped :)
          have size := hosts.heap.size given.carrier
          by_cases fits : w.host.heap.size query.carrier = method.params.length + 1
          · have fits' : v.host.heap.size query'.carrier = method'.params.length + 1 := by
              rw [size, fits, params]
            rw [consultPatches_asked read known fits, consultPatches_asked read' known' fits']
            constructor
            · change (Ending.ofAnswer (World.holding _ _ _).1).Like p
                (Ending.ofAnswer (World.holding _ _ _).1)
              rw [(declines.holding _ _ _).1, (declines'.holding _ _ _).1]
              exact .returned (.plain rfl)
            · change (World.holding _ _ _).2.host.Like versions p (World.holding _ _ _).2.host
              rw [(declines.holding _ _ _).2, (declines'.holding _ _ _).2, params, default]
              exact (hosts.setSlot given.carrier (like_resultDefault method) _).2
          · have other : v.host.heap.size query'.carrier ≠ method'.params.length + 1 := by
              rw [size, params]
              exact fits
            rw [consultPatches_size read known fits, consultPatches_size read' known' other,
              given.signature, size, params]
            exact ⟨.threw _, hosts⟩

/-! ## Bodies -/

/-- Methods that come to the same on both sides, if the calls on the first side finish. -/
def SameCalls (versions : Versions) (records : Method → Depths → Prop)
    (call : Method → Option ObjectRef → Array Value → StateM (World ε) Completion)
    (call' : Method → Option ObjectRef → Array Value → StateM (World δ) Completion) : Prop :=
  ∀ ⦃token : MethodToken⦄ ⦃callee callee' : Method⦄ ⦃depths : Depths⦄ ⦃p : Places⦄
    ⦃this this' : Option ObjectRef⦄ ⦃args args' : Array Value⦄ ⦃w : World ε⦄ ⦃v : World δ⦄,
    versions.first.method? token = some callee → versions.second.method? token = some callee' →
    records callee depths → Vetted w.host.domain records →
    Option.Rel (ObjectRef.Like p) this this' → AllLike p args.toList args'.toList →
    w.host.Like versions p v.host → (call callee this args w).1.ending.Finished →
    SameRun versions p (call callee this args w) (call' callee' this' args' v)

/-- What a caller holds meanwhile makes no difference. -/
theorem SameCalls.holding {records : Method → Depths → Prop}
    {call : Method → Option ObjectRef → Array Value → StateM (World ε) Completion}
    {call' : Method → Option ObjectRef → Array Value → StateM (World δ) Completion}
    (calls : SameCalls versions records call call') {token : MethodToken} {callee callee' : Method}
    {depths : Depths} {this this' : Option ObjectRef} {args args' : Array Value} {w : World ε}
    {v : World δ} (known : versions.first.method? token = some callee)
    (known' : versions.second.method? token = some callee') (record : records callee depths)
    (vetted : Vetted w.host.domain records) (target : Option.Rel (ObjectRef.Like p) this this')
    (like : AllLike p args.toList args'.toList) (hosts : w.host.Like versions p v.host)
    (held held' : List Value)
    (finished : (World.holding held (call callee this args) w).1.ending.Finished) :
    SameRun versions p (World.holding held (call callee this args) w)
      (World.holding held' (call' callee' this' args') v) :=
  calls (w := { w with pins := held :: w.pins }) (v := { v with pins := held' :: v.pins }) known
    known' record vetted target like hosts finished

/-- What becomes of a caller whose call has ended: it goes on with the value, or ends with it. -/
def afterCall (goOn : Value → World ε → Completion × World ε) (args : Array Value) :
    Completion × World ε → Completion × World ε
  | (⟨.returned v, _⟩, w) => goOn v w
  | (⟨ending, _⟩, w) => (⟨ending, args⟩, w)

/-- After calls that come to the same callers come to the same, if they do when they go on. -/
theorem sameRun_afterCall {goOn : Value → World ε → Completion × World ε}
    {goOn' : Value → World δ → Completion × World δ} {args args' : Array Value}
    {r : Completion × World ε} {r' : Completion × World δ}
    (called : r.1.ending.Finished → SameRun versions p r r')
    (like : AllLike p args.toList args'.toList)
    (resumes : ∀ ⦃q : Places⦄ ⦃u u' : Value⦄ ⦃left : Array Value⦄ ⦃last : World ε⦄ ⦃last' : World δ⦄,
      r = (⟨.returned u, left⟩, last) → p.Grows q → u.Like q u' →
      last.host.Like versions q last'.host → (goOn u last).1.ending.Finished →
      SameRun versions q (goOn u last) (goOn' u' last'))
    (finished : (afterCall goOn args r).1.ending.Finished) :
    SameRun versions p (afterCall goOn args r) (afterCall goOn' args' r') := by
  obtain ⟨⟨ending, left⟩, last⟩ := r
  obtain ⟨⟨ending', left'⟩, last'⟩ := r'
  cases ending with
  | threw e =>
    obtain ⟨q, grown, hosts, endings, _⟩ := called finished
    cases endings
    exact ⟨q, grown, hosts, .threw e, like.mono grown⟩
  | interrupted i =>
    obtain ⟨q, grown, hosts, endings, _⟩ := called finished
    cases endings
    exact ⟨q, grown, hosts, .interrupted i, like.mono grown⟩
  | returned u =>
    obtain ⟨q, grown, hosts, endings, _⟩ := called (Ending.finished_returned u)
    cases endings with
    | returned given => exact (resumes rfl grown given hosts finished).mono grown

/-- At a sound moment the locals of the instruction are there. -/
theorem Moment.Sound.localsIn {records : Method → Depths → Prop} {m : Moment ε}
    (sound : m.Sound records) (vetted : Vetted m.world.host.domain records) {instr : Instr}
    (found : m.instr? = some instr) : instr.LocalsIn m.activation.locals.size := by
  obtain ⟨depths, record, known⟩ := sound.depth
  obtain ⟨other, next, found', visited, _⟩ :=
    (vetted.consistent record sound.code).step _ _ known
  cases found.symm.trans found'
  obtain ⟨effect, effectOk, _⟩ := visit_eq_ok_iff.1 visited
  rw [sound.locals]
  rintro i (rfl | rfl)
  · exact (of_guard effectOk).1
  · exact (of_guard effectOk).1

/-- One instruction at work on both sides. -/
theorem likewise_perform {method method' : Method} {this this' : Option ObjectRef} {a b : Activation}
    {w : World ε} {v : World δ} {instr : Instr} (same : method'.strip = method.strip)
    (target : Option.Rel (ObjectRef.Like p) this this') (like : a.Like p b)
    (hosts : w.host.Like versions p v.host) (inside : instr.LocalsIn a.locals.size) :
    ∃ q, p.Grows q ∧
      (perform method this a instr w).2.host.Like versions q (perform method' this' b instr v).2.host ∧
      SameOutcome (Step.Like versions instr q) (perform method this a instr w).1
        (perform method' this' b instr v).1 := by
  have returns : method'.returnsValue = method.returnsValue := (congrArg Method.returnsValue same :)
  unfold perform
  rw [returns, World.onHost_apply, World.onHost_apply]
  exact likewise_step method.returnsValue target like.advance hosts inside

/-- From a sound moment on a body comes to the same on both sides, if its calls do. -/
theorem sameRun_of_sound {ctx : Context ε} {records : Method → Depths → Prop} {m : Moment ε}
    {call' : Method → Option ObjectRef → Array Value → StateM (World δ) Completion}
    {method' : Method} {this' : Option ObjectRef} {b : Activation} {v : World δ} {limit' budget : Nat}
    (keeps : ctx.KeepsTypes) (vetted : Vetted m.world.host.domain records)
    (sound : m.Sound records) (calls : SameCalls versions records (invoke ctx m.nesting) call')
    (same : method'.strip = m.method.strip)
    (target : Option.Rel (ObjectRef.Like p) m.this this') (like : m.activation.Like p b)
    (hosts : m.world.host.Like versions p v.host) (enough : m.remaining ≤ budget)
    (finished : (m.ends ctx).1.ending.Finished) :
    SameRun versions p (m.ends ctx)
      (runBody call' limit' method' m.body this' budget b v) := by
  generalize steps : m.remaining = remaining at enough
  induction remaining generalizing m p b v budget with
  | zero =>
    obtain ⟨_, instr, _, _, found, _⟩ := sound.permitted vetted
    unfold Moment.ends at finished
    rw [steps, runBody_zero found] at finished
    exact absurd rfl (finished.inBudget _ _)
  | succ remaining ih =>
    obtain ⟨budget, rfl⟩ : ∃ n, budget = n + 1 := ⟨budget - 1, by omega⟩
    obtain ⟨depths, instr, next, record, found, _, permitted, _⟩ := sound.permitted vetted
    have grown := m.extends_perform instr
    have found' : m.body.code[b.pc]? = some instr := by
      rw [like.pc]
      exact found
    obtain ⟨q, more, hosts', done⟩ :=
      likewise_perform same target like hosts (sound.localsIn vetted found)
    unfold Moment.ends at finished ⊢
    rw [steps, runBody_succ found] at finished ⊢
    rw [runBody_succ found']
    cases performed : Host.perform m.method m.this m.activation instr m.world with
    | mk outcome after =>
      cases performed' : Host.perform method' this' b instr v with
      | mk outcome' after' =>
        have result : m.perform instr = (outcome, after) := performed
        rw [result] at permitted grown
        rw [performed, performed'] at hosts' done
        rw [performed] at finished
        cases done with
        | error e => exact ⟨q, more, hosts', .threw e, like.args.mono more⟩
        | ok given =>
          cases given with
          | done alike => exact ⟨q, more, hosts', .returned alike, like.args.mono more⟩
          | @next c c' alike =>
            obtain ⟨sound', grown'⟩ := (Follows.next found steps result).sound keeps vetted sound
            have rest := ih (m := { m with remaining, activation := c, world := after })
              (vetted.mono grown') sound' calls same (rel_mono target more) alike hosts'
              finished rfl (Nat.le_of_succ_le_succ enough)
            exact rest.mono more
          | @call token callee callee' ref ref' args args' keepsValue c c' names known known' object
              passed alike =>
            obtain ⟨_, recorded, named, calleeRecord⟩ := vetted.closed record sound.code found names
            rw [hosts.methods token, known] at named
            cases named
            have called := calls.holding known known' calleeRecord (vetted.mono grown) object passed
              hosts' (waiting m.this c) (waiting this' c')
            -- What is left of both runs is, unfolded, what `afterCall` makes of the two calls.
            refine (sameRun_afterCall called alike.args ?_ finished).mono more
            intro q' u u' left last last' returned more' given hosts'' finished'
            obtain ⟨sound', grown'⟩ :=
              (Follows.resume found steps result returned).sound keeps vetted sound
            have resumed : (if keepsValue then c.push u else c).Like q'
                (if keepsValue then c'.push u' else c') := by
              split
              · exact (alike.mono more').push given
              · exact alike.mono more'
            exact ih (m := { m with
                remaining, activation := if keepsValue then c.push u else c, world := last })
              (vetted.mono grown') sound' calls same (rel_mono target (more.trans more')) resumed
              hosts'' finished' rfl (Nat.le_of_succ_le_succ enough)

/-- From its start on a body comes to the same on both sides, whatever locals the second one has
besides. -/
theorem sameRun_of_start {ctx : Context ε} {records : Method → Depths → Prop} {depth : Nat}
    {call' : Method → Option ObjectRef → Array Value → StateM (World δ) Completion}
    {method method' : Method} {depths : Depths} {own : Body} {this this' : Option ObjectRef}
    {args args' locals' : Array Value} {w : World ε} {v : World δ} {limit' budget : Nat}
    (keeps : ctx.KeepsTypes) (vetted : Vetted w.host.domain records)
    (record : records method depths) (code : method.body = .code own)
    (hasThis : this.isSome = method.hasThis) (arity : args.size = method.params.length)
    (calls : SameCalls versions records (invoke ctx depth) call')
    (same : method'.strip = method.strip) (target : Option.Rel (ObjectRef.Like p) this this')
    (like : AllLike p args.toList args'.toList)
    (locals : ∀ (i : Nat) (x : Value), (own.locals.map Value.defaultFor)[i]? = some x →
      ∃ x', locals'[i]? = some x' ∧ x.Like p x')
    (hosts : w.host.Like versions p v.host) (enough : ctx.stepLimit ≤ budget)
    (finished : (runMethod ctx depth method this args w).1.ending.Finished) :
    SameRun versions p (runMethod ctx depth method this args w)
      (runBody call' limit' method' own this' budget ⟨0, [], locals', args'⟩ v) := by
  have sound : (⟨depth, method, own, this, ctx.stepLimit, .start own args, w⟩ : Moment ε).Sound
      records :=
    ⟨code, ⟨depths, record, (vetted.consistent record code).entry⟩, arity, Array.size_map, hasThis⟩
  unfold runMethod at finished ⊢
  rw [code] at finished ⊢
  exact sameRun_of_sound keeps vetted sound calls same target ⟨rfl, .nil, locals, like⟩ hosts enough
    finished

end ScriptHost.Host

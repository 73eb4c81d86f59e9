import ScriptHost.Proofs.Host.Evolution
import ScriptHost.Proofs.Host.Soundness
/-!
The moments of a run: every instruction that is about to run, in the call that was made and in all
calls nested in it. A run of checked methods is sound at each of them.
-/
namespace ScriptHost.Host

open Verify

variable {ε : Type}

/-! ## Moments -/

/-- A moment of a run: a body that is about to run its next instruction. -/
structure Moment (ε : Type) where
  /-- How many calls may still be nested. -/
  nesting : Nat
  method : Method
  body : Body
  this : Option ObjectRef
  remaining : Nat
  activation : Activation
  world : World ε

namespace Moment

/-- The instruction that is about to run. -/
def instr? (m : Moment ε) : Option Instr :=
  m.body.code[m.activation.pc]?

/-- What running an instruction at a moment comes to. -/
def perform (m : Moment ε) (instr : Instr) : Except HostException Step × World ε :=
  Host.perform m.method m.this m.activation instr m.world

/-- How the body ends from a moment on. -/
def ends (ctx : Context ε) (m : Moment ε) : Completion × World ε :=
  runBody (invoke ctx m.nesting) ctx.stepLimit m.method m.body m.this m.remaining m.activation
    m.world

end Moment

/-- The first moment of a call, if the method is made of instructions. -/
inductive Enters (ctx : Context ε) (depth : Nat) (method : Method) (this : Option ObjectRef)
    (args : Array Value) (w : World ε) : Moment ε → Prop
  | start {nesting : Nat} {body : Body} {ref : Option ObjectRef} {after : World ε}
      (nested : depth = nesting + 1) (arity : args.size = method.params.length)
      (received : World.onHost (receiver method this) w = (.ok ref, after))
      (code : method.body = .code body) :
      Enters ctx depth method this args w
        ⟨nesting, method, body, ref, ctx.stepLimit, .start body args, after⟩

/-- The moments that come right after a moment: the next one of the same body, also after a call
that returned, and the first one of a call. -/
inductive Follows (ctx : Context ε) (m : Moment ε) : Moment ε → Prop
  | next {instr : Instr} {remaining : Nat} {a : Activation} {w : World ε}
      (found : m.instr? = some instr) (left : m.remaining = remaining + 1)
      (performed : m.perform instr = (.ok (.next a), w)) :
      Follows ctx m { m with remaining, activation := a, world := w }
  | resume {instr : Instr} {remaining : Nat} {callee : Method} {ref : Option ObjectRef}
      {args left : Array Value} {keeps : Bool} {a : Activation} {v : Value} {w after : World ε}
      (found : m.instr? = some instr) (budget : m.remaining = remaining + 1)
      (performed : m.perform instr = (.ok (.call callee ref args keeps a), w))
      (returned : World.holding (waiting m.this a) (invoke ctx m.nesting callee ref args) w =
        (⟨.returned v, left⟩, after)) :
      Follows ctx m
        { m with remaining, activation := if keeps then a.push v else a, world := after }
  | enter {instr : Instr} {remaining : Nat} {callee : Method} {ref : Option ObjectRef}
      {args : Array Value} {keeps : Bool} {a : Activation} {w : World ε} {first : Moment ε}
      (found : m.instr? = some instr) (budget : m.remaining = remaining + 1)
      (performed : m.perform instr = (.ok (.call callee ref args keeps a), w))
      (entered : Enters ctx m.nesting callee ref args { w with pins := waiting m.this a :: w.pins }
        first) :
      Follows ctx m first

/-- The moments of a call. -/
inductive Reaches (ctx : Context ε) (depth : Nat) (method : Method) (this : Option ObjectRef)
    (args : Array Value) (w : World ε) : Moment ε → Prop
  | enter {m : Moment ε} (entered : Enters ctx depth method this args w m) :
      Reaches ctx depth method this args w m
  | follow {m n : Moment ε} (before : Reaches ctx depth method this args w m)
      (follows : Follows ctx m n) : Reaches ctx depth method this args w n

/-- A property of a moment and of all that come after it. -/
inductive Always (ctx : Context ε) (P : Moment ε → Prop) : Moment ε → Prop
  | intro {m : Moment ε} (now : P m) (later : ∀ n, Follows ctx m n → Always ctx P n) :
      Always ctx P m

/-- The moments of a call have what its first moment has for always. -/
theorem Reaches.of_always {ctx : Context ε} {P : Moment ε → Prop} {depth : Nat} {method : Method}
    {this : Option ObjectRef} {args : Array Value} {w : World ε} {m : Moment ε}
    (first : ∀ n, Enters ctx depth method this args w n → Always ctx P n)
    (reaches : Reaches ctx depth method this args w m) : P m := by
  have always : Always ctx P m := by
    induction reaches with
    | enter entered => exact first _ entered
    | follow _ follows ih =>
      obtain ⟨_, later⟩ := ih
      exact later _ follows
  obtain ⟨now, _⟩ := always
  exact now

/-! ## Checked methods -/

/-- Methods together with what the check of their bodies recorded. They name each other only. -/
structure Vetted (d : Domain) (records : Method → Depths → Prop) : Prop where
  consistent : ∀ {method : Method} {depths : Depths} {body : Body}, records method depths →
    method.body = .code body → Consistent body method.shape d.callEffect? depths
  closed : ∀ {method : Method} {depths : Depths} {body : Body}, records method depths →
    method.body = .code body → ∀ {pc : Nat} {instr : Instr} {t : MethodToken},
    body.code[pc]? = some instr → instr.token? = some t →
    ∃ callee recorded, d.method? t = some callee ∧ records callee recorded

/-- A check that knows more methods accepts what it accepted before. -/
theorem Verify.visit_mono {body : Body} {shape : MethodShape}
    {resolve resolve' : MethodToken → Option CallEffect} {pc depth : Nat} {instr : Instr}
    {next : List Visit} (more : ∀ t effect, resolve t = some effect → resolve' t = some effect)
    (visited : visit body shape resolve pc depth instr = .ok next) :
    visit body shape resolve' pc depth instr = .ok next := by
  obtain ⟨effect, effectOk, others⟩ := visit_eq_ok_iff.1 visited
  refine visit_eq_ok_iff.2 ⟨effect, ?_, others⟩
  cases instr with
  | call t | newObj t =>
    simp only [stackEffect] at effectOk ⊢
    cases known : resolve t with
    | none =>
      rw [known] at effectOk
      cases effectOk
    | some found =>
      rw [known] at effectOk
      rw [more t found known]
      exact effectOk
  | _ => exact effectOk

theorem Verify.Consistent.mono {body : Body} {shape : MethodShape}
    {resolve resolve' : MethodToken → Option CallEffect} {depths : Depths}
    (more : ∀ t effect, resolve t = some effect → resolve' t = some effect)
    (consistent : Consistent body shape resolve depths) :
    Consistent body shape resolve' depths := by
  refine ⟨consistent.entry, fun pc depth known => ?_⟩
  obtain ⟨instr, next, found, visited, reached⟩ := consistent.step pc depth known
  exact ⟨instr, next, found, visit_mono more visited, reached⟩

theorem Vetted.mono {d e : Domain} {records : Method → Depths → Prop} (vetted : Vetted d records)
    (grown : d.Extends e) : Vetted e records := by
  refine ⟨fun record code => ?_, fun record code pc instr t found names => ?_⟩
  · exact (vetted.consistent record code).mono fun _ _ known => grown.callEffect? known
  · obtain ⟨callee, recorded, known, record⟩ := vetted.closed record code found names
    exact ⟨callee, recorded, grown.method? known, record⟩

/-! ## Sound moments -/

/-- A moment in a checked method: the record knows the instruction at the height of the stack, and
the slots are there. -/
structure Moment.Sound (records : Method → Depths → Prop) (m : Moment ε) : Prop where
  code : m.method.body = .code m.body
  depth : ∃ depths, records m.method depths ∧
    depths[m.activation.pc]? = some (some m.activation.stack.length)
  args : m.activation.args.size = m.method.params.length
  locals : m.activation.locals.size = m.body.locals.size
  this : m.this.isSome = m.method.hasThis

variable {ctx : Context ε} {records : Method → Depths → Prop}

/-- The receiver is there exactly if the method has one. -/
theorem isSome_of_receiver {method : Method} {this ref : Option ObjectRef} {s : State}
    (received : (receiver method this s).1 = .ok ref) : ref.isSome = method.hasThis := by
  unfold receiver at received
  unfold Method.hasThis
  cases kind : method.kind with
  | static =>
    rw [kind] at received
    cases received
    rfl
  | ofInstance =>
    rw [kind] at received
    cases this with
    | none => cases received
    | some given =>
      cases received
      rfl
  | constructor =>
    rw [kind] at received
    simp only [HostM.bind_apply] at received
    split at received
    · cases received
      rfl
    · cases received

/-- A call of a checked method starts soundly. -/
theorem Enters.sound {depth : Nat} {method : Method} {this : Option ObjectRef}
    {args : Array Value} {w : World ε} {m : Moment ε} {depths : Depths}
    (entered : Enters ctx depth method this args w m) (vetted : Vetted w.host.domain records)
    (record : records method depths) :
    m.Sound records ∧ w.host.domain.Extends m.world.host.domain := by
  cases entered with
  | start nested arity received code =>
    have changed := EvolvesTypes.onHost (evolves_receiver method this) w
    rw [received] at changed
    refine ⟨⟨code, ⟨depths, record, (vetted.consistent record code).entry⟩, arity, ?_, ?_⟩,
      changed.extends⟩
    · exact Array.size_map
    · exact isSome_of_receiver (congrArg Prod.fst received)

/-- At a sound moment there is an instruction, and it does what the check permits. -/
theorem Moment.Sound.permitted {m : Moment ε} (sound : m.Sound records)
    (vetted : Vetted m.world.host.domain records) :
    ∃ depths instr next, records m.method depths ∧ m.instr? = some instr ∧
      (instr = .ret → m.activation.stack.length = m.method.returnsValue.toNat) ∧
      Permitted m.world.host.domain instr { m.activation with pc := m.activation.pc + 1 } next
        (m.perform instr).1 ∧
      ∀ v ∈ next, depths[v.pc]? = some (some v.depth) := by
  obtain ⟨depths, record, known⟩ := sound.depth
  obtain ⟨instr, next, found, visited, reached⟩ :=
    (vetted.consistent record sound.code).step _ _ known
  obtain ⟨_, _, _, returns, _⟩ := visit_eq_ok_iff.1 visited
  exact ⟨depths, instr, next, record, found, returns,
    step_permitted visited ⟨rfl, rfl, sound.args, sound.locals, sound.this⟩, reached⟩

/-- Whatever an instruction does, the domain only grows. -/
theorem Moment.extends_perform (m : Moment ε) (instr : Instr) :
    m.world.host.domain.Extends (m.perform instr).2.host.domain :=
  (EvolvesTypes.onHost (evolves_step _ _ _ _) m.world).extends

/-- The moments after a sound moment are sound. -/
theorem Follows.sound {m n : Moment ε} (keeps : ctx.KeepsTypes)
    (vetted : Vetted m.world.host.domain records) (sound : m.Sound records)
    (follows : Follows ctx m n) :
    n.Sound records ∧ m.world.host.domain.Extends n.world.host.domain := by
  obtain ⟨depths, instr, next, record, found, _, permitted, reached⟩ := sound.permitted vetted
  have grown := m.extends_perform instr
  cases follows with
  | next found' left performed =>
    cases found.symm.trans found'
    rw [performed] at permitted grown
    cases permitted with
    | next args locals goesOn =>
      exact ⟨⟨sound.code, ⟨depths, record, reached _ goesOn⟩, args.trans sound.args,
        locals.trans sound.locals, sound.this⟩, grown⟩
  | @resume _ _ callee ref args left keepsValue a v w after found' budget performed returned =>
    cases found.symm.trans found'
    rw [performed] at permitted grown
    have later := ((evolves_invoke keeps m.nesting callee ref args).holding (waiting m.this a) w).extends
    rw [returned] at later
    cases permitted with
    | call names known arity sameArgs sameLocals goesOn =>
      refine ⟨⟨sound.code, ⟨depths, record, ?_⟩, ?_, ?_, sound.this⟩, grown.trans later⟩
      · cases keepsValue <;> exact reached _ goesOn
      · cases keepsValue <;> exact (congrArg Array.size sameArgs).trans sound.args
      · cases keepsValue <;> exact (congrArg Array.size sameLocals).trans sound.locals
  | enter found' budget performed entered =>
    cases found.symm.trans found'
    rw [performed] at permitted grown
    cases permitted with
    | call names known arity sameArgs sameLocals goesOn =>
      obtain ⟨callee, recorded, known', calleeRecord⟩ :=
        vetted.closed record sound.code found names
      cases known.symm.trans known'
      have vetted' := vetted.mono grown
      obtain ⟨started, more⟩ := entered.sound vetted' calleeRecord
      exact ⟨started, grown.trans more⟩

/-- Every moment of a call of a checked method is sound. -/
theorem Reaches.sound {depth : Nat} {method : Method} {this : Option ObjectRef}
    {args : Array Value} {w : World ε} {m : Moment ε} {depths : Depths} (keeps : ctx.KeepsTypes)
    (vetted : Vetted w.host.domain records) (record : records method depths)
    (reaches : Reaches ctx depth method this args w m) :
    m.Sound records ∧ w.host.domain.Extends m.world.host.domain := by
  induction reaches with
  | enter entered => exact entered.sound vetted record
  | follow before follows ih =>
    obtain ⟨sound, grown⟩ := ih
    obtain ⟨sound', grown'⟩ := follows.sound keeps (vetted.mono grown) sound
    exact ⟨sound', grown.trans grown'⟩

/-! ## Completions -/

/-- From a sound moment on a body does not end with a fault, if the calls that it may make do not. -/
theorem noFault_of_sound {m : Moment ε} (keeps : ctx.KeepsTypes)
    (calls : ∀ {callee : Method} {depths : Depths} (ref : Option ObjectRef) {args : Array Value}
      {w : World ε}, Vetted w.host.domain records → records callee depths →
      args.size = callee.params.length → (invoke ctx m.nesting callee ref args w).1.ending.NoFault)
    (vetted : Vetted m.world.host.domain records) (sound : m.Sound records) :
    (m.ends ctx).1.ending.NoFault := by
  generalize budget : m.remaining = remaining
  induction remaining generalizing m with
  | zero =>
    obtain ⟨_, instr, _, _, found, _⟩ := sound.permitted vetted
    unfold Moment.ends
    rw [budget, runBody_zero found]
    intro e threw
    cases threw
    rfl
  | succ remaining ih =>
    obtain ⟨depths, instr, next, record, found, _, permitted, _⟩ := sound.permitted vetted
    have grown := m.extends_perform instr
    unfold Moment.ends
    rw [budget, runBody_succ found]
    cases performed : Host.perform m.method m.this m.activation instr m.world with
    | mk outcome after =>
      have result : m.perform instr = (outcome, after) := performed
      rw [result] at permitted grown
      cases permitted with
      | raise noFault =>
        intro e threw
        cases threw
        exact noFault
      | done atReturn =>
        intro e threw
        cases threw
      | @next b args locals goesOn =>
        obtain ⟨sound', grown'⟩ := (Follows.next found budget result).sound keeps vetted sound
        exact ih (m := { m with remaining, activation := b, world := after }) calls
          (vetted.mono grown') sound' rfl
      | @call t callee ref args keepsValue b names known arity sameArgs sameLocals goesOn =>
        obtain ⟨callee, recorded, known', calleeRecord⟩ :=
          vetted.closed record sound.code found names
        cases known.symm.trans known'
        have called := calls ref (w := { after with pins := waiting m.this b :: after.pins })
          (vetted.mono grown) calleeRecord arity
        dsimp only
        cases completed : World.holding (waiting m.this b) (invoke ctx m.nesting callee ref args)
            after with
        | mk completion last =>
          have sameEnding : completion.ending = (invoke ctx m.nesting callee ref args
              { after with pins := waiting m.this b :: after.pins }).1.ending :=
            congrArg (·.1.ending) completed.symm
          obtain ⟨ending, left⟩ := completion
          cases ending with
          | returned v =>
            have follows := Follows.resume found budget result completed
            obtain ⟨sound', grown'⟩ := follows.sound keeps vetted sound
            exact ih (m := { m with
              remaining, activation := if keepsValue then b.push v else b, world := last })
              calls (vetted.mono grown') sound' rfl
          | threw e =>
            intro e' threw
            exact called e' (sameEnding.symm.trans threw)
          | interrupted i =>
            intro e threw
            cases threw

/-- A call of a checked method with as many arguments as it declares does not end with a fault. -/
theorem noFault_invoke {depth : Nat} {method : Method} {depths : Depths} (keeps : ctx.KeepsTypes)
    (this : Option ObjectRef) {args : Array Value} {w : World ε}
    (vetted : Vetted w.host.domain records) (record : records method depths)
    (arity : args.size = method.params.length) :
    (invoke ctx depth method this args w).1.ending.NoFault := by
  induction depth generalizing method depths this args w with
  | zero => exact Ending.noFault_interrupted _
  | succ depth ih =>
    rw [invoke_succ, if_neg (not_not_intro arity)]
    have noFault := noFault_receiver method this w.host
    cases received : World.onHost (receiver method this) w with
    | mk outcome after =>
      cases outcome with
      | error e => exact Ending.noFault_threw (noFault e (congrArg Prod.fst received))
      | ok ref =>
        refine noFault_ofCall (c := (runMethod ctx depth method ref args after).1) ?_
        unfold runMethod
        cases code : method.body with
        | native actions => exact noFault_runNative method ref actions _ after
        | patchHub => exact noFault_consultPatches ctx args after
        | absent => exact Ending.noFault_threw rfl
        | code body =>
          have entered : Enters ctx (depth + 1) method this args w _ :=
            .start rfl arity received code
          obtain ⟨sound, grown⟩ := entered.sound vetted record
          exact noFault_of_sound keeps (fun ref => ih ref) (vetted.mono grown) sound

end ScriptHost.Host

import ScriptHost.Host.Invoke
import ScriptHost.Proofs.Host.HostM
import ScriptHost.Proofs.Results
/-!
What instructions and actions keep, going by the values that they know. They get hold of an object
by being given it, by finding it in an object that they know, or by making it, and they store what
they know in objects that they know. So whatever reading, storing and making objects keeps is kept
by all of them.
-/
namespace ScriptHost.Host

variable {α β : Type}

/-! ## Values that are no objects -/

theorem Value.asObject?_defaultFor (type : ValueType) : (defaultFor type).asObject? = none := by
  unfold defaultFor
  split <;> try rfl
  split
  · rfl
  · split <;> rfl

theorem Literal.asObject?_toValue (l : Literal) : l.toValue.asObject? = none := by
  cases l <;> rfl

/-- Operators never give objects. -/
theorem asObject?_of_apply {op : ArithOp} {x y v : Value} (applied : op.apply x y = .ok v) :
    v.asObject? = none := by
  unfold ArithOp.apply at applied
  split at applied
  · cases applied
    rfl
  split at applied
  · split at applied <;> cases applied
    rfl
  split at applied
  · cases applied
    rfl
  split at applied <;> cases applied
  rfl

theorem Value.eq_object_of_asObject? {v : Value} {ref : ObjectRef}
    (same : v.asObject? = some ref) : v = .object ref := by
  cases v <;> cases same
  rfl

/-! ## Values with a property -/

section

variable {K : Value → Prop} {values : Array Value} {v : Value}

theorem known_getElem? (all : ∀ v ∈ values.toList, K v) {i : Nat} (found : values[i]? = some v) :
    K v :=
  all v (Array.mem_toList_iff.2 (Array.mem_of_getElem? found))

theorem known_getD (all : ∀ v ∈ values.toList, K v) (null : K .null) (i : Nat) :
    K (values.getD i .null) := by
  rw [Array.getD_eq_getD_getElem?]
  cases found : values[i]? with
  | none => exact null
  | some v => exact known_getElem? all found

theorem known_setIfInBounds (all : ∀ v ∈ values.toList, K v) (known : K v) (i : Nat) :
    ∀ u ∈ (values.setIfInBounds i v).toList, K u := by
  intro u member
  obtain ⟨j, found⟩ := Array.mem_iff_getElem?.1 (Array.mem_toList_iff.1 member)
  rw [Array.getElem?_setIfInBounds] at found
  split at found
  · split at found
    · cases found
      exact known
    · cases found
  · exact known_getElem? all found

end

/-- An activation whose values have a property. -/
structure Activation.Holds (K : Value → Prop) (a : Activation) : Prop where
  stack : ∀ v ∈ a.stack, K v
  locals : ∀ v ∈ a.locals.toList, K v
  args : ∀ v ∈ a.args.toList, K v

/-- What an instruction asks for involves values with a property only. -/
def Step.Holds (K : Value → Prop) : Step → Prop
  | .next a => a.Holds K
  | .done v => K v
  | .call _ receiver args _ a =>
    (∀ ref, receiver = some ref → K (.object ref)) ∧ (∀ v ∈ args.toList, K v) ∧ a.Holds K

/-- A frame whose values have a property. -/
structure NativeFrame.Holds (K : Value → Prop) (f : NativeFrame) : Prop where
  args : ∀ v ∈ f.args.toList, K v
  result : K f.result

/-- A completion whose values have a property. -/
structure Completion.Holds (K : Value → Prop) (c : Completion) : Prop where
  args : ∀ v ∈ c.args.toList, K v
  value : ∀ v, c.ending = .returned v → K v

section

variable {K L : Value → Prop} {a : Activation} {f : NativeFrame} {v : Value}

theorem Activation.Holds.imp (holds : a.Holds K) (implies : ∀ v, K v → L v) : a.Holds L :=
  ⟨fun v member => implies v (holds.stack v member),
    fun v member => implies v (holds.locals v member),
    fun v member => implies v (holds.args v member)⟩

theorem NativeFrame.Holds.imp (holds : f.Holds K) (implies : ∀ v, K v → L v) : f.Holds L :=
  ⟨fun v member => implies v (holds.args v member), implies _ holds.result⟩

namespace Activation.Holds

theorem start (plain : ∀ v : Value, v.asObject? = none → K v) (body : Body) {args : Array Value}
    (known : ∀ v ∈ args.toList, K v) : (Activation.start body args).Holds K := by
  refine ⟨fun v member => (List.not_mem_nil member).elim, fun v member => ?_, known⟩
  obtain ⟨type, _, rfl⟩ := Array.mem_map.1 (Array.mem_toList_iff.1 member)
  exact plain _ (Value.asObject?_defaultFor type)

theorem advance (holds : a.Holds K) : ({ a with pc := a.pc + 1 } : Activation).Holds K :=
  ⟨holds.stack, holds.locals, holds.args⟩

theorem withStack (holds : a.Holds K) {stack : List Value} (known : ∀ v ∈ stack, K v) :
    (a.withStack stack).Holds K :=
  ⟨known, holds.locals, holds.args⟩

theorem push (holds : a.Holds K) (known : K v) : (a.push v).Holds K :=
  holds.withStack (List.forall_mem_cons.2 ⟨known, holds.stack⟩)

theorem jump (holds : a.Holds K) (target : UInt32) : (a.jump target).Holds K :=
  ⟨holds.stack, holds.locals, holds.args⟩

end Activation.Holds

end

/-! ## Regimes -/

/-- What hosts are like, what may become of them, and which values may be got hold of, as far as it
takes no more than reading, storing and making objects. -/
structure Regime where
  /-- Hosts under the regime. -/
  Stands : State → Prop
  /-- What may become of a host. -/
  Leads : State → State → Prop
  /-- Values that a computation may get hold of. -/
  Knows : State → Value → Prop
  refl {s : State} : Stands s → Leads s s
  trans {s t u : State} : Leads s t → Leads t u → Leads s u
  stands {s t : State} : Leads s t → Stands t
  mono {s t : State} {v : Value} : Leads s t → Knows s v → Knows t v
  plain {s : State} {v : Value} : v.asObject? = none → Knows s v
  get? {s : State} {ref : ObjectRef} {i : Nat} {v : Value} : Stands s → Knows s (.object ref) →
    s.heap.get? ref i = some v → Knows s v
  setSlot {s : State} {ref : ObjectRef} {v : Value} (i : Nat) : Stands s → Knows s (.object ref) →
    Knows s v → Leads s (s.setSlot ref i v).2
  newArray {s : State} {values : Array Value} (element : ValueType) : Stands s →
    (∀ v ∈ values.toList, Knows s v) →
    Leads s (s.newArray element values).2 ∧
      Knows (s.newArray element values).2 (.object (s.newArray element values).1)
  instantiate {s : State} (type : TypeId) : Stands s →
    Leads s (s.instantiate type).2 ∧
      ∀ ref, (s.instantiate type).1 = .ok ref → Knows (s.instantiate type).2 (.object ref)

namespace Regime

/-- The regime that asks for nothing. -/
def free : Regime where
  Stands := fun _ => True
  Leads := fun _ _ => True
  Knows := fun _ _ => True
  refl := id
  trans := fun _ => id
  stands := id
  mono := fun _ => id
  plain := fun _ => trivial
  get? := fun _ _ _ => trivial
  setSlot := fun _ _ _ _ => trivial
  newArray := fun _ _ _ => ⟨trivial, trivial⟩
  instantiate := fun _ _ => ⟨trivial, fun _ _ => trivial⟩

/-- A computation that starts on a host keeps to a regime, and what it gives has a property. -/
def Keeps (R : Regime) (s : State) (P : α → State → Prop) (m : HostM α) : Prop :=
  R.Leads s (m s).2 ∧ ∀ a, (m s).1 = .ok a → P a (m s).2

variable {R : Regime} {s : State}

namespace Keeps

variable {P : α → State → Prop} {Q : β → State → Prop}

theorem pure {a : α} (stands : R.Stands s) (given : P a s) : R.Keeps s P (pure a : HostM α) :=
  ⟨R.refl stands, fun _ same => Except.ok.inj same ▸ given⟩

theorem throw (stands : R.Stands s) (e : HostException) : R.Keeps s P (throw e : HostM α) :=
  ⟨R.refl stands, fun _ same => (nomatch same)⟩

theorem bind {m : HostM α} {f : α → HostM β} (first : R.Keeps s P m)
    (second : ∀ a t, R.Leads s t → P a t → R.Keeps t Q (f a)) : R.Keeps s Q (m >>= f) := by
  obtain ⟨leads, given⟩ := first
  unfold Keeps
  rw [HostM.bind_apply]
  cases result : m s with
  | mk outcome t =>
    rw [result] at leads given
    cases outcome with
    | error e => exact ⟨leads, fun _ same => (nomatch same)⟩
    | ok a =>
      obtain ⟨later, givenThen⟩ := second a t leads (given a rfl)
      exact ⟨R.trans leads later, givenThen⟩

/-- What does not involve the host leaves it alone. -/
theorem lift {r : Except HostException α} (stands : R.Stands s) (given : ∀ a, r = .ok a → P a s) :
    R.Keeps s P (liftM r : HostM α) :=
  ⟨R.refl stands, given⟩

theorem bindLift {r : Except HostException α} {f : α → HostM β} (stands : R.Stands s)
    (ok : ∀ a, r = .ok a → R.Keeps s Q (f a)) : R.Keeps s Q ((liftM r : HostM α) >>= f) := by
  cases r with
  | error e => exact .throw stands e
  | ok a => exact ok a rfl

/-- What comes after a look at the host. -/
theorem bindGet {f : State → HostM β} (rest : R.Keeps s Q (f s)) :
    R.Keeps s Q ((get : HostM State) >>= f) :=
  rest

theorem setSlot {ref : ObjectRef} {v : Value} (stands : R.Stands s)
    (target : R.Knows s (.object ref)) (known : R.Knows s v) (i : Nat) :
    R.Keeps s (fun _ _ => True) (modifyGet (·.setSlot ref i v) : HostM Bool) :=
  ⟨R.setSlot i stands target known, fun _ _ => trivial⟩

theorem discard {m : HostM α} (keeps : R.Keeps s P m) :
    R.Keeps s (fun _ _ => True) (discard m) := by
  unfold Functor.discard
  rw [map_const, Function.comp_apply, map_eq_pure_bind]
  exact keeps.bind fun _ _ leads _ => .pure (R.stands leads) trivial

end Keeps

/-! ## Operands -/

namespace Keeps

variable {Q : β → State → Prop} {stack : List Value}

theorem popOperand {f : Value × List Value → HostM β} (stands : R.Stands s)
    (known : ∀ v ∈ stack, R.Knows s v)
    (rest : ∀ v others, R.Knows s v → (∀ u ∈ others, R.Knows s u) → R.Keeps s Q (f (v, others))) :
    R.Keeps s Q ((liftM (Host.popOperand stack) : HostM (Value × List Value)) >>= f) := by
  refine .bindLift stands ?_
  rintro ⟨v, others⟩ popped
  cases stack with
  | nil => cases popped
  | cons u others =>
    cases popped
    exact rest _ _ (known v List.mem_cons_self)
      fun u member => known u (List.mem_cons_of_mem v member)

theorem popObject {f : ObjectRef × List Value → HostM β} (stands : R.Stands s)
    (known : ∀ v ∈ stack, R.Knows s v)
    (rest : ∀ ref others, R.Knows s (.object ref) → (∀ u ∈ others, R.Knows s u) →
      R.Keeps s Q (f (ref, others))) :
    R.Keeps s Q ((liftM (Host.popObject stack) : HostM (ObjectRef × List Value)) >>= f) := by
  refine .bindLift stands ?_
  rintro ⟨ref, others⟩ popped
  cases stack with
  | nil => cases popped
  | cons u others =>
    rw [popObject_cons] at popped
    cases u <;> cases popped
    exact rest _ _ (known _ List.mem_cons_self)
      fun u member => known u (List.mem_cons_of_mem _ member)

theorem popIndex {f : Nat × List Value → HostM β} (stands : R.Stands s)
    (known : ∀ v ∈ stack, R.Knows s v)
    (rest : ∀ i others, (∀ u ∈ others, R.Knows s u) → R.Keeps s Q (f (i, others))) :
    R.Keeps s Q ((liftM (Host.popIndex stack) : HostM (Nat × List Value)) >>= f) := by
  refine .bindLift stands ?_
  rintro ⟨i, others⟩ popped
  cases stack with
  | nil => cases popped
  | cons u others =>
    rw [popIndex_cons] at popped
    obtain ⟨_, _, same⟩ := Results.map_eq_ok.1 popped
    cases same
    exact rest _ _ fun v member => known v (List.mem_cons_of_mem u member)

theorem popOperands {count : Nat} {f : Array Value × List Value → HostM β} (stands : R.Stands s)
    (known : ∀ v ∈ stack, R.Knows s v)
    (rest : ∀ (values : Array Value) others, (∀ u ∈ values.toList, R.Knows s u) →
      (∀ u ∈ others, R.Knows s u) → R.Keeps s Q (f (values, others))) :
    R.Keeps s Q
      ((liftM (Host.popOperands count stack) : HostM (Array Value × List Value)) >>= f) := by
  refine .bindLift stands ?_
  rintro ⟨values, others⟩ popped
  unfold Host.popOperands at popped
  split at popped
  · cases popped
  · cases popped
    refine rest _ _ (fun v member => known v ?_)
      fun v member => known v (List.mem_of_mem_drop member)
    exact List.mem_of_mem_take (List.mem_reverse.1 (by simpa using member))

end Keeps

/-! ## Instructions -/

variable {this : Option ObjectRef}

/-- An instruction keeps to every regime. -/
theorem keeps_step (returnsValue : Bool) {a : Activation} (stands : R.Stands s)
    (target : ∀ ref, this = some ref → R.Knows s (.object ref)) (holds : a.Holds (R.Knows s))
    (instr : Instr) :
    R.Keeps s (fun asked t => asked.Holds (R.Knows t)) (a.step returnsValue this instr) := by
  have plain : ∀ {v : Value} {stack : List Value}, v.asObject? = none →
      (∀ u ∈ stack, R.Knows s u) → (a.withStack (v :: stack)).Holds (R.Knows s) :=
    fun noObject rest => holds.withStack (List.forall_mem_cons.2 ⟨R.plain noObject, rest⟩)
  have later : ∀ {stack : List Value} {t : State}, R.Leads s t → (∀ u ∈ stack, R.Knows s u) →
      (a.withStack stack).Holds (R.Knows t) :=
    fun leads rest => (holds.withStack rest).imp fun _ => R.mono leads
  cases instr <;> simp only [Activation.step]
  case nop | anchor => exact .pure stands holds
  case ldNull | ldBool | ldInt | ldFloat | ldStr | ldToken =>
    exact .pure stands (plain rfl holds.stack)
  case ldArg i =>
    split
    · rename_i found
      exact .pure stands (holds.push (known_getElem? holds.args found))
    · exact .throw stands _
  case ldLoc i =>
    split
    · rename_i found
      exact .pure stands (holds.push (known_getElem? holds.locals found))
    · exact .throw stands _
  case stArg i =>
    refine .popOperand stands holds.stack fun v stack known rest => ?_
    split
    · exact .pure stands ⟨rest, holds.locals, known_setIfInBounds holds.args known _⟩
    · exact .throw stands _
  case stLoc i =>
    refine .popOperand stands holds.stack fun v stack known rest => ?_
    split
    · exact .pure stands ⟨rest, known_setIfInBounds holds.locals known _, holds.args⟩
    · exact .throw stands _
  case ldThis =>
    split
    · exact .pure stands (holds.push (target _ rfl))
    · exact .throw stands _
  case ldFld i =>
    refine .popObject stands holds.stack fun ref stack object rest => ?_
    refine .bindGet ?_
    split
    · rename_i found
      exact .pure stands (holds.withStack
        (List.forall_mem_cons.2 ⟨R.get? stands object found, rest⟩))
    · exact .throw stands _
  case stFld i =>
    refine .popOperand stands holds.stack fun v stack known rest => ?_
    refine .popObject stands rest fun ref stack object rest => ?_
    refine (Keeps.setSlot stands object known _).bind fun stored t leads _ => ?_
    split
    · exact .pure (R.stands leads) (later leads rest)
    · exact .throw (R.stands leads) _
  case newArr element =>
    refine .popOperand stands holds.stack fun v stack _ rest => ?_
    dsimp only
    split
    · exact .throw stands _
    · rename_i length _
      have defaults : ∀ u ∈ (Array.replicate length (Value.defaultFor element)).toList,
          R.Knows s u := by
        intro u member
        rw [Array.toList_replicate] at member
        rw [List.eq_of_mem_replicate member]
        exact R.plain (Value.asObject?_defaultFor element)
      obtain ⟨leads, made⟩ := R.newArray element stands defaults
      refine Keeps.bind (P := fun ref t => R.Knows t (.object ref))
        ⟨leads, fun ref same => Except.ok.inj same ▸ made⟩ fun ref t leads made => ?_
      exact .pure (R.stands leads) ((later leads rest).push made)
  case ldElem =>
    refine .popIndex stands holds.stack fun i stack rest => ?_
    refine .popObject stands rest fun ref stack object rest => ?_
    refine .bindGet ?_
    dsimp only
    split
    · rename_i found
      exact .pure stands (holds.withStack
        (List.forall_mem_cons.2 ⟨R.get? stands object found, rest⟩))
    · exact .throw stands _
  case stElem =>
    refine .popOperand stands holds.stack fun v stack known rest => ?_
    refine .popIndex stands rest fun i stack rest => ?_
    refine .popObject stands rest fun ref stack object rest => ?_
    refine (Keeps.setSlot stands object known _).bind fun stored t leads _ => ?_
    split
    · exact .pure (R.stands leads) (later leads rest)
    · exact .bindGet (.throw (R.stands leads) _)
  case arith op =>
    refine .popOperand stands holds.stack fun y stack _ rest => ?_
    refine .popOperand stands rest fun x stack _ rest => ?_
    exact .bindLift stands fun v applied => .pure stands (plain (asObject?_of_apply applied) rest)
  case ceq =>
    refine .popOperand stands holds.stack fun y stack _ rest => ?_
    exact .popOperand stands rest fun x stack _ rest => .pure stands (plain rfl rest)
  case clt =>
    refine .popOperand stands holds.stack fun y stack _ rest => ?_
    refine .popOperand stands rest fun x stack _ rest => ?_
    dsimp only
    split
    · exact .pure stands (plain rfl rest)
    · exact .throw stands _
  case dup =>
    exact .popOperand stands holds.stack fun v stack known _ => .pure stands (holds.push known)
  case pop =>
    exact .popOperand stands holds.stack fun v stack _ rest => .pure stands (holds.withStack rest)
  case br t => exact .pure stands (holds.jump t)
  case brTrue t | brFalse t =>
    refine .popOperand stands holds.stack fun v stack _ rest => .pure stands ?_
    replace rest := holds.withStack rest
    dsimp only
    split
    · first | exact rest.jump t | exact rest
    · first | exact rest | exact rest.jump t
  case call t =>
    refine .bindGet ?_
    split
    · exact .throw stands _
    · refine .popOperands stands holds.stack fun args stack known rest => ?_
      dsimp only
      split
      · refine .popObject stands rest fun ref stack object rest => .pure stands ?_
        exact ⟨fun ref same => Option.some.inj same ▸ object, known, holds.withStack rest⟩
      · exact .pure stands ⟨by simp, known, holds.withStack rest⟩
  case newObj t =>
    refine .bindGet ?_
    split
    · exact .throw stands _
    · refine .popOperands stands holds.stack fun args stack known rest => .pure stands ?_
      exact ⟨by simp, known, holds.withStack rest⟩
  case throw => exact .bindLift stands fun _ _ => .throw stands _
  case ret =>
    split
    · exact .popOperand stands holds.stack fun v stack known _ => .pure stands known
    · exact .pure stands (R.plain rfl)

/-! ## Actions -/

theorem knows_requireThis {method : Method} {ref : ObjectRef}
    (target : ∀ ref, this = some ref → R.Knows s (.object ref))
    (required : requireThis method this = .ok ref) : R.Knows s (.object ref) := by
  cases this with
  | none => cases required
  | some found =>
    cases required
    exact target _ rfl

/-- An action keeps to every regime. -/
theorem keeps_perform (method : Method) {f : NativeFrame} (stands : R.Stands s)
    (target : ∀ ref, this = some ref → R.Knows s (.object ref)) (holds : f.Holds (R.Knows s))
    (action : NativeAction) :
    R.Keeps s (fun g t => g.Holds (R.Knows t)) (action.perform method this f) := by
  have argument : ∀ i, R.Knows s (f.args.getD i .null) := known_getD holds.args (R.plain rfl)
  have plain : ∀ {v : Value}, v.asObject? = none →
      NativeFrame.Holds (R.Knows s) { f with result := v } :=
    fun noObject => ⟨holds.args, R.plain noObject⟩
  have setArg : ∀ (i : Nat) {v : Value}, R.Knows s v →
      R.Keeps s (fun g t => g.Holds (R.Knows t)) (liftM (f.setArg i v) : HostM NativeFrame) := by
    intro i v known
    refine .lift stands fun g stored => ?_
    unfold NativeFrame.setArg at stored
    split at stored
    · cases stored
      exact ⟨known_setIfInBounds holds.args known i, holds.result⟩
    · cases stored
  have setSlot : ∀ (ref : ObjectRef) (slot : Nat) {v : Value}, R.Knows s (.object ref) →
      R.Knows s v → R.Keeps s (fun g t => g.Holds (R.Knows t)) (do
        discard (modifyGet (·.setSlot ref slot v) : HostM Bool)
        Pure.pure f) := fun ref slot v object known =>
    (Keeps.setSlot stands object known slot).discard.bind fun _ _ leads _ =>
      .pure (R.stands leads) (holds.imp fun _ => R.mono leads)
  cases action <;> simp only [NativeAction.perform]
  case ret v => exact .pure stands (plain v.asObject?_toValue)
  case retArg i => exact .pure stands ⟨holds.args, argument i⟩
  case retInteger i => exact .bindLift stands fun _ _ => .pure stands (plain rfl)
  case retSum i j =>
    exact .bindLift stands fun _ _ => .bindLift stands fun _ _ => .pure stands (plain rfl)
  case retThis =>
    exact .bindLift stands fun ref required =>
      .pure stands ⟨holds.args, knows_requireThis target required⟩
  case setArg i v => exact setArg i (R.plain v.asObject?_toValue)
  case copyArg i j => exact setArg j (argument i)
  case getField slot =>
    refine .bindLift stands fun ref required => .bindGet (.pure stands ⟨holds.args, ?_⟩)
    dsimp only
    cases found : s.heap.get? ref slot with
    | none => exact R.plain rfl
    | some v => exact R.get? stands (knows_requireThis target required) found
  case setField slot v =>
    exact .bindLift stands fun ref required =>
      setSlot ref slot (knows_requireThis target required) (R.plain v.asObject?_toValue)
  case setFieldFromArg slot i =>
    exact .bindLift stands fun ref required =>
      setSlot ref slot (knows_requireThis target required) (argument i)
  case setArgField i slot v =>
    split
    · rename_i ref found
      have known := argument i
      rw [Value.eq_object_of_asObject? found] at known
      exact setSlot ref slot known (R.plain v.asObject?_toValue)
    · exact .pure stands holds
  case raise => exact .throw stands _
  case panic | trace => exact .pure stands holds

/-- Making the object that a method runs on keeps to every regime. -/
theorem keeps_receiver (method : Method) (stands : R.Stands s)
    (target : ∀ ref, this = some ref → R.Knows s (.object ref)) :
    R.Keeps s (fun found t => ∀ ref, found = some ref → R.Knows t (.object ref))
      (receiver method this) := by
  unfold receiver
  cases method.kind with
  | constructor =>
    have made : R.Keeps s (fun ref t => R.Knows t (.object ref))
        (fun s => Pure.pure (s.instantiate method.declaring) : HostM ObjectRef) :=
      R.instantiate method.declaring stands
    exact made.bind fun ref t leads known =>
      .pure (R.stands leads) fun other same => Option.some.inj same ▸ known
  | ofInstance =>
    cases this with
    | none => exact .throw stands _
    | some ref => exact .pure stands fun other same => target other same
  | static => exact .pure stands fun _ same => (nomatch same)

end Regime

end ScriptHost.Host

import ScriptHost.Host.Invoke
/-!
Equations for calls and for the bodies that they run.
-/
namespace ScriptHost.Host

variable {ε : Type}

theorem World.bind_apply {σ α β : Type} (m : StateM σ α) (f : α → StateM σ β) (s : σ) :
    (m >>= f) s = f (m s).1 (m s).2 := rfl

theorem World.get_apply {σ : Type} (s : σ) : (get : StateM σ σ) s = (s, s) := rfl

/-- Running on the host of a world leaves the rest of the world alone. -/
theorem World.onHost_apply {α : Type} (m : HostM α) (w : World ε) :
    World.onHost m w = ((m w.host).1, { w with host := (m w.host).2 }) := rfl

/-! ## Calling a method -/

/-- What runs once a method has its receiver. -/
def runMethod (ctx : Context ε) (depth : Nat) (method : Method) (this : Option ObjectRef)
    (args : Array Value) : StateM (World ε) Completion :=
  match method.body with
  | .native actions => runNative method this actions ⟨args, .null⟩
  | .code body =>
    runBody (invoke ctx depth) ctx.stepLimit method body this ctx.stepLimit
      (Activation.start body args)
  | .patchHub => do return ⟨← consultPatches ctx args, args⟩
  | .absent => pure ⟨.threw (.noBody method.signature), args⟩

/-- What a call ends with: a constructor that returns gives its new object. -/
def Completion.ofCall (method : Method) (this : Option ObjectRef) (c : Completion) : Completion :=
  match c.ending, method.kind, this with
  | .returned _, .constructor, some ref => { c with ending := .returned (.object ref) }
  | _, _, _ => c

theorem pure_ofCall (method : Method) (this : Option ObjectRef) (r : Completion × World ε) :
    (match r.1.ending, method.kind, this with
      | .returned _, .constructor, some ref =>
        (pure { r.1 with ending := .returned (.object ref) } : StateM (World ε) Completion)
      | _, _, _ => pure r.1) r.2 = (r.1.ofCall method this, r.2) := by
  obtain ⟨⟨ending, args⟩, w⟩ := r
  unfold Completion.ofCall
  cases ending <;> cases method.kind <;> cases this <;> rfl

/-- A call checks the number of its arguments, makes its receiver and runs the method. -/
theorem invoke_succ (ctx : Context ε) (depth : Nat) (method : Method) (this : Option ObjectRef)
    (args : Array Value) (w : World ε) :
    invoke ctx (depth + 1) method this args w =
      if args.size ≠ method.params.length then
        (⟨.threw (.argumentCount method.signature method.params.length args.size), args⟩, w)
      else
        match World.onHost (receiver method this) w with
        | (.error e, w) => (⟨.threw e, args⟩, w)
        | (.ok ref, w) =>
          let (completion, w) := runMethod ctx depth method ref args w
          (completion.ofCall method ref, w) := by
  unfold invoke
  split
  · rfl
  simp only [bind, StateT.bind]
  cases World.onHost (receiver method this) w with
  | mk received after =>
    cases received with
    | error e => rfl
    | ok ref =>
      unfold runMethod
      cases method.body with
      | absent => rfl
      | native actions => exact pure_ofCall method ref (runNative method ref actions _ after)
      | code body => exact pure_ofCall method ref (runBody _ _ method body ref _ _ after)
      | patchHub =>
        exact pure_ofCall method ref
          (⟨(consultPatches ctx args after).1, args⟩, (consultPatches ctx args after).2)

/-- Calling a method of instructions. -/
theorem invoke_code (ctx : Context ε) (depth : Nat) {method : Method} {this ref : Option ObjectRef}
    {args : Array Value} {w v : World ε} {body : Body} (code : method.body = .code body)
    (arity : args.size = method.params.length)
    (received : World.onHost (receiver method this) w = (.ok ref, v)) :
    invoke ctx (depth + 1) method this args w =
      let (completion, last) := runBody (invoke ctx depth) ctx.stepLimit method body ref
        ctx.stepLimit (.start body args) v
      (completion.ofCall method ref, last) := by
  rw [invoke_succ, if_neg (fun differs => differs arity), received]
  dsimp only
  unfold runMethod
  rw [code]

/-- Only constructors give something else than what their bodies give. -/
theorem Completion.ofCall_of_ne {method : Method} (other : method.kind ≠ .constructor)
    (this : Option ObjectRef) (c : Completion) : c.ofCall method this = c := by
  unfold ofCall
  split
  · contradiction
  · rfl

/-- A call raises what its method raises. -/
theorem Completion.threw_ofCall {method : Method} {this : Option ObjectRef} {c : Completion}
    {e : HostException} : (c.ofCall method this).ending = .threw e ↔ c.ending = .threw e := by
  unfold ofCall
  split
  · rename_i returned _
    simp [returned]
  · rfl

theorem receiver_static {method : Method} (isStatic : method.kind = .static)
    (this : Option ObjectRef) (w : World ε) :
    World.onHost (receiver method this) w = (.ok none, w) := by
  unfold receiver
  rw [isStatic]
  rfl

/-- Calling the hub is consulting the patches. -/
theorem invoke_patchHub {ctx : Context ε} {depth : Nat} {callee : Method} {args : Array Value}
    (arity : args.size = callee.params.length) (isStatic : callee.kind = .static)
    (isHub : callee.body = .patchHub) (w : World ε) :
    invoke ctx (depth + 1) callee none args w =
      (⟨(consultPatches ctx args w).1, args⟩, (consultPatches ctx args w).2) := by
  have ordinary : callee.kind ≠ .constructor := by simp [isStatic]
  rw [invoke_succ, if_neg (not_not_intro arity), receiver_static isStatic]
  simp only [Completion.ofCall_of_ne ordinary]
  unfold runMethod
  rw [isHub]
  rfl

/-! ## Running the actions of a method -/

/-- An action that neither reports nor breaks off. -/
theorem runNative_cons {action : NativeAction} (noTrace : ∀ text, action ≠ .trace text)
    (noPanic : ∀ message, action ≠ .panic message) (method : Method) (this : Option ObjectRef)
    (rest : List NativeAction) (f : NativeFrame) (w : World ε) :
    runNative method this (action :: rest) f w =
      match World.onHost (action.perform method this f) w with
      | (.ok g, w) => runNative method this rest g w
      | (.error e, w) => (⟨.threw e, f.args⟩, w) := by
  cases action with
  | trace text => exact absurd rfl (noTrace text)
  | panic message => exact absurd rfl (noPanic message)
  | _ =>
    simp only [runNative]
    rw [World.bind_apply]
    cases World.onHost (NativeAction.perform method this f _) w with
    | mk outcome after => cases outcome <;> rfl

/-! ## Consulting the patches -/

section

variable {ctx : Context ε} {args : Array Value} {w : World ε} {query : HubQuery} {method : Method}

theorem consultPatches_error {e : HostException} (read : HubQuery.ofArgs args = .error e) :
    consultPatches ctx args w = (.threw e, w) := by
  unfold consultPatches
  rw [read]
  rfl

theorem consultPatches_unknown (read : HubQuery.ofArgs args = .ok query)
    (unknown : w.host.domain.method? query.token = none) :
    consultPatches ctx args w = (.returned (.bool false), (World.report (.log .warn
      ("patch hub: no method for token " ++ query.token.text ++ s!" ({query.signature})")) w).2) := by
  unfold consultPatches
  rw [read]
  simp only [World.bind_apply, World.get_apply, unknown]
  rfl

theorem consultPatches_size (read : HubQuery.ofArgs args = .ok query)
    (known : w.host.domain.method? query.token = some method)
    (other : w.host.heap.size query.carrier ≠ method.params.length + 1) :
    consultPatches ctx args w = (.threw (.hubCarrierSize query.signature
      (w.host.heap.size query.carrier) (method.params.length + 1)), w) := by
  unfold consultPatches
  rw [read]
  refine (World.bind_apply _ _ _).trans ?_
  simp only [World.get_apply, known]
  change (if w.host.heap.size query.carrier ≠ method.params.length + 1 then _
    else (_ : StateM (World ε) Ending)) w = _
  rw [if_pos other]
  rfl

/-- The request that the hub passes on. -/
def HubQuery.request (query : HubQuery) (method : Method) : PatchRequest :=
  ⟨query.signature, method, query.target, query.carrier⟩

/-- What the result slot of a carrier holds when the patches are asked. -/
def resultDefault (method : Method) : Value :=
  if method.returnsValue then Value.defaultFor method.ret else .null

/-- What the hub answers when the patches did. -/
def Ending.ofAnswer : Except Interrupt Bool → Ending
  | .ok replaced => .returned (.bool replaced)
  | .error i => .interrupted i

theorem consultPatches_asked (read : HubQuery.ofArgs args = .ok query)
    (known : w.host.domain.method? query.token = some method)
    (fits : w.host.heap.size query.carrier = method.params.length + 1) :
    consultPatches ctx args w =
      let (answer, w) := World.holding args.toList (ctx.dispatch (query.request method))
        { w with host :=
          (w.host.setSlot query.carrier method.params.length (resultDefault method)).2 }
      (.ofAnswer answer, w) := by
  unfold consultPatches
  rw [read]
  refine (World.bind_apply _ _ _).trans ?_
  simp only [World.get_apply, known]
  change (if w.host.heap.size query.carrier ≠ method.params.length + 1 then _
    else (_ : StateM (World ε) Ending)) w = _
  rw [if_neg (not_not_intro fits)]
  have answered : ∀ r : Except Interrupt Bool × World ε,
      (match r.1 with
        | .ok replaced => (pure (.returned (.bool replaced)) : StateM (World ε) Ending)
        | .error i => pure (.interrupted i)) r.2 = (.ofAnswer r.1, r.2) := by
    intro r
    obtain ⟨answer, after⟩ := r
    cases answer <;> rfl
  exact answered (World.holding args.toList (ctx.dispatch (query.request method))
    { w with host := (w.host.setSlot query.carrier method.params.length (resultDefault method)).2 })

end

/-! ## Running a body -/

section

variable {call : Method → Option ObjectRef → Array Value → StateM (World ε) Completion}
  {limit : Nat} {method : Method} {body : Body} {this : Option ObjectRef} {remaining : Nat}
  {a : Activation} {w : World ε}

/-- One instruction of a body at work. -/
def perform (method : Method) (this : Option ObjectRef) (a : Activation) (instr : Instr)
    (w : World ε) : Except HostException Step × World ε :=
  World.onHost (({ a with pc := a.pc + 1 } : Activation).step method.returnsValue this instr) w

/-- What is held while an activation waits for a call. -/
def waiting (this : Option ObjectRef) (a : Activation) : List Value :=
  a.held ++ (this.map Value.object).toList

theorem runBody_end (none : body.code[a.pc]? = none) :
    runBody call limit method body this remaining a w =
      (⟨.threw (.ranOffEnd method.signature), a.args⟩, w) := by
  unfold runBody
  rw [none]

theorem runBody_zero {instr : Instr} (found : body.code[a.pc]? = some instr) :
    runBody call limit method body this 0 a w =
      (⟨.threw (.stepLimit limit method.signature), a.args⟩, w) := by
  unfold runBody
  rw [found]

/-- What happens with the outcome of an instruction. -/
theorem runBody_succ {instr : Instr} (found : body.code[a.pc]? = some instr) :
    runBody call limit method body this (remaining + 1) a w =
      match perform method this a instr w with
      | (.error e, w) => (⟨.threw e, a.args⟩, w)
      | (.ok (.done v), w) => (⟨.returned v, a.args⟩, w)
      | (.ok (.next b), w) => runBody call limit method body this remaining b w
      | (.ok (.call callee receiver args keepsValue b), w) =>
        match World.holding (waiting this b) (call callee receiver args) w with
        | (⟨.returned v, _⟩, w) =>
          runBody call limit method body this remaining (if keepsValue then b.push v else b) w
        | (⟨ending, _⟩, w) => (⟨ending, b.args⟩, w) := by
  rw [runBody, found]
  rfl

/-- An instruction that is followed by another. -/
theorem runBody_next {instr : Instr} {b : Activation} {after : World ε}
    (found : body.code[a.pc]? = some instr)
    (performed : perform method this a instr w = (.ok (.next b), after)) :
    runBody call limit method body this (remaining + 1) a w =
      runBody call limit method body this remaining b after := by
  rw [runBody_succ found, performed]

end

end ScriptHost.Host

import ScriptHost.Host.Machine
/-!
Calling methods. Bodies of instructions run on the stack machine within a budget of steps; each call
that they make has the same budget of its own.
-/
namespace ScriptHost.Host

/-- Why a run gives neither a value nor an exception. -/
inductive Interrupt
  /-- A method broke off with a message. -/
  | panicked (message : String)
  /-- Calls are nested deeper than the run allows for. -/
  | exhausted
  deriving DecidableEq, Repr

/-- How a call ends. -/
inductive Ending
  | returned (v : Value)
  | threw (e : HostException)
  | interrupted (i : Interrupt)
  deriving DecidableEq

/-- How a call ends, and what its arguments hold then. -/
structure Completion where
  ending : Ending
  args : Array Value

/-- A method that is about to run and may be patched. Arguments and result travel in the carrier. -/
structure PatchRequest where
  signature : String
  method : Method
  target : Option ObjectRef
  carrier : ObjectRef

/-- The slot of the carrier that holds the result. -/
def PatchRequest.returnSlot (r : PatchRequest) : Nat :=
  r.method.params.length

/-- What a call depends on apart from the state: its budget of steps, and the patches. -/
structure Context (ε : Type) where
  stepLimit : Nat
  /-- Whether a patch took the place of a method. -/
  dispatch : PatchRequest → StateM (World ε) (Except Interrupt Bool)

/-- The budget of steps that calls have unless told otherwise. -/
def defaultStepLimit : Nat := 1000000

/-- How deep the calls of a run may be nested. -/
def callDepth : Nat := 100000

/-- A context without patches. -/
def Context.direct {ε : Type} (stepLimit : Nat) : Context ε where
  stepLimit := stepLimit
  dispatch := fun _ => pure (.ok false)

/-- A method of actions under way. -/
structure NativeFrame where
  args : Array Value
  result : Value

variable {ε : Type}

/-- The integer that an argument holds. -/
def NativeFrame.integer (f : NativeFrame) (index : Nat) : Except HostException Int64 :=
  match (f.args.getD index .null).asInt64? with
  | some i => .ok i
  | none => .error (.argumentNotInteger index)

/-- The frame with another value in an argument that it has. -/
def NativeFrame.setArg (f : NativeFrame) (index : Nat) (v : Value) :
    Except HostException NativeFrame :=
  if index < f.args.size then .ok { f with args := f.args.setIfInBounds index v }
  else .error (.noArgument index)

/-- The receiver of a method that has to have one. -/
def requireThis (method : Method) (this : Option ObjectRef) : Except HostException ObjectRef :=
  match this with
  | some ref => .ok ref
  | none => .error (.instanceRequired method.name)

/-- Carries out an action that neither breaks off nor reports. -/
def NativeAction.perform (method : Method) (this : Option ObjectRef) (f : NativeFrame) :
    NativeAction → HostM NativeFrame
  | .ret v => pure { f with result := v.toValue }
  | .retArg i => pure { f with result := f.args.getD i .null }
  | .retInteger i => do pure { f with result := .int (← f.integer i) }
  | .retSum i j => do
    let a ← f.integer i
    let b ← f.integer j
    pure { f with result := .int (a + b) }
  | .retThis => do pure { f with result := .object (← requireThis method this) }
  | .setArg i v => f.setArg i v.toValue
  | .copyArg source target => f.setArg target (f.args.getD source .null)
  | .getField slot => do
    let ref ← requireThis method this
    pure { f with result := ((← get).heap.get? ref slot).getD .null }
  | .setField slot v => do
    let ref ← requireThis method this
    discard (modifyGet (·.setSlot ref slot v.toValue))
    pure f
  | .setFieldFromArg slot i => do
    let ref ← requireThis method this
    discard (modifyGet (·.setSlot ref slot (f.args.getD i .null)))
    pure f
  | .setArgField i slot v => do
    match (f.args.getD i .null).asObject? with
    | some ref => discard (modifyGet (·.setSlot ref slot v.toValue))
    | none => pure ()
    pure f
  | .raise kind message => throw (.raised kind message)
  | .panic _ | .trace _ => pure f

/-- Carries out the actions of a method in order. -/
def runNative (method : Method) (this : Option ObjectRef) :
    List NativeAction → NativeFrame → StateM (World ε) Completion
  | [], f => pure ⟨.returned f.result, f.args⟩
  | .panic message :: _, f => pure ⟨.interrupted (.panicked message), f.args⟩
  | .trace text :: rest, f => do
    World.report (.native text method.signature)
    runNative method this rest f
  | action :: rest, f => do
    match ← World.onHost (action.perform method this f) with
    | .ok f => runNative method this rest f
    | .error e => pure ⟨.threw e, f.args⟩

/-- Runs a body from an activation on, with `call` for the calls that it makes. -/
def runBody (call : Method → Option ObjectRef → Array Value → StateM (World ε) Completion)
    (limit : Nat) (method : Method) (body : Body) (this : Option ObjectRef) :
    (remaining : Nat) → Activation → World ε → Completion × World ε
  | remaining, a, w =>
    match body.code[a.pc]? with
    | none => (⟨.threw (.ranOffEnd method.signature), a.args⟩, w)
    | some instr =>
      match remaining with
      | 0 => (⟨.threw (.stepLimit limit method.signature), a.args⟩, w)
      | remaining + 1 =>
        let next := { a with pc := a.pc + 1 }
        match World.onHost (Activation.step method.returnsValue this next instr) w with
        | (.error e, w) => (⟨.threw e, a.args⟩, w)
        | (.ok (.done v), w) => (⟨.returned v, a.args⟩, w)
        | (.ok (.next a), w) => runBody call limit method body this remaining a w
        | (.ok (.call callee receiver args keepsValue a), w) =>
          let held := a.held ++ (this.map Value.object).toList
          match World.holding held (call callee receiver args) w with
          | (⟨.returned v, _⟩, w) =>
            runBody call limit method body this remaining (if keepsValue then a.push v else a) w
          | (⟨ending, _⟩, w) => (⟨ending, a.args⟩, w)

/-- What the patch hub is asked, read from its arguments. -/
structure HubQuery where
  signature : String
  token : MethodToken
  target : Option ObjectRef
  carrier : ObjectRef

/-- Reads the arguments of the patch hub. -/
def HubQuery.ofArgs (args : Array Value) : Except HostException HubQuery :=
  match args.toList with
  | [signature, token, target, carrier] => do
    let signature ← (signature.asBytes?.elim (throw .hubSignature) pure)
    let token ← match token.asNat? with
      | some t => if t < 0x100000000 then pure t else throw .hubToken
      | none => throw .hubToken
    let carrier ← carrier.asObject?.elim (throw .hubCarrier) pure
    pure ⟨Text.shown signature, ⟨.ofNat token⟩, target.asObject?, carrier⟩
  | _ => throw .hubArity

/-- Asks the patches about a method. A method that the domain does not know is not patched. The
result slot of the carrier starts with the default of the declared result. -/
def consultPatches (ctx : Context ε) (args : Array Value) : StateM (World ε) Ending := do
  match HubQuery.ofArgs args with
  | .error e => pure (.threw e)
  | .ok query =>
    match (← get).host.domain.method? query.token with
    | none =>
      World.report (.log .warn
        ("patch hub: no method for token " ++ query.token.text ++ s!" ({query.signature})"))
      pure (.returned (.bool false))
    | some method =>
      let found := (← get).host.heap.size query.carrier
      let expected := method.params.length + 1
      if found ≠ expected then
        pure (.threw (.hubCarrierSize query.signature found expected))
      else
        let default := if method.returnsValue then Value.defaultFor method.ret else .null
        let _ ← World.onHost (modifyGet (·.setSlot query.carrier method.params.length default))
        let request : PatchRequest := ⟨query.signature, method, query.target, query.carrier⟩
        match ← World.holding args.toList (ctx.dispatch request) with
        | .ok overridden => pure (.returned (.bool overridden))
        | .error i => pure (.interrupted i)

/-- The object that a method runs on: a new one, the given one, or none. -/
def receiver (method : Method) (this : Option ObjectRef) : HostM (Option ObjectRef) := do
  match method.kind with
  | .constructor => do
    let ref ← fun s => pure (s.instantiate method.declaring)
    pure (some ref)
  | .ofInstance =>
    match this with
    | some ref => pure (some ref)
    | none => throw (.missingInstance method.signature)
  | .static => pure none

/-- Calls a method. At most `depth` calls may be nested. -/
def invoke (ctx : Context ε) : (depth : Nat) → Method → (this : Option ObjectRef) →
    (args : Array Value) → StateM (World ε) Completion
  | 0, _, _, args => pure ⟨.interrupted .exhausted, args⟩
  | depth + 1, method, this, args => do
    if args.size ≠ method.params.length then
      return ⟨.threw (.argumentCount method.signature method.params.length args.size), args⟩
    match ← World.onHost (receiver method this) with
    | .error e => return ⟨.threw e, args⟩
    | .ok this =>
      let completion ← match method.body with
        | .native actions => runNative method this actions ⟨args, .null⟩
        | .code body =>
          runBody (invoke ctx depth) ctx.stepLimit method body this ctx.stepLimit
            (Activation.start body args)
        | .patchHub => do pure ⟨← consultPatches ctx args, args⟩
        | .absent => pure ⟨.threw (.noBody method.signature), args⟩
      match completion.ending, method.kind, this with
      | .returned _, .constructor, some ref =>
        return { completion with ending := .returned (.object ref) }
      | _, _, _ => return completion

end ScriptHost.Host

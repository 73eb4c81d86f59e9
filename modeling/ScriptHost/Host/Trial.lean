import ScriptHost.Host.Describe
import ScriptHost.Host.Invoke
/-!
Trying out a single body in a host of its own.
-/
namespace ScriptHost.Host

/-- An array for a trial. -/
structure TrialArray where
  name : String
  element : ValueType
  values : List ValueTerm

/-- A body with everything that it runs on. -/
structure Trial where
  types : List TypeDecl
  /-- The type of the receiver. -/
  this : Option String
  arrays : List TrialArray
  kind : MethodKind
  params : List Param
  ret : ValueType
  body : Body
  args : List ValueTerm
  stepLimit : Nat

/-- Why a trial does not start. -/
inductive TrialError
  | domain (e : DomainError)
  | exception (e : HostException)
  /-- A name stands for nothing. -/
  | unknownName

/-- How a trial went: the check of the body, its run, and the host afterwards. -/
structure TrialReport where
  verdict : Except VerifyError Unit
  outcome : Except Failure HostView
  args : List HostView
  this : Option (List HostView)
  journal : Journal

/-- How a call ends as an answer. -/
def Ending.outcome : Ending → Except Failure Value
  | .returned v => .ok v
  | .threw e => .error e.failure
  | .interrupted (.panicked message) => .error (panicFailure message)
  | .interrupted .exhausted => .error (panicFailure "calls nested too deeply")

/-- What calling the method of a token does to the stack. -/
def Domain.callEffect? (d : Domain) (token : MethodToken) : Option CallEffect :=
  (d.method? token).map fun m =>
    ⟨m.params.length, m.kind == .ofInstance, m.returnsValue, m.kind == .constructor⟩

namespace Trial

/-- Defines the types. -/
def defineTypes : List TypeDecl → State → Except TrialError State
  | [], s => .ok s
  | decl :: rest, s =>
    match s.define decl with
    | (.ok _, s) => defineTypes rest s
    | (.error e, _) => .error (.domain e)

/-- Makes the receiver. -/
def makeThis (name : Option String) (s : State) : Except TrialError (ObjectNames × State) :=
  match name with
  | none => .ok ([], s)
  | some name =>
    match s.domain.lookup name with
    | none => .error .unknownName
    | some id =>
      match s.instantiate id with
      | (.ok ref, s) => .ok ([("this", ref)], s)
      | (.error e, _) => .error (.exception e)

/-- Makes the arrays. -/
def makeArrays : List TrialArray → ObjectNames → State → Except TrialError (ObjectNames × State)
  | [], names, s => .ok (names, s)
  | a :: rest, names, s =>
    match a.values.mapM (ValueTerm.eval? names) with
    | none => .error .unknownName
    | some values =>
      let (ref, s) := s.newArray a.element values.toArray
      makeArrays rest (names.bind a.name ref) s

/-- Runs a trial. The body runs whatever its check says. -/
def run (t : Trial) : Except TrialError TrialReport := do
  let s ← defineTypes t.types {}
  let (names, s) ← makeThis t.this s
  let (names, s) ← makeArrays t.arrays names s
  let args : List Value ← (t.args.mapM (ValueTerm.eval? names)).elim (throw .unknownName) pure
  let method : Method := ⟨⟨0⟩, rootId, "Test", "Run", t.kind, t.params, t.ret, .code t.body⟩
  let this := names.find? "this"
  let ctx : Context Unit := .direct t.stepLimit
  let (completion, w) := runBody (invoke ctx callDepth) t.stepLimit method t.body this t.stepLimit
    (Activation.start t.body args.toArray) (World.alone s)
  let shown := Value.view w.host.domain names
  pure {
    verdict := verify t.body method.shape s.domain.callEffect?
    outcome := completion.ending.outcome.map shown
    args := completion.args.toList.map shown
    this := this.map fun ref => (w.host.heap.slots ref).toList.map shown
    journal := w.journal }

end Trial

end ScriptHost.Host

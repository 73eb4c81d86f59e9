import ScriptHost.Engine.State
/-!
Calling script functions. A call takes the callee and its arguments off the stack and leaves the
results; a protected one also stops what breaks off. What runs a single function is a parameter, so
that calls can be described without the functions that they reach.
-/
namespace ScriptHost.Run

open Script (BehaviourPart FunctionRef Value)

/-- Runs the body of a function in a frame of its own and answers how many results it left. -/
abbrev Runner := FunctionRef → Run Script.Error Nat

variable {ε : Type}

/-- Fails here with a message. -/
def failHere {α : Type} (message : String) : Run Script.Error α := do
  fail ((← script).error message)

/-- Takes the values from a position on off the stack and lets them go. -/
def cutStack (pos : Nat) (inUse : List Value := []) : Run ε Unit := do
  let gone ← onScript (·.takeFrom pos)
  discard inUse gone

/-- Takes values off the stack until `depth` are left, but none of an outer frame. -/
def truncate (depth : Nat) : Run ε Unit := do
  let s ← script
  cutStack (max depth s.base)

/-- Pushes a value. -/
def push (v : Value) : Run ε Unit :=
  modifyScript (·.push v)

/-- Runs a computation and restores the depth of the stack at its end, whatever the end. -/
def guarded {α : Type} (m : Run ε α) : Run ε α := do
  let depth := (← script).stack.size
  let result ← outcome (δ := ε) m
  truncate depth
  ofResult result
where
  ofResult : Except (Stop ε) α → Run ε α
    | .ok a => pure a
    | .error stop => throw stop

/-- Makes a list as long as wanted, with nil for what is missing. A negative length wants all. -/
def adjust (values : List Value) (wanted : Int) : List Value :=
  if wanted < 0 then values
  else values.take wanted.toNat ++ List.replicate (wanted.toNat - values.length) .nil

/-- Puts the last `count` values of the frame of a finished function in place of the callee. -/
def finish (pos count : Nat) (wanted : Int) : Run ε Unit := do
  let s ← script
  let count := min count (s.stack.size - (pos + 1))
  let results ← onScript (·.takeFrom (s.stack.size - count))
  cutStack pos results
  let kept := adjust results wanted
  discard kept (results.drop kept.length)
  modifyScript (·.pushAll kept)

/-- Runs a function on the arguments above its position. -/
def enter (run : Runner) (pos : Nat) (f : FunctionRef) (wanted : Int) : Run Script.Error Unit := do
  let s ← script
  if s.maxDepth ≤ s.frames.length || s.maxStack ≤ s.stack.size then
    cutStack pos
    failHere "stack overflow"
  else
    modifyScript (·.enter ⟨pos + 1, f.name⟩)
    match ← outcome (run f) with
    | .ok count =>
      finish pos count wanted
      modifyScript (·.leave)
    | .error (.failed e) =>
      let e := e.withTraceback (← script).traceback
      cutStack pos
      modifyScript (·.leave)
      fail e
    | .error stop => throw stop

/-- Calls the value below `arguments` others on the stack. A wrapper is called through its
behaviour, which gets the wrapper as its first argument. -/
def call (run : Runner) (arguments : Nat) (wanted : Int) : Run Script.Error Unit := do
  let s ← script
  if s.top < arguments + 1 then
    failHere "attempt to call with too few values on the stack"
  else
    let pos := s.stack.size - arguments - 1
    let callee := s.stack.getD pos .nil
    let refuse : Run Script.Error Unit := do
      cutStack pos
      failHere ("attempt to call a " ++ callee.tag.name ++ " value")
    holding [callee] (fun _ => []) do
      match callee with
      | .function f => enter run pos f wanted
      | .handle _ =>
        match s.part? callee .call with
        | some f =>
          modifyScript (·.insertAt pos (.function f))
          enter run pos f wanted
        | none => refuse
      | _ => refuse

/-- Calls like `call`. What breaks off becomes an error, and the frames that it left are left. -/
def protectedCall (run : Runner) (arguments : Nat) (wanted : Int) : Run Script.Error Unit := do
  let s ← script
  match ← outcome (call run arguments wanted) with
  | .ok () => pure ()
  | .error (.panicked message) =>
    let e := (← script).error message
    modifyScript (·.leaveTo s.frames.length)
    cutStack (s.stack.size - (arguments + 1))
    fail e
  | .error stop => throw stop

/-- Calls a function and takes its results off the stack. -/
def callFunction (run : Runner) (f : FunctionRef) (arguments : List Value) (wanted : Int) :
    Run Script.Error (List Value) := do
  let depth := (← script).stack.size
  modifyScript (·.pushAll (.function f :: arguments))
  call run arguments.length wanted
  onScript (·.takeFrom depth)

/-- Calls a value, protected, and takes all of its results off the stack. -/
def callValue (run : Runner) (callee : Value) (arguments : List Value) :
    Run Script.Error (List Value) := do
  let depth := (← script).stack.size
  modifyScript (·.pushAll (callee :: arguments))
  protectedCall run arguments.length (-1)
  onScript (·.takeFrom depth)

/-- The function with which a value takes part in indexing. -/
def handler (target : Value) (part : BehaviourPart) : Run Script.Error FunctionRef := do
  match (← script).part? target part with
  | some f => pure f
  | none => failHere ("attempt to index a " ++ target.tag.name ++ " value")

/-- Reads a member of a value. -/
def index (run : Runner) (target key : Value) : Run Script.Error Value := do
  let f ← handler target .index
  let arguments := [target, key]
  let results ← holding arguments id (callFunction run f arguments 1)
  return results.getLastD .nil

/-- Writes a member of a value. -/
def setIndex (run : Runner) (target key v : Value) : Run Script.Error Unit := do
  let f ← handler target .newindex
  let arguments := [target, key, v]
  let _ ← holding arguments id (callFunction run f arguments 0)

/-- Calls the member of a value with the value as the first argument. -/
def callMethod (run : Runner) (target : Value) (name : String) (arguments : List Value) :
    Run Script.Error (List Value) := do
  let f ← index run target (.text name)
  holding [f] id do
    let full := target :: arguments
    holding full id (callValue run f full)

/-- The text of a value for a reader. -/
def display (run : Runner) (v : Value) : Run Script.Error String := do
  match (← script).part? v .tostring with
  | none => return v.shown
  | some f =>
    let results ← holding [v] id (callFunction run f [v] 1)
    match results.getLastD .nil with
    | .string bytes => return Text.shown bytes
    | _ => do
      discard [] results
      failHere "'__tostring' must return a string"

/-- Finalizes what a wrapper left behind, if its behaviour says how. An error is logged. -/
def finalize (run : Runner) (r : Script.Remains) : Run Script.Error Unit := do
  let s ← script
  match s.behaviours[r.behaviour]?.bind (·.gc) with
  | none => pure ()
  | some f =>
    match ← outcome (callFunction run f [.pointer r.slot] 0) with
    | .ok _ => pure ()
    | .error (.failed e) => do
      note (.refused r.slot)
      report (.log .error
        ("finalizer for slot 0x" ++ Text.hexDigits r.slot.toNat ++ " failed: " ++ e.message))
    | .error stop => throw stop
    cutStack s.stack.size

/-- Finalizes everything that waits, also what comes to wait meanwhile, and answers how much it was.
Each round takes what waits at its start. -/
def collect (run : Runner) : (rounds : Nat) → (finalized : Nat) → Run Script.Error Nat
  | 0, _ => throw .exhausted
  | rounds + 1, finalized => do
    let waiting := (← script).graveyard
    if waiting.isEmpty then return finalized
    else
      modifyScript ({ · with graveyard := #[] })
      waiting.forM (finalize run)
      collect run rounds (finalized + waiting.size)

end ScriptHost.Run

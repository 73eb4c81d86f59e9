import ScriptHost.Script.Error
import ScriptHost.Script.Value
/-!
The state in which scripts run: a stack shared by all active functions, the frames of those, the
global values, the behaviours of wrappers, and the wrappers that wait to be finalized.
-/
namespace ScriptHost.Script

/-- What scripts may do with the wrappers of a kind: each part is a function that is called. -/
structure Behaviour where
  name : String
  index : Option FunctionRef := none
  newindex : Option FunctionRef := none
  call : Option FunctionRef := none
  tostring : Option FunctionRef := none
  gc : Option FunctionRef := none

namespace Behaviour

/-- A part of a behaviour. -/
def part (b : Behaviour) : BehaviourPart → Option FunctionRef
  | .index => b.index
  | .newindex => b.newindex
  | .call => b.call
  | .tostring => b.tostring
  | .gc => b.gc

/-- The behaviour with another part. -/
def setPart (b : Behaviour) (f : FunctionRef) : BehaviourPart → Behaviour
  | .index => { b with index := some f }
  | .newindex => { b with newindex := some f }
  | .call => { b with call := some f }
  | .tostring => { b with tostring := some f }
  | .gc => { b with gc := some f }

end Behaviour

/-- An active function: its name, and where its values start on the stack. -/
structure Frame where
  base : Nat
  name : String
  deriving DecidableEq, Repr

/-- A wrapper that nothing refers to any more. -/
structure Remains where
  behaviour : Nat
  slot : UInt64
  deriving DecidableEq, Repr

/-- The state in which scripts run. -/
structure State where
  /-- The values of all frames, outermost first. -/
  stack : Array Value := #[]
  /-- The active functions, innermost first. -/
  frames : List Frame := []
  globals : Table String Value := {}
  behaviours : Array Behaviour := #[]
  /-- What waits to be finalized, oldest first. -/
  graveyard : Array Remains := #[]
  prototypes : Table String Block := {}
  maxStack : Nat
  maxDepth : Nat
  /-- The number of the next wrapper or function. -/
  nextId : Nat := 0

namespace State

/-- Where the values of the current frame start. -/
def base (s : State) : Nat :=
  (s.frames.head?.map (·.base)).getD 0

/-- How many values the current frame has. -/
def top (s : State) : Nat :=
  s.stack.size - s.base

/-- The position on the stack that an index of the current frame means, if the frame reaches it. -/
def position? (s : State) (index : Int) : Option Nat :=
  if 0 < index then
    let pos := s.base + index.toNat - 1
    if pos < s.stack.size then some pos else none
  else if index < 0 then
    if index.natAbs ≤ s.stack.size - s.base then some (s.stack.size - index.natAbs) else none
  else none

/-- The value at an index of the current frame. -/
def valueAt? (s : State) (index : Int) : Option Value :=
  (s.position? index).bind (s.stack[·]?)

/-- The value at an index of the current frame, or nil. -/
def valueAt (s : State) (index : Int) : Value :=
  (s.valueAt? index).getD .nil

/-- The values of the current frame. -/
def frameValues (s : State) : List Value :=
  (s.stack.extract s.base).toList

/-- The active functions as text, innermost first. -/
def traceback (s : State) : String :=
  "stack traceback:" ++
    String.join (s.frames.map fun f => "\n\t[native]: in function '" ++ f.name ++ "'")

/-- An error that arises here. -/
def error (s : State) (message : String) : Error :=
  ⟨message, s.traceback⟩

/-- The part of the behaviour of a value. -/
def part? (s : State) (v : Value) (p : BehaviourPart) : Option FunctionRef := do
  let w ← v.wrapper?
  let b ← s.behaviours[w.behaviour]?
  b.part p

/-- The state with more values on the stack. -/
def pushAll (s : State) (values : List Value) : State :=
  { s with stack := s.stack ++ values.toArray }

/-- The state with one more value on the stack. -/
def push (s : State) (v : Value) : State :=
  { s with stack := s.stack.push v }

/-- Takes the values from a position on off the stack. -/
def takeFrom (s : State) (pos : Nat) : List Value × State :=
  ((s.stack.extract pos).toList, { s with stack := s.stack.take pos })

/-- The state with one more value at a position of the stack. -/
def insertAt (s : State) (pos : Nat) (v : Value) : State :=
  let (above, s) := s.takeFrom pos
  (s.push v).pushAll above

/-- Enters a function. -/
def enter (s : State) (f : Frame) : State :=
  { s with frames := f :: s.frames }

/-- Leaves the current function. -/
def leave (s : State) : State :=
  { s with frames := s.frames.tail }

/-- Leaves functions until `count` are active. -/
def leaveTo (s : State) (count : Nat) : State :=
  { s with frames := s.frames.drop (s.frames.length - count) }

/-- Makes a function. -/
def newFunction (s : State) (name : String) (proto : Option String) (body : FunctionBody) :
    FunctionRef × State :=
  (⟨s.nextId, name, proto, body⟩, { s with nextId := s.nextId + 1 })

/-- Makes a wrapper. -/
def newWrapper (s : State) (slot : UInt64) (behaviour : Nat) : Value × State :=
  (.handle ⟨s.nextId, slot, behaviour⟩, { s with nextId := s.nextId + 1 })

/-- Adds a behaviour and answers its key. -/
def addBehaviour (s : State) (b : Behaviour) : Nat × State :=
  (s.behaviours.size, { s with behaviours := s.behaviours.push b })

/-- A function of a prototype. -/
def loadPrototype (s : State) (name : String) : Except Error FunctionRef × State :=
  match s.prototypes.find? name with
  | some body =>
    let (f, s) := s.newFunction name (some name) (.block body)
    (.ok f, s)
  | none => (.error ⟨"unknown prototype '" ++ name ++ "'", ""⟩, s)

/-- The state in diagnostics. -/
def diagnostic (s : State) : String :=
  s!"ScriptState \x7b depth: {s.stack.size}, frames: {s.frames.length}, " ++
    s!"globals: {s.globals.size}, metatables: {s.behaviours.size} \x7d"

end State

/-- A value as an answer shows it. -/
def Value.view (s : State) : Value → ScriptView
  | .nil => .nil
  | .bool b => .bool b
  | .number x => .number x
  | .string bytes => .bytes bytes
  | .pointer address => .pointer address
  | .handle w => .handle w.slot (s.behaviours[w.behaviour]?.map (·.name))
  | .function f => .function f.name f.proto

/-- A value in an answer. -/
def Value.report (s : State) (v : Value) : Report :=
  .script (v.view s)

end ScriptHost.Script

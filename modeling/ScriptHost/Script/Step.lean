import ScriptHost.Bridge.MethodKey
import ScriptHost.Host.Describe
/-!
The language of script functions. A body is a list of steps; a step is an action together with the
variables that take its results. Bodies nest in actions that choose, repeat, guard and define.
-/
namespace ScriptHost.Script

open Host
open Bridge (CallShape)

/-- How a step writes a script value. -/
inductive Term
  | nil
  | bool (b : Bool)
  | number (x : Float)
  | bytes (b : ByteArray)
  | pointer (address : UInt64)
  | var (name : String)
  /-- A position in the current frame, from its start if positive and from its end if negative. -/
  | argument (index : Int)
  | global (name : String)

/-- How a step writes a handle. -/
inductive HandleTerm
  | word (raw : UInt64)
  | value (t : Term)

/-- How a step writes a type of the domain. -/
inductive TypeTerm
  | named (name : String)
  | id (index : Nat)

/-- The parts of a behaviour. -/
inductive BehaviourPart
  | index
  | newindex
  | call
  | tostring
  | gc
  deriving DecidableEq, Repr

/-- Actions on values, variables and the stack. -/
inductive StackAction
  | bind (v : Term)
  | forget (name : String)
  | same (a b : Term)
  | debug (v : Term)
  | inspect (v : Term)
  | push (v : Term)
  | pop (count : Nat)
  | popValue
  | setTop (count : Nat)
  | truncate (depth : Nat)
  | top
  | valueAt (index : Int)
  | kindAt (index : Int)
  | frame
  | checkString (index : Int)
  | setGlobal (name : String) (v : Term)
  | getGlobal (name : String)
  | call (arguments : Nat) (results : Int)
  | protectedCall (arguments : Nat) (results : Int)
  | callFunction (f : Term) (arguments : List Term) (results : Int)
  | callValue (f : Term) (arguments : List Term)
  | method (target : Term) (name : String) (arguments : List Term)
  | index (target key : Term)
  | setIndex (target key v : Term)
  | display (v : Term)
  | traceback
  | error (message : String)
  | raise (message : String)
  | panic (message : String)
  | pendingFinalizers
  | collect
  | behaviour (name : String) (parts : List (BehaviourPart × Term))
  | behaviourPart (key : Nat) (part : BehaviourPart)
  | wrapper (slot : UInt64) (key : Nat)
  | loadPrototype (name : String)
  | dump (f : Term)
  | load (chunk : ByteArray) (name : String)
  | debugStack

/-- Actions on the domain and its objects. -/
inductive DomainAction
  | define (types : List TypeDecl)
  | loadImage (text : String) (inject : Bool)
  | lookup (name : String)
  | types
  | describe (type : TypeTerm)
  | describeToken (token : MethodToken)
  | reserve (count : Nat)
  | chain (type : TypeTerm)
  | subtype (sub sup : TypeTerm)
  | accepts (type : ValueType) (object : String)
  | arrayType (element : ValueType)
  | instantiate (type : TypeTerm) (name : String)
  | newArray (element : ValueType) (values : List ValueTerm) (name : String)
  | duplicate (object name : String)
  | slots (object : String)
  | setSlot (object : String) (slot : Nat) (v : ValueTerm)
  | forget (object : String)
  | static (type : TypeTerm) (slot : Nat)
  | setStatic (type : TypeTerm) (slot : Nat) (v : ValueTerm)
  /-- Calls a method of a type from the host, with or without the patches. -/
  | call (type : TypeTerm) (method : String) (overload : Nat) (this : Option String)
      (arguments : List ValueTerm) (patched : Bool) (stepLimit : Nat) (name : Option String)
  | debug

/-- Actions on what joins scripts and host. -/
inductive BridgeAction
  | importType (name : String)
  | classValue (type : TypeTerm)
  | register (type : TypeTerm)
  | registration (type : TypeTerm)
  | wrap (object : String) (weak : Bool)
  | unwrap (h : HandleTerm) (name : Option String)
  | release (h : HandleTerm)
  | handles
  | call (h : HandleTerm) (member : String) (arguments : List Term)
  | resolve (type : TypeTerm) (member : String) (shape : CallShape) (tags : List Tag)
  | callMember (type : TypeTerm) (member : String) (shape : CallShape) (this : Option String)
      (arguments : List Term)
  | invoke (type : TypeTerm) (method : String) (overload : Nat) (this : Option String)
      (arguments : List Term)
  | marshal (type : TypeTerm) (method : String) (overload : Nat) (arguments : List Term)
  | methodWrapper (type : TypeTerm) (member : String)
  | cache
  | clearCache
  | getMember (object : String) (key : Term)
  | setMember (object : String) (key v : Term)
  | toHost (v : Term) (type : ValueType) (mode : ParamMode) (name : Option String)
  | toScript (v : ValueTerm)
  | toScriptWeak (object : String)
  | patch (signature : String) (f : Term)
  | unpatch (signature : String)
  | findPatch (signature : String)
  | patched
  | debug

/-- An action with the variables that take its results. -/
structure Step (α : Type) where
  action : α
  names : List String := []
  /-- A quiet step gives no answer of its own. -/
  quiet : Bool := false
  /-- Whether the body goes on when the step fails. -/
  attempt : Bool := false

/-- What a step does. -/
inductive Action
  | choose (condition : Term) (yes no : List (Step Action))
  | loop (count : Nat) (body : List (Step Action))
  /-- Runs a body and restores the depth of the stack. -/
  | guarded (body : List (Step Action))
  /-- Ends the function: pushes values and gives `count` results. -/
  | ret (values : List Term) (count : Nat)
  | define (name : String) (body : List (Step Action)) (binding : String)
  | register (name : String) (body : List (Step Action))
  | prototype (name : String) (body : List (Step Action))
  /-- Puts a body into the queue of tasks. -/
  | post (body : List (Step Action))
  | stack (a : StackAction)
  | domain (a : DomainAction)
  | bridge (a : BridgeAction)

/-- The body of a script function. -/
abbrev Block := List (Step Action)

end ScriptHost.Script

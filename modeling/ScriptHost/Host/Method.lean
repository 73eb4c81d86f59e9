import ScriptHost.Host.Code
import ScriptHost.Host.Verify
/-!
Methods, fields and types as a domain keeps them.
-/
namespace ScriptHost.Host

/-- One action of a method that is not made of instructions. Arguments are named by position. -/
inductive NativeAction
  | ret (v : Literal)
  | retArg (index : Nat)
  | retInteger (index : Nat)
  /-- The wrapping sum of two integer arguments. -/
  | retSum (first second : Nat)
  | retThis
  | setArg (index : Nat) (v : Literal)
  | copyArg (source target : Nat)
  | getField (slot : Nat)
  | setField (slot : Nat) (v : Literal)
  | setFieldFromArg (slot : Nat) (index : Nat)
  /-- Stores into a slot of an argument that is an object. -/
  | setArgField (index slot : Nat) (v : Literal)
  | raise (kind message : String)
  | panic (message : String)
  | trace (message : String)
  deriving DecidableEq

/-- What runs when a method is called. -/
inductive MethodBody
  | native (actions : List NativeAction)
  | code (body : Body)
  /-- Asks whether a patch takes the place of another method. -/
  | patchHub
  | absent
  deriving DecidableEq

/-- The body in diagnostics. -/
def MethodBody.diagnostic : MethodBody → String
  | .native _ => "Native"
  | .code body => s!"Il({body.code.size} instrs)"
  | .patchHub => "PatchHub"
  | .absent => "Abstract"

/-- A method of a domain. -/
structure Method where
  token : MethodToken
  declaring : TypeId
  declaringName : String
  name : String
  kind : MethodKind
  params : List Param
  ret : ValueType
  body : MethodBody
  deriving DecidableEq

namespace Method

/-- The signature of a method. -/
def signature (m : Method) : String :=
  Host.signature m.declaringName m.name m.params

/-- How many arguments callers pass. -/
def inputArity (m : Method) : Nat :=
  m.params.countP (·.isInput)

/-- Whether a call gives a value. -/
def returnsValue (m : Method) : Bool :=
  m.kind != .constructor && m.ret != .void

/-- Whether the method runs on an object. -/
def hasThis (m : Method) : Bool :=
  m.kind != .static

/-- What the body of the method may use. -/
def shape (m : Method) : MethodShape :=
  ⟨m.hasThis, m.params.length, m.returnsValue⟩

end Method

/-- A field of a type. Its slot counts among the static or among the instance slots. -/
structure Field where
  name : String
  type : ValueType
  slot : Nat
  isStatic : Bool
  deriving DecidableEq, Repr

/-- A property of a type: accessor methods under one name. -/
structure Property where
  name : String
  type : ValueType
  isStatic : Bool
  getter : Option Method
  setter : Option Method
  deriving DecidableEq

/-- The property whose accessors take an index. -/
def indexerName : String := "Item"

/-- What a method accesses, if its name and parameters are those of an accessor. -/
structure Accessor where
  property : String
  isGetter : Bool
  type : ValueType
  deriving DecidableEq, Repr

/-- Reads an accessor off a method: a getter takes no argument, a setter the new value, and both of
an indexer an index before that. -/
def Accessor.of? (m : Method) : Option Accessor := do
  let (isGetter, name) ←
    if m.name.startsWith "get_" then some (true, (m.name.drop 4).toString)
    else if m.name.startsWith "set_" then some (false, (m.name.drop 4).toString)
    else none
  guard !name.isEmpty
  let indices := if name = indexerName then 1 else 0
  let expected := if isGetter then indices else indices + 1
  guard (m.params.length = expected)
  let type ← if isGetter then some m.ret else m.params.getLast?.map (·.type)
  pure ⟨name, isGetter, type⟩

/-- Puts an accessor into a property, unless the property has one of its kind already. -/
def Property.add (p : Property) (isGetter : Bool) (m : Method) : Property :=
  if isGetter then { p with getter := p.getter <|> some m }
  else { p with setter := p.setter <|> some m }

/-- Adds a method to the properties known so far, as a new property if none fits. -/
def addAccessor (properties : List Property) (m : Method) : List Property :=
  match Accessor.of? m with
  | none => properties
  | some a =>
    let isStatic := m.kind == .static
    match properties.findIdx? fun p => p.name == a.property && p.isStatic == isStatic with
    | some i => properties.modify i (·.add a.isGetter m)
    | none => properties ++ [(Property.mk a.property a.type isStatic none none).add a.isGetter m]

/-- The properties that methods make up, in order of their first accessors. -/
def deriveProperties (methods : List Method) : List Property :=
  methods.foldl addAccessor []

/-- A type of a domain. -/
structure TypeInfo where
  id : TypeId
  name : String
  base : Option TypeId
  kind : TypeKind
  /-- What an array holds. -/
  element : Option ValueType
  fields : List Field
  constructors : List Method
  methods : List Method
  /-- The types of the instance slots, those of the base first. -/
  layout : List ValueType
  deriving DecidableEq

namespace TypeInfo

/-- The properties that the type itself declares. -/
def properties (t : TypeInfo) : List Property :=
  deriveProperties t.methods

/-- The first field of a name. -/
def field? (t : TypeInfo) (name : String) : Option Field :=
  t.fields.find? (·.name == name)

/-- The first property of a name. -/
def property? (t : TypeInfo) (name : String) : Option Property :=
  t.properties.find? (·.name == name)

/-- The methods of a name, constructors apart. -/
def methodsNamed (t : TypeInfo) (name : String) : List Method :=
  t.methods.filter (·.name == name)

/-- Whether the type declares a method of a name. -/
def hasMethod (t : TypeInfo) (name : String) : Bool :=
  t.methods.any (·.name == name)

/-- The constructors and methods of the type. -/
def members (t : TypeInfo) : List Method :=
  t.constructors ++ t.methods

/-- Whether instances are copied when they are passed. -/
def isValueType (t : TypeInfo) : Bool :=
  t.kind == .struct

/-- Whether the type is an array. -/
def isArray (t : TypeInfo) : Bool :=
  t.kind == .array

end TypeInfo

end ScriptHost.Host

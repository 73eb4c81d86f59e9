import ScriptHost.Engine.Invoke
/-!
Members of objects and types as scripts see them: array elements, fields, properties, methods and
indexers, looked up from a type to its bases.
-/
namespace ScriptHost.Run

open Host (Method ObjectRef TypeId TypeInfo)
open Script (FunctionRef Value)

/-- The first of some values, or nil. The others go. -/
def firstOf (values : List Value) : Run Bridge.Error Value := do
  match values with
  | [] => return .nil
  | v :: rest =>
    discard [v] (rest.getLast?.toList ++ rest.dropLast)
    return v

/-- The function that calls a member of a type, made on first use. -/
def methodWrapper (type : TypeId) (member : String) : Run Bridge.Error FunctionRef := do
  match (← bridge).wrappers.find? (type, member) with
  | some f => return f
  | none =>
    let info ← typeInfo type
    let f ← onScript
      (·.newFunction (info.name ++ "." ++ member) none (.bridge (.member type member)))
    modifyBridge fun b => { b with wrappers := b.wrappers.insert (type, member) f }
    return f

/-- The position in an array that a number means. -/
def elementIndex (ref : ObjectRef) (x : Float) : Run Bridge.Error Nat := do
  let length := (← host).heap.size ref
  let outside := .host (.raised "IndexOutOfRangeException"
    ("index " ++ Number.plain.text x ++ s!" is outside the bounds of the array (length {length})"))
  match Number.wholeNumber? x with
  | some (.ofNat i) => if i < length then return i else fail outside
  | _ => fail outside

/-- Fails because a type has no member of the name that a key gives. -/
def noMember {α : Type} (type : TypeId) (key : Value) : Run Bridge.Error α := do
  let name := ((← domain).get? type).elim ("#" ++ toString type.index) (·.name)
  fail (.memberNotFound name key.keyText)

/-- What a static slot of a type holds. -/
def staticSlot (type : TypeId) (slot : Nat) : Run Bridge.Error Host.Value := do
  return ((← host).static? type slot).getD .null

/-- Stores into a static slot of a type. -/
def setStaticSlot (type : TypeId) (slot : Nat) (v : Host.Value) : Run Bridge.Error Unit :=
  onHost fun s => ((), s.setStatic type slot v)

/-- The receiver of an accessor, if it has one. -/
def accessorThis (m : Method) (ref : ObjectRef) : Option ObjectRef :=
  if m.hasThis then some ref else none

/-- Reads a property. -/
def readProperty (run : Runner) (getter : Method) (this : Option ObjectRef) (keys : List Value) :
    Run Bridge.Error Value := do
  firstOf (← invokeMethod run getter this keys)

/-- Writes a property. -/
def writeProperty (run : Runner) (setter : Method) (this : Option ObjectRef) (values : List Value) :
    Run Bridge.Error Unit := do
  discard [] (← invokeMethod run setter this values)

/-- A member that a script reads. -/
inductive Readable
  | field (f : Host.Field) (owner : TypeId)
  | property (getter : Method)
  | method

/-- What reading a name off an instance means at one type. -/
def readableAt (t : TypeInfo) (name : String) : Option Readable :=
  match t.field? name with
  | some f => some (.field f t.id)
  | none =>
    match (t.property? name).bind (·.getter) with
    | some getter => some (.property getter)
    | none => if t.hasMethod name then some .method else none

/-- What reading a name off a type means at that type or at one of its bases. -/
def staticReadableAt (t : TypeInfo) (name : String) : Option Readable :=
  match (t.field? name).filter (·.isStatic) with
  | some f => some (.field f t.id)
  | none =>
    match ((t.property? name).filter (·.isStatic)).bind (·.getter) with
    | some getter => some (.property getter)
    | none => if t.hasMethod name then some .method else none

/-- The indexer of a type. -/
def indexer? (t : TypeInfo) : Option Host.Property :=
  (t.property? Host.indexerName).filter (!·.isStatic)

/-- Reads a member of an object. -/
def getMember (run : Runner) (ref : ObjectRef) (key : Value) : Run Bridge.Error Value := do
  let info ← typeInfo ref.type
  match info.isArray, key with
  | true, .number x =>
    let i ← elementIndex ref x
    toScript (((← host).heap.get? ref i).getD .null)
  | _, _ =>
    let chain := (← domain).chain ref.type
    match key.text?.bind fun name => (chain.findSome? (readableAt · name)).map (name, ·) with
    | some (_, .field f owner) =>
      if f.isStatic then toScript (← staticSlot owner f.slot)
      else toScript (((← host).heap.get? ref f.slot).getD .null)
    | some (_, .property getter) => readProperty run getter (accessorThis getter ref) []
    | some (name, .method) => return .function (← methodWrapper ref.type name)
    | none =>
      match chain.findSome? fun t => (indexer? t).bind (·.getter) with
      | some getter => readProperty run getter (some ref) [key]
      | none => noMember ref.type key

/-- A member that a script writes. -/
inductive Writable
  | field (f : Host.Field) (owner : TypeId)
  | property (setter : Option Method) (owner : String)

/-- What writing a name of an instance means at one type. -/
def writableAt (t : TypeInfo) (name : String) : Option Writable :=
  match t.field? name with
  | some f => some (.field f t.id)
  | none => (t.property? name).map fun p => .property p.setter t.name

/-- What writing a name of a type means at that type or at one of its bases. -/
def staticWritableAt (t : TypeInfo) (name : String) : Option Writable :=
  match (t.field? name).filter (·.isStatic) with
  | some f => some (.field f t.id)
  | none =>
    (((t.property? name).filter (·.isStatic)).bind (·.setter)).map fun m =>
      .property (some m) t.name

/-- Writes a member of an object. -/
def setMember (run : Runner) (ref : ObjectRef) (key v : Value) : Run Bridge.Error Unit := do
  let info ← typeInfo ref.type
  match info.isArray, key with
  | true, .number x =>
    let i ← elementIndex ref x
    let stored ← toHost v (info.element.getD .object)
    let _ ← onHost (·.setSlot ref i stored)
  | _, _ =>
    let chain := (← domain).chain ref.type
    match key.text?.bind fun name => (chain.findSome? (writableAt · name)).map (name, ·) with
    | some (_, .field f owner) =>
      let stored ← toHost v f.type
      if f.isStatic then setStaticSlot owner f.slot stored
      else
        let _ ← onHost (·.setSlot ref f.slot stored)
    | some (_, .property (some setter) _) => writeProperty run setter (accessorThis setter ref) [v]
    | some (name, .property none owner) =>
      fail (.host (.raised "MemberAccessException" s!"property {owner}.{name} has no setter"))
    | none =>
      match chain.findSome? fun t => (indexer? t).bind (·.setter) with
      | some setter => writeProperty run setter (some ref) [key, v]
      | none => noMember ref.type key

/-- Reads a member of a type. -/
def getStatic (run : Runner) (type : TypeId) (key : Value) : Run Bridge.Error Value := do
  let chain := (← domain).chain type
  match key.text?.bind fun name => (chain.findSome? (staticReadableAt · name)).map (name, ·) with
  | some (_, .field f owner) => toScript (← staticSlot owner f.slot)
  | some (_, .property getter) => readProperty run getter none []
  | some (name, .method) => return .function (← methodWrapper type name)
  | none => noMember type key

/-- Writes a member of a type. -/
def setStatic (run : Runner) (type : TypeId) (key v : Value) : Run Bridge.Error Unit := do
  let chain := (← domain).chain type
  match key.text?.bind fun name => chain.findSome? (staticWritableAt · name) with
  | some (.field f owner) => setStaticSlot owner f.slot (← toHost v f.type)
  | some (.property (some setter) _) => writeProperty run setter none [v]
  | _ => noMember type key

/-- Calls a member from a script: on the first argument, if that is an instance of the type, else as
a static method. -/
def callWrapped (run : Runner) (type : TypeId) (member : String) (arguments : List Value) :
    Run Bridge.Error (List Value) := do
  let asStatic := resolveMethod type member .static (arguments.map (·.tag))
  match ← receiver? (arguments.headD .nil) with
  | some ref =>
    let rest := arguments.tail
    match ← outcome (resolveMethod ref.type member .ofInstance (rest.map (·.tag))) with
    | .ok m => invokeMethod run m (some ref) rest
    | .error (.failed e) =>
      match ← outcome asStatic with
      | .ok m => invokeMethod run m none arguments
      | .error (.failed _) => fail e
      | .error stop => throw stop
    | .error stop => throw stop
  | none => invokeMethod run (← asStatic) none arguments
where
  /-- The object of a value, if it is an instance of the type. -/
  receiver? (v : Value) : Run Bridge.Error (Option ObjectRef) := do
    match ← outcome (δ := Bridge.Error) (resolveValue v) with
    | .ok (.object ref) =>
      return if (← domain).isSubtype ref.type type then some ref else none
    | _ => return none

/-- The method that gives the text of an object. -/
def textMethod? (t : TypeInfo) : Option Method :=
  (t.methodsNamed "ToString").find? fun m =>
    m.kind == .ofInstance && m.inputArity == 0 && m.ret == .string

/-- The text of an object: what its own method for that gives, or its type and handle. -/
def describe (run : Runner) (ref : ObjectRef) (h : Bridge.Handle) : Run Bridge.Error String := do
  let own ← match ((← domain).chain ref.type).findSome? textMethod? with
    | some m => do pure (some (← firstOf (← invokeMethod run m (some ref) [])))
    | none => pure none
  match own with
  | some (.string bytes) => return Text.shown bytes
  | other =>
    discard [] other.toList
    return (← typeInfo ref.type).name ++ ": " ++ h.text

end ScriptHost.Run

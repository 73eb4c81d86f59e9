import ScriptHost.Engine.State
/-!
Values between scripts and host. Numbers are narrowed exactly or refused, objects travel as handles,
and instances of value types are copied on the way.
-/
namespace ScriptHost

open Host (Domain NumericKind ObjectRef Param ParamMode TypeId ValueType)
open Bridge (BehaviourKeys Handle)

/-- The host number that equals a number of a script, if the kind has one. Single precision rounds
what lies in its range. -/
def narrow (x : Float) (kind : NumericKind) : Except Bridge.Error Host.Value :=
  let (low, high) := kind.bounds
  let refused := .error (.conversion kind.name ("number " ++ Number.plain.text x))
  if kind.isInteger then
    if !x.isFinite || !Number.isWhole x || x < low || high ≤ x then refused
    else .ok (if kind.isUnsigned then .uint x.toUInt64 else .int (Number.toInt64 x))
  else if kind = .single then
    if x.isFinite && (x < low || high < x) then refused else .ok (.float (Number.roundToSingle x))
  else .ok (.float x)

/-- The host value of a script value that is no handle. -/
def plainToHost (d : Domain) (v : Script.Value) (type : ValueType) :
    Except Bridge.Error Host.Value :=
  let mismatch := .error (.conversion type.name v.tag.name)
  match v, type with
  | .nil, .named name =>
    match d.find? name with
    | some info => if info.isValueType then mismatch else .ok .null
    | none => .ok .null
  | .nil, .string | .nil, .object | .nil, .array _ => .ok .null
  | .number x, .numeric kind => narrow x kind
  | .number x, .object => .ok (.float x)
  | .bool b, .bool | .bool b, .object => .ok (.bool b)
  | .string bytes, .string | .string bytes, .object => .ok (.str bytes)
  | .pointer address, .pointer | .pointer address, .object => .ok (.pointer address)
  | _, _ => mismatch

namespace Run

variable {ε : Type}

/-- What a handle refers to. -/
def resolveHandle (h : Handle) : Run Bridge.Error Bridge.Referent := do
  let w ← get
  ofExcept (w.outer.bridge.registry.resolve (aliveIn w) h)

/-- What the handle of a value refers to. -/
def resolveValue : Script.Value → Run Bridge.Error Bridge.Referent
  | .handle w => resolveHandle (.ofWord w.slot)
  | other => fail (.conversion "handle" other.tag.name)

/-- The type of an id. -/
def typeInfo (type : TypeId) : Run Bridge.Error Host.TypeInfo := do
  match (← domain).get? type with
  | some info => pure info
  | none => fail (.typeNotFound ("#" ++ toString type.index))

/-- The object, or a copy of it if it is an instance of a value type. -/
def copyIfStruct (ref : ObjectRef) : Run ε ObjectRef := do
  match (← domain).get? ref.type with
  | some info => if info.isValueType then onHost (·.duplicate ref) else pure ref
  | none => pure ref

/-- The host value of a script value where a type is declared. -/
def toHost (v : Script.Value) (type : ValueType) : Run Bridge.Error Host.Value := do
  match v with
  | .handle w =>
    match ← resolveHandle (.ofWord w.slot) with
    | .type _ => fail (.conversion type.name "class")
    | .object ref =>
      let d ← domain
      if d.accepts type ref then return .object (← copyIfStruct ref)
      else fail (.conversion type.name ((d.get? ref.type).elim "handle" (·.name)))
  | _ => ofExcept (plainToHost (← domain) v type)

/-- The host value for a slot that callers may leave to its default. -/
def toHostSlot (v : Script.Value) (type : ValueType) (mode : ParamMode) :
    Run Bridge.Error Host.Value :=
  match mode, v with
  | .output, .nil => pure (.defaultFor type)
  | _, _ => toHost v type

/-- Adds a function of a type to a behaviour that is being made. -/
def addTypeFunction (type : TypeId) (b : Script.Behaviour)
    (part : Script.BehaviourPart × String × Script.TypeFunction) : Run ε Script.Behaviour := do
  let f ← onScript (·.newFunction part.2.1 none (.bridge (.ofType part.2.2 type)))
  return b.setPart f part.1

/-- What instances of every type can do. -/
def instanceParts : List (Script.BehaviourPart × String × Script.TypeFunction) :=
  [(.index, "__index", .instanceIndex), (.newindex, "__newindex", .instanceNewindex),
    (.tostring, "__tostring", .instanceText), (.gc, "__gc", .finalize)]

/-- What every type itself can do. -/
def classParts : List (Script.BehaviourPart × String × Script.TypeFunction) :=
  [(.call, "__call", .classCall), (.index, "__index", .classIndex),
    (.newindex, "__newindex", .classNewindex), (.tostring, "__tostring", .classText),
    (.gc, "__gc", .finalize)]

/-- Makes a type known to scripts, on first use. -/
def registerType (type : TypeId) : Run Bridge.Error BehaviourKeys := do
  match (← bridge).exposed.find? type with
  | some keys => pure keys
  | none =>
    let info ← typeInfo type
    let ofInstance ← instanceParts.foldlM (addTypeFunction type) { name := info.name }
    let ofClass ← classParts.foldlM (addTypeFunction type) { name := "class " ++ info.name }
    let instanceKey ← onScript (·.addBehaviour ofInstance)
    let classKey ← onScript (·.addBehaviour ofClass)
    let keys : BehaviourKeys := ⟨instanceKey, classKey⟩
    modifyBridge fun b => { b with exposed := b.exposed.insert type keys }
    return keys

/-- Issues a handle. -/
def issue (entry : Bridge.Registry.Entry) : Run ε Handle := do
  let (h, registry) := (← bridge).registry.insert entry
  modifyBridge ({ · with registry })
  return h

/-- A script value that stands for an object. -/
def wrapObject (ref : ObjectRef) (weak : Bool) : Run Bridge.Error Script.Value := do
  let keys ← registerType ref.type
  let h ← issue (if weak then .weak ref else .strong ref)
  onScript (·.newWrapper h.toWord keys.ofInstance)

/-- The script value of a host value. -/
def toScript : Host.Value → Run Bridge.Error Script.Value
  | .null => pure .nil
  | .bool b => pure (.bool b)
  | .int i => pure (.number (Number.ofInt64 i))
  | .uint u => pure (.number (Number.ofUInt64 u))
  | .float x => pure (.number x)
  | .str bytes => pure (.string bytes)
  | .pointer address => pure (.pointer address)
  | .object ref => do wrapObject (← copyIfStruct ref) false

/-- The script value that stands for a type, made on first use. -/
def classValue (type : TypeId) : Run Bridge.Error Script.Value := do
  match (← bridge).classes.find? type with
  | some v => pure v
  | none =>
    let keys ← registerType type
    let h ← issue (.type type)
    let v ← onScript (·.newWrapper h.toWord keys.ofClass)
    modifyBridge fun b => { b with classes := b.classes.insert type v }
    return v

/-- The host values of the arguments of a method: the parameters that callers pass take theirs in
order, nil if there are too few, and the others start with a default. -/
def marshalArguments : List Param → List Script.Value → Run Bridge.Error (List Host.Value)
  | [], _ => pure []
  | p :: rest, arguments => do
    if p.isInput then
      let v ← toHostSlot (arguments.headD .nil) p.type p.mode
      return v :: (← marshalArguments rest arguments.tail)
    else
      return .defaultFor p.type :: (← marshalArguments rest arguments)

/-- The script values that a finished call gives: its value, and what it left in the parameters that
callers receive from. -/
def marshalResults (m : Host.Method) (value : Host.Value) (arguments : List Host.Value) :
    Run Bridge.Error (List Script.Value) := do
  let received := (m.params.zip arguments).filterMap fun (p, v) =>
    if p.isByRef then some v else none
  let givesValue := m.returnsValue || m.kind == .constructor
  (if givesValue then value :: received else received).mapM toScript

end Run

end ScriptHost

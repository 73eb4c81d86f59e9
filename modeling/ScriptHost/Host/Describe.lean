import ScriptHost.Host.Exception
import ScriptHost.Host.State
/-!
Types, methods, values and errors of a host as answers show them.
-/
namespace ScriptHost.Host

/-- The code of a refusal of a body. -/
def VerifyError.code : VerifyError → String
  | .empty => "Empty"
  | .stackUnderflow _ => "StackUnderflow"
  | .stackMismatch .. => "StackMismatch"
  | .invalidBranchTarget .. => "InvalidBranchTarget"
  | .invalidArgRef .. => "InvalidArgRef"
  | .invalidLocalRef .. => "InvalidLocalRef"
  | .noThis _ => "NoThis"
  | .unknownToken .. => "UnknownToken"
  | .badCallTarget .. => "BadCallTarget"
  | .badReturn .. => "BadReturn"
  | .fallOffEnd _ => "FallOffEnd"

/-- The code of a refusal of a definition. -/
def DomainError.code : DomainError → String
  | .duplicateType _ => "DuplicateType"
  | .unknownType _ => "UnknownType"
  | .duplicateToken _ => "DuplicateToken"
  | .emptyTypeName | .arrayBase _ | .unnamedMethod _ => "InvalidDefinition"
  | .tokensExhausted => "panic"

/-- A refused body as an answer. -/
def VerifyError.failure (e : VerifyError) : Failure := ⟨e.code, e.message, none⟩

/-- A refused definition as an answer. -/
def DomainError.failure (e : DomainError) : Failure := ⟨e.code, e.message, none⟩

/-- An exception as an answer. -/
def HostException.failure (e : HostException) : Failure := ⟨"HostException", e.text, none⟩

/-- A method that broke off as an answer. -/
def panicFailure (message : String) : Failure := ⟨"panic", message, none⟩

/-- The name of a kind of type. -/
def TypeKind.label : TypeKind → String
  | .reference => "Class"
  | .struct => "Struct"
  | .array => "Array"

/-- The name of a kind of method. -/
def MethodKind.label : MethodKind → String
  | .constructor => "Constructor"
  | .ofInstance => "Instance"
  | .static => "Static"

/-- A text that may be missing. -/
def optionalText (s : Option String) : Report :=
  s.elim .nothing .text

/-- A method as an answer. -/
def Method.report (m : Method) : Report :=
  .record [("token", .text m.token.text), ("sig", .text m.signature), ("ret", .text m.ret.name),
    ("kind", .text m.kind.label), ("arity", .count m.inputArity), ("returns", .flag m.returnsValue),
    ("body", .text m.body.diagnostic)]

/-- A field as an answer. -/
def Field.report (f : Field) : Report :=
  .list [.text f.name, .text f.type.name, .count f.slot, .flag f.isStatic]

/-- A property as an answer. -/
def Property.report (p : Property) : Report :=
  .record [("name", .text p.name), ("ty", .text p.type.name), ("static", .flag p.isStatic),
    ("get", optionalText (p.getter.map (·.signature))),
    ("set", optionalText (p.setter.map (·.signature)))]

/-- A type as an answer. -/
def Domain.reportType (d : Domain) (t : TypeInfo) : Report :=
  .record [("id", .count t.id.index), ("name", .text t.name),
    ("base", optionalText (t.base.map d.nameOf)), ("kind", .text t.kind.label),
    ("element", optionalText (t.element.map (·.name))), ("slots", .count t.layout.length),
    ("fields", .list (t.fields.map (·.report))),
    ("properties", .list (t.properties.map (·.report))),
    ("constructors", .list (t.constructors.map (·.report))),
    ("methods", .list (t.methods.map (·.report)))]

/-- Objects by name. -/
abbrev ObjectNames := List (String × ObjectRef)

namespace ObjectNames

/-- The object of a name. -/
def find? (names : ObjectNames) (name : String) : Option ObjectRef :=
  names.lookup name

/-- Gives a name to an object, and takes it from the one that had it. -/
def bind (names : ObjectNames) (name : String) (ref : ObjectRef) : ObjectNames :=
  (name, ref) :: List.filter (·.1 != name) names

/-- Takes a name away. -/
def unbind (names : ObjectNames) (name : String) : ObjectNames :=
  List.filter (·.1 != name) names

/-- The alphabetically first name of an object. -/
def nameOf? (names : ObjectNames) (ref : ObjectRef) : Option String :=
  names.foldl (fun first (name, r) =>
    if r.same ref && first.all (name < ·) then some name else first) none

end ObjectNames

/-- A value as an answer shows it. -/
def Value.view (d : Domain) (names : ObjectNames) : Value → HostView
  | .null => .null
  | .bool b => .bool b
  | .int i => .int i
  | .uint u => .uint u
  | .float x => .float x
  | .str bytes => .bytes bytes
  | .pointer address => .pointer address
  | .object ref => .object (names.nameOf? ref) (d.nameOf ref.type)

/-- A value given by itself or by the name of an object. -/
inductive ValueTerm
  | literal (v : Literal)
  | object (name : String)

/-- The value that a term stands for. -/
def ValueTerm.eval? (names : ObjectNames) : ValueTerm → Option Value
  | .literal v => some v.toValue
  | .object name => (names.find? name).map .object

end ScriptHost.Host

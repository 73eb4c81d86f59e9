import ScriptHost.Host.Domain
/-!
Images: types and methods that are stored together and loaded into a domain together.
-/
namespace ScriptHost

open Host

/-- A type of an image. -/
structure Image.TypeDef where
  name : String
  base : Option String := none
  kind : TypeKind := .reference
  fields : List FieldDecl := []
  deriving DecidableEq

/-- The marks of a method: it may be patched, it consults the patches, it carries a prologue. -/
structure Image.MethodAttrs where
  patchable : Bool := false
  patchHub : Bool := false
  injected : Bool := false
  deriving DecidableEq, Repr

/-- A method of an image. -/
structure Image.MethodDef where
  token : MethodToken
  declaring : String
  name : String
  kind : MethodKind
  params : List Param := []
  ret : ValueType := .void
  attrs : MethodAttrs := {}
  body : Option Body := none
  deriving DecidableEq

/-- An image. -/
structure Image where
  name : String
  types : List Image.TypeDef := []
  methods : List Image.MethodDef := []
  deriving DecidableEq

instance : Inhabited Image := ⟨⟨"", [], []⟩⟩

namespace Image

namespace MethodDef

/-- The signature of a method. -/
def signature (m : MethodDef) : String :=
  Host.signature m.declaring m.name m.params

/-- Whether a call gives a value. -/
def returnsValue (m : MethodDef) : Bool :=
  m.kind != .constructor && m.ret != .void

/-- What the body of the method may use. -/
def shape (m : MethodDef) : MethodShape :=
  ⟨m.kind != .static, m.params.length, m.returnsValue⟩

/-- What calling the method does to the stack of its caller. -/
def callEffect (m : MethodDef) : CallEffect :=
  ⟨m.params.length, m.kind == .ofInstance, m.returnsValue, m.kind == .constructor⟩

/-- Equality in which a number that is not one differs from itself. -/
def equals (a b : MethodDef) : Bool :=
  { a with body := none } == { b with body := none } &&
    match a.body, b.body with
    | none, none => true
    | some x, some y => x.equals y
    | _, _ => false

end MethodDef

/-- The token after the greatest one in use. -/
def nextToken (image : Image) : MethodToken :=
  ⟨image.methods.foldl (fun greatest m => max greatest m.token.id) 0 + 1⟩

/-- The image with another type. -/
def addType (image : Image) (type : TypeDef) : Image :=
  { image with types := image.types ++ [type] }

/-- The image with another method, which gets the next token. -/
def addMethod (image : Image) (method : MethodDef) : MethodToken × Image :=
  let token := image.nextToken
  (token, { image with methods := image.methods ++ [{ method with token }] })

/-- The method of a token. -/
def method? (image : Image) (token : MethodToken) : Option MethodDef :=
  image.methods.find? (·.token == token)

/-- The image with a change to the first method of a token. -/
def modifyMethod (image : Image) (token : MethodToken) (f : MethodDef → MethodDef) : Image :=
  match image.methods.findIdx? (·.token == token) with
  | some i => { image with methods := image.methods.modify i f }
  | none => image

/-- The first method of a signature. -/
def findSignature? (image : Image) (signature : String) : Option MethodDef :=
  image.methods.find? (·.signature == signature)

/-- The methods that consult the patches. -/
def hubs (image : Image) : List MethodDef :=
  image.methods.filter (·.attrs.patchHub)

/-- A method that consults the patches. -/
def hubMethod (declaring name : String) : MethodDef where
  token := ⟨0⟩
  declaring := declaring
  name := name
  kind := .static
  params := hubParams
  ret := .bool
  attrs := { patchHub := true }

/-- Equality in which a number that is not one differs from itself. -/
def equals (a b : Image) : Bool :=
  a.name == b.name && a.types == b.types && a.methods.length == b.methods.length &&
    (a.methods.zip b.methods).all fun (x, y) => x.equals y

end Image

end ScriptHost

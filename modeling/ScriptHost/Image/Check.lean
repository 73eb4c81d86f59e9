import ScriptHost.Image.Basic
/-!
Checking an image on its own: names, tokens and hubs, and every body against the methods of the
image.
-/
namespace ScriptHost.Image

open Host

/-- Why an image is refused. -/
inductive Error
  | malformed
  | duplicateType (name : String)
  | definesArray (name : String)
  | duplicateToken (token : MethodToken)
  | unknownDeclaring (signature declaring : String)
  | notHubShape (signature : String)
  | injectedWithoutBody (signature : String)
  | ownBase (name : String)
  | unnamedMethod (type : String)
  | unmappedToken (token : MethodToken)
  | unresolvedToken (token : MethodToken)
  | body (signature : String) (cause : VerifyError)
  | domain (cause : DomainError)
  deriving DecidableEq, Repr

/-- What a refusal says. A text that is no image has no message here. -/
def Error.message : Error → String
  | .malformed => ""
  | .duplicateType name => s!"Invalid image: type {name} defined twice"
  | .definesArray name => s!"Invalid image: {name} cannot be defined as an array"
  | .duplicateToken token => "Invalid image: token " ++ token.text ++ " used twice"
  | .unknownDeclaring signature declaring =>
    s!"Invalid image: {signature} declared on unknown type {declaring}"
  | .notHubShape signature => s!"Invalid image: {signature} does not have the patch hub signature"
  | .injectedWithoutBody signature => s!"Invalid image: {signature} is injected but has no body"
  | .ownBase name => s!"Invalid image: {name} is its own base"
  | .unnamedMethod type => s!"Invalid image: unnamed method on {type}"
  | .unmappedToken token => "Invalid image: unmapped token " ++ token.text
  | .unresolvedToken token => "Invalid image: unresolved token " ++ token.text
  | .body signature cause => s!"{signature}: " ++ cause.message
  | .domain cause => cause.message

/-- What is said when loading breaks off instead of refusing the image. -/
def Error.panic? : Error → Option String
  | .domain cause => cause.panic?
  | _ => none

/-- Checks the types in turn, given the names before them. -/
def checkTypes : (before : List String) → List TypeDef → Except Error Unit
  | _, [] => .ok ()
  | before, t :: rest =>
    if before.contains t.name then .error (.duplicateType t.name)
    else if t.kind = .array then .error (.definesArray t.name)
    else checkTypes (t.name :: before) rest

/-- Checks the declarations of the methods in turn, given the tokens before them. -/
def checkMethods (typeNames : List String) :
    (before : List MethodToken) → List MethodDef → Except Error Unit
  | _, [] => .ok ()
  | before, m :: rest =>
    if before.contains m.token then .error (.duplicateToken m.token)
    else if !typeNames.contains m.declaring then .error (.unknownDeclaring m.signature m.declaring)
    else if m.attrs.patchHub && !isHubShape m.kind m.params m.ret then
      .error (.notHubShape m.signature)
    else if m.attrs.injected && m.body.isNone then .error (.injectedWithoutBody m.signature)
    else checkMethods typeNames (m.token :: before) rest

/-- What calling the method of a token does to the stack. -/
def callEffect? (image : Image) (token : MethodToken) : Option CallEffect :=
  (image.method? token).map (·.callEffect)

/-- Checks the body of a method. -/
def checkBody (image : Image) (m : MethodDef) : Except Error Unit :=
  match m.body with
  | none => .ok ()
  | some body => (Host.verify body m.shape image.callEffect?).mapError (.body m.signature)

/-- Accepts an image whose names and tokens are distinct, whose hubs are hubs and whose bodies are
sound. -/
def verify (image : Image) : Except Error Unit := do
  checkTypes [] image.types
  checkMethods (image.types.map (·.name)) [] image.methods
  image.methods.forM image.checkBody

end ScriptHost.Image

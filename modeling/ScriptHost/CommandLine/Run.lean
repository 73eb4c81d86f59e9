import ScriptHost.CommandLine.Arguments
import ScriptHost.CommandLine.Files
import ScriptHost.Image.Codec
import ScriptHost.Image.Inject
import ScriptHost.Image.Load
import ScriptHost.Settings.Options
/-!
The tasks of the command line: injecting, verifying and listing images. A failure is a text with the
texts of its causes, and a task that fails writes nothing.
-/
namespace ScriptHost.CommandLine

open Host

/-- A failure: what went wrong, why, outermost cause first, and the code that the tool ends with. -/
structure Trouble where
  message : String
  causes : List String := []
  code : UInt32 := 1

/-- The code with which a tool ends that broke off. -/
def panicCode : UInt32 := 101

/-- A text with a mark before its first line and blanks before the others. -/
def indented (mark blanks text : String) : String :=
  mark ++ ("\n" ++ blanks).intercalate (text.splitOn "\n")

/-- The causes of a failure, one below the other, with numbers if there are several. -/
def causeLines (causes : List String) : List String :=
  match causes with
  | [cause] => [indented "    " "    " cause]
  | causes => causes.zipIdx.map fun (cause, i) => indented s!"    {i}: " "       " cause

/-- The text of a failure. -/
def Trouble.text (t : Trouble) : String :=
  let causes := if t.causes.isEmpty then ""
    else "\n\nCaused by:\n" ++ "\n".intercalate (causeLines t.causes)
  "Error: " ++ t.message ++ causes ++ "\n"

/-- The texts of a failure of file access and its cause. -/
def FileError.chain (e : FileError) : List String :=
  ["I/O error: " ++ e.message, e.message]

/-- The text of a refused image and of its cause, if it has one. -/
def imageChain : Image.Error → List String
  | .malformed => ["Malformed image: unexpected contents", "unexpected contents"]
  | .body signature cause => [(Image.Error.body signature cause).message, cause.message]
  | e => [e.message]

/-- The text of a refused injection and of its cause, if it has one. -/
def injectChain : Image.InjectError → List String
  | .verify signature cause => [(Image.InjectError.verify signature cause).message, cause.message]
  | .refused e => imageChain e
  | e => [e.message]

/-- What a task computes: a text to print, or a failure. -/
abbrev Job (m : Type → Type) := ExceptT Trouble m

variable {m : Type → Type} [Monad m]

/-- Fails with causes. -/
def trouble {α : Type} (message : String) (causes : List String) : Job m α :=
  throw { message, causes }

/-- Reads an image. -/
def readImage (access : FileAccess m) (path : String) : Job m Image := do
  let context := "failed to read " ++ path
  match ← access.read path with
  | .error e => trouble context e.chain
  | .ok text =>
    match Image.decode? text with
    | some image => pure image
    | none => trouble context (imageChain .malformed)

/-- Reads the options of a configuration, if there is one. -/
def readOptions (access : FileAccess m) : Option String → Job m Options
  | none => pure {}
  | some path => do
    match ← access.read path with
    | .error e => trouble ("Failed to read config file: " ++ e.message) [e.message]
    | .ok text =>
      match Options.parse text with
      | .ok options => pure options
      | .error .malformed =>
        trouble "Failed to parse config: unexpected contents" ["unexpected contents"]
      | .error e => trouble e.message []

/-- The report of an injection for other programs. -/
def reportJson (image : Image) (report : Image.InjectReport) (output : String) : Json :=
  .record [("digest", .str image.digest), ("hub", .str report.hub), ("image", .str image.name),
    ("injected", .list (report.injected.map .str)), ("output", .str output)]

/-- The report of an injection for readers. -/
def reportLines (image : Image) (report : Image.InjectReport) (output : String) : List String :=
  ["Hub: " ++ report.hub] ++ report.injected.map ("  injected " ++ ·) ++
    [s!"Wrote {output} ({report.injected.length} methods injected)", "sha256 " ++ image.digest]

/-- Lines as a text. -/
def unlines (lines : List String) : String :=
  String.join (lines.map (· ++ "\n"))

/-- Gives the patchable methods of an image their prologues and writes the result. -/
def inject (access : FileAccess m) (input : String) (output : Option String) (json : Bool) :
    Job m String := do
  let image ← readImage access input
  match image.inject with
  | .error e =>
    match e.panic? with
    | some message => throw { message, code := panicCode }
    | none => trouble ("failed to inject " ++ input) (injectChain e)
  | .ok (image, report) =>
    let output := output.getD input
    match ← access.write output image.encode with
    | .error e => trouble ("failed to write " ++ output) e.chain
    | .ok () =>
      if json then pure ((reportJson image report output).pretty ++ "\n")
      else pure (unlines (reportLines image report output))

/-- Checks an image and loads it into an empty domain. -/
def verify (access : FileAccess m) (input : String) : Job m String := do
  let image ← readImage access input
  match image.verify, image.load {} with
  | .error e, _ => trouble (input ++ " failed verification") (imageChain e)
  | .ok (), (.error e, _) => trouble (input ++ " failed to load") (imageChain e)
  | .ok (), (.ok types, _) =>
    let patchable := image.methods.countP (·.attrs.patchable)
    let injected := image.methods.countP (·.attrs.injected)
    pure (unlines [s!"{image.name}: ok ({types.length} types, {image.methods.length} methods, " ++
      s!"{patchable} patchable, {injected} injected)"])

/-- The line of a method in a list. -/
def signatureLine (method : Image.MethodDef) : String :=
  let mark := if method.attrs.patchHub then " [hub]"
    else if method.attrs.injected then " [injected]" else ""
  method.signature ++ mark

/-- Lists the methods of an image. -/
def signatures (access : FileAccess m) (input : String) (patchable : Bool) : Job m String := do
  let image ← readImage access input
  let listed := image.methods.filter fun method => !patchable || method.attrs.patchable
  pure (unlines (listed.map signatureLine))

/-- Carries out a request. -/
def carryOut (access : FileAccess m) (request : Request) : Job m String := do
  let _ ← readOptions access request.config
  match request.task with
  | .inject input output json => inject access input output json
  | .verify input => verify access input
  | .signatures input patchable => signatures access input patchable

/-- What a run of the tool leaves behind: a code, and what it printed. -/
structure Finish where
  code : UInt32
  output : String := ""
  errors : String := ""

/-- The name and version of the tool. -/
def versionLine : String := "tether 0.1.0\n"

/-- Runs the tool. -/
def run (access : FileAccess m) (arguments : List String) : m Finish := do
  match Request.parse arguments with
  | .error .malformed => pure ⟨2, "", "Error: malformed command line\n"⟩
  | .error .version => pure ⟨0, versionLine, ""⟩
  | .error .help => pure ⟨0, "", ""⟩
  | .ok request =>
    match ← (carryOut access request).run with
    | .ok output => pure ⟨0, output, ""⟩
    | .error t => pure ⟨t.code, "", t.text⟩

end ScriptHost.CommandLine

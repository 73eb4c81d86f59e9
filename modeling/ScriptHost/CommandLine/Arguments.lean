/-!
Reading the arguments of a command line. Options have a long name and may have a letter; letters may
be joined, and a value may follow its option directly, after an equals sign or as the next argument.
After two dashes everything is a plain argument.
-/
namespace ScriptHost.CommandLine

/-- How an option is used. -/
inductive OptionKind
  /-- Takes a value, once. -/
  | value
  /-- Stands alone, once. -/
  | switch
  /-- Stands alone, any number of times. -/
  | counter
  /-- Asks for the version and ends the reading. -/
  | version
  /-- Asks for help and ends the reading. -/
  | help
  deriving DecidableEq, Repr

/-- An option. -/
structure OptionSpec where
  name : String
  letter : Option Char
  kind : OptionKind
  deriving DecidableEq, Repr

/-- What may stand in a command line: options, plain arguments, or a word with which another part
begins. -/
structure Grammar where
  options : List OptionSpec
  plain : Nat := 0
  words : List String := []

/-- Why a command line is not read to its end. -/
inductive Early
  | malformed
  | version
  | help
  deriving DecidableEq, Repr

/-- What was read. -/
structure Reading where
  values : List (String × String) := []
  switches : List String := []
  plain : List String := []
  /-- The word that begins another part, and what follows it. -/
  word : Option (String × List String) := none

namespace Reading

/-- The value of an option. -/
def value? (r : Reading) (name : String) : Option String :=
  r.values.lookup name

/-- Whether a switch is on. -/
def isOn (r : Reading) (name : String) : Bool :=
  r.switches.contains name

/-- Takes the value of an option. No option has two, and none is empty. -/
def setValue (r : Reading) (name v : String) : Except Early Reading :=
  if v.isEmpty ∨ (r.value? name).isSome then .error .malformed
  else .ok { r with values := (name, v) :: r.values }

/-- Takes an option that stands alone. -/
def setSwitch (r : Reading) (o : OptionSpec) : Except Early Reading :=
  match o.kind with
  | .value => .error .malformed
  | .switch =>
    if r.isOn o.name then .error .malformed else .ok { r with switches := o.name :: r.switches }
  | .counter => .ok r
  | .version => .error .version
  | .help => .error .help

/-- Takes a plain argument. -/
def addPlain (g : Grammar) (r : Reading) (argument : String) : Except Early Reading :=
  if argument.isEmpty ∨ g.plain ≤ r.plain.length then .error .malformed
  else .ok { r with plain := r.plain ++ [argument] }

/-- Takes a long option with what follows its name after an equals sign. Answers the option if its
value is still to come. -/
def addLong (g : Grammar) (r : Reading) (name : String) (attached : Option String) :
    Except Early (Reading × Option OptionSpec) :=
  match g.options.find? (·.name == name), attached with
  | none, _ => .error .malformed
  | some o, some v =>
    if o.kind = .value then (r.setValue name v).map (·, none) else .error .malformed
  | some o, none =>
    if o.kind = .value then .ok (r, some o) else (r.setSwitch o).map (·, none)

/-- Takes joined letters. Answers an option whose value is still to come. -/
def addLetters (g : Grammar) (r : Reading) : List Char → Except Early (Reading × Option OptionSpec)
  | [] => .ok (r, none)
  | c :: rest =>
    match g.options.find? (·.letter == some c) with
    | none => .error .malformed
    | some o =>
      if o.kind = .value then
        match rest with
        | [] => .ok (r, some o)
        | '=' :: v => (r.setValue o.name (.ofList v)).map (·, none)
        | v => (r.setValue o.name (.ofList v)).map (·, none)
      else (r.setSwitch o).bind fun r => addLetters g r rest

/-- Splits a long option at its first equals sign. -/
def splitLong (text : List Char) : String × Option String :=
  let name := String.ofList (text.takeWhile (· ≠ '='))
  match text.dropWhile (· ≠ '=') with
  | [] => (name, none)
  | _ :: v => (name, some (.ofList v))

/-- Reads arguments, given an option that waits for its value. -/
def read (g : Grammar) :
    Reading → (waiting : Option OptionSpec) → List String → Except Early Reading
  | r, none, [] => .ok r
  | _, some _, [] => .error .malformed
  | r, waiting, argument :: rest =>
    match waiting, argument.toList with
    | none, ['-', '-'] => rest.foldlM (addPlain g) r
    | some _, ['-', '-'] => .error .malformed
    | none, '-' :: '-' :: text =>
      let (name, attached) := splitLong text
      match addLong g r name attached with
      | .ok (r, waiting) => read g r waiting rest
      | .error e => .error e
    | none, '-' :: c :: text =>
      match addLetters g r (c :: text) with
      | .ok (r, waiting) => read g r waiting rest
      | .error e => .error e
    | some o, text =>
      match text with
      | '-' :: _ :: _ => .error .malformed
      | _ =>
        match r.setValue o.name argument with
        | .ok r => read g r none rest
        | .error e => .error e
    | none, _ =>
      if g.words.contains argument then .ok { r with word := some (argument, rest) }
      else
        match addPlain g r argument with
        | .ok r => read g r none rest
        | .error e => .error e

end Reading

/-- What the tool is asked to do. -/
inductive Task
  | inject (input : String) (output : Option String) (json : Bool)
  | verify (input : String)
  | signatures (input : String) (patchable : Bool)
  deriving DecidableEq, Repr

/-- A whole command line: the task and the file with the options. -/
structure Request where
  config : Option String
  task : Task
  deriving DecidableEq, Repr

/-- The options that may stand anywhere. -/
def commonOptions : List OptionSpec :=
  [⟨"config", none, .value⟩, ⟨"verbose", some 'v', .counter⟩, ⟨"help", some 'h', .help⟩]

/-- What may stand before the name of a task. -/
def outerGrammar : Grammar where
  options := ⟨"version", some 'V', .version⟩ :: commonOptions
  words := ["inject", "verify", "signatures", "help"]

/-- What may follow the name of a task. -/
def taskGrammar : String → Grammar
  | "inject" =>
    { options := ⟨"output", some 'o', .value⟩ :: ⟨"json", none, .switch⟩ :: commonOptions,
      plain := 1 }
  | "signatures" => { options := ⟨"patchable", some 'p', .switch⟩ :: commonOptions, plain := 1 }
  | _ => { options := commonOptions, plain := 1 }

/-- The task that a name and what was read after it mean. -/
def Task.ofReading? (name : String) (r : Reading) : Option Task :=
  match name, r.plain with
  | "inject", [input] => some (.inject input (r.value? "output") (r.isOn "json"))
  | "verify", [input] => some (.verify input)
  | "signatures", [input] => some (.signatures input (r.isOn "patchable"))
  | _, _ => none

/-- Reads a command line. What stands after the name of the task wins over what stands before. -/
def Request.parse (arguments : List String) : Except Early Request := do
  let outer ← Reading.read outerGrammar {} none arguments
  match outer.word with
  | none => throw .malformed
  | some ("help", _) => throw .help
  | some (name, rest) =>
    let inner ← Reading.read (taskGrammar name) {} none rest
    match Task.ofReading? name inner with
    | some task => pure ⟨inner.value? "config" <|> outer.value? "config", task⟩
    | none => throw .malformed

end ScriptHost.CommandLine

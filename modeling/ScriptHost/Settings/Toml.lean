import ScriptHost.Text.Hex
/-!
Reading TOML text. Of a document only its tables, lists and integers are kept: what else a setting
may hold is told apart from them, but not kept.
-/
namespace ScriptHost

/-- A TOML value. -/
inductive Toml
  | integer (i : Int)
  /-- A string, a truth value, a float or a date. -/
  | scalar
  | list (items : List Toml)
  | table (entries : List (String × Toml))

namespace Toml

/-! ## Documents under construction -/

/-- How a table of a document came about: on the way to a later one, by a header of its own, or by a
dotted key. -/
inductive Origin
  | passed
  | header
  | dotted
  deriving DecidableEq, Repr

/-- A table or value of a document that may still grow. The tables of a list are kept latest
first. -/
inductive Node
  | value (v : Toml)
  | table (origin : Origin) (entries : List (String × Node))
  | tables (items : List (List (String × Node)))

/-- The entries of a table that may still grow. -/
abbrev Entries := List (String × Node)

/-- The entries with another node under a key that they have. -/
def Entries.replace (entries : Entries) (key : String) (node : Node) : Entries :=
  entries.map fun (k, n) => if k == key then (k, node) else (k, n)

/-- Changes the entries of the table of a path. Tables that are missing on the way are made; of a
list of tables, the latest is meant. -/
def updateAt (change : Entries → Option Entries) : List String → Entries → Option Entries
  | [], entries => change entries
  | key :: rest, entries =>
    match entries.lookup key with
    | none => do
      let sub ← updateAt change rest []
      pure (entries ++ [(key, .table .passed sub)])
    | some (.table origin sub) => do
      let sub ← updateAt change rest sub
      pure (Entries.replace entries key (.table origin sub))
    | some (.tables (latest :: older)) => do
      let latest ← updateAt change rest latest
      pure (Entries.replace entries key (.tables (latest :: older)))
    | some _ => none

/-- Starts a table. One that later tables passed through may be started, others may not. -/
def startTable (key : String) (entries : Entries) : Option Entries :=
  match entries.lookup key with
  | none => some (entries ++ [(key, .table .header [])])
  | some (.table .passed sub) => some (Entries.replace entries key (.table .header sub))
  | some _ => none

/-- Starts another table of a list of tables. -/
def startItem (key : String) (entries : Entries) : Option Entries :=
  match entries.lookup key with
  | none => some (entries ++ [(key, .tables [[]])])
  | some (.tables items) => some (Entries.replace entries key (.tables ([] :: items)))
  | some _ => none

/-- Adds a value under a dotted key. The table that it joins has to be one of dotted keys alone. -/
def insertDotted (v : Toml) : (key : List String) → (dotted : Bool) → Entries → Option Entries
  | [], _, _ => none
  | [key], joins, entries =>
    if joins then
      match entries.lookup key with
      | none => some (entries ++ [(key, .value v)])
      | some _ => none
    else none
  | key :: rest, _, entries =>
    match entries.lookup key with
    | none => do
      let sub ← insertDotted v rest true []
      pure (entries ++ [(key, .table .dotted sub)])
    | some (.table origin sub) =>
      if origin = .header then none
      else do
        let sub ← insertDotted v rest (origin = .dotted) sub
        pure (Entries.replace entries key (.table origin sub))
    | some (.tables (latest :: older)) => do
      let latest ← insertDotted v rest false latest
      pure (Entries.replace entries key (.tables (latest :: older)))
    | some _ => none

mutual

/-- The value of a finished node. -/
def Node.finish : Node → Toml
  | .value v => v
  | .table _ entries => .table (finishEntries entries)
  | .tables items => .list (finishTables items).reverse

/-- The values of finished entries. -/
def finishEntries : List (String × Node) → List (String × Toml)
  | [] => []
  | (key, node) :: rest => (key, node.finish) :: finishEntries rest

/-- The values of finished tables. -/
def finishTables : List (List (String × Node)) → List Toml
  | [] => []
  | entries :: rest => .table (finishEntries entries) :: finishTables rest

end

/-! ## Blanks and line ends -/

/-- The rest of a line from the next character on that is not blank. -/
def skipBlanks (cs : List Char) : List Char :=
  cs.dropWhile fun c => c == ' ' || c == '\t'

/-- Whether a character may stand in a comment or between literal quotes. -/
def isShown (c : Char) : Bool :=
  c == '\t' || (' ' ≤ c && c ≠ '\x7f')

/-- The text after a comment, if one comes next. -/
def skipComment : List Char → List Char
  | '#' :: rest => rest.dropWhile isShown
  | cs => cs

/-- The text after a line end, if one comes next. -/
def lineEnd? : List Char → Option (List Char)
  | '\n' :: rest => some rest
  | '\r' :: '\n' :: rest => some rest
  | _ => none

/-- The text after blanks, comments and line ends. -/
def skipLines : (fuel : Nat) → List Char → List Char
  | 0, cs => cs
  | fuel + 1, cs =>
    let cs := skipComment (skipBlanks cs)
    match lineEnd? cs with
    | some rest => skipLines fuel rest
    | none => cs

/-! ## Strings and keys -/

/-- The character of a short escape. -/
def shortEscape? : Char → Option Char
  | 'b' => some '\x08'
  | 't' => some '\t'
  | 'n' => some '\n'
  | 'f' => some '\x0c'
  | 'r' => some '\r'
  | '"' => some '"'
  | '\\' => some '\\'
  | _ => none

/-- The character of a code point. -/
def scalarValue? (n : Nat) : Option Char :=
  if h : n.isValidChar then some (Char.ofNatAux n h) else none

/-- Reads an escape after its backslash. -/
def escape? : List Char → Option (Char × List Char)
  | 'u' :: rest => escapedCode 4 rest
  | 'U' :: rest => escapedCode 8 rest
  | c :: rest => (shortEscape? c).map (·, rest)
  | [] => none
where
  /-- Reads the hexadecimal digits of an escape. -/
  escapedCode (count : Nat) (cs : List Char) : Option (Char × List Char) := do
    guard (count ≤ cs.length)
    let c ← scalarValue? (← Text.ofHex? (cs.take count))
    pure (c, cs.drop count)

/-- Reads the inside of a string on one line, up to and with the closing quote. -/
def basicString? : (fuel : Nat) → List Char → Option (List Char × List Char)
  | 0, _ => none
  | _ + 1, '"' :: rest => some ([], rest)
  | fuel + 1, '\\' :: rest => do
    let (c, rest) ← escape? rest
    let (cs, rest) ← basicString? fuel rest
    pure (c :: cs, rest)
  | fuel + 1, c :: rest =>
    if isShown c then do
      let (cs, rest) ← basicString? fuel rest
      pure (c :: cs, rest)
    else none
  | _ + 1, [] => none

/-- Reads the inside of a literal string on one line, up to and with the closing quote. -/
def literalString? : List Char → Option (List Char × List Char)
  | [] => none
  | '\'' :: rest => some ([], rest)
  | c :: rest =>
    if isShown c then (literalString? rest).map fun (cs, rest) => (c :: cs, rest) else none

/-- Whether the text goes on with three quotes. -/
def atTripleQuote (quote : Char) : List Char → Bool
  | a :: b :: c :: _ => a == quote && b == quote && c == quote
  | _ => false

/-- The text after the closing quotes of a string of many lines. Up to two quotes before them belong
to the string. -/
def closeTriple (quote : Char) (cs : List Char) : List Char :=
  let run := cs.takeWhile (· == quote)
  cs.drop (min run.length 5)

/-- The text after a string of many lines, given the text after its opening quotes. -/
def skipManyLines (quote : Char) (escapes : Bool) : (fuel : Nat) → List Char → Option (List Char)
  | 0, _ => none
  | fuel + 1, cs =>
    if atTripleQuote quote cs then some (closeTriple quote cs)
    else
      match cs with
      | [] => none
      | '\\' :: rest =>
        if escapes then
          match lineEnd? (skipBlanks rest) with
          | some rest => skipManyLines quote escapes fuel rest
          | none => do
            let (_, rest) ← escape? rest
            skipManyLines quote escapes fuel rest
        else skipManyLines quote escapes fuel rest
      | c :: rest =>
        if isShown c then skipManyLines quote escapes fuel rest
        else do skipManyLines quote escapes fuel (← lineEnd? (c :: rest))

/-- Whether a character may stand in a key without quotes. -/
def isBareKey (c : Char) : Bool :=
  c.isAlphanum || c == '_' || c == '-'

/-- Reads one part of a key. -/
def simpleKey? : List Char → Option (String × List Char)
  | '"' :: rest => (basicString? (rest.length + 1) rest).map fun (cs, rest) => (.ofList cs, rest)
  | '\'' :: rest => (literalString? rest).map fun (cs, rest) => (.ofList cs, rest)
  | cs =>
    match cs.takeWhile isBareKey with
    | [] => none
    | key => some (.ofList key, cs.dropWhile isBareKey)

/-- Reads a key of one or more parts. -/
def key? : (fuel : Nat) → List Char → Option (List String × List Char)
  | 0, _ => none
  | fuel + 1, cs => do
    let (part, rest) ← simpleKey? (skipBlanks cs)
    match skipBlanks rest with
    | '.' :: rest =>
      let (parts, rest) ← key? fuel rest
      pure (part :: parts, rest)
    | rest => pure ([part], rest)

/-! ## Numbers and dates -/

/-- Reads more digits after a digit. A single underscore may stand before each. -/
def moreDigits (isDigit : Char → Bool) : List Char → List Char × List Char
  | [] => ([], [])
  | '_' :: c :: rest =>
    if isDigit c then
      let (ds, rest) := moreDigits isDigit rest
      (c :: ds, rest)
    else ([], '_' :: c :: rest)
  | c :: rest =>
    if isDigit c then
      let (ds, rest) := moreDigits isDigit rest
      (c :: ds, rest)
    else ([], c :: rest)

/-- Reads one digit or more. -/
def digits? (isDigit : Char → Bool) : List Char → Option (List Char × List Char)
  | [] => none
  | c :: rest =>
    if isDigit c then
      let (ds, rest) := moreDigits isDigit rest
      some (c :: ds, rest)
    else none

/-- The number written by digits of a base. -/
def valueOf (base : Nat) (ds : List Char) : Nat :=
  ds.foldl (fun n c => base * n + (Text.hexValue? c).getD 0) 0

/-- Whether a character is a digit of a base. -/
def isDigitOf (base : Nat) (c : Char) : Bool :=
  (Text.hexValue? c).any (· < base)

/-- An integer that fits a signed word of 64 bits. -/
def integer? (i : Int) : Option Toml :=
  if -0x8000000000000000 ≤ i ∧ i < 0x8000000000000000 then some (.integer i) else none

/-- Reads an integer of another base after its mark. -/
def basedInteger? (base : Nat) (cs : List Char) : Option (Toml × List Char) := do
  let (ds, rest) ← digits? (isDigitOf base) cs
  pure (← integer? (valueOf base ds), rest)

/-- Reads the digits of a decimal number before its point: no zero before another digit. -/
def wholePart? : List Char → Option (List Char × List Char)
  | '0' :: rest => some (['0'], rest)
  | cs => digits? (isDigitOf 10) cs

/-- Reads the exponent of a float, if there is one. -/
def exponentPart? : List Char → Option (List Char)
  | [] => some []
  | c :: rest =>
    if c = 'e' ∨ c = 'E' then
      let rest := match rest with
        | '+' :: rest => rest
        | '-' :: rest => rest
        | rest => rest
      (digits? (isDigitOf 10) rest).map (·.2)
    else some (c :: rest)

/-- Reads a decimal number after its sign. -/
def decimal? (negative : Bool) (cs : List Char) : Option (Toml × List Char) := do
  let (ds, rest) ← wholePart? cs
  match rest with
  | '.' :: rest =>
    let (_, rest) ← digits? (isDigitOf 10) rest
    pure (.scalar, ← exponentPart? rest)
  | 'e' :: _ | 'E' :: _ => pure (.scalar, ← exponentPart? rest)
  | rest =>
    let n : Int := valueOf 10 ds
    pure (← integer? (if negative then -n else n), rest)

/-- Reads a number after its sign. -/
def unsigned? (negative : Bool) : List Char → Option (Toml × List Char)
  | 'i' :: 'n' :: 'f' :: rest => some (.scalar, rest)
  | 'n' :: 'a' :: 'n' :: rest => some (.scalar, rest)
  | cs => decimal? negative cs

/-- Reads a number. -/
def number? : List Char → Option (Toml × List Char)
  | '+' :: rest => unsigned? false rest
  | '-' :: rest => unsigned? true rest
  | '0' :: 'x' :: rest => basedInteger? 16 rest
  | '0' :: 'o' :: rest => basedInteger? 8 rest
  | '0' :: 'b' :: rest => basedInteger? 2 rest
  | cs => unsigned? false cs

/-- Reads a number of a fixed count of digits that lies between two bounds. -/
def field? (count low high : Nat) (cs : List Char) : Option (Nat × List Char) := do
  let ds := cs.take count
  guard (ds.length = count ∧ ds.all Char.isDigit)
  let n := valueOf 10 ds
  guard (low ≤ n ∧ n ≤ high)
  pure (n, cs.drop count)

/-- The text after a character that has to come next. -/
def expect? (c : Char) : List Char → Option (List Char)
  | d :: rest => if c = d then some rest else none
  | [] => none

/-- How many days a month has. -/
def daysOfMonth (year month : Nat) : Nat :=
  if month = 2 then
    if year % 4 = 0 ∧ (year % 100 ≠ 0 ∨ year % 400 = 0) then 29 else 28
  else if month = 4 ∨ month = 6 ∨ month = 9 ∨ month = 11 then 30 else 31

/-- The text after a date. -/
def date? (cs : List Char) : Option (List Char) := do
  let (year, cs) ← field? 4 0 9999 cs
  let (month, cs) ← field? 2 1 12 (← expect? '-' cs)
  let (_, cs) ← field? 2 1 (daysOfMonth year month) (← expect? '-' cs)
  pure cs

/-- The text after a time of day. -/
def time? (cs : List Char) : Option (List Char) := do
  let (_, cs) ← field? 2 0 23 cs
  let (_, cs) ← field? 2 0 59 (← expect? ':' cs)
  let (_, cs) ← field? 2 0 60 (← expect? ':' cs)
  match cs with
  | '.' :: rest =>
    guard (rest.takeWhile Char.isDigit ≠ [])
    pure (rest.dropWhile Char.isDigit)
  | cs => pure cs

/-- The text after the distance to universal time, if one comes next. -/
def skipOffset (cs : List Char) : List Char :=
  let distance (rest : List Char) : Option (List Char) := do
    let (_, rest) ← field? 2 0 23 rest
    let (_, rest) ← field? 2 0 59 (← expect? ':' rest)
    pure rest
  match cs with
  | 'Z' :: rest | 'z' :: rest => rest
  | '+' :: rest | '-' :: rest => (distance rest).getD cs
  | cs => cs

/-- The text after a date, a time, or both. -/
def dateTime? (cs : List Char) : Option (List Char) :=
  match date? cs with
  | none => time? cs
  | some rest =>
    let time := match rest with
      | 'T' :: more | 't' :: more | ' ' :: more => (time? more).map skipOffset
      | _ => none
    some (time.getD rest)

/-! ## Values -/

/-- Reads the items of a list after its opening bracket. A comma may follow the last. -/
def items? (item : List Char → Option (Toml × List Char)) :
    (fuel : Nat) → List Char → Option (List Toml × List Char)
  | 0, _ => none
  | fuel + 1, cs =>
    match skipLines (cs.length + 1) cs with
    | ']' :: rest => some ([], rest)
    | cs => do
      let (v, rest) ← item cs
      match skipLines (rest.length + 1) rest with
      | ',' :: rest =>
        let (vs, rest) ← items? item fuel rest
        pure (v :: vs, rest)
      | ']' :: rest => pure ([v], rest)
      | _ => none

/-- Reads the entries of a table on one line, of which there is one at least, and the closing
brace. -/
def members? (item : List Char → Option (Toml × List Char)) :
    (fuel : Nat) → Entries → List Char → Option (Entries × List Char)
  | 0, _, _ => none
  | fuel + 1, entries, cs => do
    let (key, rest) ← key? (cs.length + 1) cs
    let rest ← expect? '=' rest
    let (v, rest) ← item (skipBlanks rest)
    let entries ← insertDotted v key true entries
    match skipBlanks rest with
    | ',' :: rest => members? item fuel entries rest
    | '\x7d' :: rest => pure (entries, rest)
    | _ => none

/-- Reads a value whose lists and tables stand at most `levels` deep inside each other. -/
def value? : (levels : Nat) → List Char → Option (Toml × List Char)
  | _, '"' :: rest =>
    if atTripleQuote '"' ('"' :: rest) then
      (skipManyLines '"' true (rest.length + 1) (rest.drop 2)).map (.scalar, ·)
    else (basicString? (rest.length + 1) rest).map fun (_, rest) => (.scalar, rest)
  | _, '\'' :: rest =>
    if atTripleQuote '\'' ('\'' :: rest) then
      (skipManyLines '\'' false (rest.length + 1) (rest.drop 2)).map (.scalar, ·)
    else (literalString? rest).map fun (_, rest) => (.scalar, rest)
  | levels + 1, '[' :: rest => do
    let (vs, rest) ← items? (value? levels) (rest.length + 1) rest
    pure (.list vs, rest)
  | levels + 1, '\x7b' :: rest =>
    match skipBlanks rest with
    | '\x7d' :: rest => some (.table [], rest)
    | rest => do
      let (entries, rest) ← members? (value? levels) (rest.length + 1) [] rest
      pure (.table (finishEntries entries), rest)
  | _, 't' :: 'r' :: 'u' :: 'e' :: rest => some (.scalar, rest)
  | _, 'f' :: 'a' :: 'l' :: 's' :: 'e' :: rest => some (.scalar, rest)
  | _, cs =>
    match dateTime? cs with
    | some rest => some (.scalar, rest)
    | none => number? cs

/-- How deep lists and tables may stand inside each other in a value. -/
def maxLevels : Nat := 79

/-! ## Documents -/

/-- A document so far, and the path of the table that entries now join. -/
structure Draft where
  root : Entries := []
  path : List String := []

/-- Reads a header after its first bracket. -/
def header? (draft : Draft) (cs : List Char) : Option (Draft × List Char) := do
  let (isItem, cs) := match cs with
    | '[' :: rest => (true, rest)
    | cs => (false, cs)
  let (path, rest) ← key? (cs.length + 1) cs
  let rest ← expect? ']' rest
  let rest ← if isItem then expect? ']' rest else pure rest
  let key ← path.getLast?
  let start := if isItem then startItem key else startTable key
  let root ← updateAt start path.dropLast draft.root
  pure (⟨root, path⟩, rest)

/-- Reads a key and its value. -/
def entry? (draft : Draft) (cs : List Char) : Option (Draft × List Char) := do
  let (key, rest) ← key? (cs.length + 1) cs
  let rest ← expect? '=' rest
  let (v, rest) ← value? maxLevels (skipBlanks rest)
  let root ← updateAt (insertDotted v key true) draft.path draft.root
  pure ({ draft with root }, rest)

/-- Reads the lines of a document. -/
def lines? : (fuel : Nat) → Draft → List Char → Option Draft
  | 0, _, _ => none
  | fuel + 1, draft, cs => do
    let cs := skipBlanks cs
    let (draft, rest) ← match cs with
      | [] => some (draft, [])
      | '[' :: rest => header? draft rest
      | '#' :: _ | '\n' :: _ | '\r' :: _ => some (draft, cs)
      | cs => entry? draft cs
    match skipComment (skipBlanks rest) with
    | [] => some draft
    | rest => lines? fuel draft (← lineEnd? rest)

/-- Reads a document. -/
def parse? (s : String) : Option (List (String × Toml)) :=
  let cs := match s.toList with
    | '\uFEFF' :: rest => rest
    | cs => cs
  (lines? (cs.length + 2) {} cs).map fun draft => finishEntries draft.root

end Toml

end ScriptHost

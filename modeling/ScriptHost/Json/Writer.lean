import ScriptHost.Json.Basic
import ScriptHost.Text.Hex
/-!
Writing JSON: compactly, or one item a line with two blanks for each level.
-/
namespace ScriptHost.Json

/-- How a character is written inside a string. -/
def escapedChar (c : Char) : List Char :=
  match c with
  | '"' => ['\\', '"']
  | '\\' => ['\\', '\\']
  | '\x08' => ['\\', 'b']
  | '\x0c' => ['\\', 'f']
  | '\n' => ['\\', 'n']
  | '\r' => ['\\', 'r']
  | '\t' => ['\\', 't']
  | c => if c < ' ' then '\\' :: 'u' :: (Text.hexPadded 4 c.toNat).toList else [c]

/-- A string in quotes. -/
def quotedChars (s : String) : List Char :=
  '"' :: s.toList.flatMap escapedChar ++ ['"']

/-- The start of a line that is `level` levels deep. -/
def newLine (level : Nat) : List Char :=
  '\n' :: List.replicate (2 * level) ' '

/-- Puts `items` on lines of their own, `level` levels deep, between two brackets. -/
def bracketed (left right : Char) (level : Nat) (items : List (List Char)) : List Char :=
  if items.isEmpty then [left, right]
  else
    let line := newLine (level + 1)
    left :: (List.intersperse [','] (items.map (line ++ ·))).flatten ++ newLine level ++ [right]

mutual

/-- A value, one item a line, `level` levels deep. -/
def prettyChars (level : Nat) : Json → List Char
  | .null => ['n', 'u', 'l', 'l']
  | .bool true => ['t', 'r', 'u', 'e']
  | .bool false => ['f', 'a', 'l', 's', 'e']
  | .number n => n.chars
  | .text s => quotedChars (s.getD "")
  | .list items => bracketed '[' ']' level (prettyItems level items)
  | .object members => bracketed '\x7b' '\x7d' level (prettyMembers level members)

/-- The items of a list, one level deeper. -/
def prettyItems (level : Nat) : List Json → List (List Char)
  | [] => []
  | item :: rest => prettyChars (level + 1) item :: prettyItems level rest

/-- The members of an object, one level deeper. -/
def prettyMembers (level : Nat) : List (Option String × Json) → List (List Char)
  | [] => []
  | (key, value) :: rest =>
    (quotedChars (key.getD "") ++ ':' :: ' ' :: prettyChars (level + 1) value) ::
      prettyMembers level rest

end

/-- A value, one item a line. -/
def pretty (j : Json) : String :=
  .ofList (prettyChars 0 j)

mutual

/-- A value on one line, without blanks. -/
def compactChars : Json → List Char
  | .null => ['n', 'u', 'l', 'l']
  | .bool true => ['t', 'r', 'u', 'e']
  | .bool false => ['f', 'a', 'l', 's', 'e']
  | .number n => n.chars
  | .text s => quotedChars (s.getD "")
  | .list items => '[' :: (List.intersperse [','] (compactItems items)).flatten ++ [']']
  | .object members =>
    '\x7b' :: (List.intersperse [','] (compactMembers members)).flatten ++ ['\x7d']

/-- The items of a list on one line. -/
def compactItems : List Json → List (List Char)
  | [] => []
  | item :: rest => compactChars item :: compactItems rest

/-- The members of an object on one line. -/
def compactMembers : List (Option String × Json) → List (List Char)
  | [] => []
  | (key, value) :: rest =>
    (quotedChars (key.getD "") ++ ':' :: compactChars value) :: compactMembers rest

end

/-- A value on one line. -/
def compact (j : Json) : String :=
  .ofList (compactChars j)

end ScriptHost.Json

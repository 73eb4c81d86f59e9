import ScriptHost.Text.Hex
import ScriptHost.Text.Visible
/-!
Text in quotes, as diagnostics show it.
-/
namespace ScriptHost.Text

/-- How one character is written between quotes. -/
def quotedChar (c : Char) : List Char :=
  match c with
  | '"' => ['\\', '"']
  | '\\' => ['\\', '\\']
  | '\n' => ['\\', 'n']
  | '\r' => ['\\', 'r']
  | '\t' => ['\\', 't']
  | '\x00' => ['\\', '0']
  | c =>
    if isVisible c then [c]
    else ['\\', 'u', '\x7b'] ++ (hexDigits c.toNat).toList ++ ['\x7d']

/-- The text between quotes, with what would not be seen or would end it escaped. -/
def quoted (s : String) : String :=
  .ofList ('"' :: s.toList.flatMap quotedChar ++ ['"'])

end ScriptHost.Text

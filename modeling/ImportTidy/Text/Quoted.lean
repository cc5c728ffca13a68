/-
# ImportTidy.Text.Quoted — text between quotation marks, as messages show it

A quoted text shows every character so that it can be told from its neighbours: visible ones stand
for themselves, the quotation mark and the backslash follow a backslash, five control characters
have a letter, and any other character that does not show is written as its code point in braces.
-/
import ImportTidy.Text.Basic
import ImportTidy.Text.Visible

namespace ImportTidy

namespace Text

/-- One character of a quoted text. -/
def quotedChar (c : Char) : Text :=
  match c with
  | '\x00' => ['\\', '0']
  | '\t' => ['\\', 't']
  | '\r' => ['\\', 'r']
  | '\n' => ['\\', 'n']
  | '\\' => ['\\', '\\']
  | '"' => ['\\', '"']
  | c =>
    if isVisible c then [c]
    else ['\\', 'u', '\x7b'] ++ Nat.toDigits 16 c.toNat ++ ['\x7d']

/-- The text in quotation marks. -/
def quoted (t : Text) : Text := '"' :: t.flatMap quotedChar ++ ['"']

example : quoted "a\"b\x1bé'".toList = "\"a\\\"b\\u\x7b1b\x7dé'\"".toList := by decide +kernel

end Text

end ImportTidy

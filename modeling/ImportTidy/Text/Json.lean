/-
# ImportTidy.Text.Json — JSON text

A printer for JSON with one item a line and two blanks for each level. Empty lists and objects stay
on one line.
-/
import ImportTidy.Text.Basic

namespace ImportTidy

/-- A JSON value. -/
inductive Json where
  | number (n : Nat)
  | text (t : Text)
  | list (items : List Json)
  | object (members : List (Text × Json))

namespace Json

/-- A character inside of quotes. -/
def escapedChar (c : Char) : Text :=
  match c with
  | '"' => ['\\', '"']
  | '\\' => ['\\', '\\']
  | '\x08' => ['\\', 'b']
  | '\x0c' => ['\\', 'f']
  | '\n' => ['\\', 'n']
  | '\r' => ['\\', 'r']
  | '\t' => ['\\', 't']
  | c =>
    if c.toNat < 0x20 then
      ['\\', 'u', '0', '0', Nat.digitChar (c.toNat / 16), Nat.digitChar (c.toNat % 16)]
    else [c]

/-- A text in quotes. -/
def quotedText (t : Text) : Text := '"' :: t.flatMap escapedChar ++ ['"']

/-- The start of a line at a level. -/
def margin (level : Nat) : Text := '\n' :: List.replicate (2 * level) ' '

/-- Items between brackets, one a line. -/
def bracketed (opening closing : Char) (level : Nat) (items : List Text) : Text :=
  if items.isEmpty then [opening, closing]
  else
    opening :: Text.join [','] (items.map fun item => margin (level + 1) ++ item)
      ++ margin level ++ [closing]

mutual

/-- The value as text, at a level of nesting. -/
def printAt (level : Nat) : Json → Text
  | number n => Text.ofNat n
  | text t => quotedText t
  | list items => bracketed '[' ']' level (printItems (level + 1) items)
  | object members => bracketed '\x7b' '\x7d' level (printMembers (level + 1) members)

/-- The items of a list, each as text. -/
def printItems (level : Nat) : List Json → List Text
  | [] => []
  | item :: rest => printAt level item :: printItems level rest

/-- The members of an object, each as text. -/
def printMembers (level : Nat) : List (Text × Json) → List Text
  | [] => []
  | (name, v) :: rest =>
    (quotedText name ++ ": ".toList ++ printAt level v) :: printMembers level rest

end

/-- The value as text. -/
def print (j : Json) : Text := printAt 0 j

end Json

end ImportTidy

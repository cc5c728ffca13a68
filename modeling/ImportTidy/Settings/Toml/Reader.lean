/-
# ImportTidy.Settings.Toml.Reader — how TOML is written

A document is a sequence of lines: headers in brackets, entries of a key and a value, comments and
empty lines. Arrays may run over several lines; tables in braces may not. Nesting has a limit, and
so has the length of a key.
-/
import ImportTidy.Settings.Toml.Scalar
import ImportTidy.Settings.Toml.Tree

namespace ImportTidy.Toml

/-- Values may be nested less deep than this, and keys have fewer parts. -/
def depthLimit : Nat := 80

/-! ## Comments and line ends -/

/-- The text behind a comment, if one starts here. -/
def skipComment : Text → Text
  | '#' :: t => t.dropWhile isPlain
  | t => t

/-- The text behind the end of a line, which may hold blanks and a comment before. -/
def lineEnd? (t : Text) : Option Text :=
  match skipComment (skipSpace t) with
  | [] => some []
  | rest => newline? rest

/-- The text behind blanks, comments and line ends. The number bounds the comments left. -/
def skipGap : Nat → Text → Text
  | 0, t => t
  | n + 1, t =>
    match skipLines t with
    | '#' :: rest => skipGap n (rest.dropWhile isPlain)
    | rest => rest

/-- The text behind everything that may stand between the items of an array. -/
def skipBetween (t : Text) : Text := skipGap t.length t

/-! ## Keys -/

/-- A character of a key without quotes. -/
def isKeyChar (c : Char) : Bool := c.isAlphanum || c == '_' || c == '-'

/-- One part of a key. -/
def keyPart? : Text → Option (Text × Text)
  | '"' :: t => basic? t
  | '\'' :: t => literal? t
  | t =>
    let name := t.takeWhile isKeyChar
    if name.isEmpty then none else some (name, t.dropWhile isKeyChar)

/-- The parts of a key with dots between them, and blanks around each. The number bounds the parts
left. -/
def keyParts? : Nat → Text → Option (List Text × Text)
  | 0, _ => none
  | n + 1, t =>
    match keyPart? (skipSpace t) with
    | none => none
    | some (part, rest) =>
      match skipSpace rest with
      | '.' :: more => (keyParts? n more).map fun (parts, rest) => (part :: parts, rest)
      | rest => some ([part], rest)

/-- A key. -/
def key? (t : Text) : Option (List Text × Text) := keyParts? (depthLimit - 1) t

/-! ## Values -/

mutual

/-- A value at some depth. The first number bounds the steps left. -/
def valueAt? : Nat → (depth : Nat) → Text → Option (Value × Text)
  | 0, _, _ => none
  | n + 1, depth, t =>
    match t with
    | '"' :: _ | '\'' :: _ => (string? t).map fun (string, rest) => (.text string, rest)
    | '[' :: rest =>
      if depth + 1 < depthLimit then
        (items? n (depth + 1) rest).map fun (items, rest) => (.list items, rest)
      else none
    | '\x7b' :: rest =>
      if depth + 1 < depthLimit then
        match pairs? n (depth + 1) rest with
        | some (pairs, rest) => (braced? pairs).map fun v => (v, rest)
        | none => none
      else none
    | 't' :: 'r' :: 'u' :: 'e' :: rest => some (.flag true, rest)
    | 'f' :: 'a' :: 'l' :: 's' :: 'e' :: rest => some (.flag false, rest)
    | _ => number? t

/-- The items of an array, up to its closing bracket. -/
def items? : Nat → (depth : Nat) → Text → Option (List Value × Text)
  | 0, _, _ => none
  | n + 1, depth, t =>
    match skipBetween t with
    | ']' :: rest => some ([], rest)
    | t =>
      match valueAt? n depth t with
      | none => none
      | some (v, rest) =>
        match skipBetween rest with
        | ',' :: more => (items? n depth more).map fun (items, rest) => (v :: items, rest)
        | ']' :: rest => some ([v], rest)
        | _ => none

/-- The entries of a table in braces, up to its closing brace. -/
def pairs? : Nat → (depth : Nat) → Text → Option (List (List Text × Value) × Text)
  | 0, _, _ => none
  | n + 1, depth, t =>
    match skipSpace t with
    | '\x7d' :: rest => some ([], rest)
    | t => morePairs? n depth t

/-- At least one entry of a table in braces, up to its closing brace. -/
def morePairs? : Nat → (depth : Nat) → Text → Option (List (List Text × Value) × Text)
  | 0, _, _ => none
  | n + 1, depth, t =>
    match key? t with
    | some (key, '=' :: rest) =>
      match valueAt? n depth (skipSpace rest) with
      | none => none
      | some (v, rest) =>
        match skipSpace rest with
        | ',' :: more =>
          (morePairs? n depth more).map fun (pairs, rest) => ((key, v) :: pairs, rest)
        | '\x7d' :: rest => some ([(key, v)], rest)
        | _ => none
    | _ => none

end

/-- A value. Every step of reading one passes a character or goes one level down between two that
do, so three steps for each character suffice. -/
def value? (t : Text) : Option (Value × Text) := valueAt? (3 * t.length + 3) 0 t

/-! ## Lines -/

/-- The line that starts here, if it says something, and the text behind it. -/
def line? : Text → Option (Option Line × Text)
  | '#' :: t => (lineEnd? ('#' :: t)).map fun rest => (none, rest)
  | '\n' :: t => some (none, t)
  | '\r' :: t => (newline? ('\r' :: t)).map fun rest => (none, rest)
  | '[' :: '[' :: t =>
    match key? t with
    | some (path, ']' :: ']' :: rest) =>
      (lineEnd? rest).map fun rest => (some (.element path), rest)
    | _ => none
  | '[' :: t =>
    match key? t with
    | some (path, ']' :: rest) => (lineEnd? rest).map fun rest => (some (.table path), rest)
    | _ => none
  | t =>
    match key? t with
    | some (key, '=' :: rest) =>
      match value? (skipSpace rest) with
      | some (v, rest) => (lineEnd? rest).map fun rest => (some (.entry key v), rest)
      | none => none
    | _ => none

/-- The lines of a text. The number bounds the lines left. -/
def linesFrom? : Nat → Text → Option (List Line)
  | 0, _ => none
  | n + 1, t =>
    match skipSpace t with
    | [] => some []
    | t =>
      match line? t with
      | none => none
      | some (some line, rest) => (linesFrom? n rest).map fun lines => line :: lines
      | some (none, rest) => linesFrom? n rest

/-- The table that a TOML text describes. A byte order mark at its start does not count. -/
def read? (t : Text) : Option Value :=
  let t := match t with
    | '\uFEFF' :: rest => rest
    | t => t
  (linesFrom? (t.length + 1) t).bind Document.ofLines?

end ImportTidy.Toml

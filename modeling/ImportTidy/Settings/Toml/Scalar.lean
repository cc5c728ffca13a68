/-
# ImportTidy.Settings.Toml.Scalar — strings and numbers of TOML

Each reader takes the text from where its value starts and answers the value with the text behind
it, or nothing when there is no such value there.
-/
import ImportTidy.Settings.Value

namespace ImportTidy.Toml

/-! ## Characters -/

/-- A blank inside of a line. -/
def isSpace (c : Char) : Bool := c == ' ' || c == '\t'

/-- A character that may stand in strings and comments: no control character but the tab. -/
def isPlain (c : Char) : Bool := c == '\t' || (0x20 ≤ c.toNat && c.toNat != 0x7F)

/-- The text behind the blanks. -/
def skipSpace (t : Text) : Text := t.dropWhile isSpace

/-- The text behind a line end. -/
def newline? : Text → Option Text
  | '\n' :: t => some t
  | '\r' :: '\n' :: t => some t
  | _ => none

/-- The text behind blanks and line ends. -/
def skipLines : Text → Text
  | '\n' :: t => skipLines t
  | '\r' :: '\n' :: t => skipLines t
  | c :: t => if isSpace c then skipLines t else c :: t
  | [] => []

theorem length_skipLines (t : Text) : (skipLines t).length ≤ t.length := by
  fun_induction skipLines t <;> simp_all <;> omega

/-! ## Strings -/

/-- The character that a letter behind a backslash stands for. -/
def escaped? : Char → Option Char
  | 'b' => some '\x08'
  | 't' => some '\t'
  | 'n' => some '\n'
  | 'f' => some '\x0c'
  | 'r' => some '\r'
  | '"' => some '"'
  | '\\' => some '\\'
  | _ => none

/-- Puts a character in front of a string that has been read. -/
def prepend (c? : Option Char) (read : Option (Text × Text)) : Option (Text × Text) :=
  match c?, read with
  | some c, some (string, rest) => some (c :: string, rest)
  | _, _ => none

/-- A string behind its opening double quote. -/
def basic? : Text → Option (Text × Text)
  | '"' :: t => some ([], t)
  | '\\' :: 'u' :: a :: b :: c :: d :: t => prepend (Text.coded? [a, b, c, d]) (basic? t)
  | '\\' :: 'U' :: a :: b :: c :: d :: e :: f :: g :: h :: t =>
    prepend (Text.coded? [a, b, c, d, e, f, g, h]) (basic? t)
  | '\\' :: c :: t => prepend (escaped? c) (basic? t)
  | c :: t => if isPlain c then prepend (some c) (basic? t) else none
  | [] => none

/-- A string behind its opening single quote; nothing is escaped in it. -/
def literal? : Text → Option (Text × Text)
  | '\'' :: t => some ([], t)
  | c :: t => if isPlain c then prepend (some c) (literal? t) else none
  | [] => none

/-- A string of several lines behind its opening quotes. A backslash at the end of a line joins it
with the next text. Up to two quotes may stand before the closing ones. -/
def longBasic? : Text → Option (Text × Text)
  | '"' :: '"' :: '"' :: '"' :: '"' :: t => some (['"', '"'], t)
  | '"' :: '"' :: '"' :: '"' :: t => some (['"'], t)
  | '"' :: '"' :: '"' :: t => some ([], t)
  | '\\' :: 'u' :: a :: b :: c :: d :: t => prepend (Text.coded? [a, b, c, d]) (longBasic? t)
  | '\\' :: 'U' :: a :: b :: c :: d :: e :: f :: g :: h :: t =>
    prepend (Text.coded? [a, b, c, d, e, f, g, h]) (longBasic? t)
  | '\\' :: c :: t =>
    if (newline? (skipSpace (c :: t))).isSome then longBasic? (skipLines (c :: t))
    else prepend (escaped? c) (longBasic? t)
  | '\n' :: t => prepend (some '\n') (longBasic? t)
  | '\r' :: '\n' :: t => prepend (some '\n') (longBasic? t)
  | c :: t => if isPlain c then prepend (some c) (longBasic? t) else none
  | [] => none
termination_by t => t.length
decreasing_by
  all_goals first
    | (simp only [List.length_cons]; omega)
    | exact Nat.lt_of_le_of_lt (length_skipLines _) (by simp only [List.length_cons]; omega)

/-- A string of several lines behind its opening single quotes. -/
def longLiteral? : Text → Option (Text × Text)
  | '\'' :: '\'' :: '\'' :: '\'' :: '\'' :: t => some (['\'', '\''], t)
  | '\'' :: '\'' :: '\'' :: '\'' :: t => some (['\''], t)
  | '\'' :: '\'' :: '\'' :: t => some ([], t)
  | '\n' :: t => prepend (some '\n') (longLiteral? t)
  | '\r' :: '\n' :: t => prepend (some '\n') (longLiteral? t)
  | c :: t => if isPlain c then prepend (some c) (longLiteral? t) else none
  | [] => none

/-- A string of any kind. A line end right behind the opening quotes of a long one does not
count. -/
def string? : Text → Option (Text × Text)
  | '"' :: '"' :: '"' :: t => longBasic? ((newline? t).getD t)
  | '"' :: t => basic? t
  | '\'' :: '\'' :: '\'' :: t => longLiteral? ((newline? t).getD t)
  | '\'' :: t => literal? t
  | _ => none

/-! ## Numbers -/

/-- Digits, with single underscores between them. -/
def moreDigits (isDigit : Char → Bool) : Text → Text × Text
  | '_' :: c :: t =>
    if isDigit c then
      match moreDigits isDigit t with
      | (digits, rest) => (c :: digits, rest)
    else ([], '_' :: c :: t)
  | c :: t =>
    if isDigit c then
      match moreDigits isDigit t with
      | (digits, rest) => (c :: digits, rest)
    else ([], c :: t)
  | [] => ([], [])

/-- At least one digit. -/
def digits? (isDigit : Char → Bool) : Text → Option (Text × Text)
  | c :: t =>
    if isDigit c then
      match moreDigits isDigit t with
      | (digits, rest) => some (c :: digits, rest)
    else none
  | [] => none

/-- The digits of a decimal number; a zero at the start stands alone. -/
def decimal? : Text → Option (Text × Text)
  | '0' :: t => some (['0'], t)
  | t => digits? Char.isDigit t

/-- A digit of a base up to sixteen. -/
def isDigitOf (base : Nat) (c : Char) : Bool :=
  match Text.hexDigit? c with
  | some d => d < base
  | none => false

/-- The number that digits of a base stand for. -/
def valueOf (base : Nat) (digits : Text) : Nat :=
  digits.foldl (fun n c => base * n + (Text.hexDigit? c).getD 0) 0

/-- A whole number within 64 bits and a sign. -/
def whole? (negative : Bool) (n : Nat) : Option Value :=
  let limit := 0x8000000000000000
  if negative then if n ≤ limit then some (.whole (-(n : Int))) else none
  else if n < limit then some (.whole n) else none

/-- A number in the base that its letter gives, behind that letter. -/
def based? (base : Nat) (t : Text) : Option (Value × Text) :=
  match digits? (isDigitOf base) t with
  | some (digits, rest) => (whole? false (valueOf base digits)).map fun v => (v, rest)
  | none => none

/-- The fraction of a number: its digits behind the point, none when there is no point. -/
def fraction? : Text → Option (Text × Text)
  | '.' :: t => digits? Char.isDigit t
  | t => some ([], t)

/-- The exponent of a number: its sign and digits, none when there is no exponent. -/
def exponent? : Text → Option (Int × Text)
  | 'e' :: t | 'E' :: t =>
    let (negative, t) := match t with
      | '-' :: t => (true, t)
      | '+' :: t => (false, t)
      | t => (false, t)
    (digits? Char.isDigit t).map fun (digits, rest) =>
      let n : Int := Text.digitsValue digits
      (if negative then -n else n, rest)
  | t => some (0, t)

/-- The least number that rounds to no finite one of double precision. -/
def realLimit : Nat := Nat.pow 2 1024 - Nat.pow 2 970

/-- The decimal `mantissa · 10 ^ exponent` is too large for double precision. -/
def isTooLarge (mantissa : Nat) (exponent : Int) : Bool :=
  if mantissa = 0 then false
  else
    match exponent with
    | .ofNat e => if 309 ≤ e then true else realLimit ≤ mantissa * Nat.pow 10 e
    | .negSucc e =>
      if (Text.ofNat mantissa).length ≤ e + 1 then false else realLimit * Nat.pow 10 (e + 1) ≤ mantissa

/-- A decimal number behind its sign. -/
def unsigned? (negative : Bool) (t : Text) : Option (Value × Text) := do
  let (whole, t) ← decimal? t
  let (fraction, behind) ← fraction? t
  let (exponent, rest) ← exponent? behind
  if rest.length = t.length then
    return (← whole? negative (Text.digitsValue whole), t)
  else if isTooLarge (Text.digitsValue (whole ++ fraction)) (exponent - fraction.length) then none
  else return (.real, rest)

/-- A number that is no decimal: infinity, or what is none. -/
def special? : Text → Option Text
  | 'i' :: 'n' :: 'f' :: t => some t
  | 'n' :: 'a' :: 'n' :: t => some t
  | _ => none

/-- A number behind its sign. -/
def signed? (negative : Bool) (t : Text) : Option (Value × Text) :=
  match special? t with
  | some rest => some (.real, rest)
  | none => unsigned? negative t

/-- A number. -/
def number? : Text → Option (Value × Text)
  | '0' :: 'x' :: t => based? 16 t
  | '0' :: 'o' :: t => based? 8 t
  | '0' :: 'b' :: t => based? 2 t
  | '-' :: t => signed? true t
  | '+' :: t => signed? false t
  | t => signed? false t

end ImportTidy.Toml

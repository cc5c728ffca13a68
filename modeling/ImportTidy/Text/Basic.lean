/-
# ImportTidy.Text.Basic — cutting, searching and joining text

The operations that the rest of the library is written in. Each is a recursion over the text (or a
composition of list operations), and each has one small lemma that says what it computes: a cut
loses nothing (`cutLast?_eq_some`), a search finds exactly the infixes (`occurs_iff`), a lead is
dropped exactly where it stands (`after?_eq_some`).
-/
import ImportTidy.Text.Blank

namespace ImportTidy

namespace Text

/-! ## Leads and occurrences -/

/-- What follows `lead` in a text that starts with it. -/
def after? : Text → Text → Option Text
  | [], t => some t
  | c :: lead, d :: t => if c = d then after? lead t else none
  | _ :: _, [] => none

theorem after?_eq_some {lead t rest : Text} : after? lead t = some rest ↔ t = lead ++ rest := by
  fun_induction after? lead t <;> simp_all [eq_comm]

/-- The text `needle` stands somewhere in the given text. -/
def occurs (needle : Text) : Text → Bool
  | [] => needle.isEmpty
  | c :: t => needle.isPrefixOf (c :: t) || occurs needle t

theorem occurs_iff {needle t : Text} : occurs needle t = true ↔ needle <:+: t := by
  induction t with
  | nil => simp [occurs]
  | cons c t ih => simp [occurs, ih, List.infix_cons_iff]

/-- The text with the first occurrence of `needle` replaced; a text without one stays as it is. -/
def replaceFirst (needle replacement : Text) : Text → Text
  | [] => if needle.isEmpty then replacement else []
  | c :: t =>
    match after? needle (c :: t) with
    | some rest => replacement ++ rest
    | none => c :: replaceFirst needle replacement t

/-- The text with every occurrence of `first :: more` replaced, from left to right and without
overlap. The number bounds the steps left. -/
def replaceAllFrom (first : Char) (more replacement : Text) : Nat → Text → Text
  | 0, t => t
  | _ + 1, [] => []
  | n + 1, c :: t =>
    match after? (first :: more) (c :: t) with
    | some rest => replacement ++ replaceAllFrom first more replacement n rest
    | none => c :: replaceAllFrom first more replacement n t

/-- The text with every occurrence of `needle` replaced, from left to right and without overlap.
Of the empty needle no occurrence is replaced. -/
def replaceAll (needle replacement t : Text) : Text :=
  match needle with
  | [] => t
  | first :: more => replaceAllFrom first more replacement t.length t

/-! ## Cuts -/

/-- The text before and after the last `c`. -/
def cutLast? (c : Char) : Text → Option (Text × Text)
  | [] => none
  | d :: t =>
    match cutLast? c t with
    | some (before, behind) => some (d :: before, behind)
    | none => if d = c then some ([], t) else none

theorem cutLast?_eq_none {c : Char} {t : Text} : cutLast? c t = none ↔ c ∉ t := by
  fun_induction cutLast? c t <;> grind

theorem cutLast?_eq_some {c : Char} {t before behind : Text} :
    cutLast? c t = some (before, behind) ↔ t = before ++ c :: behind ∧ c ∉ behind := by
  fun_induction cutLast? c t generalizing before behind with
  | case1 => simp
  | case2 d t b e h ih =>
    have hm : c ∈ t := by simp [((@ih b e).1 h).1]
    cases before with
    | nil =>
      simp only [List.nil_append, Option.some.injEq, Prod.mk.injEq, List.cons.injEq, reduceCtorEq,
        false_and, false_iff, not_and, and_imp]
      rintro - rfl hn
      exact hn hm
    | cons x before => grind
  | case3 t h ih =>
    have := cutLast?_eq_none.1 h
    cases before <;> grind
  | case4 d t h hd ih =>
    have := cutLast?_eq_none.1 h
    cases before <;> grind

/-- The text before and after the first `c`. -/
def cutFirst? (c : Char) : Text → Option (Text × Text)
  | [] => none
  | d :: t =>
    if d = c then some ([], t)
    else (cutFirst? c t).map fun p => (d :: p.1, p.2)

/-- The lines of a text. A line ends at a line feed, a carriage return just before it belongs to
the line's end, and what follows the last line feed is a line unless it is empty. -/
def lines : Text → List Text
  | [] => []
  | '\n' :: t => [] :: lines t
  | '\r' :: '\n' :: t => [] :: lines t
  | c :: t =>
    match lines t with
    | [] => [[c]]
    | line :: more => (c :: line) :: more

/-! ## Blank margins -/

/-- The text without the blanks at its start. -/
def trimStart (t : Text) : Text := t.dropWhile isBlank

/-- The text without the blanks at its end. -/
def trimEnd (t : Text) : Text := (t.reverse.dropWhile isBlank).reverse

/-- The text without blanks at either end. -/
def trim (t : Text) : Text := trimEnd (trimStart t)

/-- There is nothing but blanks in the text. -/
def isBlankText (t : Text) : Bool := t.all isBlank

/-! ## Joining, order and numerals -/

/-- The parts one after another, with `separator` between each two. -/
def join (separator : Text) (parts : List Text) : Text := List.intercalate separator parts

/-- The order of texts by their code points; of two texts of which one starts the other, the
shorter comes first. -/
def compare : Text → Text → Ordering
  | [], [] => .eq
  | [], _ :: _ => .lt
  | _ :: _, [] => .gt
  | c :: s, d :: t =>
    if c.toNat < d.toNat then .lt
    else if d.toNat < c.toNat then .gt
    else compare s t

/-- A number in decimal. -/
def ofNat (n : Nat) : Text := Nat.toDigits 10 n

/-- The number that a row of decimal digits stands for. -/
def digitsValue (digits : Text) : Nat :=
  digits.foldl (fun n c => 10 * n + (c.toNat - '0'.toNat)) 0

/-- A row of decimal digits as a number, with an optional plus sign before it. -/
def toNat? (t : Text) : Option Nat :=
  let digits := match t with
    | '+' :: rest => rest
    | other => other
  if digits.isEmpty || !digits.all Char.isDigit then none
  else some (digitsValue digits)

/-- The value of a hexadecimal digit. -/
def hexDigit? (c : Char) : Option Nat :=
  if c.isDigit then some (c.toNat - '0'.toNat)
  else if 'a' ≤ c && c ≤ 'f' then some (c.toNat - 'a'.toNat + 10)
  else if 'A' ≤ c && c ≤ 'F' then some (c.toNat - 'A'.toNat + 10)
  else none

/-- The character with the code that the hexadecimal digits give. -/
def coded? (digits : Text) : Option Char := do
  let values ← digits.mapM hexDigit?
  let code := values.foldl (fun n d => 16 * n + d) 0
  if code.isValidChar then some (Char.ofNat code) else none

end Text

end ImportTidy

/-
# ImportTidy.Pattern.Reader — how patterns are written

A pattern is read from left to right with the groups that are still open on a stack. The language
has literal characters, also by their codes, `.`, sets in brackets with their signs `&& -- ~~` and the
named classes of ASCII, the classes `\d \w \s` and their complements, the anchors `^ $ \b \B \A \z`,
the repetitions `* + ? {n} {n,} {n,m}` with a lazy form of each, alternatives, plain groups and named
groups. What does not belong to it is refused: flags as in `(?i)`, the Unicode properties `\p{..}`, and
the one-sided word edges `\< \> \b{start}`. A pattern may have any size.
-/
import ImportTidy.Pattern.Basic
import ImportTidy.Text.Basic

namespace ImportTidy

/-- A pattern with the names of its groups. -/
structure NamedPattern where
  body : Pattern
  /-- The named groups, by name and number. -/
  names : List (Text × Nat)
  deriving DecidableEq, Repr

namespace Pattern

/-! ## Escapes -/

/-- What a backslash and a character stand for inside and outside of brackets. -/
inductive Escape where
  | literal (c : Char)
  | set (s : CharSet)
  | anchor (p : Pattern)

/-- A punctuation character that stands for itself behind a backslash. -/
def isEscapable (c : Char) : Bool :=
  c.toNat < 0x80 && !c.isAlphanum && c != '<' && c != '>'

/-- The meaning of a backslash followed by the character alone. -/
def signEscape? (c : Char) : Option Escape :=
  match c with
  | 'd' => some (.set .digit)
  | 'D' => some (.set (.complement .digit))
  | 'w' => some (.set .word)
  | 'W' => some (.set (.complement .word))
  | 's' => some (.set .blank)
  | 'S' => some (.set (.complement .blank))
  | 'b' => some (.anchor (.wordEdge false))
  | 'B' => some (.anchor (.wordEdge true))
  | 'A' => some (.anchor .textStart)
  | 'z' => some (.anchor .textEnd)
  | 'a' => some (.literal '\x07')
  | 'f' => some (.literal '\x0c')
  | 't' => some (.literal '\t')
  | 'n' => some (.literal '\n')
  | 'r' => some (.literal '\r')
  | 'v' => some (.literal '\x0b')
  | c => if isEscapable c then some (.literal c) else none

/-- The number of digits behind a letter that announces the code of a character. -/
def codeWidth? : Char → Option Nat
  | 'x' => some 2
  | 'u' => some 4
  | 'U' => some 8
  | _ => none

/-- A character by its code: so many hexadecimal digits, or any number of them between braces. -/
def coded? (width : Nat) : Text → Option (Char × Text)
  | '\x7b' :: t =>
    match Text.cutFirst? '\x7d' t with
    | some (c :: digits, t) => (Text.coded? (c :: digits)).map fun d => (d, t)
    | _ => none
  | t =>
    if t.length < width then none
    else (Text.coded? (t.take width)).map fun d => (d, t.drop width)

/-- What stands behind a backslash, and the text after it. -/
def escape? : Text → Option (Escape × Text)
  | [] => none
  | c :: t =>
    match codeWidth? c with
    | some width => (coded? width t).map fun (d, t) => (.literal d, t)
    | none => (signEscape? c).map fun e => (e, t)

/-! ## Sets in brackets -/

/-- One item of a set: a character, or a class behind a backslash. -/
def setItem? : Text → Option ((Char ⊕ CharSet) × Text)
  | '\\' :: t =>
    match escape? t with
    | some (.literal d, t) => some (.inl d, t)
    | some (.set s, t) => some (.inr s, t)
    | _ => none
  | c :: t => some (.inl c, t)
  | [] => none

/-- An item of a set or a range of characters. In front of a hyphen or the closing bracket, a hyphen
makes no range. -/
def setPart? (t : Text) : Option (CharSet × Text) :=
  match setItem? t with
  | none => none
  | some (item, '-' :: next :: t) =>
    if next = ']' || next = '-' then some (item.elim .single id, '-' :: next :: t)
    else
      match item, setItem? (next :: t) with
      | .inl first, some (.inl last, t) =>
        if first.toNat ≤ last.toNat then some (.range first last, t) else none
      | _, _ => none
  | some (item, t) => some (item.elim .single id, t)

/-- The classes of ASCII that have a name, by the ranges of their characters. -/
def asciiClasses : List (Text × List (Char × Char)) :=
  [("alnum".toList, [('0', '9'), ('A', 'Z'), ('a', 'z')]),
    ("alpha".toList, [('A', 'Z'), ('a', 'z')]),
    ("ascii".toList, [('\x00', '\x7f')]),
    ("blank".toList, [('\t', '\t'), (' ', ' ')]),
    ("cntrl".toList, [('\x00', '\x1f'), ('\x7f', '\x7f')]),
    ("digit".toList, [('0', '9')]),
    ("graph".toList, [('!', '~')]),
    ("lower".toList, [('a', 'z')]),
    ("print".toList, [(' ', '~')]),
    ("punct".toList, [('!', '/'), (':', '@'), ('[', '\x60'), ('\x7b', '~')]),
    ("space".toList, [('\t', '\r'), (' ', ' ')]),
    ("upper".toList, [('A', 'Z')]),
    ("word".toList, [('0', '9'), ('A', 'Z'), ('_', '_'), ('a', 'z')]),
    ("xdigit".toList, [('0', '9'), ('A', 'F'), ('a', 'f')])]

/-- A sign that says to take the complement, and the text behind it. -/
def complementSign : Text → Bool × Text
  | '^' :: t => (true, t)
  | t => (false, t)

/-- A class of ASCII behind its opening bracket: its name between colons, and the closing bracket. -/
def asciiClass? : Text → Option (CharSet × Text)
  | ':' :: t =>
    let (negated, t) := complementSign t
    match Text.cutFirst? ':' t with
    | some (name, ']' :: t) =>
      (asciiClasses.lookup name).map fun ranges =>
        let s := ranges.foldl (fun s bounds => .union s (.range bounds.1 bounds.2)) CharSet.empty
        (if negated then .complement s else s, t)
    | _ => none
  | _ => none

/-- What may stand between two sets. -/
inductive SetSign where
  | intersection
  | difference
  | symmetricDifference

/-- The sign at the start of a text, and the text behind it. -/
def setSign? : Text → Option (SetSign × Text)
  | '&' :: '&' :: t => some (.intersection, t)
  | '-' :: '-' :: t => some (.difference, t)
  | '~' :: '~' :: t => some (.symmetricDifference, t)
  | _ => none

/-- The set that two sets with the sign between them stand for. -/
def SetSign.join : SetSign → CharSet → CharSet → CharSet
  | .intersection, s, t => .inter s t
  | .difference, s, t => .inter s (.complement t)
  | .symmetricDifference, s, t => .union (.inter s (.complement t)) (.inter t (.complement s))

/-- A set whose bracket is still open: what it holds since its last sign, whether it is complemented,
and the set before that sign. -/
structure OpenSet where
  held : CharSet
  negated : Bool
  before : Option (CharSet × SetSign)

/-- What the set holds with all its signs. -/
def OpenSet.whole (s : OpenSet) : CharSet :=
  match s.before with
  | none => s.held
  | some (t, sign) => sign.join t s.held

/-- The set when its bracket closes. -/
def OpenSet.close (s : OpenSet) : CharSet := if s.negated then .complement s.whole else s.whole

/-- The set with more characters. -/
def OpenSet.add (s : OpenSet) (more : CharSet) : OpenSet := { s with held := .union s.held more }

/-- The set behind a sign. -/
def OpenSet.cut (s : OpenSet) (sign : SetSign) : OpenSet :=
  { s with held := .empty, before := some (s.whole, sign) }

/-- The hyphens at the start of a set stand for themselves. -/
def leadingHyphens (s : OpenSet) : Text → OpenSet × Text
  | '-' :: t => leadingHyphens (s.add (.single '-')) t
  | t => (s, t)

/-- A set that opens behind its bracket: an optional complement sign, then hyphens, then a bracket
that would close nothing, for themselves. -/
def openSet (t : Text) : OpenSet × Text :=
  let (negated, t) := complementSign t
  match leadingHyphens ⟨.empty, negated, none⟩ t with
  | (s, ']' :: t) => if s.held = .empty then (s.add (.single ']'), t) else (s, ']' :: t)
  | other => other

/-- The rest of a set, with the sets around it on a stack. The number bounds the parts left. -/
def closeSet? : Nat → OpenSet → List OpenSet → Text → Option (CharSet × Text)
  | 0, _, _, _ => none
  | _ + 1, _, _, [] => none
  | _ + 1, s, [], ']' :: t => some (s.close, t)
  | n + 1, s, outer :: stack, ']' :: t => closeSet? n (outer.add s.close) stack t
  | n + 1, s, stack, '[' :: t =>
    match asciiClass? t with
    | some (named, t) => closeSet? n (s.add named) stack t
    | none =>
      let (inner, t) := openSet t
      closeSet? n inner (s :: stack) t
  | n + 1, s, stack, t =>
    match setSign? t with
    | some (sign, t) => closeSet? n (s.cut sign) stack t
    | none =>
      match setPart? t with
      | some (part, t) => closeSet? n (s.add part) stack t
      | none => none

/-- A set behind its opening bracket. -/
def set? (t : Text) : Option (CharSet × Text) :=
  let (s, rest) := openSet t
  closeSet? (rest.length + 1) s [] rest

/-! ## Repetitions -/

/-- A number between optional blanks. -/
def count? (t : Text) : Option (Nat × Text) :=
  let t := Text.trimStart t
  let digits := t.takeWhile Char.isDigit
  let n := Text.digitsValue digits
  if digits.isEmpty || 0xFFFFFFFF < n then none
  else some (n, Text.trimStart (t.dropWhile Char.isDigit))

/-- The bounds of a counted repetition behind its opening brace. -/
def bounds? (t : Text) : Option ((Nat × Option Nat) × Text) :=
  match count? t with
  | some (n, '\x7d' :: t) => some ((n, some n), t)
  | some (n, ',' :: t) =>
    match Text.trimStart t with
    | '\x7d' :: t => some ((n, none), t)
    | t =>
      match count? t with
      | some (m, '\x7d' :: t) => if n ≤ m then some ((n, some m), t) else none
      | _ => none
  | _ => none

/-- The bounds that a repetition sign gives. -/
def repetition? : Text → Option ((Nat × Option Nat) × Text)
  | '*' :: t => some ((0, none), t)
  | '+' :: t => some ((1, none), t)
  | '?' :: t => some ((0, some 1), t)
  | '\x7b' :: t => bounds? t
  | _ => none

/-- The character opens a repetition. -/
def isRepetitionSign (c : Char) : Bool := c = '*' || c = '+' || c = '?' || c = '\x7b'

/-! ## Groups -/

/-- A character that the name of a group may start with. -/
def isNameStart (c : Char) : Bool := c = '_' || (Text.isWord c && !Text.isDigit c)

/-- A character that the name of a group may go on with. -/
def isNameChar (c : Char) : Bool :=
  c = '.' || c = '[' || c = ']' || Text.isWord c

/-- The name of a group, up to its closing bracket. -/
def groupName? (t : Text) : Option (Text × Text) :=
  match Text.cutFirst? '>' t with
  | some (c :: name, rest) =>
    if isNameStart c && name.all isNameChar then some (c :: name, rest) else none
  | _ => none

/-- What a parenthesis opens. -/
inductive Opening where
  /-- A group that remembers nothing. -/
  | plain
  /-- A group that remembers its match under a number. -/
  | numbered
  /-- A group with a name besides its number. -/
  | named (name : Text)

/-- What stands behind an opening parenthesis, and the text after it. -/
def opening? : Text → Option (Opening × Text)
  | '?' :: ':' :: t => some (.plain, t)
  | '?' :: 'P' :: '<' :: t => (groupName? t).map fun (name, t) => (.named name, t)
  | '?' :: '<' :: t => (groupName? t).map fun (name, t) => (.named name, t)
  | '?' :: _ => none
  | t => some (.numbered, t)

/-! ## The reader -/

/-- A level of the pattern: the alternatives before the current one and the items of the current
one, each list with its last element first. -/
structure Level where
  /-- The number of the group that the level is the body of; none for a plain group. -/
  group : Option Nat
  alternatives : List Pattern
  items : List Pattern

/-- The pattern of a level. -/
def Level.pattern (l : Level) : Pattern :=
  eithers ((seqs l.items.reverse :: l.alternatives).reverse)

/-- The level with one more item. -/
def Level.push (l : Level) (p : Pattern) : Level := { l with items := p :: l.items }

/-- The pattern of a level that closes. -/
def Level.close (l : Level) : Pattern :=
  match l.group with
  | some index => .group index l.pattern
  | none => l.pattern

/-- How far the reader is: the level it works on, those around it, and the groups so far. -/
structure Progress where
  level : Level
  outer : List Level
  groups : Nat
  names : List (Text × Nat)

/-- The reader with one more item on its level. -/
def Progress.push (r : Progress) (p : Pattern) : Progress := { r with level := r.level.push p }

/-- The reader behind an opening parenthesis. -/
def Progress.enter? (r : Progress) : Opening → Option Progress
  | .plain => some { r with level := ⟨none, [], []⟩, outer := r.level :: r.outer }
  | .numbered =>
    some { r with
      level := ⟨some (r.groups + 1), [], []⟩, outer := r.level :: r.outer, groups := r.groups + 1 }
  | .named name =>
    if r.names.any fun entry => entry.1 == name then none
    else some
      { level := ⟨some (r.groups + 1), [], []⟩, outer := r.level :: r.outer,
        groups := r.groups + 1, names := r.names ++ [(name, r.groups + 1)] }

/-- The reader behind a closing parenthesis. -/
def Progress.leave? (r : Progress) : Option Progress :=
  match r.outer with
  | [] => none
  | around :: outer => some { r with level := around.push r.level.close, outer := outer }

/-- The reader behind a repetition of the last item. -/
def Progress.repeat? (r : Progress) (bounds : Nat × Option Nat) (eager : Bool) : Option Progress :=
  match r.level.items with
  | [] => none
  | p :: items =>
    some { r with level := { r.level with items := .many p bounds.1 bounds.2 eager :: items } }

/-- One sign of the pattern, and the text behind it. -/
def Progress.step? (r : Progress) : Text → Option (Progress × Text)
  | [] => none
  | '(' :: t =>
    match opening? t with
    | some (opening, t) => (r.enter? opening).map fun r => (r, t)
    | none => none
  | ')' :: t => r.leave?.map fun r => (r, t)
  | '|' :: t =>
    some ({ r with level :=
      { r.level with alternatives := seqs r.level.items.reverse :: r.level.alternatives,
                     items := [] } }, t)
  | '[' :: t => (set? t).map fun (s, t) => (r.push (.char s), t)
  | '.' :: t => some (r.push (.char .inLine), t)
  | '^' :: t => some (r.push .textStart, t)
  | '$' :: t => some (r.push .textEnd, t)
  | '\\' :: t =>
    match escape? t with
    | some (.literal d, t) => some (r.push (.char (.single d)), t)
    | some (.set s, t) => some (r.push (.char s), t)
    | some (.anchor p, t) => some (r.push p, t)
    | none => none
  | c :: t =>
    if isRepetitionSign c then
      match repetition? (c :: t) with
      | some (bounds, '?' :: t) => (r.repeat? bounds false).map fun r => (r, t)
      | some (bounds, t) => (r.repeat? bounds true).map fun r => (r, t)
      | none => none
    else some (r.push (.char (.single c)), t)

/-- The whole pattern. The number bounds the signs left. -/
def readFrom? : Nat → Progress → Text → Option NamedPattern
  | _, r, [] => if r.outer.isEmpty then some ⟨r.level.close, r.names⟩ else none
  | 0, _, _ => none
  | n + 1, r, t =>
    match r.step? t with
    | some (r, t) => readFrom? n r t
    | none => none

/-- The pattern that a text writes. -/
def read? (t : Text) : Option NamedPattern :=
  readFrom? t.length ⟨⟨none, [], []⟩, [], 0, []⟩ t

end Pattern

end ImportTidy

/-
# ImportTidy.Pattern.Basic — patterns over text, as data

A pattern is a regular expression with groups that remember what they matched. Its characters are
sets of code points; digits, word characters and blanks are the Unicode classes. How a pattern is
written is the matter of `ImportTidy.Pattern.Reader`, where it matches of `ImportTidy.Pattern.Match`.
-/
import ImportTidy.Text.Word

namespace ImportTidy

/-- A set of characters. -/
inductive CharSet where
  | empty
  | range (first last : Char)
  | digit
  | word
  | blank
  | complement (s : CharSet)
  | union (s t : CharSet)
  deriving DecidableEq, Repr

namespace CharSet

/-- The character is in the set. -/
def mem : CharSet → Char → Bool
  | .empty, _ => false
  | .range first last, c => first.toNat ≤ c.toNat && c.toNat ≤ last.toNat
  | .digit, c => Text.isDigit c
  | .word, c => Text.isWord c
  | .blank, c => Text.isBlank c
  | .complement s, c => !s.mem c
  | .union s t, c => s.mem c || t.mem c

/-- The set of one character. -/
def single (c : Char) : CharSet := .range c c

/-- The characters that both sets hold. -/
def inter (s t : CharSet) : CharSet := .complement (.union (.complement s) (.complement t))

/-- Every character but the line feed. -/
def inLine : CharSet := .complement (single '\n')

end CharSet

/-- A regular expression. -/
inductive Pattern where
  /-- Matches the empty text. -/
  | nothing
  /-- Matches one character of the set. -/
  | char (s : CharSet)
  /-- Matches at the start of the text. -/
  | textStart
  /-- Matches at the end of the text. -/
  | textEnd
  /-- Matches between a word character and one that is none, or, when `inside`, elsewhere. -/
  | wordEdge (inside : Bool)
  /-- One pattern after the other. -/
  | seq (p q : Pattern)
  /-- The first pattern, or else the second. -/
  | either (p q : Pattern)
  /-- At least `least` and at most `most` times the body; as often as possible when `eager`. -/
  | many (body : Pattern) (least : Nat) (most : Option Nat) (eager : Bool)
  /-- The body, whose match is remembered under a number. -/
  | group (index : Nat) (body : Pattern)
  deriving DecidableEq, Repr

namespace Pattern

/-- The patterns one after the other. -/
def seqs : List Pattern → Pattern
  | [] => .nothing
  | [p] => p
  | p :: ps => .seq p (seqs ps)

/-- The first of the patterns that matches. -/
def eithers : List Pattern → Pattern
  | [] => .nothing
  | [p] => p
  | p :: ps => .either p (eithers ps)

end Pattern

end ImportTidy

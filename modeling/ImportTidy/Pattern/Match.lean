/-
# ImportTidy.Pattern.Match — where a pattern matches

The matches of a pattern from one place on are listed in the order of preference: the first
alternative before the second, one more round of an eager repetition before none. The pattern
matches the text that the first of them spans. A text is searched from left to right and matches
do not overlap.

A repetition without an upper bound goes on only behind a round that took at least one character;
so the number of rounds is bounded by the text, and every function here ends.
-/
import ImportTidy.Pattern.Basic

namespace ImportTidy

namespace Pattern

/-- What a group remembers: its number and the positions where its match starts and stops. -/
structure Span where
  index : Nat
  start : Nat
  stop : Nat
  deriving DecidableEq, Repr

/-- A place in the text, with what the groups remember on the way to it. -/
structure Cursor where
  /-- The character just before, none at the start of the text. -/
  behind : Option Char
  /-- The text from here on. -/
  rest : Text
  /-- The number of characters before. -/
  position : Nat
  /-- The groups, the latest first. -/
  spans : List Span
  deriving DecidableEq, Repr

namespace Cursor

/-- The start of a text. -/
def start (t : Text) : Cursor := ⟨none, t, 0, []⟩

/-- One character further, when it is in the set. -/
def step (s : CharSet) (c : Cursor) : List Cursor :=
  match c.rest with
  | [] => []
  | d :: t => if s.mem d then [⟨some d, t, c.position + 1, c.spans⟩] else []

/-- A word character stands just before, or just behind, but not on both sides. -/
def isWordEdge (c : Cursor) : Bool :=
  c.behind.any Text.isWord != c.rest.head?.any Text.isWord

end Cursor

/-- The places behind any number of further rounds. Each round but the first has taken at least one
character; the number bounds the rounds left. -/
def rounds (round : Cursor → List Cursor) (eager : Bool) : Nat → Cursor → List Cursor
  | 0, c => [c]
  | n + 1, c =>
    let further := (round c).flatMap fun d =>
      if c.position < d.position then rounds round eager n d else []
    if eager then further ++ [c] else c :: further

/-- The places behind one or more rounds. A first round that takes nothing is the last one. -/
def roundsFromOne (round : Cursor → List Cursor) (eager : Bool) (c : Cursor) : List Cursor :=
  (round c).flatMap fun d =>
    if c.position < d.position then rounds round eager d.rest.length d else [d]

/-- The places behind exactly so many rounds. -/
def exactly (round : Cursor → List Cursor) : Nat → Cursor → List Cursor
  | 0, c => [c]
  | n + 1, c => (round c).flatMap (exactly round n)

/-- The places behind at most so many rounds. -/
def atMost (round : Cursor → List Cursor) (eager : Bool) : Nat → Cursor → List Cursor
  | 0, c => [c]
  | n + 1, c =>
    let further := (round c).flatMap (atMost round eager n)
    if eager then further ++ [c] else c :: further

/-- The places behind a repetition. -/
def repetition (round : Cursor → List Cursor) (least : Nat) (most : Option Nat) (eager : Bool)
    (c : Cursor) : List Cursor :=
  match most, least with
  | some most, least => (exactly round least c).flatMap (atMost round eager (most - least))
  | none, 0 =>
    let further := roundsFromOne round eager c
    if eager then further ++ [c] else c :: further
  | none, least + 1 => (exactly round least c).flatMap (roundsFromOne round eager)

/-- The places where a match that starts here may stop, the preferred one first. -/
def stops : Pattern → Cursor → List Cursor
  | .nothing, c => [c]
  | .char s, c => c.step s
  | .textStart, c => if c.behind.isNone then [c] else []
  | .textEnd, c => if c.rest.isEmpty then [c] else []
  | .wordEdge inside, c => if c.isWordEdge != inside then [c] else []
  | .seq p q, c => (stops p c).flatMap (stops q)
  | .either p q, c => stops p c ++ stops q c
  | .many body least most eager, c => repetition (stops body) least most eager c
  | .group index body, c =>
    (stops body c).map fun d => { d with spans := ⟨index, c.position, d.position⟩ :: d.spans }

/-- A match: where it starts and stops and what its groups remember. -/
structure Found where
  start : Nat
  stop : Nat
  spans : List Span
  deriving DecidableEq, Repr

/-- The matches from a place on. When `taken`, a match has just stopped here, and an empty one does
not count. -/
def foundFrom (p : Pattern) (taken : Bool) (c : Cursor) : List Found :=
  let here := p.stops { c with spans := [] }
  let found := fun (d : Cursor) => (⟨c.position, d.position, d.spans⟩ : Found)
  match hc : c.rest, here with
  | [], [] => []
  | [], d :: _ => if taken then [] else [found d]
  | x :: t, [] => foundFrom p false ⟨some x, t, c.position + 1, []⟩
  | x :: t, d :: _ =>
    if hd : d.rest.length < c.rest.length then found d :: foundFrom p true d
    else if taken then foundFrom p false ⟨some x, t, c.position + 1, []⟩
    else found d :: foundFrom p false ⟨some x, t, c.position + 1, []⟩
termination_by c.rest.length
decreasing_by all_goals first | exact hd | (rw [hc]; exact Nat.lt_succ_self _)

/-- The matches of a pattern in a text, from left to right. -/
def find (p : Pattern) (t : Text) : List Found := foundFrom p false (Cursor.start t)

/-- The text that a group matched, if it took part in the match. -/
def Found.group? (f : Found) (index : Nat) (t : Text) : Option Text :=
  (f.spans.find? fun s => s.index == index).map fun s => (t.drop s.start).take (s.stop - s.start)

end Pattern

end ImportTidy

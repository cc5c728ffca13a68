/-
# ImportTidy.Console.Inbox — output of a console that waits to be read

Output arrives in pieces of bytes, cut anywhere. The inbox keeps it as lines: those that are
complete, and the beginning of one that is not. When the output has ended, that beginning counts
as a line too. `hear` reads lines until a listener reports what is waited for, and leaves the rest.
-/
import ImportTidy.Console.Listener
import ImportTidy.Text.Utf8

namespace ImportTidy

/-- Output that has arrived and has not been read. -/
structure Inbox where
  /-- Complete lines, without their line feeds. -/
  lines : List (List UInt8)
  /-- What arrived behind the last line feed. -/
  fragment : List UInt8
  /-- No more output will arrive. -/
  ended : Bool
  deriving DecidableEq, Repr

namespace Inbox

/-- An inbox without any output. -/
def empty : Inbox := ⟨[], [], false⟩

/-- The lines in some bytes, and what stands behind the last line feed. -/
def cut : List UInt8 → List (List UInt8) × List UInt8
  | [] => ([], [])
  | b :: rest =>
    match cut rest with
    | (lines, fragment) =>
      if b = 10 then ([] :: lines, fragment)
      else
        match lines with
        | [] => ([], b :: fragment)
        | line :: more => ((b :: line) :: more, fragment)

/-- More output arrives; behind the end there is none. -/
def arrive (bytes : List UInt8) (i : Inbox) : Inbox :=
  if i.ended then i
  else
    let (lines, fragment) := cut (i.fragment ++ bytes)
    { i with lines := i.lines ++ lines, fragment := fragment }

/-- The output ends. -/
def finish (i : Inbox) : Inbox := { i with ended := true }

/-- What came of waiting for something in the output. -/
inductive Heard (α : Type) where
  | found (a : α)
  /-- A line is no text. -/
  | undecodable (flaw : Utf8.Flaw)
  /-- The output ended before. -/
  | ended
  /-- Nothing more has arrived. -/
  | silent
  deriving DecidableEq, Repr

/-- The text of some bytes, or the flaw that makes them none. -/
def decode (bytes : List UInt8) : Except Utf8.Flaw Text :=
  match Utf8.decode? ⟨bytes.toArray⟩ with
  | some t => .ok t
  | none => .error ((Utf8.flaw? bytes).getD ⟨bytes.length, none⟩)

/-- A text without the line feed at its end and a carriage return before it. -/
def dropLineEnd (t : Text) : Text :=
  match t.reverse with
  | '\n' :: '\r' :: rest => rest.reverse
  | '\n' :: rest => rest.reverse
  | _ => t

/-- Reads complete lines until the listener reports something that is wanted. A line that is no
text is taken from the inbox all the same. -/
def hearLines {α : Type} (wanted : Listener.Event → Option α) :
    Listener → List (List UInt8) → Heard α × Listener × List (List UInt8)
  | l, [] => (.silent, l, [])
  | l, raw :: rest =>
    match decode (raw ++ [10]) with
    | .error flaw => (.undecodable flaw, l, rest)
    | .ok text =>
      match l.feed (dropLineEnd text) with
      | (event, l) =>
        match wanted event with
        | some a => (.found a, l, rest)
        | none => hearLines wanted l rest

/-- Reads the beginning of a line at the end of the output. -/
def hearFragment {α : Type} (wanted : Listener.Event → Option α) (l : Listener) :
    List UInt8 → Heard α × Listener
  | [] => (.ended, l)
  | fragment =>
    match decode fragment with
    | .error flaw => (.undecodable flaw, l)
    | .ok text =>
      match l.feed text with
      | (event, l) =>
        match wanted event with
        | some a => (.found a, l)
        | none => (.ended, l)

/-- Reads until the listener reports something that is wanted, or there is nothing to read. -/
def hear {α : Type} (wanted : Listener.Event → Option α) (l : Listener) (i : Inbox) :
    Heard α × Listener × Inbox :=
  match hearLines wanted l i.lines with
  | (.silent, l, _) =>
    if i.ended then
      match hearFragment wanted l i.fragment with
      | (heard, l) => (heard, l, ⟨[], [], true⟩)
    else (.silent, l, { i with lines := [] })
  | (heard, l, rest) => (heard, l, { i with lines := rest })

end Inbox

end ImportTidy

/-
# ImportTidy.Console.Listener — responses in a stream of output lines

Until the project is selected, lines are discarded. From then on they are collected, and a line
with the mark of completion ends a response: all lines since the last one, joined by line feeds.
-/
import ImportTidy.Text.Basic

namespace ImportTidy

/-- Where a listener is in the stream. -/
structure Listener where
  /-- A line with this mark confirms the selection of the project. -/
  readyMark : Text
  /-- A line with this mark ends a response. -/
  completeMark : Text
  /-- The selection has been confirmed. -/
  selected : Bool
  /-- The lines of the response so far. -/
  collected : List Text
  deriving DecidableEq, Repr

namespace Listener

/-- What a line means. -/
inductive Event where
  /-- The line came before the selection was confirmed. -/
  | discarded
  /-- The line confirms the selection. -/
  | projectReady
  /-- The line belongs to a response that goes on. -/
  | buffered
  /-- The line ends a response. -/
  | complete (response : Text)
  deriving DecidableEq, Repr

/-- A listener at the start of the stream. -/
def start (readyMark completeMark : Text) : Listener := ⟨readyMark, completeMark, false, []⟩

/-- The next line of the stream. -/
def feed (l : Listener) (line : Text) : Event × Listener :=
  if l.selected then
    let collected := l.collected ++ [line]
    if Text.occurs l.completeMark line then
      (.complete (Text.join ['\n'] collected), { l with collected := [] })
    else (.buffered, { l with collected := collected })
  else if Text.occurs l.readyMark line then (.projectReady, { l with selected := true })
  else (.discarded, l)

end Listener

end ImportTidy

/-
# ImportTidy.Console.Script — a console that follows a script

A scripted console answers the lines it reads with replies that are fixed beforehand, one for each
line, and exits when it reads its exit command or has no reply left. A stubborn one ignores the
exit command.
-/
import ImportTidy.Console.Conversation

namespace ImportTidy

/-- What a scripted console writes for a line. -/
inductive Reply where
  | answer (output : List UInt8)
  /-- The console exits after this one. -/
  | last (output : List UInt8)
  deriving DecidableEq, Repr

/-- A scripted console at work. -/
structure Script where
  /-- The replies still to come. -/
  replies : List Reply
  exitCommand : Text
  exitCode : Nat
  /-- The exit command is ignored. -/
  stubborn : Bool
  /-- The lines read so far. -/
  heard : List Text
  /-- The exit code, once the console has exited. -/
  exited : Option Nat
  deriving DecidableEq, Repr

namespace Script

/-- A console that starts with the given replies. -/
def start (replies : List Reply) (exitCommand : Text) (exitCode : Nat) (stubborn : Bool) : Script :=
  ⟨replies, exitCommand, exitCode, stubborn, [], none⟩

/-- The lines read so far, each with its line feed. -/
def transcript (s : Script) : Text := s.heard.flatMap fun line => line ++ ['\n']

/-- The console reads one line. It closes its end when it exits, and a console that has exited reads
nothing. -/
def readLine (line : Text) (s : Script) : Reaction × Script :=
  if s.exited.isSome then ({ output := [], ends := true, closes := some 0 }, s)
  else
    let s := { s with heard := s.heard ++ [line] }
    let closes := some (Utf8.bytes line ++ [10]).length
    if line = s.exitCommand then
      if s.stubborn then ({ output := [], ends := false }, s)
      else ({ output := [], ends := true, closes := closes }, { s with exited := some s.exitCode })
    else
      match s.replies with
      | .answer output :: replies =>
        ({ output := output, ends := false }, { s with replies := replies })
      | .last output :: replies =>
        ({ output := output, ends := true, closes := closes },
          { s with replies := replies, exited := some 0 })
      | [] => ({ output := [], ends := true, closes := closes }, { s with exited := some 0 })

/-- The console reads several lines, up to the one after which it exits. -/
def readLines : List Text → Script → Reaction × Script
  | [], s => ({ output := [], ends := s.exited.isSome }, s)
  | line :: more, s =>
    match s.readLine line with
    | (first, s) =>
      if first.closes.isSome then (first, s)
      else
        match readLines more s with
        | (rest, s) =>
          ({ output := first.output ++ rest.output
             ends := rest.ends
             closes := rest.closes.map ((Utf8.bytes line ++ [10]).length + ·) }, s)

/-- Scripted consoles as processes. -/
def process : Process Script where
  react written s := readLines (Text.lines written) s
  departure s :=
    match s.exited with
    | some code => .exited code
    | none => .killed

end Script

end ImportTidy

/-
# ImportTidy.Console.Launch — starting consoles

A launcher starts the programs that console settings name. A session with a new console is open
when the settings are sound, the folder that the console starts in is there, the program could be
started, and the console has confirmed the project.
-/
import ImportTidy.Console.Conversation
import ImportTidy.Console.Script
import ImportTidy.Disk.Resolve

namespace ImportTidy

/-- A way to start processes with states in `κ`, itself with states in `σ`. -/
structure Launcher (σ κ : Type) where
  /-- How the processes behave. -/
  process : Process κ
  /-- Starts the program that the settings name. -/
  launch : ConsoleSettings → σ → Except DiskFault κ × σ
  /-- Takes back a process that is not needed any more. -/
  release : κ → σ → σ

namespace Launcher

variable {σ κ : Type}

/-- A launcher that finds no program. -/
def absent : Launcher Unit Empty where
  process := ⟨fun _ k => k.elim, fun k => k.elim⟩
  launch _ s := (.error .notFound, s)
  release k _ := k.elim

/-- The folder that a console starts in can be entered. -/
def checkFolder (d : Disk) (settings : ConsoleSettings) : Except DiskFault Unit :=
  match settings.workingDirectory with
  | none => .ok ()
  | some folder =>
    match d.find ⟨folder⟩ with
    | .ok (_, .folder mode) => if maySearch mode then .ok () else .error .permissionDenied
    | .ok _ => .error .notDirectory
    | .error fault => .error fault

/-- Opens a session with a new console. A console whose session could not be opened is taken back. -/
def openSession (l : Launcher σ κ) (d : Disk) (settings : ConsoleSettings) (s : σ) :
    Except ConsoleFault (Conversation κ) × σ :=
  match settings.defect? with
  | some defect => (.error (.unusable defect), s)
  | none =>
    match checkFolder d settings with
    | .error fault => (.error (.notStarted settings.program fault), s)
    | .ok () =>
      match l.launch settings s with
      | (.error fault, s) => (.error (.notStarted settings.program fault), s)
      | (.ok peer, s) =>
        match Conversation.connect l.process settings peer with
        | (.ok (), c) => (.ok c, s)
        | (.error fault, c) => (.error fault, l.release c.peer s)

end Launcher

/-- Scripts for the consoles that are started one after another, and what the consoles have read. -/
structure Scripts where
  sessions : List (List Reply)
  exitCode : Nat
  stubborn : Bool
  /-- What each console that was taken back has read. -/
  transcripts : List Text
  deriving DecidableEq, Repr

/-- A launcher of scripted consoles; when the scripts run out, the consoles have no replies. -/
def Scripts.launcher : Launcher Scripts Script where
  process := Script.process
  launch settings s :=
    let script := Script.start (s.sessions.head?.getD []) settings.exitCommand s.exitCode s.stubborn
    (.ok script, { s with sessions := s.sessions.tail })
  release script s := { s with transcripts := s.transcripts ++ [script.transcript] }

end ImportTidy

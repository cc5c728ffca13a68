/-
# ImportTidy.Console.Conversation — a session and the process at its other end

A process reacts to each line that is written to it: it writes output, it may end, and it may close
its end of the pipe, be it in the middle of what is written. Any such process can be talked to;
`Script` is one that follows a list of replies.
-/
import ImportTidy.Console.Session

namespace ImportTidy

/-- How many bytes a pipe holds that have not been read. -/
def pipeCapacity : Nat := 65536

/-- What a process does when it is written something. -/
structure Reaction where
  output : List UInt8
  /-- The process ends after it. -/
  ends : Bool
  /-- How many of the bytes the process had read when it closed its end, if it did. -/
  closes : Option Nat := none
  deriving DecidableEq, Repr

/-- How processes with states in `κ` behave. -/
structure Process (κ : Type) where
  /-- The reaction to what is written. -/
  react : Text → κ → Reaction × κ
  /-- How a process ends that has been told to. -/
  departure : κ → Departure

namespace Session

/-- The session while it writes to a process that closes its end after some bytes: there is room for
these, and for as many as the pipe holds. -/
def upTo (closes : Option Nat) (s : Session) : Session :=
  match closes with
  | none => s
  | some read => { s with outbox := s.outbox.limit (read + pipeCapacity) }

/-- The session when a process has reacted. -/
def hear (reaction : Reaction) (s : Session) : Session :=
  let inbox := s.inbox.arrive reaction.output
  { s with
    inbox := if reaction.ends then inbox.finish else inbox
    outbox := if reaction.closes.isSome then s.outbox.limit 0 else s.outbox }

end Session

/-- A session and the process that it talks to. -/
structure Conversation (κ : Type) where
  session : Session
  peer : κ

namespace Conversation

variable {κ : Type}

/-- Runs a step of the session that writes a line, while the process reads it. A step that is refused
at once writes nothing. -/
def write (p : Process κ) (line : Text) (step : Session → Except ConsoleFault Unit × Session)
    (c : Conversation κ) : Except ConsoleFault Unit × Conversation κ :=
  match step c.session with
  | (.error fault, s) => (.error fault, { c with session := s })
  | (.ok (), _) =>
    match p.react (line ++ ['\n']) c.peer with
    | (reaction, peer) =>
      match step (c.session.upTo reaction.closes) with
      | (result, s) => (result, ⟨s.hear reaction, peer⟩)

/-- Runs a step of the session that only reads. -/
def read {α : Type} (step : Session → Except ConsoleFault α × Session) (c : Conversation κ) :
    Except ConsoleFault α × Conversation κ :=
  match step c.session with
  | (result, s) => (result, { c with session := s })

/-- Opens a session with a process that has just started. -/
def connect (p : Process κ) (settings : ConsoleSettings) (peer : κ) :
    Except ConsoleFault Unit × Conversation κ :=
  let c : Conversation κ := ⟨Session.start settings Inbox.empty Outbox.empty, peer⟩
  match c.write p settings.selectLine Session.select with
  | (.ok (), c) => c.read Session.awaitProject
  | failed => failed

/-- Sends a command and receives its response. -/
def request (p : Process κ) (command : Text) (c : Conversation κ) :
    Except ConsoleFault Text × Conversation κ :=
  match c.write p command (Session.send command) with
  | (.ok (), c) => c.read Session.receive
  | (.error fault, c) => (.error fault, c)

/-- Compiles the selected project. -/
def compile (p : Process κ) (c : Conversation κ) : Except ConsoleFault Text × Conversation κ :=
  c.request p c.session.settings.compileCommand

/-- Tells the process to exit and waits until it has, for its exit code. -/
def terminate (p : Process κ) (c : Conversation κ) :
    Except ConsoleFault (Option Nat) × Conversation κ :=
  match c.write p c.session.settings.exitCommand Session.leave with
  | (.ok (), c) => c.read (Session.depart (p.departure c.peer))
  | (.error fault, c) => (.error fault, c)

end Conversation

end ImportTidy

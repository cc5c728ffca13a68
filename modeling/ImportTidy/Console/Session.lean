/-
# ImportTidy.Console.Session — one command at a time

A session writes commands to a console and reads its responses. It is strictly half-duplex: a
command is sent only when the session is ready, and the next one only after the response to the
last has been received. A call in the wrong phase is refused and changes nothing.

A line is written in pieces, and the console may close its end behind any of them. What it has taken
by then stays taken, so a command that could not be sent may have left its beginning in the pipe.

Waiting is over when there is nothing more to read: the caller decides when output arrives, so a
silent console is one whose inbox has run dry.
-/
import ImportTidy.Console.Inbox
import ImportTidy.Console.Settings
import ImportTidy.Disk.Fault

namespace ImportTidy

/-- The phases of a session. -/
inductive Phase where
  | starting
  | awaitingProject
  | ready
  | awaitingResult
  | terminated
  deriving DecidableEq, Repr

/-- The name of a phase in messages. -/
def Phase.name : Phase → Text
  | .starting => "Starting".toList
  | .awaitingProject => "AwaitingProjectReady".toList
  | .ready => "Ready".toList
  | .awaitingResult => "AwaitingResult".toList
  | .terminated => "Terminated".toList

/-- What a caller asks of a session. -/
inductive Request where
  | send
  | receive
  | terminate
  deriving DecidableEq, Repr

/-- What a session waits for. -/
inductive Awaited where
  | project
  | result
  deriving DecidableEq, Repr

/-- Why a session fails. -/
inductive ConsoleFault where
  | unusable (defect : ConsoleSettings.Defect)
  /-- The program could not be started. -/
  | notStarted (program : Text) (cause : DiskFault)
  /-- The system does not carry a command to the console, or does not let the console end. -/
  | system (cause : DiskFault)
  /-- A line of output is no text. -/
  | undecodable (flaw : Utf8.Flaw)
  /-- The output ended while the session waited. -/
  | ended (awaited : Awaited)
  /-- Nothing came for so many seconds. -/
  | silent (seconds : Nat)
  /-- The request does not fit the phase. -/
  | refused (request : Request) (phase : Phase)
  deriving DecidableEq, Repr

namespace ConsoleFault

/-- A request in words. -/
def describe : Request → Text
  | .send => "send a command".toList
  | .receive => "receive a response".toList
  | .terminate => "terminate".toList

/-- What is awaited, in words. -/
def describeAwaited : Awaited → Text
  | .project => "waiting for project selection".toList
  | .result => "awaiting a command result".toList

/-- The fault in words. -/
def message : ConsoleFault → Text
  | .unusable defect => "Invalid configuration: ".toList ++ defect.message
  | .notStarted program cause =>
    "failed to start `".toList ++ program ++ "`: ".toList ++ cause.message
  | .system cause => "I/O error talking to build process: ".toList ++ cause.message
  | .undecodable flaw => "I/O error talking to build process: ".toList ++ flaw.message
  | .ended awaited => "build process closed its output while ".toList ++ describeAwaited awaited
  | .silent seconds =>
    "no response from build process within ".toList ++ Text.ofNat seconds ++ ['s']
  | .refused request phase =>
    "cannot ".toList ++ describe request ++ " while session is ".toList ++ phase.name

end ConsoleFault

/-- The pipe that carries commands to a console. -/
structure Outbox where
  /-- Everything that has been written so far. -/
  sent : List UInt8
  /-- How many bytes can still be written; no number while the console keeps its end open. -/
  room : Option Nat
  /-- What the system says when there is no room. -/
  refusal : DiskFault
  deriving DecidableEq, Repr

namespace Outbox

/-- The pipe to a process, before anything is written to it. -/
def empty : Outbox := ⟨[], none, .brokenPipe⟩

/-- The console closes its end when so many bytes more have been written. -/
def limit (room : Nat) (o : Outbox) : Outbox :=
  { o with room := some (o.room.elim room (min room)) }

/-- Writes as many of the bytes as there is room for, and tells whether that is all of them. -/
def write (bytes : List UInt8) (o : Outbox) : Bool × Outbox :=
  match o.room with
  | none => (true, { o with sent := o.sent ++ bytes })
  | some room =>
    (bytes.length ≤ room,
      { o with sent := o.sent ++ bytes.take room, room := some (room - bytes.length) })

/-- Writes the text of a line, then its line feed, and then flushes the pipe. The first of the three
that finds the other end closed is the last. -/
def writeLine (line : Text) (o : Outbox) : Bool × Outbox :=
  match o.write (Utf8.bytes line) with
  | (false, o) => (false, o)
  | (true, o) =>
    match o.write [10] with
    | (false, o) => (false, o)
    | (true, o) => (o.room != some 0, o)

end Outbox

/-- A session with a console. -/
structure Session where
  settings : ConsoleSettings
  phase : Phase
  listener : Listener
  inbox : Inbox
  outbox : Outbox
  deriving DecidableEq, Repr

namespace Session

/-- A session before its first command. -/
def start (settings : ConsoleSettings) (inbox : Inbox) (outbox : Outbox) : Session :=
  ⟨settings, .starting, Listener.start settings.readyLine settings.completeMark, inbox, outbox⟩

/-- Writes a line and enters a phase; when that fails, the phase stays. -/
def writeLine (line : Text) (next : Phase) (s : Session) : Except ConsoleFault Unit × Session :=
  match s.outbox.writeLine line with
  | (true, outbox) => (.ok (), { s with outbox := outbox, phase := next })
  | (false, outbox) => (.error (.system s.outbox.refusal), { s with outbox := outbox })

/-- Waits for something in the output and enters a phase when it comes. What has been read stays
read, and what a listener has collected stays collected, whether it comes or not. -/
def await {α : Type} (wanted : Listener.Event → Option α) (awaited : Awaited) (s : Session) :
    Except ConsoleFault α × Session :=
  match s.inbox.hear wanted s.listener with
  | (heard, listener, inbox) =>
    let t := { s with listener := listener, inbox := inbox }
    match heard with
    | .found a => (.ok a, { t with phase := .ready })
    | .undecodable flaw => (.error (.undecodable flaw), t)
    | .ended => (.error (.ended awaited), t)
    | .silent => (.error (.silent s.settings.patience), t)

/-- The confirmation of the selected project. -/
def confirmation : Listener.Event → Option Unit
  | .projectReady => some ()
  | _ => none

/-- A complete response. -/
def response : Listener.Event → Option Text
  | .complete response => some response
  | _ => none

/-- Asks for the project. -/
def select (s : Session) : Except ConsoleFault Unit × Session :=
  s.writeLine s.settings.selectLine .awaitingProject

/-- Waits until the project is selected. -/
def awaitProject (s : Session) : Except ConsoleFault Unit × Session :=
  s.await confirmation .project

/-- Opens a session over what has arrived so far. Settings with a defect are refused before anything
is written. -/
def connect (settings : ConsoleSettings) (inbox : Inbox) (outbox : Outbox) :
    Except ConsoleFault Unit × Session :=
  let s := start settings inbox outbox
  match settings.defect? with
  | some defect => (.error (.unusable defect), s)
  | none =>
    match s.select with
    | (.ok (), s) => s.awaitProject
    | failed => failed

/-- Sends a command. -/
def send (command : Text) (s : Session) : Except ConsoleFault Unit × Session :=
  if s.phase = .ready then s.writeLine command .awaitingResult
  else (.error (.refused .send s.phase), s)

/-- Receives the response to the last command. -/
def receive (s : Session) : Except ConsoleFault Text × Session :=
  if s.phase = .awaitingResult then s.await response .result
  else (.error (.refused .receive s.phase), s)

/-- Sends a command and receives its response. -/
def request (command : Text) (s : Session) : Except ConsoleFault Text × Session :=
  match s.send command with
  | (.ok (), s) => s.receive
  | (.error fault, s) => (.error fault, s)

/-- Compiles the selected project. -/
def compile (s : Session) : Except ConsoleFault Text × Session :=
  s.request s.settings.compileCommand

end Session

/-- How a console takes its leave when it has been told to exit. -/
inductive Departure where
  /-- The pipe could not be shut. -/
  | unshut (cause : DiskFault)
  /-- There is no process to wait for, only the two streams. -/
  | detached
  | exited (code : Nat)
  /-- The system did not let the process be waited for. -/
  | unwaited (cause : DiskFault)
  /-- The process went on for too long and was killed. -/
  | killed
  /-- The process went on for too long and could not be killed. -/
  | unkilled (cause : DiskFault)
  deriving DecidableEq, Repr

namespace Session

/-- Sends the command that ends the console. -/
def leave (s : Session) : Except ConsoleFault Unit × Session :=
  if s.phase = .ready then s.writeLine s.settings.exitCommand .ready
  else (.error (.refused .terminate s.phase), s)

/-- Shuts the pipe and waits for the console to end, for the exit code of a process. -/
def depart (departure : Departure) (s : Session) : Except ConsoleFault (Option Nat) × Session :=
  match departure with
  | .unshut cause => (.error (.system cause), s)
  | .detached => (.ok none, { s with phase := .terminated })
  | .exited code => (.ok (some code), { s with phase := .terminated })
  | .unwaited cause => (.error (.system cause), { s with phase := .terminated })
  | .killed => (.error (.silent s.settings.patience), { s with phase := .terminated })
  | .unkilled cause => (.error (.system cause), { s with phase := .terminated })

/-- Tells the console to exit and waits until it has. -/
def terminate (departure : Departure) (s : Session) :
    Except ConsoleFault (Option Nat) × Session :=
  match s.leave with
  | (.ok (), s) => s.depart departure
  | (.error fault, s) => (.error fault, s)

end Session

end ImportTidy

/-
# ImportTidy.Proofs.Console.History — what happens on a session, kept account of

Output arrives at any time and in any pieces, may end, and the console may close its end of the pipe
in the middle of a line; in between, the client calls. An account of such a history records, beside
the session, all output that has been emitted, the commands that were sent, the lines that could not
be written, and for the latest command how much had been emitted and how much of it had not been
read. A response is entered beside that command.

The invariant says where a session stands. The rows read so far are a preamble that ends at the ready
mark, one body for each response and the part of the next that has been collected; behind them comes
what waits in the inbox. The books balance: one command is without its response while a response is
awaited, and none otherwise, and the pipe was written the lines on record (`Balanced`). Each thing
that can happen keeps it (`Standing.notice`, `Standing.call`), and so does every history
(`Reached.standing`).
-/
import ImportTidy.Proofs.Console.Hearing

namespace ImportTidy

open Utf8 (bytes)

/-! ## Histories -/

/-- What a console does of its own accord. -/
inductive Signal where
  | emits (output : List UInt8)
  /-- The output ends. -/
  | ends
  /-- The console closes its end of the pipe when it has been written so many bytes more. -/
  | closes (room : Nat)
  deriving DecidableEq, Repr

/-- A call on a session. While a request waits, the console does what `meanwhile` says between the
command and the wait for its response. -/
inductive Call where
  | send (command : Text)
  | receive
  | request (command : Text) (meanwhile : List Signal)
  | compile (meanwhile : List Signal)
  /-- The client takes leave, and the console ends as `departure` says. -/
  | terminate (departure : Departure)
  deriving DecidableEq, Repr

/-- What happens to a session: the console does something, or the client calls. -/
inductive Happening where
  | signal (g : Signal)
  | call (c : Call)
  deriving DecidableEq, Repr

namespace Inbox

/-- The output that a signal adds; behind the end there is none. -/
def news (i : Inbox) : Signal → List UInt8
  | .emits output => if i.ended then [] else output
  | _ => []

/-- The inbox after a signal. -/
def notice (i : Inbox) : Signal → Inbox
  | .emits output => i.arrive output
  | .ends => i.finish
  | .closes _ => i

/-- The inbox after some signals, when nothing has been read yet. -/
def after (signals : List Signal) : Inbox := signals.foldl notice empty

end Inbox

namespace Outbox

/-- The pipe after a signal. -/
def notice (o : Outbox) : Signal → Outbox
  | .closes room => o.limit room
  | _ => o

/-- The bytes of a line, with its line feed. -/
def lineBytes (line : Text) : List UInt8 := bytes line ++ [10]

end Outbox

/-- The session after a signal. -/
def Session.notice (s : Session) (g : Signal) : Session :=
  { s with inbox := s.inbox.notice g, outbox := s.outbox.notice g }

/-- A command that was written, with its position in the output. -/
structure Dispatch where
  command : Text
  /-- All output that had been emitted when the command was written. -/
  emitted : List UInt8
  /-- The end of it that had not been read. -/
  unread : List UInt8
  deriving DecidableEq, Repr

/-- A command and the response that was received for it. -/
structure Exchange where
  dispatch : Dispatch
  response : Text
  deriving DecidableEq, Repr

/-- What became of a session. -/
inductive Fate where
  | connected
  /-- The console was told to exit, and the session is gone. -/
  | left
  /-- The session is gone, and the console could not be told to exit. -/
  | dropped
  deriving DecidableEq, Repr

/-- A session with a record of what happened on it. -/
structure Account where
  session : Session
  /-- All output so far. -/
  emitted : List UInt8
  /-- The latest command. -/
  latest : Dispatch
  /-- The responses that have been received, each with its command. -/
  exchanges : List Exchange
  /-- The commands that were sent. -/
  sent : List Text
  /-- The lines that could not be written. -/
  unsent : List Text
  fate : Fate
  deriving DecidableEq, Repr

namespace Account

/-- The account of a session that has just been opened after some signals. The latest command is the
one that selects the project. -/
def opened (signals : List Signal) (s : Session) : Account :=
  ⟨s, (Inbox.after signals).raw, ⟨s.settings.selectLine, [], []⟩, [], [], [], .connected⟩

/-- The console does something. -/
def notice (a : Account) (g : Signal) : Account :=
  { a with session := a.session.notice g, emitted := a.emitted ++ a.session.inbox.news g }

/-- The lines that could not be written, when a fault is met on writing one. -/
def unsentAfter (a : Account) (line : Text) : ConsoleFault → List Text
  | .system _ => a.unsent ++ [line]
  | _ => a.unsent

/-- Sends a command, and enters it. -/
def send (a : Account) (command : Text) : Except ConsoleFault Unit × Account :=
  match a.session.send command with
  | (.ok (), s) =>
    (.ok (), { a with
      session := s
      latest := ⟨command, a.emitted, a.session.inbox.raw⟩
      sent := a.sent ++ [command] })
  | (.error fault, s) =>
    (.error fault, { a with session := s, unsent := a.unsentAfter command fault })

/-- Receives a response, and enters it beside the latest command. -/
def receive (a : Account) : Except ConsoleFault Text × Account :=
  match a.session.receive with
  | (.ok response, s) =>
    (.ok response, { a with session := s, exchanges := a.exchanges ++ [⟨a.latest, response⟩] })
  | (.error fault, s) => (.error fault, { a with session := s })

/-- Makes a request, which waits for a response when the command could be sent. -/
def request (a : Account) (command : Text) (meanwhile : List Signal) :
    Except ConsoleFault Text × Account :=
  match a.send command with
  | (.ok (), a) => (meanwhile.foldl notice a).receive
  | (.error fault, a) => (.error fault, a)

/-- Takes leave. The session is gone in any case; what the console was told does not depend on how
it ends. -/
def terminate (a : Account) (departure : Departure) :
    Except ConsoleFault (Option Nat) × Account :=
  match a.session.leave with
  | (.ok (), s) =>
    ((s.depart departure).1, { a with session := (s.depart departure).2, fate := .left })
  | (.error fault, s) =>
    (.error fault, { a with
      session := s
      unsent := a.unsentAfter a.session.settings.exitCommand fault
      fate := .dropped })

/-- A call, and what is entered for it. The result has the response, if the call is for one. -/
def call (a : Account) : Call → Except ConsoleFault (Option Text) × Account
  | .send command => (a.send command).map (Except.map fun _ => none) id
  | .receive => a.receive.map (Except.map some) id
  | .request command meanwhile => (a.request command meanwhile).map (Except.map some) id
  | .compile meanwhile =>
    (a.request a.session.settings.compileCommand meanwhile).map (Except.map some) id
  | .terminate departure => (a.terminate departure).map (Except.map fun _ => none) id

/-- One thing happens. There are no calls on a session that is gone. -/
def step (a : Account) : Happening → Account
  | .signal g => a.notice g
  | .call c => if a.fate = .connected then (a.call c).2 else a

/-- One thing happens after another. -/
def run (a : Account) (history : List Happening) : Account := history.foldl step a

/-- The responses in the order in which they were received. -/
def responses (a : Account) : List Text := a.exchanges.map Exchange.response

/-- The lines that were written to the console as a whole. -/
def written (settings : ConsoleSettings) (a : Account) : List Text :=
  settings.selectLine :: a.sent ++ if a.fate = .left then [settings.exitCommand] else []

end Account

/-! ## What each part of a step does -/

namespace Inbox

variable {i : Inbox} {read : List (List UInt8)}

theorem arrive_of_ended (h : i.ended = true) (chunk : List UInt8) : i.arrive chunk = i := by
  rw [arrive, if_pos h]

theorem raw_notice (i : Inbox) (g : Signal) : (i.notice g).raw = i.raw ++ i.news g := by
  cases g with
  | emits output =>
      cases hended : i.ended with
      | false => simpa [notice, news, hended] using raw_arrive hended output
      | true => simp [notice, news, hended, arrive_of_ended hended]
  | ends => simp [notice, news, finish, raw]
  | closes room => simp [notice, news]

theorem Sound.notice (h : i.Sound) (g : Signal) : (i.notice g).Sound := by
  cases g with
  | emits output =>
      cases hended : i.ended with
      | false => exact h.arrive hended output
      | true => rwa [Inbox.notice, arrive_of_ended hended]
  | ends => exact ⟨h.lines, h.fragment⟩
  | closes room => exact h

theorem Follows.notice (h : i.Follows read) (g : Signal) : (i.notice g).Follows read := by
  cases g with
  | emits output =>
      cases hended : i.ended with
      | false => exact h.arrive hended output
      | true => rwa [Inbox.notice, arrive_of_ended hended]
  | ends => exact h.finish
  | closes room => exact h

theorem Sound.notices (h : i.Sound) (signals : List Signal) :
    (signals.foldl Inbox.notice i).Sound := by
  induction signals generalizing i with
  | nil => exact h
  | cons g signals ih => exact ih (h.notice g)

end Inbox

namespace Outbox

variable {o : Outbox} {before : List UInt8} {lines unsent : List Text} {line : Text}

theorem sent_notice (o : Outbox) (g : Signal) : (o.notice g).sent = o.sent := by
  cases g <;> rfl

/-- An end that is closed stays closed. -/
theorem room_notice (h : o.room = some 0) (g : Signal) : (o.notice g).room = some 0 := by
  cases g with
  | emits output => exact h
  | ends => exact h
  | closes room => simp [notice, limit, h]

/-- A line is written as a whole, or the end is closed behind a part of it. -/
theorem writeLine_cases (line : Text) (o : Outbox) :
    (o.room ≠ some 0 ∧ ∃ room, o.writeLine line =
      (true, { o with sent := o.sent ++ lineBytes line, room := room })) ∨
    (∃ taken, taken <+: lineBytes line ∧ (o.room = some 0 → taken = []) ∧ o.writeLine line =
      (false, { o with sent := o.sent ++ taken, room := some 0 })) := by
  obtain ⟨sent, room, refusal⟩ := o
  cases room with
  | none => exact Or.inl ⟨by simp, none, by simp [writeLine, write, lineBytes]⟩
  | some room =>
      by_cases htext : (bytes line).length ≤ room
      · by_cases hfeed : (bytes line).length = room
        · -- there is no room for the line feed
          refine Or.inr ⟨bytes line, List.prefix_append _ _, fun h => ?_, ?_⟩
          · exact List.eq_nil_of_length_eq_zero (hfeed.trans (Option.some.inj h))
          · simp [writeLine, write, hfeed, List.take_of_length_le]
        · have hroom : 1 ≤ room - (bytes line).length := by omega
          by_cases hflush : room - (bytes line).length = 1
          · -- the line went through, and the flush comes too late
            refine Or.inr ⟨lineBytes line, List.prefix_refl _, fun h => ?_, ?_⟩
            · exact absurd (Option.some.inj h) (by omega)
            · simp [writeLine, write, lineBytes, htext, hflush, List.take_of_length_le]
          · refine Or.inl ⟨fun h => hfeed ?_, some (room - (bytes line).length - 1), ?_⟩
            · have := Option.some.inj h
              omega
            · have hopen : room - (bytes line).length - 1 ≠ 0 := by omega
              have hone : [(10 : UInt8)].take (room - (bytes line).length) = [10] :=
                List.take_of_length_le hroom
              simp [writeLine, write, lineBytes, htext, hroom, hopen, hone,
                List.take_of_length_le]
      · refine Or.inr ⟨(bytes line).take room, ?_, fun h => ?_, ?_⟩
        · exact (List.take_prefix _ _).trans (List.prefix_append _ _)
        · rw [Option.some.inj h, List.take_zero]
        · have hnone : room - (bytes line).length = 0 := by omega
          simp [writeLine, write, htext, hnone]

/-- The pipe was written the lines, and behind them at most the beginning of a line that could not
be written, at which the other end was closed. -/
def Carries (o : Outbox) (before : List UInt8) (lines unsent : List Text) : Prop :=
  ∃ rest, o.sent = before ++ lines.flatMap lineBytes ++ rest ∧
    (rest ≠ [] → o.room = some 0 ∧ ∃ line ∈ unsent, rest <+: lineBytes line)

theorem Carries.notice (h : o.Carries before lines unsent) (g : Signal) :
    (o.notice g).Carries before lines unsent := by
  obtain ⟨rest, hsent, hrest⟩ := h
  refine ⟨rest, by rw [sent_notice, hsent], fun hne => ?_⟩
  obtain ⟨hroom, hline⟩ := hrest hne
  exact ⟨room_notice hroom g, hline⟩

theorem Carries.wrote (h : o.Carries before lines unsent) (hroom : o.room ≠ some 0)
    (line : Text) (room : Option Nat) :
    Carries { o with sent := o.sent ++ lineBytes line, room := room } before (lines ++ [line])
      unsent := by
  obtain ⟨rest, hsent, hrest⟩ := h
  obtain rfl : rest = [] := Decidable.byContradiction fun hne => hroom (hrest hne).1
  refine ⟨[], ?_, fun hne => absurd rfl hne⟩
  show o.sent ++ lineBytes line = _
  rw [hsent]
  simp

theorem Carries.cut (h : o.Carries before lines unsent) {taken : List UInt8}
    (htaken : taken <+: lineBytes line) (hclosed : o.room = some 0 → taken = []) :
    Carries { o with sent := o.sent ++ taken, room := some 0 } before lines
      (unsent ++ [line]) := by
  obtain ⟨rest, hsent, hrest⟩ := h
  refine ⟨rest ++ taken, ?_, fun hne => ⟨rfl, ?_⟩⟩
  · show o.sent ++ taken = _
    rw [hsent, List.append_assoc]
  · by_cases hnil : rest = []
    · subst hnil
      exact ⟨line, by simp, htaken⟩
    · -- the end was closed before, so that nothing was taken now
      obtain ⟨hroom, old, hold, hprefix⟩ := hrest hnil
      rw [hclosed hroom, List.append_nil]
      exact ⟨old, List.mem_append_left _ hold, hprefix⟩

end Outbox

/-- The fault comes of waiting for output. -/
def ConsoleFault.isOfWaiting : ConsoleFault → Bool
  | .undecodable _ => true
  | .ended _ => true
  | .silent _ => true
  | _ => false

namespace Session

open Outbox (lineBytes)

/-- The session when a line has been written. -/
def wrote (line : Text) (room : Option Nat) (next : Phase) (s : Session) : Session :=
  { s with
    outbox := { s.outbox with sent := s.outbox.sent ++ lineBytes line, room := room }
    phase := next }

/-- The session when the other end was closed behind a part of a line. -/
def cut (taken : List UInt8) (s : Session) : Session :=
  { s with outbox := { s.outbox with sent := s.outbox.sent ++ taken, room := some 0 } }

theorem writeLine_cases (line : Text) (next : Phase) (s : Session) :
    (s.outbox.room ≠ some 0 ∧ ∃ room, s.writeLine line next = (.ok (), s.wrote line room next)) ∨
    (∃ taken, taken <+: lineBytes line ∧ (s.outbox.room = some 0 → taken = []) ∧
      s.writeLine line next = (.error (.system s.outbox.refusal), s.cut taken)) := by
  unfold writeLine
  rcases Outbox.writeLine_cases line s.outbox with ⟨hroom, room, hwrite⟩ | ⟨taken, htaken, hclosed,
    hwrite⟩
  · rw [hwrite]
    exact Or.inl ⟨hroom, room, rfl⟩
  · rw [hwrite]
    exact Or.inr ⟨taken, htaken, hclosed, rfl⟩

/-- What comes of a call that writes a line when the session is ready: the line is written, or cut,
or the call is refused. -/
def WritesLine (s : Session) (line : Text) (next : Phase) (request : Request)
    (outcome : Except ConsoleFault Unit × Session) : Prop :=
  (s.phase = .ready ∧ s.outbox.room ≠ some 0 ∧ ∃ room, outcome = (.ok (), s.wrote line room next)) ∨
  (s.phase = .ready ∧ ∃ taken, taken <+: lineBytes line ∧ (s.outbox.room = some 0 → taken = []) ∧
    outcome = (.error (.system s.outbox.refusal), s.cut taken)) ∨
  (s.phase ≠ .ready ∧ outcome = (.error (.refused request s.phase), s))

theorem writesLine_ite (s : Session) (line : Text) (next : Phase) (request : Request) :
    s.WritesLine line next request
      (if s.phase = .ready then s.writeLine line next
        else (.error (.refused request s.phase), s)) := by
  by_cases hready : s.phase = .ready
  · rw [if_pos hready]
    rcases writeLine_cases line next s with hwrote | hcut
    · exact Or.inl ⟨hready, hwrote⟩
    · exact Or.inr (Or.inl ⟨hready, hcut⟩)
  · rw [if_neg hready]
    exact Or.inr (Or.inr ⟨hready, rfl⟩)

theorem send_cases (command : Text) (s : Session) :
    s.WritesLine command .awaitingResult .send (s.send command) :=
  s.writesLine_ite command .awaitingResult .send

theorem leave_cases (s : Session) :
    s.WritesLine s.settings.exitCommand .ready .terminate s.leave :=
  s.writesLine_ite s.settings.exitCommand .ready .terminate

/-- However the console ends, at most the phase changes. -/
theorem depart_cases (departure : Departure) (s : Session) :
    (s.depart departure).2 = s ∨ (s.depart departure).2 = { s with phase := .terminated } := by
  cases departure with
  | unshut cause => exact Or.inl rfl
  | detached => exact Or.inr rfl
  | exited code => exact Or.inr rfl
  | unwaited cause => exact Or.inr rfl
  | killed => exact Or.inr rfl
  | unkilled cause => exact Or.inr rfl

/-- Waiting either finds what is wanted and makes the session ready, or fails; the listener and the
inbox are in both cases what hearing has left of them. -/
theorem await_cases {α : Type} (wanted : Listener.Event → Option α) (awaited : Awaited)
    (s : Session) :
    (∃ a, (s.inbox.hear wanted s.listener).1 = .found a ∧
      s.await wanted awaited = (.ok a,
        { s with
          listener := (s.inbox.hear wanted s.listener).2.1
          inbox := (s.inbox.hear wanted s.listener).2.2
          phase := .ready })) ∨
    ((s.inbox.hear wanted s.listener).1.answer? = none ∧
      ∃ fault, fault.isOfWaiting = true ∧ s.await wanted awaited = (.error fault,
        { s with
          listener := (s.inbox.hear wanted s.listener).2.1
          inbox := (s.inbox.hear wanted s.listener).2.2 })) := by
  unfold await
  rcases s.inbox.hear wanted s.listener with ⟨heard, l, i⟩
  cases heard with
  | found a => exact Or.inl ⟨a, rfl, rfl⟩
  | undecodable flaw => exact Or.inr ⟨rfl, _, rfl, rfl⟩
  | ended => exact Or.inr ⟨rfl, _, rfl, rfl⟩
  | silent => exact Or.inr ⟨rfl, _, rfl, rfl⟩

/-- A session is open when the command that selects the project could be written and its
confirmation has come. -/
theorem await_of_connect {settings : ConsoleSettings} {inbox : Inbox} {outbox : Outbox}
    {s : Session} (h : connect settings inbox outbox = (.ok (), s)) :
    outbox.room ≠ some 0 ∧ ∃ room, await confirmation .project
      ((start settings inbox outbox).wrote settings.selectLine room .awaitingProject) =
        (.ok (), s) := by
  unfold connect at h
  cases hdefect : settings.defect? with
  | some defect => simp [hdefect] at h
  | none =>
      have hsettings : (start settings inbox outbox).settings = settings := rfl
      simp only [hdefect, select, hsettings] at h
      rcases writeLine_cases settings.selectLine .awaitingProject (start settings inbox outbox) with
        ⟨hroom, room, hwrite⟩ | ⟨taken, -, -, hwrite⟩
      · rw [hwrite] at h
        exact ⟨hroom, room, h⟩
      · rw [hwrite] at h
        exact absurd (Prod.mk.inj h).1 (by simp)

theorem connect_of_isOk {settings : ConsoleSettings} {inbox : Inbox} {outbox : Outbox}
    (h : (connect settings inbox outbox).1.isOk = true) :
    connect settings inbox outbox = (.ok (), (connect settings inbox outbox).2) := by
  rcases hconnect : connect settings inbox outbox with ⟨_ | _, s⟩
  · rw [hconnect] at h
    exact absurd h (by simp [Except.isOk, Except.toBool])
  · rfl

end Session

/-! ## Where a session stands in the output -/

open Inbox (spoken)
open Listener (ClosedBy Lack)

/-- The response is spelled by the rows `body`, the last of which is the first with the mark of
completion. They come right behind the rows `before`, all of which had been emitted when the command
was written; what else had been emitted then was unread, so that it is where the body begins. -/
structure Exchange.Spans (mark : Text) (e : Exchange) (before body : List (List UInt8)) : Prop where
  response : e.response = Text.join ['\n'] (spoken body)
  closed : ClosedBy mark (spoken body)
  dispatched : e.dispatch.emitted = before.flatten ++ e.dispatch.unread
  overlap : e.dispatch.unread <+: body.flatten ∨ body.flatten <+: e.dispatch.unread

/-- The rows that were read for the responses on record: those up to the ready mark, and then the
body of each response. -/
inductive Logged (settings : ConsoleSettings) : List (List UInt8) → List Exchange → Prop
  | opened {preamble : List (List UInt8)} :
      ClosedBy settings.readyLine (spoken preamble) → Logged settings preamble []
  | answered {read body : List (List UInt8)} {exchanges : List Exchange} {e : Exchange} :
      Logged settings read exchanges → e.Spans settings.completeMark read body →
        Logged settings (read ++ body) (exchanges ++ [e])

namespace Account

/-- One command is without its response while a response is awaited, and none otherwise; the pipe
carries the lines on record. -/
structure Balanced (settings : ConsoleSettings) (before : List UInt8) (a : Account) : Prop where
  phase : a.fate = .connected → a.session.phase = .ready ∨ a.session.phase = .awaitingResult
  awaiting : a.session.phase = .awaitingResult → a.sent.length = a.responses.length + 1
  idle : a.session.phase ≠ .awaitingResult → a.sent.length = a.responses.length
  stream : a.session.outbox.Carries before (a.written settings) a.unsent

/-- The session has read the rows `read` for the responses on record and the rows `part` for the
next, and all other output waits in the inbox. -/
structure Stands (settings : ConsoleSettings) (before : List UInt8) (a : Account)
    (read part : List (List UInt8)) : Prop extends a.Balanced settings before where
  configured : a.session.settings = settings
  sound : a.session.inbox.Sound
  emitted : a.emitted = (read ++ part).flatten ++ a.session.inbox.raw
  follows : a.session.inbox.Follows (read ++ part)
  listener : a.session.listener =
    ⟨settings.readyLine, settings.completeMark, true, spoken part⟩
  lack : Lack settings.completeMark (spoken part)
  log : Logged settings read a.exchanges
  collected : a.session.phase ≠ .awaitingResult → part = []
  asked : a.session.phase = .awaitingResult →
    a.latest.emitted = read.flatten ++ a.latest.unread ∧ a.latest.emitted <+: a.emitted

/-- The session stands somewhere in the output. -/
def Standing (settings : ConsoleSettings) (before : List UInt8) (a : Account) : Prop :=
  ∃ read part, a.Stands settings before read part

variable {settings : ConsoleSettings} {before : List UInt8} {a : Account}
  {read part : List (List UInt8)}

theorem Standing.notice (h : a.Standing settings before) (g : Signal) :
    (a.notice g).Standing settings before := by
  obtain ⟨read, part, h⟩ := h
  refine ⟨read, part, ⟨h.phase, h.awaiting, h.idle, h.stream.notice g⟩, h.configured,
    h.sound.notice g, ?_, h.follows.notice g, h.listener, h.lack, h.log, h.collected, ?_⟩
  · show a.emitted ++ a.session.inbox.news g = _ ++ (a.session.inbox.notice g).raw
    rw [Inbox.raw_notice, h.emitted, List.append_assoc]
  · intro hphase
    obtain ⟨hlatest, hbefore⟩ := h.asked hphase
    exact ⟨hlatest, hbefore.trans (List.prefix_append _ _)⟩

theorem Standing.notices (h : a.Standing settings before) (signals : List Signal) :
    (signals.foldl Account.notice a).Standing settings before := by
  induction signals generalizing a with
  | nil => exact h
  | cons g signals ih => exact ih (h.notice g)

/-! ### Writing -/

/-- Nothing has changed but that a line could not be written. -/
theorem Stands.cut (h : a.Stands settings before read part) {line : Text} {taken : List UInt8}
    (htaken : taken <+: Outbox.lineBytes line) (hclosed : a.session.outbox.room = some 0 → taken = []) :
    Stands settings before
      { a with session := a.session.cut taken, unsent := a.unsent ++ [line] } read part :=
  ⟨⟨h.phase, h.awaiting, h.idle, h.stream.cut htaken hclosed⟩, h.configured, h.sound, h.emitted,
    h.follows, h.listener, h.lack, h.log, h.collected, h.asked⟩

/-- A session that is gone has been written nothing more. -/
theorem Stands.dropped (h : a.Stands settings before read part) (hfate : a.fate = .connected) :
    Stands settings before { a with fate := .dropped } read part := by
  refine ⟨⟨fun hno => absurd hno (by simp), h.awaiting, h.idle, ?_⟩, h.configured, h.sound,
    h.emitted, h.follows, h.listener, h.lack, h.log, h.collected, h.asked⟩
  have hstream := h.stream
  simpa [written, hfate] using hstream

/-- A command that is written has the rows of the responses before it, and then what is unread. -/
theorem Standing.send (h : a.Standing settings before) (hfate : a.fate = .connected)
    (command : Text) : (a.send command).2.Standing settings before := by
  obtain ⟨read, part, h⟩ := h
  unfold Account.send
  rcases Session.send_cases command a.session with ⟨hready, hroom, room, hsend⟩ |
    ⟨hready, taken, htaken, hclosed, hsend⟩ | ⟨-, hsend⟩
  · have hidle := h.idle (by rw [hready]; decide)
    obtain rfl := h.collected (by rw [hready]; decide)
    have hemitted := h.emitted
    rw [List.append_nil] at hemitted
    have hstream := h.stream.wrote hroom command room
    have hwritten : a.written settings ++ [command] =
        Account.written settings { a with sent := a.sent ++ [command] } := by
      simp [written, hfate]
    rw [hwritten] at hstream
    rw [hsend]
    refine ⟨read, [], ⟨fun _ => Or.inr rfl, fun _ => ?_, fun hno => absurd rfl hno, hstream⟩,
      h.configured, h.sound, h.emitted, h.follows, h.listener, h.lack, h.log, fun hno =>
      absurd rfl hno, fun _ => ⟨hemitted, List.prefix_refl _⟩⟩
    show (a.sent ++ [command]).length = a.responses.length + 1
    rw [List.length_append, hidle, List.length_singleton]
  · rw [hsend]
    exact ⟨read, part, h.cut htaken hclosed⟩
  · rw [hsend]
    exact ⟨read, part, h⟩

/-- What the console was told does not depend on how it ends. -/
theorem Standing.terminate (h : a.Standing settings before) (hfate : a.fate = .connected)
    (departure : Departure) : (a.terminate departure).2.Standing settings before := by
  obtain ⟨read, part, h⟩ := h
  unfold Account.terminate
  rcases Session.leave_cases a.session with ⟨hready, hroom, room, hleave⟩ |
    ⟨-, taken, htaken, hclosed, hleave⟩ | ⟨-, hleave⟩
  · rw [hleave]
    have hnot : a.session.phase ≠ .awaitingResult := by
      rw [hready]
      decide
    have hidle := h.idle hnot
    obtain rfl := h.collected hnot
    have hstream := h.stream.wrote hroom a.session.settings.exitCommand room
    have htold : a.written settings ++ [a.session.settings.exitCommand] =
        Account.written settings { a with fate := .left } := by
      simp [written, hfate, h.configured]
    rw [htold] at hstream
    rcases Session.depart_cases departure (a.session.wrote a.session.settings.exitCommand room .ready)
      with hdepart | hdepart
    · dsimp only
      rw [hdepart]
      exact ⟨read, [], ⟨fun hno => absurd hno (by simp),
        fun hno => absurd hno (by simp [Session.wrote]), fun _ => hidle, hstream⟩, h.configured, h.sound, h.emitted, h.follows, h.listener, h.lack,
        h.log, fun _ => rfl, fun hno => absurd hno (by simp [Session.wrote])⟩
    · dsimp only
      rw [hdepart]
      exact ⟨read, [], ⟨fun hno => absurd hno (by simp), fun hno => absurd hno (by simp),
        fun _ => hidle, hstream⟩, h.configured, h.sound, h.emitted, h.follows, h.listener, h.lack,
        h.log, fun _ => rfl, fun hno => absurd hno (by simp)⟩
  · rw [hleave]
    exact ⟨read, part, (h.cut htaken hclosed).dropped hfate⟩
  · rw [hleave]
    exact ⟨read, part, h.dropped hfate⟩

/-! ### Receiving -/

/-- What hearing takes comes behind what was read before. -/
theorem Stands.takes (h : a.Stands settings before read part) {α : Type}
    {wanted : Listener.Event → Option α} {taken : List (List UInt8)}
    {outcome : Inbox.Heard α × Listener × Inbox}
    (ht : Inbox.Takes wanted a.session.listener a.session.inbox taken outcome) :
    a.emitted = (read ++ (part ++ taken)).flatten ++ outcome.2.2.raw ∧
      outcome.2.2.Follows (read ++ (part ++ taken)) := by
  rw [← List.append_assoc]
  refine ⟨?_, h.follows.append ht.raw ht.ended ht.follows⟩
  rw [h.emitted, ht.raw, ← List.append_assoc, ← List.flatten_append]

section Receiving

variable {taken : List (List UInt8)} {outcome : Inbox.Heard Text × Listener × Inbox}
  (h : a.Stands settings before read part) (hphase : a.session.phase = .awaitingResult)
  (ht : Inbox.Takes Session.response a.session.listener a.session.inbox taken outcome)

include h hphase ht

/-- When a response is found, the rows of the part and those that were taken are its body. -/
theorem Stands.answered {response : Text} (hfound : outcome.1 = .found response) :
    Stands settings before
      { a with
        session := { a.session with
          listener := outcome.2.1, inbox := outcome.2.2, phase := .ready }
        exchanges := a.exchanges ++ [⟨a.latest, response⟩] }
      (read ++ (part ++ taken)) [] := by
  obtain ⟨hlatest, hbefore⟩ := h.asked hphase
  obtain ⟨hemitted, hfollows⟩ := h.takes ht
  have hcollects := Listener.listens_response (by rw [h.listener]) ht.listens
  rw [hfound, h.listener] at hcollects
  obtain ⟨hclosed, hresponse, hlistener⟩ := hcollects
  have hspoken : spoken (part ++ taken) = spoken part ++ spoken taken := Inbox.spoken_append _ _
  -- what was unread at the command and the body both begin the output behind `read`
  have hoverlap : a.latest.unread <+: (part ++ taken).flatten ∨
      (part ++ taken).flatten <+: a.latest.unread := by
    rw [hlatest, hemitted, List.flatten_append, List.append_assoc,
      List.prefix_append_right_inj] at hbefore
    exact List.prefix_or_prefix_of_prefix hbefore (List.prefix_append _ _)
  refine ⟨⟨fun _ => Or.inl rfl, fun hno => absurd hno (by simp), fun _ => ?_, h.stream⟩, h.configured,
    ht.sound, ?_, ?_, hlistener, Listener.lack_nil _, ?_, fun _ => rfl,
    fun hno => absurd hno (by simp)⟩
  · have hawaiting := h.awaiting hphase
    simpa [responses] using hawaiting
  · rw [List.append_nil]
    exact hemitted
  · rw [List.append_nil]
    exact hfollows
  · exact h.log.answered
      ⟨by rw [hspoken]; exact hresponse, by rw [hspoken]; exact hclosed.append h.lack, hlatest,
        hoverlap⟩

/-- When no response is found, the rows that were taken have been collected. -/
theorem Stands.collects (hnone : outcome.1.answer? = none) :
    Stands settings before
      { a with session := { a.session with listener := outcome.2.1, inbox := outcome.2.2 } }
      read (part ++ taken) := by
  obtain ⟨hemitted, hfollows⟩ := h.takes ht
  have hcollects := Listener.listens_response (by rw [h.listener]) ht.listens
  rw [hnone, h.listener] at hcollects
  obtain ⟨hlack, hlistener⟩ := hcollects
  refine ⟨⟨h.phase, h.awaiting, h.idle, h.stream⟩, h.configured, ht.sound, hemitted, hfollows, ?_, ?_,
    h.log, fun hno => absurd hphase hno, h.asked⟩
  · rw [Inbox.spoken_append]
    exact hlistener
  · rw [Inbox.spoken_append]
    exact h.lack.append hlack

end Receiving

theorem Standing.receive (h : a.Standing settings before) :
    a.receive.2.Standing settings before := by
  obtain ⟨read, part, h⟩ := h
  unfold Account.receive Session.receive
  by_cases hphase : a.session.phase = .awaitingResult
  · rw [if_pos hphase]
    obtain ⟨taken, ht⟩ := Inbox.takes_hear Session.response h.sound a.session.listener
    rcases Session.await_cases Session.response .result a.session with
      ⟨response, hfound, hawait⟩ | ⟨hnone, fault, -, hawait⟩
    · rw [hawait]
      exact ⟨_, _, h.answered hphase ht hfound⟩
    · rw [hawait]
      exact ⟨_, _, h.collects hphase ht hnone⟩
  · -- refused, and nothing has changed
    rw [if_neg hphase]
    exact ⟨read, part, h⟩

/-! ### Histories -/

theorem Standing.request (h : a.Standing settings before) (hfate : a.fate = .connected)
    (command : Text) (meanwhile : List Signal) :
    (a.request command meanwhile).2.Standing settings before := by
  have hsent := h.send hfate command
  unfold Account.request
  rcases hsend : a.send command with ⟨fault | _, a'⟩
  · rw [hsend] at hsent
    exact hsent
  · rw [hsend] at hsent
    exact (hsent.notices meanwhile).receive

theorem Standing.call (h : a.Standing settings before) (hfate : a.fate = .connected) (c : Call) :
    (a.call c).2.Standing settings before := by
  cases c with
  | send command => exact h.send hfate command
  | receive => exact h.receive
  | request command meanwhile => exact h.request hfate command meanwhile
  | compile meanwhile => exact h.request hfate a.session.settings.compileCommand meanwhile
  | terminate departure => exact h.terminate hfate departure

/-- Whatever happens, the session stands somewhere in the output. -/
theorem Standing.step (h : a.Standing settings before) (happening : Happening) :
    (a.step happening).Standing settings before := by
  cases happening with
  | signal g => exact h.notice g
  | call c =>
      show (if a.fate = .connected then (a.call c).2 else a).Standing settings before
      split
      · rename_i hfate
        exact h.call hfate c
      · exact h

theorem Standing.run (h : a.Standing settings before) (history : List Happening) :
    (a.run history).Standing settings before := by
  induction history generalizing a with
  | nil => exact h
  | cons happening history ih => exact ih (h.step happening)

/-- A session that has been opened stands behind the row that confirms the project. -/
theorem standing_opened {signals : List Signal} {outbox : Outbox} {s : Session}
    (h : Session.connect settings (Inbox.after signals) outbox = (.ok (), s)) :
    (opened signals s).Standing settings outbox.sent := by
  obtain ⟨hroom, room, h⟩ := Session.await_of_connect h
  have hsound : (Inbox.after signals).Sound := Inbox.sound_empty.notices signals
  obtain ⟨preamble, ht⟩ := Inbox.takes_hear Session.confirmation hsound
    (Listener.start settings.readyLine settings.completeMark)
  have hcarries : outbox.Carries outbox.sent [] [] := ⟨[], by simp, fun hne => absurd rfl hne⟩
  have hstream := hcarries.wrote hroom settings.selectLine room
  rcases Session.await_cases Session.confirmation .project ((Session.start settings
      (Inbox.after signals) outbox).wrote settings.selectLine room .awaitingProject) with
    ⟨_, hfound, hawait⟩ | ⟨-, fault, -, hawait⟩
  · obtain ⟨-, rfl⟩ := Prod.mk.inj (h.symm.trans hawait)
    have hlistens := ht.listens
    change (Inbox.hear Session.confirmation
      (Listener.start settings.readyLine settings.completeMark) (Inbox.after signals)).1 = _ at hfound
    rw [hfound] at hlistens
    obtain ⟨hclosed, hlistener⟩ := Listener.listens_confirmation rfl hlistens
    refine ⟨preamble, [], ⟨fun _ => Or.inl rfl, fun hno => absurd hno (by simp [opened]),
      fun _ => rfl, hstream⟩, rfl, ht.sound, ?_, ?_, hlistener, Listener.lack_nil _,
      .opened hclosed, fun _ => rfl, fun hno => absurd hno (by simp [opened])⟩
    · rw [List.append_nil]
      exact ht.raw
    · rw [List.append_nil]
      exact ht.follows
  · exact absurd (h.symm.trans hawait) (by simp)

/-- The account of some history on a session that was opened with these settings. -/
def Reached (settings : ConsoleSettings) (a : Account) : Prop :=
  ∃ signals outbox s history,
    Session.connect settings (Inbox.after signals) outbox = (.ok (), s) ∧
      a = (opened signals s).run history

/-- **After every history a session stands somewhere in the output.** -/
theorem Reached.standing (h : a.Reached settings) : ∃ before, a.Standing settings before := by
  obtain ⟨signals, outbox, s, history, hconnect, rfl⟩ := h
  exact ⟨outbox.sent, (standing_opened hconnect).run history⟩

end Account

end ImportTidy

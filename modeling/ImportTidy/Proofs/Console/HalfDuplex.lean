/-
# ImportTidy.Proofs.Console.HalfDuplex — commands and responses take turns

The books of a session balance after every history of calls, whatever the console does in between
(`Account.Balanced`). What a call gives is fixed by the phase in which it comes and by what the
console does: a call in the wrong phase is refused and changes nothing, a line that could not be
written leaves the session ready, a response that does not come leaves it waiting with everything
that it has read so far, and leave can be taken in vain (`Account.Gives`).

The pipe has more than the commands that were sent when the console closes its end in the middle of
one, and it has the command to exit whenever that could be written, also when the console did not
exit then (`pipe_has_unsent`).
-/
import ImportTidy.Proofs.Console.Delivery

namespace ImportTidy

open Outbox (lineBytes)
open Utf8 (bytes)

namespace Call

/-- The phase in which the call may be made. -/
def phase : Call → Phase
  | .receive => .awaitingResult
  | _ => .ready

/-- The phase after a call that succeeds. -/
def next : Call → Phase
  | .send _ => .awaitingResult
  | .terminate _ => .terminated
  | _ => .ready

/-- What the call first asks of the session. -/
def asks : Call → Request
  | .receive => .receive
  | .terminate _ => .terminate
  | _ => .send

/-- The line that the call writes. -/
def line? (settings : ConsoleSettings) : Call → Option Text
  | .send command => some command
  | .receive => none
  | .request command _ => some command
  | .compile _ => some settings.compileCommand
  | .terminate _ => some settings.exitCommand

/-- What the console does during the call. -/
def meanwhile : Call → List Signal
  | .request _ meanwhile => meanwhile
  | .compile meanwhile => meanwhile
  | _ => []

end Call

namespace Session

/-- The call on a session while the console does nothing of its own; the result has the response, if
the call is for one. -/
def perform (s : Session) : Call → Except ConsoleFault (Option Text) × Session
  | .send command => (s.send command).map (Except.map fun _ => none) id
  | .receive => s.receive.map (Except.map some) id
  | .request command _ => (s.request command).map (Except.map some) id
  | .compile _ => s.compile.map (Except.map some) id
  | .terminate departure => (s.terminate departure).map (Except.map fun _ => none) id

/-- Some rows of the inbox were read, and are kept as lines of the response. -/
def Gathers (i : Inbox) (s s' : Session) : Prop :=
  ∃ read, i.raw = read.flatten ++ s'.inbox.raw ∧
    s'.listener.collected = s.listener.collected ++ Inbox.spoken read

/-- A response is received and the session ready, or the wait was in vain and what was read is kept,
or nothing was awaited. -/
theorem receive_cases {s : Session} (hsound : s.inbox.Sound)
    (hselected : s.listener.selected = true) :
    (s.phase = .awaitingResult ∧ ∃ response s', s.receive = (.ok response, s') ∧
      s'.phase = .ready) ∨
    (s.phase = .awaitingResult ∧ ∃ fault s', s.receive = (.error fault, s') ∧
      s'.phase = .awaitingResult ∧ fault.isOfWaiting = true ∧ Gathers s.inbox s s') ∨
    (s.phase ≠ .awaitingResult ∧ s.receive = (.error (.refused .receive s.phase), s)) := by
  unfold receive
  by_cases hphase : s.phase = .awaitingResult
  · rw [if_pos hphase]
    rcases await_cases response .result s with ⟨answer, -, hawait⟩ | ⟨hnone, fault, hof, hawait⟩
    · exact Or.inl ⟨hphase, answer, _, hawait, rfl⟩
    · obtain ⟨read, htakes⟩ := Inbox.takes_hear response hsound s.listener
      have hcollects := Listener.listens_response hselected htakes.listens
      rw [hnone] at hcollects
      refine Or.inr (Or.inl ⟨hphase, fault, _, hawait, hphase, hof, read, htakes.raw, ?_⟩)
      rw [hcollects.2]
  · rw [if_neg hphase]
    exact Or.inr (Or.inr ⟨hphase, rfl⟩)

end Session

namespace Account

/-! ## What a call gives and leaves -/

/-- What a call on a connected session gives, and the session that it leaves. -/
inductive Gives (a : Account) (c : Call) : Except ConsoleFault (Option Text) → Session → Prop
  /-- In the wrong phase the call is refused, and nothing has changed. -/
  | refused : a.session.phase ≠ c.phase →
      Gives a c (.error (.refused c.asks a.session.phase)) a.session
  /-- When a line cannot be written, the phase stays and nothing was read. The pipe may have taken
  the beginning of the line, but only if its other end was open before. -/
  | cut {line : Text} {taken : List UInt8} : a.session.phase = c.phase →
      c.line? a.session.settings = some line → taken <+: lineBytes line →
      (a.session.outbox.room = some 0 → taken = []) →
      Gives a c (.error (.system a.session.outbox.refusal)) (a.session.cut taken)
  /-- When no response comes the session goes on waiting, and what was read is kept. -/
  | unanswered {fault : ConsoleFault} {s' : Session} : a.session.phase = c.phase →
      fault.isOfWaiting = true → s'.phase = .awaitingResult →
      Session.Gathers (c.meanwhile.foldl Inbox.notice a.session.inbox) a.session s' →
      Gives a c (.error fault) s'
  /-- The console was told to exit and did not do so in good order. -/
  | astray {departure : Departure} {room : Option Nat} {fault : ConsoleFault} {s' : Session} :
      c = .terminate departure → a.session.phase = .ready →
      (a.session.wrote a.session.settings.exitCommand room .ready).depart departure =
        (.error fault, s') →
      Gives a c (.error fault) s'
  | done {result : Option Text} {s' : Session} : a.session.phase = c.phase → s'.phase = c.next →
      Gives a c (.ok result) s'

variable {settings : ConsoleSettings} {before : List UInt8} {a : Account}

theorem gives_send (a : Account) (command : Text) :
    a.Gives (.send command) ((a.send command).1.map fun _ => none) (a.send command).2.session := by
  unfold Account.send
  rcases Session.send_cases command a.session with ⟨hready, -, room, hsend⟩ |
    ⟨hready, taken, htaken, hclosed, hsend⟩ | ⟨hphase, hsend⟩
  · rw [hsend]
    exact .done hready rfl
  · rw [hsend]
    exact .cut hready rfl htaken hclosed
  · rw [hsend]
    exact .refused hphase

theorem phase_of_depart {s s' : Session} {departure : Departure} {code : Option Nat}
    (h : s.depart departure = (.ok code, s')) : s'.phase = .terminated := by
  cases departure <;> simp only [Session.depart, Prod.mk.injEq, reduceCtorEq, false_and] at h
  · rw [← h.2]
  · rw [← h.2]

theorem gives_terminate (a : Account) (departure : Departure) :
    a.Gives (.terminate departure) ((a.terminate departure).1.map fun _ => none)
      (a.terminate departure).2.session := by
  unfold Account.terminate
  rcases Session.leave_cases a.session with ⟨hready, -, room, hleave⟩ |
    ⟨hready, taken, htaken, hclosed, hleave⟩ | ⟨hphase, hleave⟩
  · rw [hleave]
    dsimp only
    rcases hdepart : (a.session.wrote a.session.settings.exitCommand room .ready).depart departure
      with ⟨fault | code, s'⟩
    · exact .astray rfl hready hdepart
    · exact .done hready (phase_of_depart hdepart)
  · rw [hleave]
    exact .cut hready rfl htaken hclosed
  · rw [hleave]
    exact .refused hphase

theorem Stands.gives_receive {read part : List (List UInt8)}
    (h : a.Stands settings before read part) :
    a.Gives .receive (a.receive.1.map some) a.receive.2.session := by
  unfold Account.receive
  rcases Session.receive_cases h.sound (by rw [h.listener]) with
    ⟨hphase, response, s', hreceive, hready⟩ |
    ⟨hphase, fault, s', hreceive, hphase', hof, hgathers⟩ | ⟨hphase, hreceive⟩
  · rw [hreceive]
    exact .done hphase hready
  · rw [hreceive]
    exact .unanswered hphase hof hphase' hgathers
  · rw [hreceive]
    exact .refused hphase

/-- Signals come to the inbox and the pipe; the rest of the session stays. -/
theorem session_notices (signals : List Signal) (a : Account) :
    ∃ outbox, (signals.foldl notice a).session =
      { a.session with inbox := signals.foldl Inbox.notice a.session.inbox, outbox := outbox } := by
  induction signals generalizing a with
  | nil => exact ⟨a.session.outbox, rfl⟩
  | cons g signals ih =>
      obtain ⟨outbox, heq⟩ := ih (a.notice g)
      exact ⟨outbox, heq⟩

/-- A request is a command and the wait for its response. -/
theorem Standing.gives_request (h : a.Standing settings before) (hfate : a.fate = .connected)
    {c : Call} (hphase : c.phase = .ready) (hasks : c.asks = .send) (hnext : c.next = .ready)
    {command : Text} (hline : c.line? a.session.settings = some command) :
    a.Gives c ((a.request command c.meanwhile).1.map some)
      (a.request command c.meanwhile).2.session := by
  have hstanding := h.send hfate command
  unfold Account.request
  unfold Account.send at hstanding ⊢
  rcases Session.send_cases command a.session with ⟨hready, -, room, hsend⟩ |
    ⟨hready, taken, htaken, hclosed, hsend⟩ | ⟨hwrong, hsend⟩
  · -- the command was sent, and the wait begins when the signals have come
    rw [hsend] at hstanding ⊢
    obtain ⟨read, part, hwaits⟩ := hstanding.notices c.meanwhile
    obtain ⟨outbox, hsession⟩ := session_notices c.meanwhile
      { a with
        session := a.session.wrote command room .awaitingResult
        latest := ⟨command, a.emitted, a.session.inbox.raw⟩
        sent := a.sent ++ [command] }
    dsimp only at hwaits hsession ⊢
    generalize List.foldl Account.notice _ c.meanwhile = waiting at hwaits hsession ⊢
    have hwait : waiting.session.phase = .awaitingResult := by rw [hsession]; rfl
    unfold Account.receive
    rcases Session.receive_cases hwaits.sound (by rw [hwaits.listener]) with
      ⟨-, response, s', hreceive, hready'⟩ |
      ⟨-, fault, s', hreceive, hphase', hof, hgathers⟩ | ⟨hwrong, -⟩
    · rw [hreceive]
      exact .done (hready.trans hphase.symm) (hready'.trans hnext.symm)
    · rw [hreceive]
      refine .unanswered (hready.trans hphase.symm) hof hphase' ?_
      rw [hsession] at hgathers
      exact hgathers
    · exact absurd hwait hwrong
  · rw [hsend]
    exact .cut (hready.trans hphase.symm) hline htaken hclosed
  · have hrefused : a.Gives c (.error (.refused c.asks a.session.phase)) a.session :=
      .refused (by rw [hphase]; exact hwrong)
    rw [hasks] at hrefused
    rw [hsend]
    exact hrefused

theorem Standing.gives (h : a.Standing settings before) (hfate : a.fate = .connected) (c : Call) :
    a.Gives c (a.call c).1 (a.call c).2.session := by
  cases c with
  | send command => exact a.gives_send command
  | receive =>
      obtain ⟨read, part, h⟩ := h
      exact h.gives_receive
  | request command meanwhile =>
      exact h.gives_request hfate (c := .request command meanwhile) rfl rfl rfl rfl
  | compile meanwhile => exact h.gives_request hfate (c := .compile meanwhile) rfl rfl rfl rfl
  | terminate departure => exact a.gives_terminate departure

/-- A session whose leave was taken in good order has told the console to exit. -/
theorem fate_of_terminate {departure : Departure}
    (h : (a.call (.terminate departure)).1.isOk = true) :
    (a.call (.terminate departure)).2.fate = .left := by
  simp only [call, Account.terminate] at h ⊢
  rcases hleave : a.session.leave with ⟨fault | _, s⟩
  · rw [hleave] at h
    exact absurd h (by simp [Except.map, Except.isOk, Except.toBool])
  · rfl

/-- While the console does nothing of its own, a call with a record is the call without it. -/
theorem perform_of_quiet (a : Account) {c : Call} (hquiet : c.meanwhile = []) :
    a.session.perform c = ((a.call c).1, (a.call c).2.session) := by
  -- a request without signals is the command and the wait
  have hrequest : ∀ command, a.session.request command =
      ((a.request command []).1, (a.request command []).2.session) := by
    intro command
    unfold Session.request Account.request Account.send
    rcases a.session.send command with ⟨fault | _, s⟩
    · rfl
    · dsimp only [List.foldl_nil]
      unfold Account.receive
      dsimp only
      rcases s.receive with ⟨fault | response, s'⟩ <;> rfl
  cases c with
  | send command =>
      simp only [Session.perform, call, Account.send]
      rcases a.session.send command with ⟨fault | _, s⟩ <;> rfl
  | receive =>
      simp only [Session.perform, call, Account.receive]
      rcases a.session.receive with ⟨fault | _, s⟩ <;> rfl
  | request command meanwhile =>
      obtain rfl : meanwhile = [] := hquiet
      simp only [Session.perform, call, hrequest]
      rfl
  | compile meanwhile =>
      obtain rfl : meanwhile = [] := hquiet
      simp only [Session.perform, call, Session.compile, hrequest]
      rfl
  | terminate departure =>
      simp only [Session.perform, call, Session.terminate, Account.terminate]
      rcases a.session.leave with ⟨fault | _, s⟩ <;> rfl

/-- **Commands and responses take turns.** After every history on a session that was opened, the books
balance, and the next call gives what fits its phase and what the console does. -/
theorem half_duplex {signals : List Signal} {outbox : Outbox} {s : Session}
    (hconnect : Session.connect settings (Inbox.after signals) outbox = (.ok (), s))
    (history : List Happening) :
    ((opened signals s).run history).Balanced settings outbox.sent ∧
      (((opened signals s).run history).fate = .connected → ∀ c : Call,
        ((opened signals s).run history).Gives c (((opened signals s).run history).call c).1
            (((opened signals s).run history).call c).2.session ∧
          (c.meanwhile = [] → ((opened signals s).run history).session.perform c =
            ((((opened signals s).run history).call c).1,
              (((opened signals s).run history).call c).2.session))) ∧
      ∀ departure,
        (((opened signals s).run history).call (.terminate departure)).1.isOk = true →
          (((opened signals s).run history).call (.terminate departure)).2.fate = .left := by
  have hstanding := (standing_opened hconnect).run history
  refine ⟨?_, fun hfate c => ⟨hstanding.gives hfate c, fun hquiet => perform_of_quiet _ hquiet⟩,
    fun departure hok => fate_of_terminate hok⟩
  obtain ⟨read, part, hstands⟩ := hstanding
  exact hstands.toBalanced

/-- What the console says before. -/
def greeting : List Signal := [.emits (bytes "Set current project to common\n".toList)]

/-- The session at the start. -/
def greeted : Session := (Session.connect common (Inbox.after greeting) Outbox.empty).2

/-- The client asks too early, out of turn and in vain, and then the console takes no more commands. -/
def strained : List Happening :=
  [.call .receive, .call (.send "clean".toList), .call (.send "again".toList), .call .receive,
    .signal (.emits (bytes "[success] Total time: 1 s\n".toList)), .call .receive,
    .call (.compile [.emits (bytes "compiling\n".toList), .closes 0])]

theorem half_duplex_strained :
    Session.connect common (Inbox.after greeting) Outbox.empty = (.ok (), greeted) ∧
      ((opened greeting greeted).run strained).sent = ["clean".toList, "test:compile".toList] ∧
      ((opened greeting greeted).run strained).responses = ["[success] Total time: 1 s".toList] ∧
      ((opened greeting greeted).run strained).session.listener.collected =
        ["compiling".toList] ∧
      ((opened greeting greeted).run strained).fate = .connected ∧
      ((opened greeting greeted).run strained).Balanced common [] ∧
      ((opened greeting greeted).run strained).Gives (.terminate .detached)
        (((opened greeting greeted).run strained).call (.terminate .detached)).1
        (((opened greeting greeted).run strained).call (.terminate .detached)).2.session := by
  have hconnect : Session.connect common (Inbox.after greeting) Outbox.empty = (.ok (), greeted) :=
    Session.connect_of_isOk (by decide +kernel)
  have hfate : ((opened greeting greeted).run strained).fate = .connected := by decide +kernel
  obtain ⟨hbalanced, hcalls, -⟩ := half_duplex hconnect strained
  exact ⟨hconnect, by decide +kernel, by decide +kernel, by decide +kernel, hfate, hbalanced,
    (hcalls hfate (.terminate .detached)).1⟩

/-- The console closes its end when it has been written two more bytes. -/
def choked : Account := told greeting [.signal (.closes 2), .call (.send "clean".toList)]

/-- The console does not heed the command to exit. -/
def ignored : Except ConsoleFault (Option Text) × Account :=
  (told greeting []).call (.terminate .killed)

/-- No command was sent, and the pipe has two bytes of one. The client could not take leave, and the
pipe has the command to exit. -/
theorem pipe_has_unsent :
    choked.Reached common ∧ choked.sent = [] ∧ choked.session.phase = .ready ∧
      choked.session.outbox.sent = bytes "project common\ncl".toList ∧
      ignored.1 = .error (.silent common.patience) ∧ ignored.2.sent = [] ∧
      ignored.2.session.outbox.sent = bytes "project common\nexit\n".toList :=
  ⟨reached_told (by decide +kernel) _, by decide +kernel, by decide +kernel, by decide +kernel,
    rfl, by decide +kernel, by decide +kernel⟩

end Account

end ImportTidy

/-
# ImportTidy.Proofs.Console.Delivery — which output a response is

A console that speaks text has units of output: behind the line with the ready mark, the lines up to
each one with the mark of completion. However the output is cut into pieces and however the calls
lie between them, the responses are the first units, in order, and every line is in a response,
collected for the next, or still to be read (`responses_are_units`).

So a response begins where the one before it ended, and not where its command was written. The two
are the same place when nothing was unread at that time, and only then (`response_spans`). Output
that comes while the session is ready begins the next response, and when it has the mark of
completion it is all of it (`hasty_receives_stale`).
-/
import ImportTidy.Proofs.Console.History

namespace ImportTidy

open Inbox (rows spoken lineOf?)
open Listener (ClosedBy Lack)
open Utf8 (bytes)

namespace Listener

/-! ## Units of output -/

/-- The lines behind the first one with a mark. -/
def behind (mark : Text) (lines : List Text) : List Text :=
  (lines.dropWhile fun line => !Text.occurs mark line).tail

/-- Lines cut behind each one with a mark. Lines behind the last of them are no unit yet. -/
def units (mark : Text) : List Text → List (List Text)
  | [] => []
  | line :: lines =>
    if Text.occurs mark line then [line] :: units mark lines
    else
      match units mark lines with
      | [] => []
      | unit :: more => (line :: unit) :: more

variable {mark : Text}

theorem behind_append {preamble : List Text} (h : ClosedBy mark preamble) (lines : List Text) :
    behind mark (preamble ++ lines) = lines := by
  obtain ⟨before, last, rfl, hbefore, hlast⟩ := h
  have hskip : ∀ line ∈ before, (!Text.occurs mark line) = true := by
    intro line hline
    rw [hbefore line hline]
    rfl
  rw [behind, List.append_assoc, List.dropWhile_append_of_pos hskip, List.singleton_append,
    List.dropWhile_cons_of_neg (by simp [hlast]), List.tail_cons]

theorem units_append {unit : List Text} (h : ClosedBy mark unit) (lines : List Text) :
    units mark (unit ++ lines) = unit :: units mark lines := by
  obtain ⟨before, last, rfl, hbefore, hlast⟩ := h
  induction before with
  | nil => simp [units, hlast]
  | cons line before ih =>
      have hline := hbefore line List.mem_cons_self
      have hmore := ih fun l hl => hbefore l (List.mem_cons_of_mem line hl)
      rw [List.cons_append, List.cons_append, units, if_neg (by simp [hline]), hmore]

theorem units_flatten_append {us : List (List Text)} (h : ∀ u ∈ us, ClosedBy mark u)
    (lines : List Text) : units mark (us.flatten ++ lines) = us ++ units mark lines := by
  induction us with
  | nil => rfl
  | cons u us ih =>
      rw [List.forall_mem_cons] at h
      rw [List.flatten_cons, List.append_assoc, units_append h.1, ih h.2, List.cons_append]

end Listener

namespace Inbox

/-- Behind some rows of a text's output comes the output of a text. -/
theorem bytes_of_rows_append {t : Text} {read : List (List UInt8)} {x : List UInt8}
    (h : rows (bytes t) = read ++ rows x) : ∃ later, bytes later = x := by
  obtain ⟨texts, htexts, -⟩ := rows_bytes t
  obtain ⟨_, last, -, -, hlast⟩ := List.map_eq_append_iff.mp (htexts.symm.trans h)
  refine ⟨last.flatten, ?_⟩
  rw [← flatten_rows x, ← hlast]
  clear hlast
  induction last with
  | nil => rfl
  | cons text last ih =>
      rw [List.flatten_cons, Utf8.bytes_append, ih, List.map_cons, List.flatten_cons]

end Inbox

/-! ## Responses on record -/

namespace Logged

variable {settings : ConsoleSettings} {read : List (List UInt8)} {exchanges : List Exchange}

/-- The rows that were read spell a preamble and the units that were received. -/
theorem units (h : Logged settings read exchanges) :
    ∃ (preamble : List Text) (us : List (List Text)),
      spoken read = preamble ++ us.flatten ∧ ClosedBy settings.readyLine preamble ∧
      (∀ u ∈ us, ClosedBy settings.completeMark u) ∧
      exchanges.map Exchange.response = us.map (Text.join ['\n']) := by
  induction h with
  | @opened preamble hclosed => exact ⟨spoken preamble, [], by simp, hclosed, by simp, rfl⟩
  | @answered read body exchanges e _ hspans ih =>
      obtain ⟨preamble, us, hread, hready, hus, hresponses⟩ := ih
      refine ⟨preamble, us ++ [spoken body], ?_, hready, ?_, ?_⟩
      · rw [Inbox.spoken_append, hread]
        simp
      · intro u hu
        rcases List.mem_append.mp hu with hold | hnew
        · exact hus u hold
        · rw [List.mem_singleton.mp hnew]
          exact hspans.closed
      · rw [List.map_append, List.map_append, hresponses, List.map_singleton, hspans.response]
        rfl

/-- The rows that were read are a preamble and one body after another, each for its response. -/
theorem bodies (h : Logged settings read exchanges) :
    ∃ (preamble : List (List UInt8)) (bodies : List (List (List UInt8))),
      read = preamble ++ bodies.flatten ∧
      ClosedBy settings.readyLine (spoken preamble) ∧ bodies.length = exchanges.length ∧
      ∀ (n : Nat) (e : Exchange), exchanges[n]? = some e → ∃ body, bodies[n]? = some body ∧
        e.Spans settings.completeMark (preamble ++ (bodies.take n).flatten) body := by
  induction h with
  | @opened preamble hclosed => exact ⟨preamble, [], by simp, hclosed, rfl, by simp⟩
  | @answered read body exchanges e _ hspans ih =>
      obtain ⟨preamble, bodies, rfl, hready, hlength, hbodies⟩ := ih
      refine ⟨preamble, bodies ++ [body], by simp, hready, by simp [hlength], ?_⟩
      intro n e' he'
      by_cases hn : n < exchanges.length
      · rw [List.getElem?_append_left hn] at he'
        obtain ⟨body', hbody', hspans'⟩ := hbodies n e' he'
        rw [List.getElem?_append_left (by omega), List.take_append_of_le_length (by omega)]
        exact ⟨body', hbody', hspans'⟩
      · -- the last response has everything before it in front
        have hbound := (List.getElem?_eq_some_iff.mp he').1
        have hlast : n = exchanges.length := by
          rw [List.length_append, List.length_singleton] at hbound
          omega
        subst hlast
        rw [List.getElem?_concat_length] at he'
        obtain rfl := Option.some.inj he'
        refine ⟨body, by rw [← hlength, List.getElem?_concat_length], ?_⟩
        rwa [← hlength, List.take_left]

end Logged

namespace Account

variable {settings : ConsoleSettings} {before : List UInt8} {a : Account}
  {read part : List (List UInt8)}

/-- When the console speaks text, a wait for a response that fails has read every line that can be
read: all that have been ended and, at the end of the output, the last. -/
theorem Stands.receive_exhausts (h : a.Stands settings before read part) {t : Text}
    {coming : List UInt8} (hstream : bytes t = a.emitted ++ coming)
    (hend : a.session.inbox.ended = true → coming = [])
    (hphase : a.session.phase = .awaitingResult) :
    (∃ response, a.session.receive.1 = .ok response) ∨
      a.session.receive.2.inbox.lines = [] ∧
        (a.session.inbox.ended = true → a.session.receive.2.inbox.raw = []) := by
  obtain ⟨taken, ht⟩ := Inbox.takes_hear Session.response h.sound a.session.listener
  obtain ⟨hemitted, hfollows⟩ := h.takes ht
  -- what was read are rows of the text, so each of them is text
  obtain ⟨x, hrows⟩ : ∃ x, rows (bytes t) = read ++ (part ++ taken) ++ rows x := by
    rw [hstream, hemitted, List.append_assoc]
    exact ⟨_, hfollows coming (by rwa [ht.ended])⟩
  have htext : ∀ row ∈ taken, lineOf? row ≠ none := by
    intro row hrow
    apply Inbox.lineOf?_ne_none (t := t)
    rw [hrows]
    simp [hrow]
  have hreceive : a.session.receive = a.session.await Session.response .result := by
    rw [Session.receive, if_pos hphase]
  rw [hreceive]
  rcases Session.await_cases Session.response .result a.session with
    ⟨response, -, hawait⟩ | ⟨hnone, fault, -, hawait⟩
  · exact Or.inl ⟨response, by rw [hawait]⟩
  · rw [hawait]
    rcases ht.stop with ⟨response, hfound⟩ | ⟨row, hrow, hflaw⟩ | hdone
    · rw [hfound] at hnone
      exact absurd hnone (by simp [Inbox.Heard.answer?])
    · exact absurd hflaw (htext row hrow)
    · exact Or.inr hdone

/-- Behind the ready line, the lines of a text are the units that were received, those that are
collected for the next response, and the lines of the text that comes later. -/
structure Apportions (settings : ConsoleSettings) (a : Account) (t : Text)
    (us : List (List Text)) (later : Text) : Prop where
  responses : a.responses = us.map (Text.join ['\n'])
  closed : ∀ u ∈ us, ClosedBy settings.completeMark u
  lack : Lack settings.completeMark a.session.listener.collected
  lines : Listener.behind settings.readyLine (Text.lines t) =
    us.flatten ++ (a.session.listener.collected ++ Text.lines later)

/-- **The responses are the first units of the output.** The console speaks a text, of which the
bytes in `coming` have not been emitted yet. No line of it is lost or told twice: each is in a
response, collected, or still to be read. While a response is awaited, a wait gives one unless it
has read every line that can be read. -/
theorem responses_are_units (ha : a.Reached settings) {t : Text} {coming : List UInt8}
    (hstream : bytes t = a.emitted ++ coming)
    (hend : a.session.inbox.ended = true → coming = []) :
    a.responses <+: (Listener.units settings.completeMark
        (Listener.behind settings.readyLine (Text.lines t))).map (Text.join ['\n']) ∧
      (∃ us later, bytes later = a.session.inbox.raw ++ coming ∧
        a.Apportions settings t us later) ∧
      (a.session.phase = .awaitingResult →
        (∃ response, a.session.receive.1 = .ok response) ∨
          a.session.receive.2.inbox.lines = [] ∧
            (a.session.inbox.ended = true → a.session.receive.2.inbox.raw = [])) := by
  obtain ⟨before, read, part, h⟩ := ha.standing
  obtain ⟨preamble, us, hread, hready, hus, hresponses⟩ := h.log.units
  have hrows : rows (bytes t) = read ++ part ++ rows (a.session.inbox.raw ++ coming) := by
    rw [hstream, h.emitted, List.append_assoc]
    exact h.follows coming hend
  obtain ⟨later, hlater⟩ := Inbox.bytes_of_rows_append hrows
  have hlines : Text.lines t = preamble ++ (us.flatten ++ (spoken part ++ Text.lines later)) := by
    rw [← Inbox.spoken_rows_bytes t, hrows, ← hlater, Inbox.spoken_append, Inbox.spoken_append,
      hread, Inbox.spoken_rows_bytes]
    simp only [List.append_assoc]
  have hbehind := Listener.behind_append hready (us.flatten ++ (spoken part ++ Text.lines later))
  have hcollected : a.session.listener.collected = spoken part := by rw [h.listener]
  refine ⟨?_, ⟨us, later, hlater, hresponses, hus, ?_, ?_⟩, h.receive_exhausts hstream hend⟩
  · rw [hlines, hbehind, Listener.units_flatten_append hus, List.map_append]
    exact ⟨_, congrArg (· ++ _) hresponses⟩
  · rw [hcollected]
    exact h.lack
  · rw [hlines, hbehind, hcollected]

/-- The built-in settings for one project. -/
def common : ConsoleSettings := ConsoleSettings.standard.forProject "common".toList

/-- An account of a session with that project. -/
def told (signals : List Signal) (history : List Happening) : Account :=
  (opened signals (Session.connect common (Inbox.after signals) Outbox.empty).2).run history

theorem reached_told {signals : List Signal}
    (h : (Session.connect common (Inbox.after signals) Outbox.empty).1.isOk = true)
    (history : List Happening) : (told signals history).Reached common := by
  exact ⟨signals, Outbox.empty, _, history, Session.connect_of_isOk h, rfl⟩

/-- A text with one unit behind the ready line, and one more line. -/
def overheard : Text :=
  "Set current project to common\ncompiling café\r\n[success] Total time: 1 s\nnext\n".toList

/-- The output comes in pieces that end in the middle of lines, and one in the middle of a
character. The client asks too early, twice in vain, and out of turn. -/
def interrupted : Account :=
  told [.emits (bytes "Set current project to common\ncompiling caf".toList ++ [195])]
    [.call .receive, .call (.send "test:compile".toList), .call .receive,
      .signal (.emits [169, 13, 10, 91]), .call .receive, .call (.send "exit".toList),
      .signal (.emits (bytes "success] Total time: 1 s\nne".toList)), .call .receive,
      .call (.request "test:compile".toList [.emits (bytes "xt".toList)])]

theorem responses_are_units_interrupted :
    interrupted.responses = ["compiling café\n[success] Total time: 1 s".toList] ∧
      interrupted.responses <+: (Listener.units common.completeMark
        (Listener.behind common.readyLine (Text.lines overheard))).map (Text.join ['\n']) ∧
      ∃ us later, bytes later = interrupted.session.inbox.raw ++ [10] ∧
        interrupted.Apportions common overheard us later := by
  have hreached : interrupted.Reached common := reached_told (by decide +kernel) _
  have hstream : bytes overheard = interrupted.emitted ++ [10] := by decide +kernel
  have hunits := responses_are_units hreached hstream (by decide +kernel)
  exact ⟨by decide +kernel, hunits.1, hunits.2.1⟩

end Account

/-! ## Commands and their responses -/

/-- All of a response that begins behind these rows was emitted after its command was written. -/
def Exchange.Fresh (e : Exchange) (before : List (List UInt8)) : Prop :=
  e.dispatch.emitted <+: before.flatten

theorem Exchange.Spans.fresh_iff {mark : Text} {e : Exchange} {before body : List (List UInt8)}
    (h : e.Spans mark before body) : e.Fresh before ↔ e.dispatch.unread = [] := by
  unfold Exchange.Fresh
  rw [h.dispatched]
  constructor
  · intro hfresh
    have hlength := hfresh.length_le
    rw [List.length_append] at hlength
    exact List.eq_nil_of_length_eq_zero (by omega)
  · intro hnil
    simp [hnil]

namespace Account

variable {settings : ConsoleSettings} {a : Account}

/-- The rows of the output begin with a preamble up to the ready mark, and then one body for each
response. -/
structure Divided (settings : ConsoleSettings) (a : Account) (preamble : List (List UInt8))
    (bodies : List (List (List UInt8))) : Prop where
  ready : ClosedBy settings.readyLine (spoken preamble)
  length : bodies.length = a.exchanges.length
  rows : preamble ++ bodies.flatten <+: rows a.emitted

/-- **A response begins where the one before it ended.** It is all from after its command exactly
when nothing was unread as the command was written; what was unread then begins the response, or is
more than all of it. This holds of any output, also of bytes that are no text. -/
theorem response_spans (ha : a.Reached settings) :
    ∃ preamble bodies, a.Divided settings preamble bodies ∧
      ∀ (n : Nat) (e : Exchange), a.exchanges[n]? = some e → ∃ body, bodies[n]? = some body ∧
        e.Spans settings.completeMark (preamble ++ (bodies.take n).flatten) body ∧
        (e.Fresh (preamble ++ (bodies.take n).flatten) ↔ e.dispatch.unread = []) := by
  obtain ⟨before, read, part, h⟩ := ha.standing
  obtain ⟨preamble, bodies, rfl, hready, hlength, hbodies⟩ := h.log.bodies
  have hrows := h.follows [] fun _ => rfl
  rw [List.append_nil, ← h.emitted] at hrows
  refine ⟨preamble, bodies, ⟨hready, hlength, ?_⟩, ?_⟩
  · rw [hrows, List.append_assoc]
    exact List.prefix_append _ _
  · intro n e he
    obtain ⟨body, hbody, hspans⟩ := hbodies n e he
    exact ⟨body, hbody, hspans, hspans.fresh_iff⟩

/-- The console writes a prompt when it is done, which nothing reads before the next command. -/
def prompted : Account :=
  told [.emits (bytes "Set current project to common\n".toList)]
    [.call (.request "test:compile".toList [.emits (bytes "[success] Total time: 1 s\n> ".toList)]),
      .call (.request "test:compile".toList [.emits (bytes "[error] Total time: 2 s\n> ".toList)])]

theorem response_spans_prompted :
    prompted.responses = ["[success] Total time: 1 s".toList, "> [error] Total time: 2 s".toList] ∧
      prompted.exchanges.map (fun e => e.dispatch.unread) = [[], bytes "> ".toList] ∧
      ∃ preamble bodies, prompted.Divided common preamble bodies ∧
        ∀ (n : Nat) (e : Exchange), prompted.exchanges[n]? = some e →
          ∃ body, bodies[n]? = some body ∧
            e.Spans common.completeMark (preamble ++ (bodies.take n).flatten) body ∧
            (e.Fresh (preamble ++ (bodies.take n).flatten) ↔ e.dispatch.unread = []) :=
  ⟨by decide +kernel, by decide +kernel, response_spans (reached_told (by decide +kernel) _)⟩

/-- A task of its own completes right behind the ready line. -/
def hasty : Account :=
  told [.emits (bytes "Set current project to common\n[success] Total time: 1 s\n".toList)]
    [.call (.send "test:compile".toList), .call .receive]

/-- The command has a response although the console has emitted nothing since it was written. -/
theorem hasty_receives_stale :
    hasty.Reached common ∧ ∃ e ∈ hasty.exchanges, e.dispatch.command = "test:compile".toList ∧
      e.response = "[success] Total time: 1 s".toList ∧ e.dispatch.emitted = hasty.emitted :=
  ⟨reached_told (by decide +kernel) _, by decide +kernel⟩

end Account

end ImportTidy

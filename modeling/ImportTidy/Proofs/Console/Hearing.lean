/-
# ImportTidy.Proofs.Console.Hearing — what is read from an inbox, and what stays in it

Waiting for something takes rows from the front of an inbox, feeds the lines that they spell to the
listener and leaves the other rows where they are, whether it finds anything or not (`takes_hear`).
The rows that were read stay the first rows of the output, whatever arrives later (`Follows`). What
a listener has learnt from the lines is then a matter of lines alone.
-/
import ImportTidy.Console.Session
import ImportTidy.Proofs.Console.Rows

namespace ImportTidy

namespace Inbox

open Utf8 (bytes)

/-! ## What an inbox holds -/

/-- The bytes that have arrived and have not been read. -/
def raw (i : Inbox) : List UInt8 := (i.lines.map (· ++ [10])).flatten ++ i.fragment

/-- The only line feeds are those between the lines. -/
structure Sound (i : Inbox) : Prop where
  lines : ∀ line ∈ i.lines, 10 ∉ line
  fragment : 10 ∉ i.fragment

/-- The rows have been read, and are the first of the output whatever is still to come. -/
def Follows (i : Inbox) (read : List (List UInt8)) : Prop :=
  ∀ coming, (i.ended = true → coming = []) →
    rows (read.flatten ++ (i.raw ++ coming)) = read ++ rows (i.raw ++ coming)

variable {i j : Inbox} {read more : List (List UInt8)}

theorem sound_empty : empty.Sound := ⟨by simp [empty], List.not_mem_nil⟩

section Arrival

variable (hopen : i.ended = false) (chunk : List UInt8)

include hopen

theorem arrive_eq :
    i.arrive chunk =
      { i with
        lines := i.lines ++ (cut (i.fragment ++ chunk)).1
        fragment := (cut (i.fragment ++ chunk)).2 } := by
  rw [arrive, hopen]
  rfl

theorem raw_arrive : (i.arrive chunk).raw = i.raw ++ chunk := by
  have hcut := (cut_spec (i.fragment ++ chunk)).1
  rw [arrive_eq hopen, raw, raw]
  dsimp only
  rw [List.map_append, List.flatten_append, List.append_assoc, hcut, List.append_assoc]

theorem Sound.arrive (h : i.Sound) : (i.arrive chunk).Sound := by
  obtain ⟨-, hlines, hfragment⟩ := cut_spec (i.fragment ++ chunk)
  rw [arrive_eq hopen]
  refine ⟨?_, hfragment⟩
  intro line hline
  rcases List.mem_append.mp hline with hold | hnew
  · exact h.lines line hold
  · exact hlines line hnew

theorem Follows.arrive (h : i.Follows read) : (i.arrive chunk).Follows read := by
  intro coming _
  rw [raw_arrive hopen, List.append_assoc]
  exact h (chunk ++ coming) (by simp [hopen])

end Arrival

theorem Follows.finish (h : i.Follows read) : i.finish.Follows read := by
  intro coming hcoming
  obtain rfl := hcoming rfl
  exact h [] fun _ => rfl

/-- Rows that are read one after another are read in the order of the output. -/
theorem Follows.append (h : i.Follows read) (hraw : i.raw = more.flatten ++ j.raw)
    (hended : j.ended = i.ended) (h' : j.Follows more) : j.Follows (read ++ more) := by
  intro coming hcoming
  have hfirst := h coming (by rwa [← hended])
  rw [hraw, List.append_assoc, h' coming hcoming] at hfirst
  rw [List.flatten_append, List.append_assoc, hfirst, List.append_assoc]

/-! ## Reading rows -/

/-- What was found, if anything. -/
def Heard.answer? {α : Type} : Heard α → Option α
  | .found a => some a
  | _ => none

variable {α : Type} {wanted : Listener.Event → Option α}

/-- The listener takes in the lines, up to the first that reports something wanted. -/
inductive Listens (wanted : Listener.Event → Option α) :
    Listener → List Text → Option α → Listener → Prop
  | idle (l : Listener) : Listens wanted l [] none l
  | found {l l' : Listener} {line : Text} {event : Listener.Event} {a : α} :
      l.feed line = (event, l') → wanted event = some a → Listens wanted l [line] (some a) l'
  | skipped {l l' l'' : Listener} {line : Text} {lines : List Text} {event : Listener.Event}
      {answer : Option α} :
      l.feed line = (event, l') → wanted event = none → Listens wanted l' lines answer l'' →
        Listens wanted l (line :: lines) answer l''

theorem Listens.append {l l' l'' : Listener} {before lines : List Text} {answer : Option α}
    (h : Listens wanted l before none l') (h' : Listens wanted l' lines answer l'') :
    Listens wanted l (before ++ lines) answer l'' := by
  generalize hnone : (none : Option α) = nothing at h
  induction h with
  | idle l => exact h'
  | found _ _ => exact absurd hnone (by simp)
  | skipped hfeed hwanted _ ih => exact .skipped hfeed hwanted (ih h' hnone)

/-- Reading complete lines takes them from the front. It stops where something is found or a line is
no text, and otherwise takes them all. -/
theorem listens_hearLines (wanted : Listener.Event → Option α) (l : Listener)
    (lines : List (List UInt8)) :
    ∃ taken, lines = taken ++ (hearLines wanted l lines).2.2 ∧
      Listens wanted l (spoken (taken.map (· ++ [10]))) (hearLines wanted l lines).1.answer?
        (hearLines wanted l lines).2.1 ∧
      ((∃ a, (hearLines wanted l lines).1 = .found a) ∨
        ((∃ flaw, (hearLines wanted l lines).1 = .undecodable flaw) ∧
          ∃ row ∈ taken.map (· ++ [10]), lineOf? row = none) ∨
        (hearLines wanted l lines).1 = .silent ∧ (hearLines wanted l lines).2.2 = []) := by
  induction lines generalizing l with
  | nil => exact ⟨[], rfl, .idle l, Or.inr (Or.inr ⟨rfl, rfl⟩)⟩
  | cons line lines ih =>
      rw [hearLines]
      cases hdecode : decode (line ++ [10]) with
      | error flaw =>
          have hnone : lineOf? (line ++ [10]) = none := by rw [lineOf?, hdecode]
          refine ⟨[line], rfl, ?_, Or.inr (Or.inl ⟨⟨flaw, rfl⟩, _, List.mem_cons_self, hnone⟩)⟩
          rw [List.map_singleton, spoken_cons_of_none hnone]
          exact .idle l
      | ok text =>
          have hsome : lineOf? (line ++ [10]) = some (dropLineEnd text) := by rw [lineOf?, hdecode]
          rcases hfeed : l.feed (dropLineEnd text) with ⟨event, l'⟩
          simp only [hfeed]
          cases hwanted : wanted event with
          | some a =>
              refine ⟨[line], rfl, ?_, Or.inl ⟨a, rfl⟩⟩
              rw [List.map_singleton, spoken_cons_of_some hsome]
              exact .found hfeed hwanted
          | none =>
              obtain ⟨taken, htaken, hlistens, hend⟩ := ih l'
              refine ⟨line :: taken, congrArg (line :: ·) htaken, ?_, ?_⟩
              · rw [List.map_cons, spoken_cons_of_some hsome]
                exact .skipped hfeed hwanted hlistens
              · rcases hend with hfound | ⟨hflaw, row, hrow, hnone⟩ | hsilent
                · exact Or.inl hfound
                · exact Or.inr (Or.inl ⟨hflaw, row, List.mem_cons_of_mem _ hrow, hnone⟩)
                · exact Or.inr (Or.inr hsilent)

/-- The end of the output makes a row of what stands behind the last line feed. -/
theorem listens_hearFragment (l : Listener) {fragment : List UInt8} (h : 10 ∉ fragment) :
    Listens wanted l (spoken (rows fragment)) (hearFragment wanted l fragment).1.answer?
      (hearFragment wanted l fragment).2 := by
  by_cases hne : fragment = []
  · subst hne
    exact .idle l
  · rw [rows_of_not_mem hne h, hearFragment.eq_2 _ _ _ hne]
    cases hdecode : decode fragment with
    | error flaw =>
        have hnone : lineOf? fragment = none := by rw [lineOf?, hdecode]
        rw [spoken_cons_of_none hnone]
        exact .idle l
    | ok text =>
        have htext : '\n' ∉ text := by
          intro hmem
          rw [decode_eq_ok_iff.mp hdecode] at h
          exact h (Utf8.lineFeed_mem_bytes.mpr hmem)
        have hsome : lineOf? fragment = some text := by
          rw [lineOf?, hdecode]
          exact congrArg some (dropLineEnd_of_not_mem htext)
        rw [spoken_cons_of_some hsome]
        rcases hfeed : l.feed text with ⟨event, l'⟩
        simp only [hfeed]
        cases hwanted : wanted event with
        | some a => exact .found hfeed hwanted
        | none => exact .skipped hfeed hwanted (.idle l')

/-- What waiting for something takes from an inbox: the rows that were read, and the outcome. When
nothing was found, a row was no text or everything has been read that could be. -/
structure Takes (wanted : Listener.Event → Option α) (l : Listener) (i : Inbox)
    (read : List (List UInt8)) (outcome : Heard α × Listener × Inbox) : Prop where
  raw : i.raw = read.flatten ++ outcome.2.2.raw
  sound : outcome.2.2.Sound
  ended : outcome.2.2.ended = i.ended
  follows : outcome.2.2.Follows read
  listens : Listens wanted l (spoken read) outcome.1.answer? outcome.2.1
  stop : (∃ a, outcome.1 = .found a) ∨ (∃ row ∈ read, lineOf? row = none) ∨
    outcome.2.2.lines = [] ∧ (i.ended = true → outcome.2.2.raw = [])

/-- **Waiting for something takes rows from the front and leaves the others.** -/
theorem takes_hear (wanted : Listener.Event → Option α) (h : i.Sound) (l : Listener) :
    ∃ read, Takes wanted l i read (hear wanted l i) := by
  obtain ⟨taken, htaken, hlistens, hend⟩ := listens_hearLines wanted l i.lines
  rcases hlines : hearLines wanted l i.lines with ⟨heard, l', rest⟩
  rw [hlines] at htaken hlistens hend
  dsimp only at htaken hlistens hend
  have htakenLines : ∀ line ∈ taken, 10 ∉ line := by
    intro line hline
    exact h.lines line (htaken ▸ List.mem_append_left rest hline)
  have hrestLines : ∀ line ∈ rest, 10 ∉ line := by
    intro line hline
    exact h.lines line (htaken ▸ List.mem_append_right taken hline)
  have hraw : i.raw = (taken.map (· ++ [10])).flatten ++ Inbox.raw { i with lines := rest } := by
    simp [Inbox.raw, htaken]
  -- rows that have been ended are the first ones, whatever follows
  have hfollows : Follows { i with lines := rest } (taken.map (· ++ [10])) :=
    fun coming _ => rows_append htakenLines _
  rcases hend with ⟨a, rfl⟩ | ⟨⟨flaw, rfl⟩, hnone⟩ | ⟨rfl, rfl⟩
  · rw [hear, hlines]
    exact ⟨_, hraw, ⟨hrestLines, h.fragment⟩, rfl, hfollows, hlistens, Or.inl ⟨a, rfl⟩⟩
  · rw [hear, hlines]
    exact ⟨_, hraw, ⟨hrestLines, h.fragment⟩, rfl, hfollows, hlistens, Or.inr (Or.inl hnone)⟩
  · cases hended : i.ended with
    | false =>
        have hhear : hear wanted l i = (.silent, l', { i with lines := [] }) := by
          simp [hear, hlines, hended]
        rw [hhear]
        exact ⟨_, hraw, ⟨hrestLines, h.fragment⟩, rfl, hfollows, hlistens,
          Or.inr (Or.inr ⟨rfl, by simp [hended]⟩)⟩
    | true =>
        have hhear : hear wanted l i = ((hearFragment wanted l' i.fragment).1,
            (hearFragment wanted l' i.fragment).2, ⟨[], [], true⟩) := by
          simp [hear, hlines, hended]
        rw [hhear]
        -- what stands behind the last line feed is a row as well, and nothing is left
        have hall : (taken.map (· ++ [10])).flatten ++ i.fragment =
            (taken.map (· ++ [10]) ++ rows i.fragment).flatten := by
          rw [List.flatten_append, flatten_rows]
        refine ⟨taken.map (· ++ [10]) ++ rows i.fragment, ?_, ⟨by simp, List.not_mem_nil⟩,
          hended.symm, ?_, ?_, Or.inr (Or.inr ⟨rfl, fun _ => rfl⟩)⟩
        · rw [← hall, hraw]
          simp [Inbox.raw]
        · intro coming hcoming
          obtain rfl := hcoming rfl
          rw [← hall]
          simpa [Inbox.raw, rows] using rows_append htakenLines i.fragment
        · rw [spoken_append]
          exact hlistens.append (listens_hearFragment l' h.fragment)

end Inbox

namespace Listener

open Inbox (Listens)

/-! ## What a listener has learnt -/

/-- No line has the mark. -/
def Lack (mark : Text) (lines : List Text) : Prop := ∀ line ∈ lines, Text.occurs mark line = false

/-- The last line is the first one with the mark. -/
def ClosedBy (mark : Text) (lines : List Text) : Prop :=
  ∃ before last, lines = before ++ [last] ∧ Lack mark before ∧ Text.occurs mark last = true

theorem ClosedBy.append {mark : Text} {before lines : List Text} (hb : Lack mark before)
    (h : ClosedBy mark lines) : ClosedBy mark (before ++ lines) := by
  obtain ⟨middle, last, rfl, hm, hlast⟩ := h
  refine ⟨before ++ middle, last, by rw [List.append_assoc], ?_, hlast⟩
  intro line hline
  rcases List.mem_append.mp hline with h | h
  · exact hb line h
  · exact hm line h

theorem Lack.append {mark : Text} {before lines : List Text} (hb : Lack mark before)
    (h : Lack mark lines) : Lack mark (before ++ lines) := by
  intro line hline
  rcases List.mem_append.mp hline with hl | hl
  · exact hb line hl
  · exact h line hl

theorem lack_nil (mark : Text) : Lack mark [] := by simp [Lack]

theorem lack_singleton {mark line : Text} (h : Text.occurs mark line = false) :
    Lack mark [line] := by
  simpa [Lack] using h

theorem closedBy_singleton {mark line : Text} (h : Text.occurs mark line = true) :
    ClosedBy mark [line] :=
  ⟨[], line, rfl, lack_nil mark, h⟩

variable {l l' : Listener} {lines : List Text}

theorem feed_of_unselected (hl : l.selected = false) (line : Text) :
    l.feed line = if Text.occurs l.readyMark line then (.projectReady, { l with selected := true })
      else (.discarded, l) := by
  unfold feed
  rw [hl]
  rfl

theorem feed_of_selected (hl : l.selected = true) (line : Text) :
    l.feed line = if Text.occurs l.completeMark line then
        (.complete (Text.join ['\n'] (l.collected ++ [line])), { l with collected := [] })
      else (.buffered, { l with collected := l.collected ++ [line] }) := by
  unfold feed
  rw [if_pos hl]

/-- A listener that waits for the project finds it in the first line with the ready mark. -/
theorem listens_confirmation (hl : l.selected = false)
    (h : Listens Session.confirmation l lines (some ()) l') :
    ClosedBy l.readyMark lines ∧ l' = { l with selected := true } := by
  generalize hanswer : some () = answer at h
  induction h with
  | idle l => exact absurd hanswer (by simp)
  | @found l l' line event a hfeed hwanted =>
      rw [feed_of_unselected hl] at hfeed
      split at hfeed
      · rename_i hready
        obtain ⟨-, rfl⟩ := Prod.mk.inj hfeed
        exact ⟨closedBy_singleton hready, rfl⟩
      · obtain ⟨rfl, -⟩ := Prod.mk.inj hfeed
        exact absurd hwanted (by simp [Session.confirmation])
  | @skipped l l' l'' line lines event answer hfeed hwanted _ ih =>
      rw [feed_of_unselected hl] at hfeed
      split at hfeed
      · obtain ⟨rfl, -⟩ := Prod.mk.inj hfeed
        exact absurd hwanted (by simp [Session.confirmation])
      · rename_i hready
        obtain ⟨-, rfl⟩ := Prod.mk.inj hfeed
        obtain ⟨hclosed, rfl⟩ := ih hl hanswer
        have hline : Lack l.readyMark [line] := lack_singleton (by simpa using hready)
        exact ⟨hclosed.append hline, rfl⟩

/-- What came of listening for a response: the lines up to the first with the mark of completion end
it, and lines without the mark are collected. -/
def Collects (l : Listener) (lines : List Text) (l' : Listener) : Option Text → Prop
  | some response => ClosedBy l.completeMark lines ∧
      response = Text.join ['\n'] (l.collected ++ lines) ∧ l' = { l with collected := [] }
  | none => Lack l.completeMark lines ∧ l' = { l with collected := l.collected ++ lines }

theorem listens_response (hl : l.selected = true) {answer : Option Text}
    (h : Listens Session.response l lines answer l') : l.Collects lines l' answer := by
  induction h with
  | idle l => exact ⟨lack_nil _, by rw [List.append_nil]⟩
  | @found l l' line event response hfeed hwanted =>
      rw [feed_of_selected hl] at hfeed
      split at hfeed
      · rename_i hmark
        obtain ⟨rfl, rfl⟩ := Prod.mk.inj hfeed
        exact ⟨closedBy_singleton hmark, (Option.some.inj hwanted).symm, rfl⟩
      · obtain ⟨rfl, -⟩ := Prod.mk.inj hfeed
        exact absurd hwanted (by simp [Session.response])
  | @skipped l l' l'' line lines event answer hfeed hwanted _ ih =>
      rw [feed_of_selected hl] at hfeed
      split at hfeed
      · obtain ⟨rfl, -⟩ := Prod.mk.inj hfeed
        exact absurd hwanted (by simp [Session.response])
      · rename_i hmark
        have hline : Lack l.completeMark [line] := lack_singleton (by simpa using hmark)
        obtain ⟨-, rfl⟩ := Prod.mk.inj hfeed
        have hmore := ih hl
        cases answer with
        | some response =>
            obtain ⟨hclosed, hresponse, rfl⟩ := hmore
            refine ⟨hclosed.append hline, ?_, rfl⟩
            rw [hresponse, List.append_assoc]
            rfl
        | none =>
            obtain ⟨hlack, rfl⟩ := hmore
            refine ⟨hline.append hlack, ?_⟩
            simp [List.append_assoc]

end Listener

end ImportTidy

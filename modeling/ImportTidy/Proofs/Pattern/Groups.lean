/-
# ImportTidy.Proofs.Pattern.Groups — what a group can match

The matches of a pattern go from cursor to cursor, and every character on the way is in one of the
character sets that stand in the pattern. What a group remembers of a text is what its body has
matched (`group?_holds`), and so is the symbol of a diagnostic for the group for symbols
(`symbol_of_mem_scan`); in particular it has only characters from the sets of that group
(`mem_symbol_of_mem_scan`). With the built-in pattern no symbol has a blank
(`symbolsAllow_standard`), and each is a capital letter with word characters behind it
(`capitalised_of_mem_scan`).

A property of cursors that survives a character and the end of a group survives any pattern
(`stops_keeps`); the lemmas here are two such properties.
-/
import ImportTidy.Wildcard.Settings

namespace ImportTidy

namespace Pattern

/-! ## Properties that survive a match -/

/-- The character sets of a pattern. -/
def sets : Pattern → List CharSet
  | .char s => [s]
  | .seq p q => p.sets ++ q.sets
  | .either p q => p.sets ++ q.sets
  | .many body _ _ _ => body.sets
  | .group _ body => body.sets
  | _ => []

/-- The groups of a pattern, each with its number and its body. -/
def groups : Pattern → List (Nat × Pattern)
  | .seq p q => p.groups ++ q.groups
  | .either p q => p.groups ++ q.groups
  | .many body _ _ _ => body.groups
  | .group index body => (index, body) :: body.groups
  | _ => []

/-- The cursor where a group closes that was opened at `c`. -/
def Cursor.close (index : Nat) (c d : Cursor) : Cursor :=
  { d with spans := ⟨index, c.position, d.position⟩ :: d.spans }

/-- A place where no further round is made comes last or first, as the repetition is eager or not. -/
theorem offered_keeps {P : Cursor → Prop} {eager : Bool} {c : Cursor} {further : List Cursor}
    (hc : P c) (hfurther : ∀ d ∈ further, P d) :
    ∀ d ∈ if eager then further ++ [c] else c :: further, P d := by
  intro d hd
  split at hd
  · rcases List.mem_append.mp hd with hd | hd
    · exact hfurther d hd
    · rwa [List.mem_singleton.mp hd]
  · rcases List.mem_cons.mp hd with rfl | hd
    · exact hc
    · exact hfurther d hd

section Rounds

variable {P : Cursor → Prop} {round : Cursor → List Cursor}
  (hround : ∀ c, P c → ∀ d ∈ round c, P d)

include hround

theorem rounds_keeps {eager : Bool} (n : Nat) {c : Cursor} (hc : P c) :
    ∀ d ∈ rounds round eager n c, P d := by
  induction n generalizing c with
  | zero =>
      intro d hd
      rwa [List.mem_singleton.mp hd]
  | succ n ih =>
      -- a round that took something is followed by fewer
      have hfurther : ∀ d ∈ (round c).flatMap fun d =>
          if c.position < d.position then rounds round eager n d else [], P d := by
        intro d hd
        obtain ⟨e, he, hd⟩ := List.mem_flatMap.mp hd
        split at hd
        · exact ih (hround c hc e he) d hd
        · exact absurd hd List.not_mem_nil
      rw [rounds]
      exact offered_keeps hc hfurther

theorem roundsFromOne_keeps {eager : Bool} {c : Cursor} (hc : P c) :
    ∀ d ∈ roundsFromOne round eager c, P d := by
  intro d hd
  obtain ⟨e, he, hd⟩ := List.mem_flatMap.mp hd
  have hpe := hround c hc e he
  split at hd
  · exact rounds_keeps hround _ hpe d hd
  · rwa [List.mem_singleton.mp hd]

theorem exactly_keeps (n : Nat) {c : Cursor} (hc : P c) : ∀ d ∈ exactly round n c, P d := by
  induction n generalizing c with
  | zero =>
      intro d hd
      rwa [List.mem_singleton.mp hd]
  | succ n ih =>
      intro d hd
      obtain ⟨e, he, hd⟩ := List.mem_flatMap.mp hd
      exact ih (hround c hc e he) d hd

theorem atMost_keeps {eager : Bool} (n : Nat) {c : Cursor} (hc : P c) :
    ∀ d ∈ atMost round eager n c, P d := by
  induction n generalizing c with
  | zero =>
      intro d hd
      rwa [List.mem_singleton.mp hd]
  | succ n ih =>
      have hfurther : ∀ d ∈ (round c).flatMap (atMost round eager n), P d := by
        intro d hd
        obtain ⟨e, he, hd⟩ := List.mem_flatMap.mp hd
        exact ih (hround c hc e he) d hd
      rw [atMost]
      exact offered_keeps hc hfurther

theorem repetition_keeps {least : Nat} {most : Option Nat} {eager : Bool} {c : Cursor} (hc : P c) :
    ∀ d ∈ repetition round least most eager c, P d := by
  intro d hd
  unfold repetition at hd
  split at hd
  · obtain ⟨e, he, hd⟩ := List.mem_flatMap.mp hd
    exact atMost_keeps hround _ (exactly_keeps hround _ hc e he) d hd
  · exact offered_keeps hc (roundsFromOne_keeps hround hc) d hd
  · obtain ⟨e, he, hd⟩ := List.mem_flatMap.mp hd
    exact roundsFromOne_keeps hround (exactly_keeps hround _ hc e he) d hd

end Rounds

/-- **What survives every character and every group survives a match.** -/
theorem stops_keeps {P : Cursor → Prop} (p : Pattern)
    (hset : ∀ s ∈ p.sets, ∀ c, P c → ∀ d ∈ c.step s, P d)
    (hgroup : ∀ g ∈ p.groups, ∀ c d, P c → d ∈ g.2.stops c → P d → P (c.close g.1 d))
    {c : Cursor} (hc : P c) : ∀ d ∈ p.stops c, P d := by
  induction p generalizing c with
  | nothing =>
      intro d hd
      rwa [List.mem_singleton.mp hd]
  | char s => exact hset s (List.mem_singleton_self s) c hc
  | textStart | textEnd | wordEdge =>
      -- an anchor stays where it is
      intro d hd
      rw [stops] at hd
      split at hd
      · rwa [List.mem_singleton.mp hd]
      · exact absurd hd List.not_mem_nil
  | seq p q ihp ihq =>
      intro d hd
      obtain ⟨e, he, hd⟩ := List.mem_flatMap.mp hd
      have hpe := ihp (fun s hs => hset s (List.mem_append_left _ hs))
        (fun g hg => hgroup g (List.mem_append_left _ hg)) hc e he
      exact ihq (fun s hs => hset s (List.mem_append_right _ hs))
        (fun g hg => hgroup g (List.mem_append_right _ hg)) hpe d hd
  | either p q ihp ihq =>
      intro d hd
      rcases List.mem_append.mp hd with hd | hd
      · exact ihp (fun s hs => hset s (List.mem_append_left _ hs))
          (fun g hg => hgroup g (List.mem_append_left _ hg)) hc d hd
      · exact ihq (fun s hs => hset s (List.mem_append_right _ hs))
          (fun g hg => hgroup g (List.mem_append_right _ hg)) hc d hd
  | many body least most eager ih =>
      exact repetition_keeps (fun c hc => ih hset hgroup hc) hc
  | group index body ih =>
      intro d hd
      obtain ⟨e, he, rfl⟩ := List.mem_map.mp hd
      have hpe := ih hset (fun g hg => hgroup g (List.mem_cons_of_mem _ hg)) hc e he
      exact hgroup (index, body) List.mem_cons_self c e hc he hpe

/-! ## The text between two cursors -/

theorem mem_step {s : CharSet} {c d : Cursor} (h : d ∈ c.step s) :
    ∃ x, s.mem x = true ∧ c.rest = x :: d.rest ∧ d.position = c.position + 1 ∧ d.spans = c.spans := by
  unfold Cursor.step at h
  split at h
  · exact absurd h List.not_mem_nil
  · rename_i x t hrest
    split at h
    · rename_i hx
      rw [List.mem_singleton.mp h]
      exact ⟨x, hx, hrest, rfl, rfl⟩
    · exact absurd h List.not_mem_nil

/-- From one cursor to the other, over a text with the property. -/
def Cursor.Takes (ok : Text → Prop) (c d : Cursor) : Prop :=
  ∃ u, c.rest = u ++ d.rest ∧ d.position = c.position + u.length ∧ ok u

/-- From one cursor to the other, over characters that have the property. -/
def Cursor.Passes (ok : Char → Prop) (c d : Cursor) : Prop := c.Takes (fun u => ∀ x ∈ u, ok x) d

/-- A match passes over characters of the pattern's sets. -/
theorem passes_stops {ok : Char → Prop} {p : Pattern}
    (h : ∀ s ∈ p.sets, ∀ x, s.mem x = true → ok x) {c d : Cursor} (hd : d ∈ p.stops c) :
    c.Passes ok d := by
  refine stops_keeps p ?_ (fun _ _ _ _ _ _ hpass => hpass) ⟨[], rfl, rfl, by simp⟩ d hd
  rintro s hs e ⟨u, hrest, hposition, hu⟩ e' he'
  obtain ⟨x, hx, hrest', hposition', -⟩ := mem_step he'
  refine ⟨u ++ [x], ?_, ?_, ?_⟩
  · rw [hrest, hrest', List.append_assoc, List.singleton_append]
  · rw [hposition', hposition, List.length_append, List.length_singleton, Nat.add_assoc]
  · intro y hy
    rcases List.mem_append.mp hy with hy | hy
    · exact hu y hy
    · rw [List.mem_singleton.mp hy]
      exact h s hs x hx

/-! ## Groups -/

/-- What a text has between the ends of a span. -/
def Span.text (t : Text) (s : Span) : Text := (t.drop s.start).take (s.stop - s.start)

/-- The cursor is a place in the text. -/
structure Cursor.In (t : Text) (c : Cursor) : Prop where
  rest : c.rest = t.drop c.position
  position : c.position ≤ t.length

theorem Cursor.In.takes {t : Text} {ok : Text → Prop} {c d : Cursor} (hc : c.In t)
    (h : c.Takes ok d) : d.In t ∧ ok (Span.text t ⟨0, c.position, d.position⟩) := by
  obtain ⟨u, hrest, hposition, hu⟩ := h
  have hdrop : t.drop c.position = u ++ d.rest := by rw [← hc.rest, hrest]
  have hlength := congrArg List.length hdrop
  rw [List.length_drop, List.length_append] at hlength
  have hle := hc.position
  refine ⟨⟨?_, by omega⟩, ?_⟩
  · rw [hposition, ← List.drop_drop, hdrop, List.drop_left]
  · have htext : Span.text t ⟨0, c.position, d.position⟩ = u := by
      show (t.drop c.position).take (d.position - c.position) = u
      rw [hposition, Nat.add_sub_cancel_left, hdrop, List.take_left]
    rw [htext]
    exact hu

/-- In a text, the groups have matched what has the property of their numbers. -/
def SpansHold (ok : Nat → Text → Prop) (t : Text) (spans : List Span) : Prop :=
  ∀ s ∈ spans, ok s.index (s.text t)

/-- The groups of a pattern match only what has the property of their numbers. -/
def GroupsAllow (ok : Nat → Text → Prop) (p : Pattern) : Prop :=
  ∀ g ∈ p.groups, ∀ c d, d ∈ g.2.stops c → c.Takes (ok g.1) d

variable {ok : Nat → Text → Prop} {p : Pattern} {t : Text}

theorem spansHold_stops (h : p.GroupsAllow ok) {c : Cursor} (hc : c.In t)
    (hspans : SpansHold ok t c.spans) : ∀ d ∈ p.stops c, d.In t ∧ SpansHold ok t d.spans := by
  refine stops_keeps p ?_ ?_ ⟨hc, hspans⟩
  · rintro s - e ⟨he, hspans⟩ d hd
    obtain ⟨x, -, hrest, hposition, hsame⟩ := mem_step hd
    have htakes : e.Takes (fun _ => True) d := ⟨[x], hrest, hposition, trivial⟩
    exact ⟨(he.takes htakes).1, by rwa [hsame]⟩
  · rintro ⟨index, body⟩ hg e d ⟨he, -⟩ hd ⟨hd', hspans⟩
    refine ⟨⟨hd'.rest, hd'.position⟩, ?_⟩
    -- the new span is what the body has taken
    intro s hs
    rcases List.mem_cons.mp hs with rfl | hs
    · exact (he.takes (h (index, body) hg e d hd)).2
    · exact hspans s hs

theorem Cursor.In.skip {c : Cursor} (hc : c.In t) {x : Char} {rest : Text}
    (hrest : c.rest = x :: rest) : Cursor.In t ⟨some x, rest, c.position + 1, []⟩ := by
  have htakes : c.Takes (fun _ => True) ⟨some x, rest, c.position + 1, []⟩ :=
    ⟨[x], hrest, rfl, trivial⟩
  exact (hc.takes htakes).1

/-- The preferred match from a place on, where there is one. -/
theorem spansHold_head (h : p.GroupsAllow ok) {c d : Cursor} {ds : List Cursor} (hc : c.In t)
    (hd : p.stops { c with spans := [] } = d :: ds) : d.In t ∧ SpansHold ok t d.spans := by
  have hin : Cursor.In t { c with spans := [] } := ⟨hc.rest, hc.position⟩
  exact spansHold_stops h hin (by simp [SpansHold]) d (by rw [hd]; exact List.mem_cons_self)

theorem spansHold_foundFrom (h : p.GroupsAllow ok) (taken : Bool) (c : Cursor) (hc : c.In t) :
    ∀ f ∈ foundFrom p taken c, SpansHold ok t f.spans := by
  fun_induction foundFrom p taken c with
  | case1 | case2 => simp
  | case3 taken c here found d ds hrest hhere =>
      intro f hf
      rw [List.mem_singleton.mp hf]
      exact (spansHold_head h hc hhere).2
  | case4 taken c here x rest hrest hhere ih => exact ih (hc.skip hrest)
  | case5 taken c here found x rest d ds hrest hhere hless ih =>
      intro f hf
      rcases List.mem_cons.mp hf with rfl | hf
      · exact (spansHold_head h hc hhere).2
      · exact ih (spansHold_head h hc hhere).1 f hf
  | case6 c here x rest d ds hrest hhere hless ih => exact ih (hc.skip hrest)
  | case7 taken c here found x rest d ds hrest hhere hless htaken ih =>
      intro f hf
      rcases List.mem_cons.mp hf with rfl | hf
      · exact (spansHold_head h hc hhere).2
      · exact ih (hc.skip hrest) f hf

/-- **A group remembers what its body matched.** -/
theorem group?_holds (h : p.GroupsAllow ok) {f : Found} (hf : f ∈ p.find t) {index : Nat} {u : Text}
    (hu : f.group? index t = some u) : ok index u := by
  have hstart : (Cursor.start t).In t := ⟨rfl, Nat.zero_le _⟩
  have hspans := spansHold_foundFrom h false _ hstart f hf
  obtain ⟨s, hs, rfl⟩ := Option.map_eq_some_iff.mp hu
  have hindex : s.index = index := by simpa using List.find?_some hs
  exact hindex ▸ hspans s (List.mem_of_find?_eq_some hs)

end Pattern

namespace DiagnosticPattern

/-- The group for symbols allows only characters with the property. -/
def SymbolsAllow (ok : Char → Prop) (p : DiagnosticPattern) : Prop :=
  ∀ g ∈ p.pattern.groups, g.1 = p.symbol → ∀ s ∈ g.2.sets, ∀ x, s.mem x = true → ok x

theorem symbol_of_mem_scan {L : Text → Prop} {p : DiagnosticPattern}
    (h : ∀ g ∈ p.pattern.groups, g.1 = p.symbol → ∀ c d, d ∈ g.2.stops c → c.Takes L d)
    {output : Text} {d : Diagnostic} (hd : d ∈ p.scan output) : L d.symbol := by
  obtain ⟨line, -, hline⟩ := List.mem_flatMap.mp (List.mem_eraseDups.mp hd)
  obtain ⟨f, hf, hdiag⟩ := List.mem_filterMap.mp hline
  obtain ⟨u, hu, rfl⟩ := Option.map_eq_some_iff.mp hdiag
  -- of the other groups nothing is said
  have hgroups : p.pattern.GroupsAllow fun index u => index = p.symbol → L u := by
    intro g hg c d hd
    by_cases hindex : g.1 = p.symbol
    · obtain ⟨u, hrest, hposition, hu⟩ := h g hg hindex c d hd
      exact ⟨u, hrest, hposition, fun _ => hu⟩
    · obtain ⟨u, hrest, hposition, -⟩ : c.Passes (fun _ => True) d :=
        Pattern.passes_stops (fun _ _ _ _ => trivial) hd
      exact ⟨u, hrest, hposition, fun he => absurd he hindex⟩
  exact Pattern.group?_holds hgroups hf hu rfl

theorem mem_symbol_of_mem_scan {ok : Char → Prop} {p : DiagnosticPattern} (h : p.SymbolsAllow ok)
    {output : Text} {d : Diagnostic} (hd : d ∈ p.scan output) : ∀ x ∈ d.symbol, ok x := by
  refine symbol_of_mem_scan (L := fun u => ∀ x ∈ u, ok x) ?_ hd
  intro g hg hindex c e he
  exact Pattern.passes_stops (h g hg hindex) he

/-! ## The built-in pattern -/

/-- The capital letters. -/
def capital : CharSet := .union .empty (.range 'A' 'Z')

/-- The letters and digits of ASCII, and the underscore. -/
def wordChar : CharSet :=
  .union (.union (.union capital (.range 'a' 'z')) (.range '0' '9')) (.range '_' '_')

/-- The built-in pattern: the words, the kind, and a name that starts with a capital letter. -/
def standard : DiagnosticPattern where
  pattern := .seqs (literal "not found: ".toList ++
    [.group 1 (.either (.seqs (literal "value".toList)) (.seqs (literal "type".toList))),
      .char (.single ' '), .group 2 name])
  symbol := 2
  kind := some 1
where
  literal (t : Text) : List Pattern := t.map fun c => .char (.single c)
  name : Pattern := .seq (.char capital) (.many (.char wordChar) 0 none true)

theorem read_standard : read SearchSettings.standard.pattern = .ok standard := by
  have hread : Pattern.read? SearchSettings.standard.pattern =
      some ⟨standard.pattern, [("kind".toList, 1), ("symbol".toList, 2)]⟩ := by decide +kernel
  rw [read, hread]
  rfl

theorem not_blank_of_mem_wordChar {c : Char} (h : wordChar.mem c = true) :
    Text.isBlank c = false := by
  simp only [wordChar, capital, CharSet.mem, Bool.false_or, Bool.or_eq_true, Bool.and_eq_true,
    decide_eq_true_eq, Char.reduceToNat] at h
  simp only [Text.isBlank, Text.inRanges, Text.blankRanges, List.any_cons, List.any_nil,
    Bool.or_false, Bool.or_eq_false_iff, Bool.and_eq_false_iff, decide_eq_false_iff_not]
  omega

/-- The group for symbols is the one for names. -/
theorem eq_name_of_mem_groups {g : Nat × Pattern} (hg : g ∈ standard.pattern.groups)
    (hindex : g.1 = standard.symbol) : g.2 = standard.name := by
  have hgroups : standard.pattern.groups =
      [(1, .either (.seqs (standard.literal "value".toList))
        (.seqs (standard.literal "type".toList))), (2, standard.name)] := by decide
  rw [hgroups] at hg
  rcases List.mem_cons.mp hg with rfl | hg
  · exact absurd hindex (by decide)
  · rw [List.mem_singleton.mp hg]

theorem wordChar_of_capital {c : Char} (h : capital.mem c = true) : wordChar.mem c = true := by
  simp only [wordChar, CharSet.mem, h, Bool.true_or]

theorem symbolsAllow_standard : standard.SymbolsAllow fun c => Text.isBlank c = false := by
  intro g hg hindex s hs x hx
  rw [eq_name_of_mem_groups hg hindex] at hs
  have hsets : s = capital ∨ s = wordChar := by simpa [standard.name, Pattern.sets] using hs
  apply not_blank_of_mem_wordChar
  rcases hsets with rfl | rfl
  · exact wordChar_of_capital hx
  · exact hx

/-- A capital letter, and word characters behind it. -/
def Capitalised (t : Text) : Prop :=
  ∃ x u, t = x :: u ∧ capital.mem x = true ∧ ∀ y ∈ u, wordChar.mem y = true

/-- **The symbols that the built-in pattern finds are capitalised.** -/
theorem capitalised_of_mem_scan {output : Text} {d : Diagnostic} (hd : d ∈ standard.scan output) :
    Capitalised d.symbol := by
  refine symbol_of_mem_scan ?_ hd
  intro g hg hindex c e he
  rw [eq_name_of_mem_groups hg hindex, standard.name, Pattern.stops, List.mem_flatMap] at he
  obtain ⟨c', hc', he⟩ := he
  obtain ⟨x, hx, hrest, hposition, -⟩ := Pattern.mem_step hc'
  obtain ⟨u, hrest', hposition', hu⟩ : c'.Passes (fun y => wordChar.mem y = true) e := by
    apply Pattern.passes_stops _ he
    intro s hs y hy
    rw [Pattern.sets, Pattern.sets, List.mem_singleton] at hs
    rwa [hs] at hy
  refine ⟨x :: u, ?_, ?_, x, u, rfl, hx, hu⟩
  · rw [hrest, hrest', List.cons_append]
  · rw [hposition', hposition, List.length_cons]
    omega

end DiagnosticPattern

end ImportTidy

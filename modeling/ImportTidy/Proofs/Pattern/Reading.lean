/-
# ImportTidy.Proofs.Pattern.Reading — what the built-in pattern finds, read off a line directly

A line of the compiler's output can be read without a pattern: from left to right, each place is
asked whether the words for a missing value or type stand there with a capital letter behind them;
if so, the symbol is the longest row of letters, digits and underscores from that letter on, and the
reading goes on behind it (`readLine`). The matches of the built-in pattern give the same: up to the
symbol there is at most one way to match (`stops_standard`), an eager repetition takes the longest
row first (`head?_repetition`), and a match is never empty, so that the search goes on where the
reading does (`scanLine_standard`). The findings of an output are those of its lines, each once and
in the order of their first appearance (`scan_standard`).
-/
import ImportTidy.Proofs.Import.Selection
import ImportTidy.Proofs.Pattern.Groups

namespace ImportTidy

namespace Diagnostic

/-! ## Reading a line directly -/

/-- The words in front of a missing symbol, with what they say that it was looked for as. -/
def announcements : List (Text × SymbolKind) :=
  [("not found: value ".toList, .value), ("not found: type ".toList, .type)]

/-- A letter or digit of ASCII, or the underscore. -/
def isSymbolChar (c : Char) : Bool := c.isAlphanum || c == '_'

/-- What the start of a text announces, and the text from the symbol on, which has to start with a
capital letter of ASCII. -/
def announced? (t : Text) : Option (SymbolKind × Text) :=
  announcements.findSome? fun (words, kind) =>
    ((Text.after? words t).filter fun rest => rest.head?.any Char.isUpper).map (kind, ·)

/-- No announcement starts another one. -/
theorem eq_of_announcements {a b : Text × SymbolKind} (ha : a ∈ announcements)
    (hb : b ∈ announcements) {s t : Text} (h : a.1 ++ s = b.1 ++ t) : a = b := by
  have hapart : ∀ a ∈ announcements, ∀ b ∈ announcements, a.1 <+: b.1 → a = b := by decide
  have hprefix : a.1 <+: b.1 ∨ b.1 <+: a.1 :=
    List.prefix_or_prefix_of_prefix ⟨s, rfl⟩ ⟨t, h.symm⟩
  rcases hprefix with hab | hba
  · exact hapart a ha b hb hab
  · exact (hapart b hb a ha hba).symm

theorem announced?_eq_some {t rest : Text} {kind : SymbolKind} :
    announced? t = some (kind, rest) ↔
      ∃ words, (words, kind) ∈ announcements ∧ t = words ++ rest ∧
        rest.head?.any Char.isUpper = true := by
  have hstart : ∀ {words found : Text}, ((Text.after? words t).filter fun rest =>
      rest.head?.any Char.isUpper) = some found ↔
        t = words ++ found ∧ found.head?.any Char.isUpper = true := by
    intro words found
    rw [Option.filter_eq_some_iff, Text.after?_eq_some]
  constructor
  · intro h
    obtain ⟨⟨words, kind'⟩, hwords, hfound⟩ := List.exists_of_findSome?_eq_some h
    obtain ⟨found, hfound, heq⟩ := Option.map_eq_some_iff.mp hfound
    cases heq
    exact ⟨words, hwords, hstart.mp hfound⟩
  · rintro ⟨words, hwords, htext, hcapital⟩
    cases h : announced? t with
    | none =>
        have hnone := List.findSome?_eq_none_iff.mp h (words, kind) hwords
        rw [Option.map_eq_none_iff, hstart.mpr ⟨htext, hcapital⟩] at hnone
        cases hnone
    | some found =>
        -- another announcement would have to stand at the same place
        obtain ⟨⟨words', kind'⟩, hwords', hfound⟩ := List.exists_of_findSome?_eq_some h
        obtain ⟨found', hfound', rfl⟩ := Option.map_eq_some_iff.mp hfound
        have hsame : words ++ rest = words' ++ found' := htext.symm.trans (hstart.mp hfound').1
        cases eq_of_announcements hwords hwords' hsame
        rw [List.append_cancel_left hsame]

theorem length_lt_of_announced? {t rest : Text} {kind : SymbolKind}
    (h : announced? t = some (kind, rest)) : rest.length < t.length := by
  obtain ⟨words, hwords, rfl, -⟩ := announced?_eq_some.mp h
  have hlong : ∀ a ∈ announcements, 0 < a.1.length := by decide
  have hpositive : 0 < words.length := hlong _ hwords
  rw [List.length_append]
  omega

/-- The diagnostics of a line, read from left to right. -/
def readLine : Text → List Diagnostic
  | [] => []
  | c :: t =>
    match h : announced? (c :: t) with
    | some (kind, rest) =>
      have := length_lt_of_announced? h
      ⟨kind, rest.takeWhile isSymbolChar⟩ :: readLine (rest.dropWhile isSymbolChar)
    | none => readLine t
termination_by line => line.length
decreasing_by
  · exact Nat.lt_of_le_of_lt (List.dropWhile_suffix _).length_le this
  · exact Nat.lt_succ_self _

theorem readLine_of_some {line rest : Text} {kind : SymbolKind}
    (h : announced? line = some (kind, rest)) :
    readLine line = ⟨kind, rest.takeWhile isSymbolChar⟩ :: readLine (rest.dropWhile isSymbolChar) := by
  cases line with
  | nil => exact absurd (length_lt_of_announced? h) (Nat.not_lt_zero _)
  | cons c t =>
      rw [readLine]
      split
      · rename_i h'
        cases h.symm.trans h'
        rfl
      · rename_i h'
        cases h.symm.trans h'

theorem readLine_cons_of_none {c : Char} {t : Text} (h : announced? (c :: t) = none) :
    readLine (c :: t) = readLine t := by
  rw [readLine]
  split
  · rename_i h'
    cases h.symm.trans h'
  · rfl

end Diagnostic

namespace Pattern

open DiagnosticPattern.standard (literal)

/-! ## Places behind a text -/

/-- The place behind a text, which is taken to stand here. -/
def Cursor.past : Text → Cursor → Cursor
  | [], c => c
  | x :: u, c => past u ⟨some x, c.rest.tail, c.position + 1, c.spans⟩

@[simp] theorem Cursor.rest_past (u : Text) (c : Cursor) : (c.past u).rest = c.rest.drop u.length := by
  induction u generalizing c with
  | nil => rfl
  | cons x u ih => rw [past, ih, List.length_cons, List.drop_tail]

@[simp] theorem Cursor.position_past (u : Text) (c : Cursor) :
    (c.past u).position = c.position + u.length := by
  induction u generalizing c with
  | nil => rfl
  | cons x u ih =>
      rw [past, ih, List.length_cons, Nat.add_assoc, Nat.add_comm 1]

@[simp] theorem Cursor.spans_past (u : Text) (c : Cursor) : (c.past u).spans = c.spans := by
  induction u generalizing c with
  | nil => rfl
  | cons x u ih => rw [past, ih]

theorem step_of_mem {s : CharSet} {c : Cursor} {x : Char} {t : Text} (hrest : c.rest = x :: t)
    (hx : s.mem x = true) : c.step s = [c.past [x]] := by
  simp [Cursor.step, Cursor.past, hrest, hx]

/-- One step takes the first character of a row of the set, if there is a row. -/
theorem step_cases (s : CharSet) (c : Cursor) :
    (∃ x, c.step s = [c.past [x]] ∧ 0 < c.rest.length ∧
      c.rest.takeWhile s.mem = x :: (c.past [x]).rest.takeWhile s.mem) ∨
      c.step s = [] ∧ c.rest.takeWhile s.mem = [] := by
  cases hrest : c.rest with
  | nil => exact Or.inr ⟨by simp [Cursor.step, hrest], rfl⟩
  | cons x t =>
      cases hx : s.mem x with
      | true => exact Or.inl ⟨x, step_of_mem hrest hx, Nat.succ_pos _, by simp [hrest, hx]⟩
      | false => exact Or.inr ⟨by simp [Cursor.step, hrest, hx], by simp [hx]⟩

/-! ## Patterns one after the other -/

theorem stops_seqs_cons (p : Pattern) (ps : List Pattern) (c : Cursor) :
    (seqs (p :: ps)).stops c = (p.stops c).flatMap (seqs ps).stops := by
  cases ps with
  | nil => exact (List.flatMap_singleton' _).symm
  | cons q ps => rfl

theorem stops_seqs_append (ps qs : List Pattern) (c : Cursor) :
    (seqs (ps ++ qs)).stops c = ((seqs ps).stops c).flatMap (seqs qs).stops := by
  induction ps generalizing c with
  | nil => exact (List.flatMap_singleton _ c).symm
  | cons p ps ih =>
      rw [List.cons_append, stops_seqs_cons, stops_seqs_cons, List.flatMap_assoc]
      exact congrArg (fun f => (p.stops c).flatMap f) (funext ih)

theorem mem_single {x y : Char} : (CharSet.single x).mem y = true ↔ y = x := by
  simp only [CharSet.single, CharSet.mem, Bool.and_eq_true, decide_eq_true_eq]
  rw [← Char.toNat_inj]
  omega

theorem stops_literal {u rest : Text} {c : Cursor} (h : c.rest = u ++ rest) :
    (seqs (literal u)).stops c = [c.past u] := by
  induction u generalizing c with
  | nil => rfl
  | cons x u ih =>
      have hstep : (Pattern.char (.single x)).stops c = [c.past [x]] :=
        step_of_mem h (mem_single.mpr rfl)
      rw [literal, List.map_cons, stops_seqs_cons, hstep, List.flatMap_singleton]
      refine ih ?_
      rw [Cursor.rest_past, h]
      rfl

theorem rest_of_mem_stops_literal {u : Text} {c d : Cursor}
    (h : d ∈ (seqs (literal u)).stops c) : c.rest = u ++ d.rest := by
  induction u generalizing c with
  | nil =>
      rw [List.mem_singleton.mp h]
      rfl
  | cons x u ih =>
      rw [literal, List.map_cons, stops_seqs_cons] at h
      obtain ⟨e, he, hd⟩ := List.mem_flatMap.mp h
      obtain ⟨y, hy, hrest, -⟩ := mem_step he
      rw [hrest, mem_single.mp hy, ih hd]
      rfl

/-! ## Eager repetitions -/

/-- The longest row from here on comes first. -/
theorem head?_rounds (s : CharSet) {n : Nat} {c : Cursor} (h : c.rest.length ≤ n) :
    (rounds (Cursor.step s) true n c).head? = some (c.past (c.rest.takeWhile s.mem)) := by
  induction n generalizing c with
  | zero =>
      have hrest : c.rest = [] := List.length_eq_zero_iff.mp (Nat.le_zero.mp h)
      rw [hrest]
      rfl
  | succ n ih =>
      rw [rounds, if_pos rfl, List.head?_append]
      rcases step_cases s c with ⟨x, hstep, hpositive, hrow⟩ | ⟨hstep, hrow⟩
      · have hshort : (c.past [x]).rest.length ≤ n := by
          rw [Cursor.rest_past, List.length_drop, List.length_singleton]
          omega
        have hless : c.position < (c.past [x]).position := by simp
        rw [hstep, List.flatMap_singleton, if_pos hless, ih hshort, hrow]
        rfl
      · rw [hstep, hrow]
        rfl

theorem head?_repetition (s : CharSet) (c : Cursor) :
    ((Pattern.many (.char s) 0 none true).stops c).head? =
      some (c.past (c.rest.takeWhile s.mem)) := by
  have hround : (Pattern.char s).stops = Cursor.step s := rfl
  rw [stops, hround, repetition, roundsFromOne, if_pos rfl, List.head?_append]
  rcases step_cases s c with ⟨x, hstep, -, hrow⟩ | ⟨hstep, hrow⟩
  · have hless : c.position < (c.past [x]).position := by simp
    rw [hstep, List.flatMap_singleton, if_pos hless, head?_rounds s (Nat.le_refl _), hrow]
    rfl
  · rw [hstep, hrow]
    rfl

theorem Cursor.In.past {t u rest : Text} {c : Cursor} (hc : c.In t) (h : c.rest = u ++ rest) :
    (c.past u).In t ∧ Span.text t ⟨0, c.position, (c.past u).position⟩ = u := by
  have htakes : c.Takes (· = u) (c.past u) := by
    refine ⟨u, ?_, c.position_past u, rfl⟩
    rw [rest_past, h, List.drop_left]
  exact hc.takes htakes

/-- A place in a text stays one when the groups are forgotten. -/
theorem Cursor.In.forget {t : Text} {c : Cursor} (hc : c.In t) :
    Cursor.In t { c with spans := [] } := ⟨hc.rest, hc.position⟩

end Pattern

namespace DiagnosticPattern

open Pattern

/-! ## The matches of the built-in pattern -/

theorem mem_capital (c : Char) : capital.mem c = c.isUpper := by
  show (false || (decide (65 ≤ c.toNat) && decide (c.toNat ≤ 90))) =
    decide ('A'.val ≤ c.val ∧ c.val ≤ 'Z'.val)
  simp [UInt32.le_iff_toNat_le]

theorem mem_wordChar (c : Char) : wordChar.mem c = Diagnostic.isSymbolChar c := by
  have hlower : (CharSet.range 'a' 'z').mem c = c.isLower := by
    show (decide (97 ≤ c.toNat) && decide (c.toNat ≤ 122)) =
      (decide ('a'.val ≤ c.val) && decide (c.val ≤ 'z'.val))
    simp [UInt32.le_iff_toNat_le]
  have hdigit : (CharSet.range '0' '9').mem c = c.isDigit := by
    show (decide (48 ≤ c.toNat) && decide (c.toNat ≤ 57)) =
      (decide ('0'.val ≤ c.val) && decide (c.val ≤ '9'.val))
    simp [UInt32.le_iff_toNat_le]
  have hunderscore : (CharSet.range '_' '_').mem c = (c == '_') := by
    rw [Bool.eq_iff_iff, beq_iff_eq]
    exact mem_single
  show (((capital.mem c || (CharSet.range 'a' 'z').mem c) || (CharSet.range '0' '9').mem c) ||
    (CharSet.range '_' '_').mem c) = Diagnostic.isSymbolChar c
  rw [mem_capital, hlower, hdigit, hunderscore]
  rfl

/-- The words in front of the kind. -/
def opening : Text := "not found: ".toList

/-- The word names a kind. -/
def IsKind (word : Text) : Prop := word = "value".toList ∨ word = "type".toList

theorem mem_announcements {words : Text} {kind : SymbolKind} :
    (words, kind) ∈ Diagnostic.announcements ↔
      ∃ word, IsKind word ∧ kind = .ofWord (some word) ∧ words = opening ++ (word ++ [' ']) := by
  constructor
  · intro h
    rcases List.mem_cons.mp h with h | h
    · cases h
      exact ⟨_, Or.inl rfl, rfl, rfl⟩
    · cases List.mem_singleton.mp h
      exact ⟨_, Or.inr rfl, rfl, rfl⟩
  · rintro ⟨word, rfl | rfl, rfl, rfl⟩ <;> decide

/-- The pattern of the kind. -/
def kindPattern : Pattern :=
  .either (.seqs (standard.literal "value".toList)) (.seqs (standard.literal "type".toList))

theorem stops_kindPattern {word rest : Text} (hword : IsKind word) {c : Cursor}
    (h : c.rest = word ++ rest) : kindPattern.stops c = [c.past word] := by
  rw [kindPattern, stops]
  rcases hword with rfl | rfl
  · rw [stops_literal h, List.append_right_eq_self, List.eq_nil_iff_forall_not_mem]
    intro d hd
    have hother := rest_of_mem_stops_literal hd
    rw [h] at hother
    cases hother
  · rw [stops_literal h, List.append_left_eq_self, List.eq_nil_iff_forall_not_mem]
    intro d hd
    have hother := rest_of_mem_stops_literal hd
    rw [h] at hother
    cases hother

theorem isKind_of_mem_stops {c d : Cursor} (h : d ∈ kindPattern.stops c) :
    ∃ word, IsKind word ∧ c.rest = word ++ d.rest := by
  rcases List.mem_append.mp h with h | h
  · exact ⟨_, Or.inl rfl, rest_of_mem_stops_literal h⟩
  · exact ⟨_, Or.inr rfl, rest_of_mem_stops_literal h⟩

theorem head?_stops_name {c : Cursor} (h : c.rest.head?.any Char.isUpper = true) :
    (standard.name.stops c).head? = some (c.past (c.rest.takeWhile Diagnostic.isSymbolChar)) := by
  obtain ⟨x, t, hrest⟩ : ∃ x t, c.rest = x :: t := by
    cases hrest : c.rest with
    | nil => simp [hrest] at h
    | cons x t => exact ⟨x, t, rfl⟩
  have hx : capital.mem x = true := by
    rw [mem_capital]
    simpa [hrest] using h
  have hword : wordChar.mem = Diagnostic.isSymbolChar := funext mem_wordChar
  have hstep : (Pattern.char capital).stops c = [c.past [x]] := step_of_mem hrest hx
  rw [standard.name, stops, hstep, List.flatMap_singleton, head?_repetition, ← hword, hrest,
    List.takeWhile_cons_of_pos (wordChar_of_capital hx), Cursor.rest_past, hrest]
  rfl

theorem isUpper_of_mem_stops_name {c d : Cursor} (h : d ∈ standard.name.stops c) :
    c.rest.head?.any Char.isUpper = true := by
  obtain ⟨e, he, -⟩ := List.mem_flatMap.mp h
  obtain ⟨x, hx, hrest, -⟩ := mem_step he
  rw [hrest, List.head?_cons, Option.any_some, ← mem_capital]
  exact hx

/-- The matches of the built-in pattern, one part after the other. -/
theorem stops_standard (c : Cursor) :
    standard.pattern.stops c = ((Pattern.seqs (standard.literal opening)).stops c).flatMap fun c =>
      ((kindPattern.stops c).map (c.close 1)).flatMap fun c =>
        (c.step (.single ' ')).flatMap fun c => (standard.name.stops c).map (c.close 2) := by
  have hpattern : standard.pattern = .seqs (standard.literal opening ++
      [.group 1 kindPattern, .char (.single ' '), .group 2 standard.name]) := rfl
  rw [hpattern, stops_seqs_append]
  refine congrArg (fun f => List.flatMap f _) (funext fun c => ?_)
  rw [stops_seqs_cons]
  refine congrArg (fun f => List.flatMap f _) (funext fun c => ?_)
  rw [stops_seqs_cons]
  rfl

/-- A match announces a symbol. -/
theorem announced?_of_mem_stops {c d : Cursor} (h : d ∈ standard.pattern.stops c) :
    ∃ kind rest, Diagnostic.announced? c.rest = some (kind, rest) := by
  rw [stops_standard] at h
  obtain ⟨c₁, h₁, h⟩ := List.mem_flatMap.mp h
  obtain ⟨c₂, h₂, h⟩ := List.mem_flatMap.mp h
  obtain ⟨c₃, h₃, h⟩ := List.mem_flatMap.mp h
  obtain ⟨e, he, -⟩ := List.mem_map.mp h
  obtain ⟨e₂, he₂, rfl⟩ := List.mem_map.mp h₂
  obtain ⟨word, hword, hrest₂⟩ := isKind_of_mem_stops he₂
  obtain ⟨x, hx, hrest₃, -⟩ := mem_step h₃
  have hrest₃ : e₂.rest = ' ' :: c₃.rest := mem_single.mp hx ▸ hrest₃
  refine ⟨.ofWord (some word), c₃.rest, Diagnostic.announced?_eq_some.mpr
    ⟨_, mem_announcements.mpr ⟨word, hword, rfl, rfl⟩, ?_, isUpper_of_mem_stops_name he⟩⟩
  rw [rest_of_mem_stops_literal h₁, hrest₂, hrest₃]
  simp

/-- The diagnostic of a match whose groups remember a symbol and the word for a kind. -/
theorem diagnostic?_of_spans {line word symbol : Text} {f : Found} {a b e g : Nat}
    (hspans : f.spans = [⟨2, a, b⟩, ⟨1, e, g⟩]) (hsymbol : Span.text line ⟨0, a, b⟩ = symbol)
    (hword : Span.text line ⟨0, e, g⟩ = word) :
    standard.diagnostic? line f = some ⟨.ofWord (some word), symbol⟩ := by
  have hgroup₂ : f.group? 2 line = some symbol := by
    rw [Found.group?, hspans, ← hsymbol]
    rfl
  have hgroup₁ : f.group? 1 line = some word := by
    rw [Found.group?, hspans, ← hword]
    rfl
  show (f.group? 2 line).map (fun symbol =>
    (⟨.ofWord (f.group? 1 line), symbol⟩ : Diagnostic)) = _
  rw [hgroup₂, hgroup₁, Option.map_some]

/-- The preferred match where a symbol is announced: the kind and the symbol are what its groups
remember, and it stops behind the symbol. -/
theorem head?_stops_standard {line word rest : Text} {c : Cursor} (hc : c.In line)
    (hword : IsKind word) (hrest : c.rest = opening ++ (word ++ ' ' :: rest))
    (hcapital : rest.head?.any Char.isUpper = true) (hspans : c.spans = []) :
    ∃ d, (standard.pattern.stops c).head? = some d ∧
      d.rest = rest.dropWhile Diagnostic.isSymbolChar ∧
      standard.diagnostic? line ⟨c.position, d.position, d.spans⟩ =
        some ⟨.ofWord (some word), rest.takeWhile Diagnostic.isSymbolChar⟩ := by
  -- the places behind the opening, behind the kind and behind the blank
  obtain ⟨c₁, hc₁⟩ : ∃ c₁, c₁ = c.past opening := ⟨_, rfl⟩
  obtain ⟨c₂, hc₂⟩ : ∃ c₂, c₂ = c₁.close 1 (c₁.past word) := ⟨_, rfl⟩
  obtain ⟨c₃, hc₃⟩ : ∃ c₃, c₃ = c₂.past [' '] := ⟨_, rfl⟩
  have hrest₁ : c₁.rest = word ++ ' ' :: rest := by
    rw [hc₁, Cursor.rest_past, hrest, List.drop_left]
  have hrest₂ : c₂.rest = [' '] ++ rest := by
    show c₂.rest = ' ' :: rest
    rw [hc₂, Cursor.close, Cursor.rest_past, hrest₁, List.drop_left]
  have hrest₃ : c₃.rest = rest := by
    rw [hc₃, Cursor.rest_past, hrest₂, List.drop_left]
  have hin₁ : c₁.In line := hc₁ ▸ (hc.past hrest).1
  obtain ⟨hin, hkind⟩ := hin₁.past hrest₁
  have hin₂ : c₂.In line := hc₂ ▸ ⟨hin.rest, hin.position⟩
  have hin₃ : c₃.In line := hc₃ ▸ (hin₂.past hrest₂).1
  have hsplit : c₃.rest =
      rest.takeWhile Diagnostic.isSymbolChar ++ rest.dropWhile Diagnostic.isSymbolChar := by
    rw [hrest₃, List.takeWhile_append_dropWhile]
  obtain ⟨-, hsymbol⟩ := hin₃.past hsplit
  have hstep : c₂.step (.single ' ') = [c₃] := by
    rw [hc₃]
    exact step_of_mem hrest₂ (mem_single.mpr rfl)
  refine ⟨c₃.close 2 (c₃.past (rest.takeWhile Diagnostic.isSymbolChar)), ?_, ?_, ?_⟩
  · rw [stops_standard, stops_literal hrest, List.flatMap_singleton, ← hc₁,
      stops_kindPattern hword hrest₁, List.map_singleton, List.flatMap_singleton, ← hc₂, hstep,
      List.flatMap_singleton, List.head?_map, head?_stops_name (hrest₃ ▸ hcapital), hrest₃]
    rfl
  · rw [Cursor.close, Cursor.rest_past, hsplit, List.drop_left]
  · have hspans₃ : c₃.spans = [⟨1, c₁.position, (c₁.past word).position⟩] := by
      rw [hc₃, Cursor.spans_past, hc₂, Cursor.close, Cursor.spans_past, hc₁, Cursor.spans_past,
        hspans]
    refine diagnostic?_of_spans ?_ hsymbol hkind
    rw [Cursor.close, Cursor.spans_past, hspans₃]

/-- Where a symbol is announced there is a match, and the preferred one is the direct reading. -/
theorem stops_of_announced? {line rest : Text} {kind : SymbolKind} {c : Cursor} (hc : c.In line)
    (hspans : c.spans = []) (h : Diagnostic.announced? c.rest = some (kind, rest)) :
    ∃ d, (standard.pattern.stops c).head? = some d ∧
      d.rest = rest.dropWhile Diagnostic.isSymbolChar ∧
      standard.diagnostic? line ⟨c.position, d.position, d.spans⟩ =
        some ⟨kind, rest.takeWhile Diagnostic.isSymbolChar⟩ := by
  obtain ⟨words, hwords, hrest, hcapital⟩ := Diagnostic.announced?_eq_some.mp h
  obtain ⟨word, hword, rfl, rfl⟩ := mem_announcements.mp hwords
  refine head?_stops_standard hc hword ?_ hcapital hspans
  rw [hrest, List.append_assoc, List.append_assoc, List.singleton_append]

section Place

variable {line : Text} {c : Cursor} (hc : c.In line)

include hc

theorem announced?_of_stops_nil (h : standard.pattern.stops { c with spans := [] } = []) :
    Diagnostic.announced? c.rest = none := by
  cases hannounced : Diagnostic.announced? c.rest with
  | none => rfl
  | some found =>
      obtain ⟨d, hd, -⟩ := stops_of_announced? hc.forget rfl hannounced
      rw [h] at hd
      cases hd

theorem announced?_of_stops_cons {d : Cursor} {ds : List Cursor}
    (h : standard.pattern.stops { c with spans := [] } = d :: ds) :
    ∃ kind rest, Diagnostic.announced? c.rest = some (kind, rest) ∧
      d.rest = rest.dropWhile Diagnostic.isSymbolChar ∧
      standard.diagnostic? line ⟨c.position, d.position, d.spans⟩ =
        some ⟨kind, rest.takeWhile Diagnostic.isSymbolChar⟩ := by
  obtain ⟨kind, rest, hannounced⟩ := announced?_of_mem_stops (h ▸ List.mem_cons_self)
  obtain ⟨d', hd', hmatch⟩ := stops_of_announced? hc.forget rfl hannounced
  rw [h] at hd'
  cases hd'
  exact ⟨kind, rest, hannounced, hmatch⟩

/-- A match takes something. -/
theorem length_rest_lt {d : Cursor} {ds : List Cursor}
    (h : standard.pattern.stops { c with spans := [] } = d :: ds) :
    d.rest.length < c.rest.length := by
  obtain ⟨kind, rest, hannounced, hrest, -⟩ := announced?_of_stops_cons hc h
  rw [hrest]
  exact Nat.lt_of_le_of_lt (List.dropWhile_suffix _).length_le
    (Diagnostic.length_lt_of_announced? hannounced)

theorem inLine_of_stops_cons {d : Cursor} {ds : List Cursor}
    (h : standard.pattern.stops { c with spans := [] } = d :: ds) : d.In line := by
  have htakes : Cursor.Passes (fun _ => True) { c with spans := [] } d :=
    passes_stops (fun _ _ _ _ => trivial) (h ▸ List.mem_cons_self)
  exact (hc.forget.takes htakes).1

end Place

/-- From any place of a line on, the matches give what the direct reading gives. -/
theorem filterMap_foundFrom {line : Text} (taken : Bool) (c : Cursor) (hc : c.In line) :
    (foundFrom standard.pattern taken c).filterMap (standard.diagnostic? line) =
      Diagnostic.readLine c.rest := by
  fun_induction foundFrom standard.pattern taken c with
  | case1 taken c here hrest hhere => simp [hrest, Diagnostic.readLine]
  | case2 c here d ds hrest hhere => simp [hrest, Diagnostic.readLine]
  | case3 taken c here found d ds hrest hhere =>
      -- there is nothing left to match
      have hless := length_rest_lt hc hhere
      rw [hrest] at hless
      exact absurd hless (Nat.not_lt_zero _)
  | case4 taken c here x rest hrest hhere ih =>
      have hnone := announced?_of_stops_nil hc hhere
      rw [hrest] at hnone ⊢
      rw [ih (hc.skip hrest), Diagnostic.readLine_cons_of_none hnone]
  | case5 taken c here found x rest d ds hrest hhere hless ih =>
      obtain ⟨kind, behind, hannounced, hbehind, hfound⟩ := announced?_of_stops_cons hc hhere
      rw [List.filterMap_cons_some hfound, ih (inLine_of_stops_cons hc hhere), hbehind,
        Diagnostic.readLine_of_some hannounced]
  | case6 c here x rest d ds hrest hhere hless => exact absurd (length_rest_lt hc hhere) hless
  | case7 taken c here found x rest d ds hrest hhere hless =>
      exact absurd (length_rest_lt hc hhere) hless

theorem scanLine_standard (line : Text) : standard.scanLine line = Diagnostic.readLine line :=
  filterMap_foundFrom false (Cursor.start line) ⟨rfl, Nat.zero_le _⟩

end DiagnosticPattern

/-! ## Each finding once -/

section FirstCopies

variable {α : Type} [BEq α] [LawfulBEq α]

/-- Filtering keeps the order of first appearances. -/
theorem idxOf_lt_of_filter {keep : α → Bool} {l : List α} {a b : α} (ha : keep a = true)
    (hb : keep b = true) (h : (l.filter keep).idxOf a < (l.filter keep).idxOf b) :
    l.idxOf a < l.idxOf b := by
  induction l with
  | nil => exact absurd h (Nat.lt_irrefl _)
  | cons x l ih => cases hx : keep x <;> grind

/-- The first copies stand in the order of first appearances. -/
theorem pairwise_idxOf_eraseDups (l : List α) :
    l.eraseDups.Pairwise fun a b => l.idxOf a < l.idxOf b := by
  cases l with
  | nil => simp
  | cons a l =>
      have hother : ∀ b ∈ (l.filter fun b => !b == a).eraseDups, b ≠ a := by
        intro b hb
        simpa using (List.mem_filter.mp (List.mem_eraseDups.mp hb)).2
      have hbehind : ∀ {b}, b ≠ a → (a :: l).idxOf b = l.idxOf b + 1 := by
        intro b hb
        rw [List.idxOf_cons, beq_false_of_ne (Ne.symm hb)]
        rfl
      rw [List.eraseDups_cons, List.pairwise_cons]
      refine ⟨?_, ?_⟩
      · intro b hb
        rw [List.idxOf_cons_self, hbehind (hother b hb)]
        exact Nat.succ_pos _
      · refine (pairwise_idxOf_eraseDups (l.filter fun b => !b == a)).imp_of_mem ?_
        intro b c hb hc hless
        rw [hbehind (hother b hb), hbehind (hother c hc)]
        exact Nat.succ_lt_succ (idxOf_lt_of_filter (by simpa using hother b hb)
          (by simpa using hother c hc) hless)
termination_by l.length
decreasing_by exact Nat.lt_succ_of_le (List.length_filter_le _ _)

end FirstCopies

/-- **What the built-in pattern finds.** The built-in pattern can be read, and for every output it
gives the diagnostics of the direct reading of the output's lines: those and no others, each once,
in the order of their first appearance. -/
theorem DiagnosticPattern.scan_standard :
    ∃ p, DiagnosticPattern.read SearchSettings.standard.pattern = .ok p ∧ ∀ output,
      let findings := (Text.lines output).flatMap Diagnostic.readLine
      (p.scan output).Nodup ∧ (∀ d, d ∈ p.scan output ↔ d ∈ findings) ∧
        (p.scan output).Pairwise fun d e => findings.idxOf d < findings.idxOf e := by
  refine ⟨standard, read_standard, fun output => ?_⟩
  have hscan : standard.scan output =
      ((Text.lines output).flatMap Diagnostic.readLine).eraseDups := by
    rw [scan, show standard.scanLine = Diagnostic.readLine from funext scanLine_standard]
  rw [hscan]
  exact ⟨Block.nodup_eraseDups _, fun d => List.mem_eraseDups, pairwise_idxOf_eraseDups _⟩

end ImportTidy

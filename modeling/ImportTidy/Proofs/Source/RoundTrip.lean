/-
# ImportTidy.Proofs.Source.RoundTrip — a file that is written is read back in the same parts

What is read from a content is *parted*: its header and its lines of code hold no line feed, no line
of code is an import, and the first is not blank. Such a file is written as a list of lines, each
with the ending of the file, and reading it gives back the header, the code, the ending and the
imports that were written (`parse_renderWith`). The one thing that can go wrong is a line that ends
in a carriage return of its own in a file with plain line feeds; `EndingKept` excludes it.
-/
import ImportTidy.Proofs.Import.Shape
import ImportTidy.Proofs.Text.Lines
import ImportTidy.Source

namespace ImportTidy

namespace LineEnding

/-! ## Lines with their endings -/

/-- A line that is read back as it was when it is written with this ending. -/
structure Ends (e : LineEnding) (l : Text) : Prop where
  oneLine : '\n' ∉ l
  noReturn : e = .lineFeed → l.getLast? ≠ some '\r'

theorem Ends.nil (e : LineEnding) : e.Ends [] where
  oneLine := List.not_mem_nil
  noReturn := by simp

theorem lines_append_text {e : LineEnding} {l : Text} (h : e.Ends l) (t : Text) :
    Text.lines (l ++ e.text ++ t) = l :: Text.lines t := by
  cases e with
  | lineFeed =>
      rw [text, List.append_assoc]
      exact Text.lines_append_lineFeed h.oneLine (h.noReturn rfl) t
  | returnAndLineFeed =>
      rw [text, List.append_assoc]
      exact Text.lines_append_return h.oneLine t

theorem lines_flatMap {e : LineEnding} {ls : List Text} (h : ∀ l ∈ ls, e.Ends l) :
    Text.lines (ls.flatMap (· ++ e.text)) = ls := by
  induction ls with
  | nil => rfl
  | cons l ls ih =>
      rw [List.flatMap_cons, lines_append_text (h l List.mem_cons_self),
        ih fun x hx => h x (List.mem_cons_of_mem l hx)]

/-- A carriage return before a line feed ends the line or stands behind it. -/
theorem return_of_infix_append_lineFeed {l t : Text} (hn : '\n' ∉ l)
    (h : ['\r', '\n'] <:+: l ++ '\n' :: t) :
    l.getLast? = some '\r' ∨ ['\r', '\n'] <:+: t := by
  induction l with
  | nil =>
      rw [List.nil_append, List.infix_cons_iff] at h
      rcases h with h | h
      · exact absurd (List.cons_prefix_cons.mp h).1 (by decide)
      · exact Or.inr h
  | cons c l ih =>
      rw [List.mem_cons, not_or] at hn
      rw [List.cons_append, List.infix_cons_iff] at h
      rcases h with h | h
      · -- `c` is the carriage return, so the line feed that follows is the line's own end
        obtain ⟨hc, h⟩ := List.cons_prefix_cons.mp h
        cases l with
        | nil => exact Or.inl (by simp [← hc])
        | cons d l =>
            have hd := (List.cons_prefix_cons.mp h).1
            exact absurd (by simp [← hd]) hn.2
      · rcases ih hn.2 h with h | h
        · cases l with
          | nil => exact absurd h (by simp)
          | cons d l => exact Or.inl (by simpa using h)
        · exact Or.inr h

theorem return_not_infix_flatMap {ls : List Text} (h : ∀ l ∈ ls, LineEnding.lineFeed.Ends l) :
    ¬ ['\r', '\n'] <:+: ls.flatMap (· ++ LineEnding.lineFeed.text) := by
  induction ls with
  | nil => decide
  | cons l ls ih =>
      have hl := h l List.mem_cons_self
      rw [List.flatMap_cons, text, List.append_assoc, List.singleton_append]
      intro hi
      rcases return_of_infix_append_lineFeed hl.oneLine hi with hi | hi
      · exact hl.noReturn rfl hi
      · exact ih (fun x hx => h x (List.mem_cons_of_mem l hx)) hi

theorem detect_eq_lineFeed_iff {content : Text} :
    detect content = .lineFeed ↔ ¬ ['\r', '\n'] <:+: content := by
  rw [← Text.occurs_eq_false_iff, detect]
  cases Text.occurs ['\r', '\n'] content <;> simp

/-- The ending that lines were written with is found. -/
theorem detect_flatMap {e : LineEnding} {l : Text} {ls : List Text}
    (h : ∀ x ∈ l :: ls, e.Ends x) : detect ((l :: ls).flatMap (· ++ e.text)) = e := by
  cases e with
  | lineFeed => exact detect_eq_lineFeed_iff.mpr (return_not_infix_flatMap h)
  | returnAndLineFeed =>
      have hi : ['\r', '\n'] <:+: (l :: ls).flatMap (· ++ returnAndLineFeed.text) :=
        ⟨l, ls.flatMap (· ++ returnAndLineFeed.text), by simp [text]⟩
      rw [detect, Text.occurs_iff.mpr hi]
      rfl

/-- A line that ends in a carriage return of its own looks like one with two characters at its
end. -/
theorem detect_flatMap_of_return {l : Text} {ls : List Text} (hl : l ∈ ls)
    (hr : l.getLast? = some '\r') : detect (ls.flatMap (· ++ lineFeed.text)) = returnAndLineFeed := by
  obtain ⟨front, rfl⟩ := List.getLast?_eq_some_iff.mp hr
  obtain ⟨before, behind, rfl⟩ := List.append_of_mem hl
  have hi : ['\r', '\n'] <:+: (before ++ (front ++ ['\r']) :: behind).flatMap (· ++ lineFeed.text) :=
    ⟨before.flatMap (· ++ lineFeed.text) ++ front, behind.flatMap (· ++ lineFeed.text),
      by simp [text]⟩
  rw [detect, Text.occurs_iff.mpr hi]
  rfl

end LineEnding

namespace SourceFile

/-! ## The lines of a written file -/

/-- The lines that a file is written in. -/
def writtenLines (f : SourceFile) (importLines : List Text) : List Text :=
  f.header :: [] ::
    ((if importLines.isEmpty then [] else importLines ++ [[]]) ++
      if f.code.isEmpty then [[]] else f.code)

/-- A file is written in its header, its code, the given lines and empty ones. -/
theorem mem_writtenLines {f : SourceFile} {ls : List Text} {l : Text} :
    l ∈ f.writtenLines ls ↔ l = [] ∨ l ∈ f.header :: f.code ∨ l ∈ ls := by
  unfold writtenLines
  cases ls <;> cases f.code <;> grind

/-- What holds of the empty line holds of every line that is written, if it holds of the header, of
the code and of the given lines. -/
theorem forall_mem_writtenLines {f : SourceFile} {ls : List Text} {P : Text → Prop} (hnil : P []) :
    (∀ l ∈ f.writtenLines ls, P l) ↔ (∀ l ∈ f.header :: f.code, P l) ∧ ∀ l ∈ ls, P l := by
  simp only [mem_writtenLines, or_imp, forall_and, forall_eq, hnil, true_and]

theorem join_append (eol : Text) {parts : List Text} (h : parts ≠ []) :
    Text.join eol parts ++ eol = parts.flatMap (· ++ eol) := by
  induction parts with
  | nil => exact absurd rfl h
  | cons p parts ih =>
      cases parts with
      | nil => simp [Text.join]
      | cons q parts =>
          rw [List.flatMap_cons, ← ih (by simp), Text.join, Text.join,
            List.intercalate_cons_cons, List.append_assoc]

theorem renderWith_eq (f : SourceFile) (importLines : List Text) :
    f.renderWith importLines = (f.writtenLines importLines).flatMap (· ++ f.ending.text) := by
  -- a file without code has one empty line in the place of it
  have hcode : Text.join f.ending.text f.code ++ f.ending.text =
      (if f.code.isEmpty then [[]] else f.code).flatMap (· ++ f.ending.text) := by
    cases hc : f.code with
    | nil => simp [Text.join]
    | cons l code => exact join_append _ (by simp)
  have himports : (if importLines.isEmpty then []
        else Text.join f.ending.text importLines ++ (f.ending.text ++ f.ending.text)) =
      (if importLines.isEmpty then [] else importLines ++ [[]]).flatMap
        (· ++ f.ending.text) := by
    cases importLines with
    | nil => rfl
    | cons l ls =>
        simp only [List.isEmpty_cons, Bool.false_eq_true, if_false, List.flatMap_append]
        rw [← List.append_assoc, join_append _ (by simp)]
        simp
  unfold renderWith writtenLines
  simp only [List.flatMap_cons, List.flatMap_append, himports, List.append_assoc, hcode,
    List.nil_append]

/-! ## Reading what was written -/

/-- A file whose parts can be told apart again. -/
structure Parted (f : SourceFile) : Prop where
  header_line : '\n' ∉ f.header
  code_line : ∀ l ∈ f.code, '\n' ∉ l
  code_no_import : ∀ l ∈ f.code, Statement.isImportLine l = false
  code_head : ∀ l ∈ f.code.head?, Text.isBlankText l = false

/-- In a file with plain line feeds no line that is kept ends in a carriage return. -/
def EndingKept (f : SourceFile) : Prop :=
  f.ending = .lineFeed → ∀ l ∈ f.header :: f.code, l.getLast? ≠ some '\r'

theorem header_mem_lines (content : Text) :
    (parse content).header = [] ∨ (parse content).header ∈ Text.lines content := by
  show (Text.lines content).head?.getD [] = [] ∨ (Text.lines content).head?.getD [] ∈ _
  cases Text.lines content with
  | nil => exact Or.inl rfl
  | cons l ls => exact Or.inr List.mem_cons_self

theorem mem_lines_of_mem_code {content l : Text} (h : l ∈ (parse content).code) :
    l ∈ Text.lines content ∧ Statement.isImportLine l = false := by
  have h₁ : l ∈ (Text.lines content).tail.filter fun line => !Statement.isImportLine line :=
    (List.dropWhile_sublist _).subset h
  rw [List.mem_filter, Bool.not_eq_true'] at h₁
  exact ⟨List.mem_of_mem_tail h₁.1, h₁.2⟩

/-- Every content is read in parts that can be told apart. -/
theorem parted_parse (content : Text) : (parse content).Parted where
  header_line := by
    rcases header_mem_lines content with h | h
    · rw [h]
      exact List.not_mem_nil
    · exact Text.lineFeed_not_mem_of_mem_lines h
  code_line := by
    intro l hl
    exact Text.lineFeed_not_mem_of_mem_lines (mem_lines_of_mem_code hl).1
  code_no_import := by
    intro l hl
    exact (mem_lines_of_mem_code hl).2
  code_head := by
    intro l hl
    have h := List.head?_dropWhile_not Text.isBlankText
      ((Text.lines content).tail.filter fun line => !Statement.isImportLine line)
    have hl' : (List.dropWhile Text.isBlankText ((Text.lines content).tail.filter
        fun line => !Statement.isImportLine line)).head? = some l := hl
    rw [hl'] at h
    simpa using h

/-- Where line feeds alone end the lines, a line that is kept and ends in a carriage return is the
last one of the content. -/
theorem last_of_kept_return {content l : Text} (he : (parse content).ending = .lineFeed)
    (hl : l ∈ (parse content).header :: (parse content).code) (hr : l.getLast? = some '\r') :
    (Text.lines content).getLast? = some l ∧ content.getLast? = some '\r' := by
  have hrn : ¬ ['\r', '\n'] <:+: content := LineEnding.detect_eq_lineFeed_iff.mp he
  rcases List.mem_cons.mp hl with rfl | hl
  · rcases header_mem_lines content with hh | hh
    · rw [hh] at hr
      exact absurd hr (by simp)
    · exact Text.last_of_return hrn hh hr
  · exact Text.last_of_return hrn (mem_lines_of_mem_code hl).1 hr

/-- Only a carriage return at the very end of a content can be taken for part of a line end. -/
theorem endingKept_parse {content : Text} (h : content.getLast? ≠ some '\r') :
    (parse content).EndingKept := fun he _ hl hr =>
  h (last_of_kept_return he hl hr).2

/-- The lines that stand in the place of imports: empty ones and printable statements. -/
def AreImportLines (ls : List Text) : Prop := ∀ l ∈ ls, l = [] ∨ (Statement.mk l).Printable

theorem AreImportLines.ends {ls : List Text} (h : AreImportLines ls) (e : LineEnding) :
    ∀ l ∈ ls, e.Ends l := by
  intro l hl
  rcases h l hl with rfl | hp
  · exact LineEnding.Ends.nil e
  · refine ⟨hp.oneLine, fun _ hr => ?_⟩
    exact absurd (hp.endsSolid '\r' hr) (by decide)

/-- No line feed stands in the lines of a file whose parts can be told apart. -/
theorem oneLine_writtenLines {f : SourceFile} {ls : List Text} (hf : f.Parted)
    (hl : ∀ l ∈ ls, '\n' ∉ l) : ∀ l ∈ f.writtenLines ls, '\n' ∉ l :=
  (forall_mem_writtenLines List.not_mem_nil).mpr
    ⟨List.forall_mem_cons.mpr ⟨hf.header_line, hf.code_line⟩, hl⟩

theorem ends_writtenLines {f : SourceFile} {ls : List Text} (hf : f.Parted) (he : f.EndingKept)
    (hl : AreImportLines ls) : ∀ l ∈ f.writtenLines ls, f.ending.Ends l := by
  have hone := oneLine_writtenLines hf fun l hmem => (hl.ends f.ending l hmem).oneLine
  refine (forall_mem_writtenLines (LineEnding.Ends.nil _)).mpr ⟨fun l hmem => ?_, hl.ends _⟩
  exact ⟨hone l (mem_writtenLines.mpr (Or.inr (Or.inl hmem))), fun h => he h l hmem⟩

theorem lines_renderWith {f : SourceFile} {ls : List Text} (hf : f.Parted) (he : f.EndingKept)
    (hl : AreImportLines ls) : Text.lines (f.renderWith ls) = f.writtenLines ls := by
  rw [renderWith_eq, LineEnding.lines_flatMap (ends_writtenLines hf he hl)]

theorem isImportLine_nil : Statement.isImportLine [] = false := by decide

/-- The import lines among the written ones are the statements, as they were. -/
theorem importsOf_writtenLines {f : SourceFile} {ls : List Text} (hf : f.Parted)
    (hl : AreImportLines ls) :
    importsOf (f.writtenLines ls).tail = (ls.filter fun l => !l.isEmpty).map Statement.mk := by
  have hcode : (if f.code.isEmpty then [[]] else f.code).filter Statement.isImportLine = [] := by
    rw [List.filter_eq_nil_iff]
    intro l hmem
    split at hmem
    · obtain rfl := List.mem_singleton.mp hmem
      decide
    · rw [hf.code_no_import l hmem]
      exact Bool.false_ne_true
  have hblock : (if ls.isEmpty then [] else ls ++ [[]]).filter Statement.isImportLine =
      ls.filter fun l => !l.isEmpty := by
    -- a printable statement is an import line, and an empty line is none
    have hls : ls.filter Statement.isImportLine = ls.filter fun l => !l.isEmpty := by
      apply List.filter_congr
      intro l hmem
      rcases hl l hmem with rfl | hp
      · decide
      · have hi := hp.isImportLine
        rw [hi]
        cases l with
        | nil => exact absurd hi (by decide)
        | cons c l => rfl
    cases ls with
    | nil => rfl
    | cons l ls =>
        rw [if_neg (by simp), List.filter_append, hls]
        simp [isImportLine_nil]
  rw [importsOf, writtenLines, List.tail_cons, List.filter_cons_of_neg (by decide),
    List.filter_append, hblock, hcode, List.append_nil]
  apply List.map_congr_left
  intro l hmem
  obtain ⟨hmem, hne⟩ := List.mem_filter.mp hmem
  rcases hl l hmem with rfl | hp
  · exact absurd hne (by decide)
  · exact congrArg Statement.mk (Text.trimEnd_of_endsSolid hp.endsSolid)

/-- The written lines that are no imports are blank ones and then the code. -/
theorem codeOf_writtenLines {f : SourceFile} {ls : List Text} (hf : f.Parted)
    (hl : AreImportLines ls) : codeOf (f.writtenLines ls).tail = f.code := by
  -- above the code, every line that is no import is empty
  have hblank : ∀ l ∈ ([] :: if ls.isEmpty then [] else ls ++ [[]]).filter
      (fun line => !Statement.isImportLine line), Text.isBlankText l = true := by
    intro l hmem
    obtain ⟨hmem, hno⟩ := List.mem_filter.mp hmem
    suffices h : l = [] by rw [h]; rfl
    rcases List.mem_cons.mp hmem with rfl | hmem
    · rfl
    · split at hmem
      · exact absurd hmem List.not_mem_nil
      · rcases List.mem_append.mp hmem with hmem | hmem
        · rcases hl l hmem with rfl | hp
          · rfl
          · rw [hp.isImportLine] at hno
            exact absurd hno (by decide)
        · exact List.mem_singleton.mp hmem
  have hcode : f.code.filter (fun line => !Statement.isImportLine line) = f.code := by
    rw [List.filter_eq_self]
    intro l hmem
    rw [hf.code_no_import l hmem]
    rfl
  rw [codeOf, writtenLines, List.tail_cons, ← List.cons_append, List.filter_append]
  rw [List.dropWhile_append_of_pos hblank]
  cases hc : f.code with
  | nil => rfl
  | cons line more =>
      have hif : (if (line :: more).isEmpty then [[]] else line :: more) = line :: more := rfl
      rw [hc] at hcode
      rw [hif, hcode]
      exact List.dropWhile_cons_of_neg (by rw [hf.code_head line (by rw [hc]; rfl)]; decide)

/-- **Reading undoes writing.** -/
theorem parse_renderWith {f : SourceFile} {ls : List Text} (hf : f.Parted) (he : f.EndingKept)
    (hl : AreImportLines ls) :
    parse (f.renderWith ls) =
      f.withImports ((ls.filter fun l => !l.isEmpty).map Statement.mk) := by
  have hdetect : LineEnding.detect (f.renderWith ls) = f.ending := by
    rw [renderWith_eq]
    exact LineEnding.detect_flatMap (ends_writtenLines hf he hl)
  simp only [parse, lines_renderWith hf he hl, importsOf_writtenLines hf hl,
    codeOf_writtenLines hf hl, hdetect]
  rfl

theorem lines_map_mk (ls : List Text) : Block.lines (ls.map Statement.mk) = ls := by
  rw [Block.lines, List.map_map]
  exact List.map_id ls

/-- **What was read from a content is read again when it is written.** The header, the code and the
ending are those of the content, the imports are the lines that were written in their place, and
writing them once more gives the same text. -/
theorem parse_renderWith_parse {content : Text} (hend : content.getLast? ≠ some '\r')
    {ls : List Text} (hl : AreImportLines ls) :
    (parse ((parse content).renderWith ls)).header = (parse content).header ∧
      (parse ((parse content).renderWith ls)).code = (parse content).code ∧
      (parse ((parse content).renderWith ls)).ending = (parse content).ending ∧
      (parse ((parse content).renderWith ls)).imports.lines = ls.filter (fun l => !l.isEmpty) ∧
      (parse ((parse content).renderWith ls)).renderWith ls = (parse content).renderWith ls := by
  rw [parse_renderWith (parted_parse content) (endingKept_parse hend) hl]
  exact ⟨rfl, rfl, rfl, lines_map_mk _, rfl⟩

/-- Both line ends, carriage returns inside and at the end of lines, imports between the lines of
code, and an empty line at the end. -/
def mingledContent : Text :=
  "package p\r\n\nimport b.B\nval x\ry\n\n  import c\nimport a.A \r\nobject O\r\r\n\n".toList

/-- Two statements with an empty line between them. -/
def mingledLines : List Text := ["import a._".toList, [], "import\tb.\x7bC => D\x7d".toList]

theorem parse_renderWith_parse_mingled :
    mingledContent.getLast? ≠ some '\r' ∧ AreImportLines mingledLines ∧
      (parse mingledContent).code =
        ["val x\ry".toList, [], "  import c".toList, "object O\r".toList, []] ∧
      (parse ((parse mingledContent).renderWith mingledLines)).code =
        (parse mingledContent).code ∧
      (parse ((parse mingledContent).renderWith mingledLines)).ending = .returnAndLineFeed ∧
      (parse ((parse mingledContent).renderWith mingledLines)).imports.lines =
        ["import a._".toList, "import\tb.\x7bC => D\x7d".toList] := by
  have hend : mingledContent.getLast? ≠ some '\r' := by decide +kernel
  have hl : AreImportLines mingledLines := by
    unfold AreImportLines mingledLines
    decide +kernel
  obtain ⟨-, hcode, hending, himports, -⟩ := parse_renderWith_parse hend hl
  refine ⟨hend, hl, by decide +kernel, hcode, ?_, ?_⟩
  · rw [hending]
    decide +kernel
  · rw [himports]
    decide +kernel

end SourceFile

end ImportTidy

/-
# ImportTidy.Proofs.Source.LineEnds — when a tidied file keeps its line ends

A file is written with the line ends that were found in it. Where these are a carriage return and a
line feed, they are found again. Where they are plain line feeds, a written line that ends in a
carriage return of its own makes the file look like one of the other kind. No line but the last can
end so, and the last is written only when it is the header or code; among the imports such a line
can only come from a rewrite (`tidied_keeps_ending_iff`).
-/
import Mathlib
import ImportTidy.Proofs.Import.Survivors
import ImportTidy.Proofs.Source.Convergence

namespace ImportTidy

/-! ## No line feeds in a cleaned block -/

namespace Block

variable {t : Nat} {b : Block}

theorem oneLine_expand (hb : ∀ s ∈ b, '\n' ∉ s.text) : ∀ s ∈ b.expand, '\n' ∉ s.text := by
  intro x hx
  rcases mem_expand.mp hx with ⟨hx, -⟩ | ⟨s, hs, members, hexpand, hx⟩
  · exact hb x hx
  · obtain ⟨before, behind, name, htext, rfl, -, hmem, -⟩ :=
      Statement.exists_name_of_mem_expand? hexpand hx
    have hline := hb s hs
    rw [htext] at hline
    intro hm
    rcases List.mem_append.mp hm with hm | hm
    · exact hline (List.mem_append_left _ hm)
    · exact hline (by simp [hmem _ hm])

theorem oneLine_compact (hb : ∀ s ∈ b, '\n' ∉ s.text) : ∀ s ∈ b.compact t, '\n' ∉ s.text := by
  intro s hs
  rcases mem_compact.mp hs with ⟨hs, -⟩ | ⟨hs, -⟩ | ⟨q, hs⟩
  · exact hb s hs
  · exact hb s hs
  · -- a statement for members is made of the qualifier and of texts from the block
    have hmembers : ∀ m ∈ items (b.members q), '\n' ∉ q ∧ '\n' ∉ m := by
      intro m hm
      have hline := hb _ (mem_members.mp (mem_of_mem_items hm).1).2
      simpa [Statement.ofMember] using hline
    have hq : '\n' ∉ q := by
      cases hitems : items (b.members q) with
      | nil =>
          rw [hitems] at hs
          exact absurd hs List.not_mem_nil
      | cons m ms => exact (hmembers m (by simp [hitems])).1
    obtain ⟨m, rfl, hm | rfl | rfl⟩ := mem_plainStatement hs
    · exact hb _ (mem_members.mp (mem_of_mem_items hm).1).2
    · have hgroup := not_mem_group (fun m hm => (hmembers m hm).2) (c := '\n') (by decide)
      simp only [Statement.ofMember, List.mem_append, List.mem_cons, not_or]
      exact ⟨hq, by decide, by simpa using hgroup⟩
    · simp only [Statement.ofMember, List.mem_append, List.mem_cons, not_or]
      exact ⟨hq, by decide, by decide⟩

end Block

namespace Rules

variable {r : Rules}

/-- No rewrite brings in a line feed. -/
def RewritesInLine (r : Rules) : Prop := ∀ rule ∈ r.rewrites, '\n' ∉ rule.target

theorem RewritesInLine.rewriteAll (hr : r.RewritesInLine) {s : Statement} (hs : '\n' ∉ s.text) :
    '\n' ∉ (r.rewriteAll s).text := by
  unfold Rules.rewriteAll
  unfold RewritesInLine at hr
  generalize r.rewrites = rules at hr
  induction rules generalizing s with
  | nil => exact hs
  | cons rule rules ih =>
      refine ih ?_ fun x hx => hr x (List.mem_cons_of_mem rule hx)
      have htarget := hr rule List.mem_cons_self
      show '\n' ∉ Text.replaceFirst rule.source rule.target s.text
      rcases Text.replaceFirst_cases rule.source rule.target s.text with heq | ⟨x, y, htext, heq⟩
      · rw [heq]
        exact hs
      · rw [htext] at hs
        rw [heq]
        simp only [List.mem_append, not_or] at hs ⊢
        exact ⟨hs.1, htarget, hs.2.2⟩

theorem oneLine_clean (hr : r.RewritesInLine) {b : Block} (hb : ∀ s ∈ b, '\n' ∉ s.text)
    (code : Text) : ∀ s ∈ r.clean code b, '\n' ∉ s.text := by
  refine Block.oneLine_compact fun s hs => ?_
  obtain ⟨x, hx, rfl⟩ := List.mem_map.mp (r.mem_select.mp hs).1
  exact hr.rewriteAll (Block.oneLine_expand hb x hx)

end Rules

/-! ## The ending of a written file -/

/-- The ending that lines were written with is found again, unless a line of a file with plain line
feeds ends in a carriage return. -/
theorem LineEnding.detect_flatMap_iff {e : LineEnding} {l : Text} {ls : List Text}
    (h : ∀ x ∈ l :: ls, '\n' ∉ x) :
    detect ((l :: ls).flatMap (· ++ e.text)) = e ↔
      (e = .lineFeed → ∀ x ∈ l :: ls, x.getLast? ≠ some '\r') := by
  constructor
  · rintro hdetect rfl x hx hr
    rw [detect_flatMap_of_return hx hr] at hdetect
    exact LineEnding.noConfusion hdetect
  · intro hr
    exact detect_flatMap fun x hx => ⟨h x hx, fun he => hr he x hx⟩

namespace SourceFile

variable {r : Rules} {content : Text}

/-- The content ends in a carriage return, and its last line is the header or a line of code. -/
def StrayKept (content : Text) : Prop :=
  content.getLast? = some '\r' ∧
    ∃ line ∈ (Text.lines content).getLast?, line ∈ (parse content).header :: (parse content).code

instance (content : Text) : Decidable (StrayKept content) :=
  inferInstanceAs (Decidable (_ ∧ _))

theorem endingKept_iff (hlf : LineEnding.detect content = .lineFeed) :
    (parse content).EndingKept ↔ ¬ StrayKept content := by
  constructor
  · rintro hkept ⟨hlast, line, hline, hmem⟩
    exact hkept hlf line hmem (Text.getLast?_of_getLast?_lines hlast hline)
  · intro hstray he l hl hr
    obtain ⟨hline, hlast⟩ := last_of_kept_return he hl hr
    exact hstray ⟨hlast, l, hline, hl⟩

/-- **When a tidied file keeps its line ends.** With a carriage return and a line feed at the ends
of its lines it always does. With plain line feeds it does exactly when no carriage return at the
end of the content is kept and no cleaned statement ends in one; and no statement ends so when the
rewrites leave statements that can be printed. -/
theorem tidied_keeps_ending_iff (hr : r.RewritesInLine) (content : Text) :
    (LineEnding.detect (tidied r content) = LineEnding.detect content ↔
      (LineEnding.detect content = .lineFeed → ¬ StrayKept content ∧
        ∀ s ∈ r.clean (parse content).codeText (parse content).imports,
          s.text.getLast? ≠ some '\r')) ∧
      (r.RewritesPrint → ∀ s ∈ r.clean (parse content).codeText (parse content).imports,
        s.text.getLast? ≠ some '\r') := by
  constructor
  · have himports : ∀ s ∈ (parse content).imports, '\n' ∉ s.text := fun s hs =>
      (Block.printable_parse content s hs).oneLine
    have hone : ∀ l ∈ tidiedLines r content, '\n' ∉ l :=
      oneLine_writtenLines (parted_parse content)
        ((Block.forall_mem_layout List.not_mem_nil).mpr (Rules.oneLine_clean hr himports _))
    rw [tidied_eq_flatMap]
    refine (LineEnding.detect_flatMap_iff hone).trans (forall_congr' fun hlf => ?_)
    have hkept : (∀ l ∈ (parse content).header :: (parse content).code, l.getLast? ≠ some '\r') ↔
        ¬ StrayKept content :=
      ⟨fun h => (endingKept_iff hlf).mp fun _ => h, fun h => (endingKept_iff hlf).mpr h hlf⟩
    have hclean : (∀ l ∈ r.cleanLines (parse content).codeText (parse content).imports,
        l.getLast? ≠ some '\r') ↔
          ∀ s ∈ r.clean (parse content).codeText (parse content).imports,
            s.text.getLast? ≠ some '\r' :=
      Block.forall_mem_layout (P := fun l => l.getLast? ≠ some '\r') (by simp)
    rw [← hkept, ← hclean]
    exact forall_mem_writtenLines (P := fun l => l.getLast? ≠ some '\r') (by simp)
  · intro hprint s hs hreturn
    have hs := Rules.printable_clean hprint (Block.printable_parse content) _ s hs
    exact absurd (hs.endsSolid '\r' hreturn) (by decide)

/-- Carriage returns inside a line and at the end of the content, where an import drops it. -/
def strayContent : Text := "package p\nimport a.B\nval x\ry = B C\nimport a.C\r".toList

theorem tidied_keeps_ending_strayContent :
    Rules.standard.RewritesInLine ∧ strayContent.getLast? = some '\r' ∧
      LineEnding.detect strayContent = .lineFeed ∧
      LineEnding.detect (tidied .standard strayContent) = .lineFeed := by
  have hr : Rules.standard.RewritesInLine := by
    unfold Rules.RewritesInLine
    decide
  have hlf : LineEnding.detect strayContent = .lineFeed := by decide +kernel
  obtain ⟨hiff, hclean⟩ := tidied_keeps_ending_iff hr strayContent
  have hkept := hiff.mpr fun _ => ⟨by decide +kernel, hclean Rules.rewritesPrint_standard⟩
  exact ⟨hr, by decide +kernel, hlf, hkept.trans hlf⟩

/-- A carriage return at the end of the last line of code, in a file with plain line feeds. -/
def danglingReturn : Text := "package p\nval x\r".toList

/-- The line feed that is written behind the carriage return makes it the ending of the file. -/
theorem tidied_switches_ending :
    Rules.standard.defect? = none ∧ Rules.standard.RewritesInLine ∧
      LineEnding.detect danglingReturn = .lineFeed ∧
      LineEnding.detect (tidied .standard danglingReturn) = .returnAndLineFeed := by
  unfold Rules.RewritesInLine
  decide +kernel

end SourceFile

end ImportTidy

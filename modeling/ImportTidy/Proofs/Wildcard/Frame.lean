/-
# ImportTidy.Proofs.Wildcard.Frame — a reduction touches nothing but the imports

A reduction writes its file many times: with every block that a search tries, with the block that
puts a wildcard back, with the cleaned imports, with the original content. To speak of all these
texts, a site is *noted*: the same site, with a list of what was to be written. Every text on the
list has the header, the code and the line ending of the original content (`reduce_keeps_frame`).

A text that was written with a block is read back as the file with that block when the block's
statements can be printed, so the invariant of the run is that all statements can be: those of the
file, the members of its groups, and the candidates for the symbols that the compiler misses.
-/
import ImportTidy.Proofs.Import.Printing
import ImportTidy.Proofs.Pattern.Groups
import ImportTidy.Proofs.Source.Convergence
import ImportTidy.Proofs.Wildcard.Restoration

namespace ImportTidy

/-! ## Files that differ in their imports -/

/-- The files have the same header, the same code and the same line ending. -/
structure SourceFile.SameFrame (f g : SourceFile) : Prop where
  header : f.header = g.header
  code : f.code = g.code
  ending : f.ending = g.ending

namespace SourceFile

variable {content : Text} {b : Block}

/-- Writing a content with other statements keeps its frame. -/
theorem sameFrame_renderWith (hend : content.getLast? ≠ some '\r') (hb : ∀ s ∈ b, s.Printable) :
    (parse ((parse content).renderWith b.lines)).SameFrame (parse content) := by
  have hlines : AreImportLines b.lines := by
    intro l hl
    obtain ⟨s, hs, rfl⟩ := List.mem_map.mp hl
    exact Or.inr (hb s hs)
  rw [parse_renderWith (parted_parse content) (endingKept_parse hend) hlines]
  exact ⟨rfl, rfl, rfl⟩

/-- So does cleaning them, when the rewrites of the rules leave statements that can be printed. -/
theorem sameFrame_normalize {r : Rules} (hend : content.getLast? ≠ some '\r')
    (hr : r.RewritesPrint) (hb : ∀ s ∈ b, s.Printable) :
    (parse (((parse content).withImports b).normalize r)).SameFrame (parse content) := by
  have hparted : ((parse content).withImports b).Parted := by
    obtain ⟨h₁, h₂, h₃, h₄⟩ := parted_parse content
    exact ⟨h₁, h₂, h₃, h₄⟩
  rw [parse_normalize hparted (endingKept_parse hend) (Rules.printable_clean hr hb _)]
  exact ⟨rfl, rfl, rfl⟩

end SourceFile

/-! ## Candidates -/

theorem SearchSettings.pattern_of_plan {settings : SearchSettings} {plan : SearchPlan}
    (h : settings.plan = .ok plan) : DiagnosticPattern.read settings.pattern = .ok plan.pattern := by
  unfold SearchSettings.plan at h
  split at h
  · exact absurd h (by simp)
  · split at h
    · exact absurd h (by simp)
    · rename_i hread
      rw [hread, ← Except.ok.inj h]

/-- A symbol without blanks makes a candidate that can be printed. -/
theorem SearchPlan.printable_candidates {plan : SearchPlan}
    (hplan : plan.pattern.SymbolsAllow fun c => Text.isBlank c = false) {wildcard : Statement}
    (hw : wildcard.Printable) (output : Text) :
    ∀ x ∈ plan.candidates wildcard output, x.Printable := by
  intro x hx
  obtain ⟨d, hd, hmember⟩ := List.mem_filterMap.mp hx
  have hsolid := DiagnosticPattern.mem_symbol_of_mem_scan hplan hd
  have hline : '\n' ∉ d.symbol := by
    intro hmem
    exact absurd (hsolid _ hmem) (by decide)
  have hend : Text.EndsSolid d.symbol := fun c hc => hsolid c (List.mem_of_getLast? hc)
  exact hw.withMember? hline hend hmember

namespace Site

variable {σ ε : Type} {site : Site σ ε}

/-! ## The texts that are written -/

/-- The site with a list of all texts that were to be written to the file, the latest first. -/
def noted (site : Site σ ε) : Site (σ × List Text) ε where
  read w := site.read w.1
  write text w :=
    match site.write text w.1 with
    | (result, s) => (result, s, text :: w.2)
  compile w :=
    match site.compile w.1 with
    | (result, s) => (result, s, w.2)

theorem shows_noted (site : Site σ ε) : site.noted.Shows site Prod.fst where
  read := fun _ => rfl
  write := fun _ _ => rfl
  compile := fun _ => rfl

/-- Every text on the list has the frame of the content. -/
def Framed (content : Text) (w : σ × List Text) : Prop :=
  ∀ text ∈ w.2, (SourceFile.parse text).SameFrame (.parse content)

theorem Framed.write {content text : Text} {w : σ × List Text} (h : Framed content w)
    (htext : (SourceFile.parse text).SameFrame (.parse content)) :
    Framed content (site.noted.write text w).2 := by
  intro t ht
  rcases List.mem_cons.mp ht with rfl | ht
  · exact htext
  · exact h t ht

theorem keeps_framed {content : Text} (hend : content.getLast? ≠ some '\r') :
    site.noted.Keeps (.parse content) Statement.Printable (Framed content) (Framed content) where
  compiled h hcompile := by
    obtain ⟨-, rfl⟩ := Prod.mk.inj hcompile
    exact h
  uncompiled h hcompile := by
    obtain ⟨-, rfl⟩ := Prod.mk.inj hcompile
    exact h
  stored hb h hpersist := by
    obtain ⟨-, rfl⟩ := Prod.mk.inj hpersist
    exact Framed.write h (SourceFile.sameFrame_renderWith hend hb)
  unstored hb h hpersist := by
    obtain ⟨-, rfl⟩ := Prod.mk.inj hpersist
    exact Framed.write h (SourceFile.sameFrame_renderWith hend hb)

/-- Every text that is written has the frame of the content. -/
theorem framed_reduce {rules : Rules} {plan : SearchPlan} {content : Text} {s : σ}
    (hrules : rules.RewritesPrint)
    (hplan : plan.pattern.SymbolsAllow fun c => Text.isBlank c = false)
    (hread : site.read s = .ok content) (hend : content.getLast? ≠ some '\r') :
    Framed content (site.noted.reduce rules plan (s, [])).2 := by
  have hkeeps : site.noted.Keeps (.parse content) Statement.Printable (Framed content)
      (Framed content) := keeps_framed hend
  have himports : ∀ x ∈ (SourceFile.parse content).imports.expand, x.Printable :=
    Block.printable_expand (Block.printable_parse content)
  have hcandidates : ∀ w ∈ (SourceFile.parse content).imports.expand.wildcards, ∀ output,
      ∀ x ∈ plan.candidates w output, x.Printable :=
    fun w hw => plan.printable_candidates hplan (himports w (List.mem_filter.mp hw).1)
  have hread' : site.noted.read (s, []) = .ok content := hread
  have hstart : Framed content (s, []) := by
    intro text htext
    exact absurd htext List.not_mem_nil
  have hself : (SourceFile.parse content).SameFrame (.parse content) := ⟨rfl, rfl, rfl⟩
  refine hkeeps.reduce hcandidates hread' himports ?_ ?_ hstart
  · exact fun hb w hw => hw.write (SourceFile.sameFrame_normalize hend hrules hb)
  · exact fun w hw => hw.write hself

/-- **A reduction touches nothing but the imports.** With the built-in pattern for diagnostics, and
rules whose rewrites leave import lines, every text that is ever written to the file has the header,
the code and the line ending of the content that the file had, whatever the compiler says and
whichever writes fail. -/
theorem reduce_keeps_frame {rules : Rules} {settings : SearchSettings} {plan : SearchPlan} {s : σ}
    {content : Text} (hrules : rules.RewritesPrint)
    (hpattern : settings.pattern = SearchSettings.standard.pattern)
    (hplan : settings.plan = .ok plan) (hread : site.read s = .ok content)
    (hend : content.getLast? ≠ some '\r') :
    ∃ result s' texts, site.noted.reduce rules plan (s, []) = (result, s', texts) ∧
      site.reduce rules plan s = (result, s') ∧
      ∀ text ∈ texts, (SourceFile.parse text).header = (SourceFile.parse content).header ∧
        (SourceFile.parse text).code = (SourceFile.parse content).code ∧
        (SourceFile.parse text).ending = (SourceFile.parse content).ending := by
  have hsymbols : plan.pattern.SymbolsAllow fun c => Text.isBlank c = false := by
    have hstandard : plan.pattern = .standard := by
      have h := SearchSettings.pattern_of_plan hplan
      rw [hpattern, DiagnosticPattern.read_standard] at h
      exact (Except.ok.inj h).symm
    rw [hstandard]
    exact DiagnosticPattern.symbolsAllow_standard
  have hframed := framed_reduce hrules hsymbols hread hend
  refine ⟨_, _, _, rfl, reduce_view site.shows_noted rules plan (s, []), ?_⟩
  intro text htext
  exact ⟨(hframed text htext).header, (hframed text htext).code, (hframed text htext).ending⟩

/-- An import between the lines of code, and two kinds of line ends. -/
def strewnContent : Text := "package p\r\nX\n\nimport a._\nY".toList

/-- The plan of the built-in settings. -/
def standardPlan : SearchPlan := ⟨5, "error".toList, .standard⟩

theorem plan_standard : SearchSettings.standard.plan = .ok standardPlan := by
  have hdefect : SearchSettings.standard.defect? = none := by decide
  rw [SearchSettings.plan, hdefect, DiagnosticPattern.read_standard]
  rfl

/-- The wildcard is taken out, the missing symbol is tried, and the cleaned file is written. -/
theorem noted_strewnContent :
    flaky.noted.reduce .standard standardPlan
        ((strewnContent, [], ["error not found: value X".toList]), []) =
      (.ok ⟨[(⟨"import a._".toList⟩, [⟨"import a.X".toList⟩])], []⟩,
        ("package p\r\n\r\nimport a.X\r\n\r\nX\r\n\r\nY\r\n".toList, [], []),
        ["package p\r\n\r\nimport a.X\r\n\r\nX\r\n\r\nY\r\n".toList,
          "package p\r\n\r\nimport a.X\r\n\r\nX\r\n\r\nY\r\n".toList,
          "package p\r\n\r\nX\r\n\r\nY\r\n".toList]) := by
  cbv

theorem reduce_keeps_frame_strewnContent :
    Rules.standard.RewritesPrint ∧ SearchSettings.standard.plan = .ok standardPlan ∧
      strewnContent.getLast? ≠ some '\r' ∧
      ∃ result s' texts, flaky.noted.reduce .standard standardPlan
          ((strewnContent, [], ["error not found: value X".toList]), []) = (result, s', texts) ∧
        texts.length = 3 ∧
        ∀ text ∈ texts, (SourceFile.parse text).header = "package p".toList ∧
          (SourceFile.parse text).code = ["X".toList, [], "Y".toList] ∧
          (SourceFile.parse text).ending = .returnAndLineFeed := by
  have hend : strewnContent.getLast? ≠ some '\r' := by decide +kernel
  have hheader : (SourceFile.parse strewnContent).header = "package p".toList := by decide +kernel
  have hcode : (SourceFile.parse strewnContent).code = ["X".toList, [], "Y".toList] := by
    decide +kernel
  have hending : (SourceFile.parse strewnContent).ending = .returnAndLineFeed := by decide +kernel
  have hread : flaky.read (strewnContent, [], ["error not found: value X".toList]) =
      .ok strewnContent := rfl
  obtain ⟨result, s', texts, hrun, -, htexts⟩ :=
    reduce_keeps_frame Rules.rewritesPrint_standard rfl plan_standard hread hend
  rw [hheader, hcode, hending] at htexts
  refine ⟨Rules.rewritesPrint_standard, plan_standard, hend, result, s', texts, hrun, ?_, htexts⟩
  rw [noted_strewnContent] at hrun
  rw [← (Prod.mk.inj (Prod.mk.inj hrun).2).2]
  rfl

end Site

end ImportTidy

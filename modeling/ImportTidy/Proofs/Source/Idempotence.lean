/-
# ImportTidy.Proofs.Source.Idempotence — when tidying once is enough under the built-in tables

Tidying a tidied file need not keep it, not even with imports of the plainest shapes. There are
three reasons, and no fourth (`tidied_standard_idempotent_iff`): a line that ends in a carriage
return of its own makes the file look like one with two characters at its line ends, the collapsed
wildcard of `Tap` falls under a rewrite, and the wildcard of a qualifier may belong behind an object
nested under it although the qualifier's first member stood before it.
-/
import Mathlib
import ImportTidy.Proofs.Import.Standard
import ImportTidy.Proofs.Source.Convergence

namespace ImportTidy

namespace SourceFile

/-! ## Files that change their line ends -/

/-- Line ends show behind the header: no two files with different ones have the same content. -/
theorem renderWith_ne_of_ending {f g : SourceFile} (hf : f.Parted) (hg : g.Parted)
    (hfe : f.ending = .lineFeed) (hge : g.ending = .returnAndLineFeed) (ls ls' : List Text) :
    g.renderWith ls' ≠ f.renderWith ls := by
  obtain ⟨x, hx⟩ : ∃ x, f.renderWith ls = f.header ++ '\n' :: '\n' :: x := by
    rw [renderWith, hfe]
    exact ⟨_, by simp [LineEnding.text]; rfl⟩
  obtain ⟨y, hy⟩ : ∃ y, g.renderWith ls' = (g.header ++ ['\r']) ++ '\n' :: '\r' :: y := by
    rw [renderWith, hge]
    exact ⟨_, by simp [LineEnding.text]; rfl⟩
  have hreturn : '\n' ∉ g.header ++ ['\r'] := by
    rw [List.mem_append, not_or]
    exact ⟨hg.header_line, by decide⟩
  intro h
  -- the first line feed cuts both contents at the same place
  have hcut : Text.cutFirst? '\n' (f.renderWith ls) = some (f.header, '\n' :: x) := by
    rw [hx]
    exact Text.cutFirst?_append_cons hf.header_line
  rw [← h, hy, Text.cutFirst?_append_cons hreturn] at hcut
  have hchar := (List.cons.inj (Prod.mk.inj (Option.some.inj hcut)).2).1
  exact absurd hchar (by decide)

theorem detect_renderWith {f : SourceFile} (h : ¬ f.EndingKept) (ls : List Text) :
    f.ending = .lineFeed ∧ LineEnding.detect (f.renderWith ls) = .returnAndLineFeed := by
  unfold EndingKept at h
  simp only [Classical.not_imp, Classical.not_forall, Classical.not_not] at h
  obtain ⟨hending, l, hl, hlast⟩ := h
  refine ⟨hending, ?_⟩
  have hmem : l ∈ f.writtenLines ls := mem_writtenLines.mpr (Or.inr (Or.inl hl))
  rw [renderWith_eq, hending, LineEnding.detect_flatMap_of_return hmem hlast]

theorem tidied_tidied_ne_of_not_endingKept {r : Rules} {content : Text}
    (h : ¬ (parse content).EndingKept) : tidied r (tidied r content) ≠ tidied r content := by
  obtain ⟨hlf, hcrlf⟩ := detect_renderWith h
    (r.cleanLines (parse content).codeText (parse content).imports)
  exact renderWith_ne_of_ending (parted_parse content) (parted_parse (tidied r content)) hlf hcrlf
    _ _

/-! ## The exact condition -/

/-- What the built-in tables select from recognised statements is regular and final. -/
theorem final_select_standard {b : Block} (hb : ∀ s ∈ b, s.Recognised) (code : Text) :
    ∀ s ∈ Rules.standard.select code b, s.Regular ∧ Rules.standard.Unmoved s := by
  intro s hs
  apply Rules.anchored_standard.rewritten _ s (Rules.standard.mem_select.mp hs).1
  intro x hx
  exact Or.inl (Block.wellShaped_of_mem_expand hb x hx)

/-- **When tidying once is enough.** A content whose imports all have a recognised shape is tidied to
one that tidying keeps exactly when its line ends are kept, the members of `Tap` do not collapse and
the leaders of its qualifiers are in order. -/
theorem tidied_standard_idempotent_iff {content : Text}
    (h : ∀ s ∈ (parse content).imports, s.Recognised) :
    tidied .standard (tidied .standard content) = tidied .standard content ↔
      (parse content).EndingKept ∧
        ¬ Block.Reaches Rules.standard.groupThreshold
          (Rules.standard.select (parse content).codeText (parse content).imports)
          Rules.tapQualifier ∧
        (Rules.standard.select (parse content).codeText
          (parse content).imports).LeadersInOrder .standard := by
  by_cases hkept : (parse content).EndingKept
  · have hfinal := final_select_standard h (parse content).codeText
    have hb := fun s hs => (hfinal s hs).1
    rw [tidied_tidied_iff hkept hb fun s hs => (Rules.final_select_clean hb s hs).1,
      Rules.clean_clean_standard_iff hb fun s hs => (hfinal s hs).2]
    simp only [hkept, true_and]
  · simp only [hkept, false_and, iff_false]
    exact tidied_tidied_ne_of_not_endingKept hkept

/-- Eight members that collapse, and an object nested under their qualifier that comes after the
wildcard. -/
def orderlyContent : Text :=
  "package p\nimport a.\x7bA, B, C, D, E, F, G, H\x7d\nimport a.x.Y\nA B C D E F G H Y\n".toList

theorem imports_orderlyContent : (parse orderlyContent).imports =
    [.ofGroup (Statement.keyword ++ [' ', 'a'])
        [['A'], ['B'], ['C'], ['D'], ['E'], ['F'], ['G'], ['H']],
      .ofMember "import a.x".toList ['Y']] := by
  unfold orderlyContent
  rewrite [String.toList_ofList]
  cbv

theorem recognised_orderlyContent : ∀ s ∈ (parse orderlyContent).imports, s.Recognised := by
  have ha := Statement.isQualifier_name (n := ['a']) (by decide)
  have hax : Statement.IsQualifier "import a.x".toList :=
    ⟨[['a'], ['x']], by decide, by decide, by decide⟩
  have hnames : ∀ n ∈ [['A'], ['B'], ['C'], ['D'], ['E'], ['F'], ['G'], ['H']], Text.IsName n :=
    fun n hn => Text.isName_iff.mp (List.all_eq_true.mp (by decide) n hn)
  rw [imports_orderlyContent]
  simp only [List.forall_mem_cons]
  exact ⟨Block.recognised_ofGroup ha hnames,
    Or.inl ⟨_, _, hax, .name (by decide), rfl⟩, by simp⟩

theorem tidied_standard_idempotent_orderlyContent :
    (∀ s ∈ (parse orderlyContent).imports, s.Recognised) ∧
      tidied .standard (tidied .standard orderlyContent) = tidied .standard orderlyContent := by
  have hkept : (parse orderlyContent).EndingKept := endingKept_parse (by decide +kernel)
  have hsorted : (Rules.standard.prepare (parse orderlyContent).imports).Sorted .standard := by
    rw [imports_orderlyContent]
    decide +kernel
  refine ⟨recognised_orderlyContent,
    (tidied_standard_idempotent_iff recognised_orderlyContent).mpr ⟨hkept, ?_⟩⟩
  rw [Rules.standard.select_of_sorted hsorted, imports_orderlyContent]
  decide +kernel

/-- Eight members that collapse, and an object nested under the first of them. -/
def swappedContent : Text :=
  "package p\nimport a.A\nimport a.A.X\nimport a.\x7bB, C, D, E, F, G, H\x7d\nA B C D E F G H X\n".toList

theorem imports_swappedContent : (parse swappedContent).imports =
    [.ofMember (Statement.keyword ++ [' ', 'a']) ['A'], .ofMember "import a.A".toList ['X'],
      .ofGroup (Statement.keyword ++ [' ', 'a'])
        [['B'], ['C'], ['D'], ['E'], ['F'], ['G'], ['H']]] := by
  unfold swappedContent
  rewrite [String.toList_ofList]
  cbv

/-- The wildcard takes the place of `a.A` before `a.A.X`, and belongs behind it when read again. -/
theorem tidied_standard_swaps :
    (∀ s ∈ (parse swappedContent).imports, s.Recognised) ∧
      tidied .standard (tidied .standard swappedContent) ≠ tidied .standard swappedContent := by
  have ha := Statement.isQualifier_name (n := ['a']) (by decide)
  have haa : Statement.IsQualifier "import a.A".toList :=
    ⟨[['a'], ['A']], by decide, by decide, by decide⟩
  have hrec : ∀ s ∈ (parse swappedContent).imports, s.Recognised := by
    rw [imports_swappedContent]
    simp only [List.forall_mem_cons]
    exact ⟨Or.inl ⟨_, _, ha, .name (by decide), rfl⟩, Or.inl ⟨_, _, haa, .name (by decide), rfl⟩,
      Block.recognised_ofGroup ha (by decide +kernel), by simp⟩
  refine ⟨hrec, ?_⟩
  have hfinal := final_select_standard hrec (parse swappedContent).codeText
  have hb := fun s hs => (hfinal s hs).1
  have hkept : (parse swappedContent).EndingKept := endingKept_parse (by decide +kernel)
  have hsorted : (Rules.standard.prepare (parse swappedContent).imports).Sorted .standard := by
    rw [imports_swappedContent]
    decide +kernel
  rw [Ne, tidied_tidied_iff hkept hb fun s hs => (Rules.final_select_clean hb s hs).1,
    Rules.clean_clean_standard_iff hb fun s hs => (hfinal s hs).2,
    Rules.standard.select_of_sorted hsorted, imports_swappedContent]
  decide +kernel

end SourceFile

end ImportTidy

/-
# ImportTidy.Proofs.Source.Convergence — tidying a file again and again comes to rest

To tidy a content is to read it, to clean its imports and to write it. What was tidied is read back
as the file with its imports cleaned (`parse_normalize`), so that tidying again cleans the same block
again with the same code beside it. A block comes to rest the second time, and the first time if
nothing in it collapses.
-/
import ImportTidy.Proofs.Import.Cleaning
import ImportTidy.Proofs.Import.Printing
import ImportTidy.Proofs.Import.Tiers
import ImportTidy.Proofs.Source.RoundTrip

namespace ImportTidy

namespace Block

/-! ## The lines between tiers -/

/-- A layout has the lines of the block, and empty ones. -/
theorem mem_layoutAfter_iff {r : Rules} {b : Block} {l : Text} (h : l ≠ []) (above : Option Tier) :
    l ∈ layoutAfter r above b ↔ l ∈ b.lines := by
  induction b generalizing above with
  | nil => rfl
  | cons s b ih =>
      rw [layoutAfter]
      simp only [lines, List.map_cons, List.mem_cons]
      split <;> simp [ih, lines, h]

/-- What holds of the empty line holds of a layout if it holds of the statements. -/
theorem forall_mem_layout {r : Rules} {b : Block} {P : Text → Prop} (hnil : P []) :
    (∀ l ∈ b.layout r, P l) ↔ ∀ s ∈ b, P s.text := by
  have hlines : (∀ s ∈ b, P s.text) ↔ ∀ l ∈ b.lines, P l := List.forall_mem_map.symm
  rw [hlines]
  refine forall_congr' fun l => ?_
  by_cases hl : l = []
  · simp only [hl, hnil, implies_true]
  · exact imp_congr_left (mem_layoutAfter_iff hl none)

theorem areImportLines_layout {r : Rules} {b : Block} (h : ∀ s ∈ b, s.Printable) :
    SourceFile.AreImportLines (b.layout r) :=
  (forall_mem_layout (Or.inl rfl)).mpr fun s hs => Or.inr (h s hs)

end Block

/-! ## Reading the imports alone -/

/-- A blank at its end does not make a line an import. -/
theorem Statement.isImportLine_concat {c : Char} (hc : Text.isBlank c = true) (l : Text) :
    isImportLine (l ++ [c]) = isImportLine l := by
  rw [Bool.eq_iff_iff, isImportLine_iff, isImportLine_iff]
  constructor
  · rintro (h | ⟨b, rest, hb, h⟩)
    · -- no character of the keyword is blank
      have hmem : c ∈ keyword := by
        rw [← h]
        simp
      have hsolid : (keyword.all fun x => !Text.isBlank x) = true := by decide
      have hc' := List.all_eq_true.mp hsolid c hmem
      rw [hc] at hc'
      exact absurd hc' Bool.false_ne_true
    · rcases List.eq_nil_or_concat rest with rfl | ⟨rest, d, rfl⟩
      · exact Or.inl (List.append_inj' h rfl).1
      · rw [List.concat_eq_append, ← List.cons_append, ← List.append_assoc] at h
        exact Or.inr ⟨b, rest, hb, (List.append_inj' h rfl).1⟩
  · rintro (rfl | ⟨b, rest, hb, rfl⟩)
    · exact Or.inr ⟨c, [], hc, rfl⟩
    · exact Or.inr ⟨b, rest ++ [c], hb, by simp⟩

theorem Text.trimEnd_concat {c : Char} (hc : isBlank c = true) (l : Text) :
    trimEnd (l ++ [c]) = trimEnd l := by
  rw [trimEnd, List.reverse_append, List.reverse_singleton, List.singleton_append,
    List.dropWhile_cons_of_pos hc]
  rfl

namespace LineEnding

/-- What a line is read back as that was written with this ending. -/
def readBack : LineEnding → Text → Text
  | .lineFeed, l => l.dropReturn
  | .returnAndLineFeed, l => l

theorem lines_flatMap_readBack (e : LineEnding) {ls : List Text} (h : ∀ l ∈ ls, '\n' ∉ l) :
    Text.lines (ls.flatMap (· ++ e.text)) = ls.map e.readBack := by
  induction ls with
  | nil => rfl
  | cons l ls ih =>
      have hl := h l List.mem_cons_self
      have hcut : ∀ t, Text.lines (l ++ e.text ++ t) = e.readBack l :: Text.lines t := by
        intro t
        cases e with
        | lineFeed =>
            rw [text, List.append_assoc]
            exact Text.lines_append_lineFeed_dropReturn hl t
        | returnAndLineFeed =>
            rw [text, List.append_assoc]
            exact Text.lines_append_return hl t
      rw [List.flatMap_cons, hcut, ih fun x hx => h x (List.mem_cons_of_mem l hx), List.map_cons]

/-- A line is the same import when it is read back. -/
theorem import_readBack (e : LineEnding) (l : Text) :
    Statement.isImportLine (e.readBack l) = Statement.isImportLine l ∧
      Text.trimEnd (e.readBack l) = Text.trimEnd l := by
  cases e with
  | returnAndLineFeed => exact ⟨rfl, rfl⟩
  | lineFeed =>
      show Statement.isImportLine (Text.dropReturn l) = _ ∧ Text.trimEnd (Text.dropReturn l) = _
      unfold Text.dropReturn
      split
      · rename_i hlast
        obtain ⟨front, rfl⟩ := List.getLast?_eq_some_iff.mp hlast
        rw [List.dropLast_concat]
        exact ⟨(Statement.isImportLine_concat (by decide) front).symm,
          (Text.trimEnd_concat (by decide) front).symm⟩
      · exact ⟨rfl, rfl⟩

end LineEnding

namespace SourceFile

variable {r : Rules} {f : SourceFile}

theorem importsOf_map_readBack (e : LineEnding) (ls : List Text) :
    importsOf (ls.map e.readBack) = importsOf ls := by
  induction ls with
  | nil => rfl
  | cons l ls ih =>
      obtain ⟨himport, htrim⟩ := e.import_readBack l
      unfold importsOf at ih ⊢
      rw [List.map_cons, List.filter_cons, List.filter_cons, himport]
      split
      · rw [List.map_cons, List.map_cons, htrim, ih]
      · exact ih

/-- **The imports that were written are read back**, also where a line of code loses the carriage
return that it ends in. -/
theorem imports_parse_renderWith (hf : f.Parted) {ls : List Text} (hl : AreImportLines ls) :
    (parse (f.renderWith ls)).imports = (ls.filter fun l => !l.isEmpty).map Statement.mk := by
  have hone : ∀ l ∈ f.writtenLines ls, '\n' ∉ l :=
    oneLine_writtenLines hf fun l hmem => (hl.ends f.ending l hmem).oneLine
  show importsOf (Text.lines (f.renderWith ls)).tail = _
  rw [renderWith_eq, LineEnding.lines_flatMap_readBack _ hone, ← List.map_tail,
    importsOf_map_readBack, importsOf_writtenLines hf hl]

theorem filter_layout_map {b : Block} (hb : ∀ s ∈ b, s.Printable) :
    ((b.layout r).filter fun l => !l.isEmpty).map Statement.mk = b := by
  have hlines : (b.layout r).filter (fun l => !l.isEmpty) = b.lines :=
    Block.filter_layoutAfter (fun s hs => (hb s hs).ne_nil) none
  rw [hlines, Block.lines, List.map_map]
  exact List.map_id b

/-- A tidied file has the cleaned imports. -/
theorem imports_parse_normalize (hf : f.Parted)
    (hp : ∀ s ∈ r.clean f.codeText f.imports, s.Printable) :
    (parse (f.normalize r)).imports = r.clean f.codeText f.imports := by
  unfold normalize Rules.cleanLines
  rw [imports_parse_renderWith hf (Block.areImportLines_layout hp), filter_layout_map hp]

/-! ## Reading a tidied file -/

/-- The content tidied: read, its imports cleaned, and written. -/
def tidied (r : Rules) (content : Text) : Text := (parse content).normalize r

/-- The lines that a tidied content is written in. -/
def tidiedLines (r : Rules) (content : Text) : List Text :=
  (parse content).writtenLines (r.cleanLines (parse content).codeText (parse content).imports)

theorem tidied_eq_flatMap (r : Rules) (content : Text) :
    tidied r content = (tidiedLines r content).flatMap (· ++ (parse content).ending.text) :=
  renderWith_eq _ _

/-- **A tidied file is read back with its imports cleaned.** -/
theorem parse_normalize (hf : f.Parted) (he : f.EndingKept)
    (hp : ∀ s ∈ r.clean f.codeText f.imports, s.Printable) :
    parse (f.normalize r) = f.cleaned r := by
  unfold normalize Rules.cleanLines
  rw [parse_renderWith hf he (Block.areImportLines_layout hp), filter_layout_map hp]
  rfl

theorem parse_tidied {content : Text} (he : (parse content).EndingKept)
    (hb : ∀ s ∈ r.select (parse content).codeText (parse content).imports, s.Regular) :
    parse (tidied r content) = (parse content).cleaned r :=
  parse_normalize (parted_parse content) he
    (Block.printable_compact _ fun s hs => (hb s hs).printable)

/-- **Tidying again cleans the cleaned block.** So the content is kept exactly when the block is. -/
theorem tidied_tidied_iff {content : Text} (he : (parse content).EndingKept)
    (hb : ∀ s ∈ r.select (parse content).codeText (parse content).imports, s.Regular)
    (hb₂ : ∀ s ∈ r.select (parse content).codeText
      (r.clean (parse content).codeText (parse content).imports), s.Regular) :
    tidied r (tidied r content) = tidied r content ↔
      r.clean (parse content).codeText (r.clean (parse content).codeText (parse content).imports) =
        r.clean (parse content).codeText (parse content).imports := by
  have hparse := parse_tidied he hb
  have htwice : tidied r (tidied r content) = ((parse content).cleaned r).normalize r := by
    rw [tidied, hparse]
  constructor
  · -- both contents are read back, and their imports compared
    intro h
    have hcleaned : ((parse content).cleaned r).Parted := by
      obtain ⟨h₁, h₂, h₃, h₄⟩ := parted_parse content
      exact ⟨h₁, h₂, h₃, h₄⟩
    have hparse₂ : parse (tidied r (tidied r content)) = ((parse content).cleaned r).cleaned r := by
      rw [htwice]
      exact parse_normalize hcleaned he (Block.printable_compact _ fun s hs => (hb₂ s hs).printable)
    rw [h, hparse] at hparse₂
    exact (congrArg SourceFile.imports hparse₂).symm
  · intro h
    rw [htwice]
    show (parse content).renderWith ((r.clean (parse content).codeText
      (r.clean (parse content).codeText (parse content).imports)).layout r) = _
    rw [h]
    rfl

/-- **Tidying comes to rest.** Where the statements are well-shaped and no rewrite applies to what
was tidied once, tidying it twice is final, and tidying it once if nothing collapsed. -/
theorem tidied_converges (hr : r.defect? = none) {content : Text}
    (hend : content.getLast? ≠ some '\r')
    (hb : ∀ s ∈ r.rewritten (parse content).imports, s.WellShaped)
    (hs : r.Settled (parse (tidied r content)).imports.expand) :
    tidied r (tidied r (tidied r content)) = tidied r (tidied r content) ∧
      ((∀ q, ¬ Block.Reaches r.groupThreshold
          (r.select (parse content).codeText (parse content).imports) q) →
        tidied r (tidied r content) = tidied r content) := by
  have hkept := endingKept_parse hend
  have hb₁ : ∀ s ∈ r.select (parse content).codeText (parse content).imports, s.WellShaped :=
    fun s hmem => hb s (r.mem_select.mp hmem).1
  have hparse : parse (tidied r content) = (parse content).cleaned r :=
    parse_tidied hkept fun s hmem => Or.inl (hb₁ s hmem)
  rw [hparse] at hs
  have hb₂ := Rules.wellShaped_select_clean hr hb₁ hs
  constructor
  · -- the file that was tidied once has the cleaned block and nothing in it collapses again
    have hs₂ := Rules.settled_clean_clean hr hb₁ hs
    have hb₃ := Rules.wellShaped_select_clean hr hb₂ hs₂
    have hiff := @tidied_tidied_iff r (tidied r content)
    rw [hparse] at hiff
    exact (hiff hkept (fun s hmem => Or.inl (hb₂ s hmem)) fun s hmem => Or.inl (hb₃ s hmem)).mpr
      (Rules.clean_clean hr hb₂ (Rules.not_reaches_select_clean hr hb₁ hs) hs₂)
  · intro hc
    exact (tidied_tidied_iff hkept (fun s hmem => Or.inl (hb₁ s hmem)) fun s hmem =>
      Or.inl (hb₂ s hmem)).mpr (Rules.clean_clean hr hb₁ hc hs)

/-- Two members that collapse and a rename beside them. -/
def crowdedContent : Text :=
  "package p\nimport a.B\nimport a.C\nimport a.\x7bD => E\x7d\nB C\n".toList

theorem tidied_crowdedContent :
    tidied .eager crowdedContent = "package p\n\nimport a._\nimport a.\x7bD => E\x7d\n\nB C\n".toList := by
  unfold crowdedContent
  rewrite [String.toList_ofList, String.toList_ofList]
  unfold tidied normalize Rules.cleanLines Rules.clean
  rw [Rules.select_of_sorted _ (by decide +kernel)]
  decide +kernel

theorem wellShaped_rewritten_crowdedContent :
    ∀ s ∈ Rules.eager.rewritten (parse crowdedContent).imports, s.WellShaped := by
  have ha := Statement.isQualifier_name (n := ['a']) (by decide)
  have hd : Statement.IsSelector "\x7bD => E\x7d".toList :=
    @Statement.isSelector_alias ['D'] ['E'] (by decide) (by decide)
  have heq : Rules.eager.rewritten (parse crowdedContent).imports =
      [.ofMember (Statement.keyword ++ [' ', 'a']) ['B'],
        .ofMember (Statement.keyword ++ [' ', 'a']) ['C'],
        .ofMember (Statement.keyword ++ [' ', 'a']) "\x7bD => E\x7d".toList] := by
    unfold crowdedContent
    rewrite [String.toList_ofList]
    decide +kernel
  rw [heq]
  simp only [List.forall_mem_cons]
  exact ⟨⟨_, _, ha, .name (by decide), rfl⟩, ⟨_, _, ha, .name (by decide), rfl⟩,
    ⟨_, _, ha, hd, rfl⟩, by simp⟩

theorem tidied_converges_crowdedContent :
    Rules.eager.defect? = none ∧ crowdedContent.getLast? ≠ some '\r' ∧
      (∀ s ∈ Rules.eager.rewritten (parse crowdedContent).imports, s.WellShaped) ∧
      Rules.eager.Settled (parse (tidied .eager crowdedContent)).imports.expand ∧
      tidied .eager (tidied .eager (tidied .eager crowdedContent)) =
        tidied .eager (tidied .eager crowdedContent) := by
  have hend : crowdedContent.getLast? ≠ some '\r' := by decide +kernel
  have hs : Rules.eager.Settled (parse (tidied .eager crowdedContent)).imports.expand := by
    rw [tidied_crowdedContent]
    decide +kernel
  have hb := wellShaped_rewritten_crowdedContent
  exact ⟨by decide, hend, hb, hs, (tidied_converges (by decide) hend hb hs).1⟩

end SourceFile

end ImportTidy

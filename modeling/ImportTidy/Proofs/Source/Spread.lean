/-
# ImportTidy.Proofs.Source.Spread — what becomes of an import over several lines

A file is read line by line. Of an import that opens a brace in one line and closes it in a later
one, the opening line is a statement and the lines below it are code. The code is always kept, in
order and without a gap; the opening line goes the way of a statement of its own. So an import that
is spread over lines comes apart, unless it happens to stand where the imports end and the code
begins (`tidied_spread`).
-/
import Mathlib
import ImportTidy.Proofs.Import.Survivors
import ImportTidy.Proofs.Source.Convergence

namespace ImportTidy

namespace Block

theorem mem_lines_iff {b : Block} {s : Statement} : s.text ∈ b.lines ↔ s ∈ b := by
  rw [lines, List.mem_map]
  constructor
  · rintro ⟨x, hx, heq⟩
    obtain rfl : x = s := congrArg Statement.mk heq
    exact hx
  · intro hs
    exact ⟨s, hs, rfl⟩

theorem getLast?_lines_iff {b : Block} {s : Statement} :
    b.lines.getLast? = some s.text ↔ b.getLast? = some s := by
  rw [lines, List.getLast?_map, Option.map_eq_some_iff]
  constructor
  · rintro ⟨x, hx, heq⟩
    obtain rfl : x = s := congrArg Statement.mk heq
    exact hx
  · intro hs
    exact ⟨s, hs, rfl⟩

/-- A layout ends in its last statement. -/
theorem getLast?_layoutAfter (r : Rules) (b : Block) (above : Option Tier) :
    (layoutAfter r above b).getLast? = b.lines.getLast? := by
  induction b generalizing above with
  | nil => rfl
  | cons s b ih =>
      have hcons : (s.text :: layoutAfter r (some (r.tier s)) b).getLast? =
          (s.text :: lines b).getLast? := by
        rw [List.getLast?_cons, List.getLast?_cons, ih]
      rw [layoutAfter]
      split
      · rw [List.getLast?_cons_cons]
        exact hcons
      · exact hcons

end Block

namespace SourceFile

/-! ## Imports over several lines -/

/-- A line that opens a brace of an import, and the lines below it up to one that closes a brace. -/
structure SpreadOver (opening : Text) (more : List Text) : Prop where
  isImport : Statement.isImportLine opening = true
  opens : ∃ front behind, opening = front ++ '\x7b' :: behind ∧ '\x7d' ∉ behind
  closes : ∃ last ∈ more.getLast?, '\x7d' ∈ last
  noImport : ∀ l ∈ more, Statement.isImportLine l = false

variable {r : Rules} {content opening : Text} {before more after : List Text}

namespace SpreadOver

/-- The opening line does not end in a closing brace, also without the blanks at its end. -/
theorem getLast?_ne (h : SpreadOver opening more) :
    (Text.trimEnd opening).getLast? ≠ some '\x7d' := by
  intro hlast
  obtain ⟨front, behind, hopen, hclose⟩ := h.opens
  obtain ⟨start, hstart⟩ := List.getLast?_eq_some_iff.mp hlast
  obtain ⟨blanks, htrim, hblank⟩ := Text.exists_eq_trimEnd_append opening
  rw [hstart, hopen, List.append_assoc, List.singleton_append] at htrim
  -- the closing brace would stand behind the opening one, or that one among the blanks
  rcases List.append_eq_append_iff.mp htrim with ⟨x, -, hx⟩ | ⟨x, -, hx⟩
  · cases x with
    | nil => exact absurd (List.cons.inj hx).1 (by decide)
    | cons c x =>
        refine hclose ?_
        rw [(List.cons.inj hx).2]
        simp
  · cases x with
    | nil => exact absurd (List.cons.inj hx).1 (by decide)
    | cons c x =>
        have hmem : '\x7b' ∈ blanks := by
          rw [(List.cons.inj hx).2]
          simp
        exact absurd (hblank _ hmem) (by decide)

/-- The line with the closing brace is not blank. -/
theorem dropWhile_ne_nil (h : SpreadOver opening more) : more.dropWhile Text.isBlankText ≠ [] := by
  obtain ⟨last, hlast, hbrace⟩ := h.closes
  rw [Ne, List.dropWhile_eq_nil_iff]
  intro hblank
  have hall := List.all_eq_true.mp (hblank last (List.mem_of_getLast? hlast))
  exact absurd (hall _ hbrace) (by decide)

end SpreadOver

/-- The lines below the opening one that are kept: all of them, but for blank ones at their start
where no code stands above. -/
def keptBelow (before more : List Text) : List Text :=
  if (codeOf before).isEmpty then more.dropWhile Text.isBlankText else more

/-- The lines below the opening one are code, one behind the other. -/
theorem code_spread (hlines : (Text.lines content).tail = before ++ opening :: (more ++ after))
    (h : SpreadOver opening more) :
    (parse content).code = codeOf before ++ keptBelow before more ++
      after.filter fun line => !Statement.isImportLine line := by
  have hmore : more.filter (fun line => !Statement.isImportLine line) = more := by
    rw [List.filter_eq_self]
    intro l hl
    rw [h.noImport l hl]
    rfl
  show codeOf (Text.lines content).tail = _
  rw [hlines, codeOf, List.filter_append, List.filter_cons_of_neg (by simp [h.isImport]),
    List.filter_append, hmore, List.dropWhile_append, List.dropWhile_append, keptBelow]
  show (if (codeOf before).isEmpty then _ else codeOf before ++ _) = _
  split
  · rename_i hnil
    rw [if_neg (by simpa using h.dropWhile_ne_nil), List.isEmpty_iff.mp hnil, List.nil_append]
  · rw [List.append_assoc]

theorem keptBelow_infix (hlines : (Text.lines content).tail = before ++ opening :: (more ++ after))
    (h : SpreadOver opening more) :
    keptBelow before more ≠ [] ∧ keptBelow before more <:+: (parse content).code := by
  constructor
  · unfold keptBelow
    split
    · exact h.dropWhile_ne_nil
    · rintro rfl
      exact h.dropWhile_ne_nil rfl
  · rw [code_spread hlines h]
    exact ⟨_, _, rfl⟩

/-! ## Where imports and code meet -/

theorem tail_writtenLines {f : SourceFile} (hcode : f.code ≠ []) (ls : List Text) :
    (f.writtenLines ls).tail = if ls.isEmpty then [] :: f.code else [] :: (ls ++ [] :: f.code) := by
  have hne : ¬ f.code.isEmpty = true := by simpa using hcode
  rw [writtenLines, List.tail_cons, if_neg hne]
  split <;> simp

theorem code_infix_tail {f : SourceFile} (hcode : f.code ≠ []) (ls : List Text) :
    f.code <:+: (f.writtenLines ls).tail := by
  rw [tail_writtenLines hcode]
  split
  · exact ⟨[[]], [], by simp⟩
  · exact ⟨[] :: (ls ++ [[]]), [], by simp⟩

/-- Below the header, imports stand only among the given lines. -/
theorem mem_tail_iff {f : SourceFile} (hf : f.Parted) (hcode : f.code ≠ []) {o : Text}
    (ho : Statement.isImportLine o = true) (ls : List Text) :
    o ∈ (f.writtenLines ls).tail ↔ o ∈ ls := by
  have hnil : o ≠ [] := by
    rintro rfl
    exact absurd ho (by decide)
  have hno : o ∉ f.code := fun hmem =>
    absurd ((hf.code_no_import o hmem).symm.trans ho) Bool.false_ne_true
  rw [tail_writtenLines hcode]
  cases ls <;> simp [hnil, hno]

/-- Below the header and the empty line behind it a file has the given lines, an empty one and the
code. -/
theorem cons_infix_tail_iff {f : SourceFile} (hcode : f.code ≠ []) {o : Text} (ho : o ≠ [])
    (ls : List Text) :
    o :: more <:+: (f.writtenLines ls).tail ↔ o :: more <:+: ls ++ [] :: f.code := by
  have hhead : ∀ t, ¬ o :: more <+: [] :: t := fun t hpre => ho (List.cons_prefix_cons.mp hpre).1
  rw [tail_writtenLines hcode]
  split
  · rename_i hnil
    rw [List.isEmpty_iff.mp hnil, List.nil_append]
  · rw [List.infix_cons_iff, or_iff_right (hhead _)]

/-- A part of the lines that starts with one of `ls` only, cut where `ls` end. -/
theorem exists_cut {α : Type} {o : α} {x w ls t : List α} (ho : o ∉ t) (h : x ++ o :: w = ls ++ t) :
    ∃ z, ls = x ++ o :: z ∧ w = z ++ t := by
  rcases List.append_eq_append_iff.mp h with ⟨z, rfl, hw⟩ | ⟨z, -, rfl⟩
  · cases z with
    | nil =>
        rw [List.nil_append] at hw
        exact absurd (hw ▸ List.mem_cons_self) ho
    | cons c z =>
        obtain ⟨rfl, rfl⟩ := List.cons.inj hw
        exact ⟨z, rfl, rfl⟩
  · exact absurd (by simp) ho

/-- Lines that start with an import and go on with none stand together only where the imports end
and the code begins. -/
theorem cons_infix_iff {o : Text} {ls code : List Text} (hls : AreImportLines ls)
    (hlast : ls.getLast? ≠ some []) (ho : Statement.isImportLine o = true)
    (hcode : ∀ l ∈ code, Statement.isImportLine l = false)
    (hmore : ∀ l ∈ more, Statement.isImportLine l = false)
    (hsolid : ∃ last ∈ more.getLast?, last ≠ []) :
    o :: more <:+: ls ++ [] :: code ↔
      ls.getLast? = some o ∧ ∃ rest, more = [] :: rest ∧ rest <+: code := by
  constructor
  · rintro ⟨x, y, heq⟩
    have hbehind : o ∉ [] :: code := by
      intro hmem
      have hno : Statement.isImportLine o = false := by
        rcases List.mem_cons.mp hmem with rfl | hmem
        · exact isImportLine_nil
        · exact hcode o hmem
      exact absurd (hno.symm.trans ho) Bool.false_ne_true
    rw [List.append_assoc, List.cons_append] at heq
    obtain ⟨z, rfl, hmeet⟩ := exists_cut hbehind heq
    have hempty : ∀ l ∈ z, l ∈ more → l = [] := by
      intro l hl hm
      rcases hls l (by simp [hl]) with hnil | hp
      · exact hnil
      · exact absurd ((hmore l hm).symm.trans hp.isImportLine) Bool.false_ne_true
    -- an import line below `o` is none of `more`, and an empty one is not the last
    obtain rfl : z = [] := by
      rcases List.append_eq_append_iff.mp hmeet with ⟨w, rfl, -⟩ | ⟨w, rfl, -⟩
      · obtain ⟨last, hmem, hne⟩ := hsolid
        have hm := List.mem_of_getLast? hmem
        exact absurd (hempty last (List.mem_append_left w hm) hm) hne
      · cases hz : z.getLast? with
        | none => exact List.getLast?_eq_none_iff.mp hz
        | some l =>
            have hl := List.mem_of_getLast? hz
            obtain rfl := hempty l hl (List.mem_append_left w hl)
            refine absurd ?_ hlast
            rw [List.getLast?_append, List.getLast?_cons, hz]
            rfl
    refine ⟨List.getLast?_concat, ?_⟩
    cases more with
    | nil =>
        obtain ⟨last, hmem, -⟩ := hsolid
        exact absurd hmem (by simp)
    | cons m rest =>
        obtain ⟨rfl, hrest⟩ := List.cons.inj hmeet
        exact ⟨rest, rfl, y, hrest⟩
  · rintro ⟨hlast, rest, rfl, y, rfl⟩
    obtain ⟨front, rfl⟩ := List.getLast?_eq_some_iff.mp hlast
    exact ⟨front, y, by simp⟩

/-! ## A spread import in a tidied file -/

/-- **An import over several lines is not kept together.** Let `opening` be a line below the header
that opens the brace of an import, and `more` the lines behind it up to one that closes a brace. The
lines of the tidied file have those of `more` in order and without a gap, whatever becomes of
`opening`, only that blank ones are dropped where the code starts with them. The opening line is kept
exactly when it stays whole as a statement of its own. And both stand together exactly when the
opening line is the last of the imports, the first line behind it is empty and the others start the
code. -/
theorem tidied_spread (hr : r.RewritesPrint)
    (hlines : (Text.lines content).tail = before ++ opening :: (more ++ after))
    (h : SpreadOver opening more) :
    (tidied r content = (tidiedLines r content).flatMap (· ++ (parse content).ending.text) ∧
        ∀ l ∈ tidiedLines r content, '\n' ∉ l) ∧
      keptBelow before more <:+: (tidiedLines r content).tail ∧
      (Statement.isWildcard ⟨Text.trimEnd opening⟩ = false →
        (Text.trimEnd opening ∈ (tidiedLines r content).tail ↔
          (r.select (parse content).codeText (parse content).imports).StaysWhole
            ⟨Text.trimEnd opening⟩)) ∧
      (Text.trimEnd opening :: more <:+: (tidiedLines r content).tail ↔
        (r.clean (parse content).codeText (parse content).imports).getLast? =
            some ⟨Text.trimEnd opening⟩ ∧
          ∃ rest, more = [] :: rest ∧ rest <+: (parse content).code) := by
  have hline : '\n' ∉ opening := by
    have hmem : opening ∈ (Text.lines content).tail := by
      rw [hlines]
      simp
    exact Text.lineFeed_not_mem_of_mem_lines (List.mem_of_mem_tail hmem)
  have hprint := Statement.printable_trimEnd h.isImport hline
  have hclean := Rules.printable_clean hr (Block.printable_parse content) (parse content).codeText
  have hls : AreImportLines (r.cleanLines (parse content).codeText (parse content).imports) :=
    Block.areImportLines_layout hclean
  obtain ⟨hkept, hinfix⟩ := keptBelow_infix hlines h
  have hcode : (parse content).code ≠ [] := by
    intro hnil
    rw [hnil, List.infix_nil] at hinfix
    exact hkept hinfix
  refine ⟨⟨tidied_eq_flatMap r content, ?_⟩, hinfix.trans (code_infix_tail hcode _), ?_, ?_⟩
  · exact oneLine_writtenLines (parted_parse content) fun l hl => (hls.ends .lineFeed l hl).oneLine
  · intro hwild
    calc
      Text.trimEnd opening ∈ (tidiedLines r content).tail
      _ ↔ Text.trimEnd opening ∈ r.cleanLines (parse content).codeText (parse content).imports :=
        mem_tail_iff (parted_parse content) hcode hprint.isImportLine _
      _ ↔ Text.trimEnd opening ∈ (r.clean (parse content).codeText (parse content).imports).lines :=
        Block.mem_layoutAfter_iff hprint.ne_nil none
      _ ↔ ⟨Text.trimEnd opening⟩ ∈ r.clean (parse content).codeText (parse content).imports :=
        Block.mem_lines_iff
      _ ↔ _ := Block.mem_compact_iff_staysWhole (r.nodup_select _ _) h.getLast?_ne hwild
  · have hlast : (r.cleanLines (parse content).codeText (parse content).imports).getLast? =
        (r.clean (parse content).codeText (parse content).imports).lines.getLast? :=
      Block.getLast?_layoutAfter r _ none
    have hne : (r.cleanLines (parse content).codeText (parse content).imports).getLast? ≠
        some [] := by
      intro hnil
      rw [hlast] at hnil
      obtain ⟨s, hs, htext⟩ := List.mem_map.mp (List.mem_of_getLast? hnil)
      exact (hclean s hs).ne_nil htext
    have hsolid : ∃ last ∈ more.getLast?, last ≠ [] := by
      obtain ⟨last, hmem, hbrace⟩ := h.closes
      exact ⟨last, hmem, List.ne_nil_of_mem hbrace⟩
    rw [← Block.getLast?_lines_iff, ← hlast]
    refine (cons_infix_tail_iff hcode hprint.ne_nil _).trans ?_
    exact cons_infix_iff hls hne hprint.isImportLine (parted_parse content).code_no_import
      h.noImport hsolid

/-- An import with an empty line in it, two others around it, and code that uses them. -/
def spreadContent : Text :=
  "package p\nimport b.C\nimport a.\x7b\n  B\n\n\x7d\nimport d.D\nobject O \x7b B C D \x7d\n".toList

/-- The lines of that import below its first one. -/
def spreadMore : List Text := ["  B".toList, [], "\x7d".toList]

theorem tidied_spread_spreadContent :
    Rules.standard.RewritesPrint ∧ SpreadOver "import a.\x7b".toList spreadMore ∧
      spreadMore <:+: (tidiedLines .standard spreadContent).tail ∧
      ¬ "import a.\x7b".toList :: spreadMore <:+: (tidiedLines .standard spreadContent).tail := by
  have hr := Rules.rewritesPrint_standard
  have h : SpreadOver "import a.\x7b".toList spreadMore :=
    ⟨by decide +kernel, ⟨"import a.".toList, [], by decide +kernel, by decide⟩, by decide +kernel,
      by decide +kernel⟩
  have hlines : (Text.lines spreadContent).tail =
      ["import b.C".toList] ++ "import a.\x7b".toList ::
        (spreadMore ++ ["import d.D".toList, "object O \x7b B C D \x7d".toList]) := by
    decide +kernel
  obtain ⟨-, hkept, -, htogether⟩ := tidied_spread hr hlines h
  have hall : keptBelow ["import b.C".toList] spreadMore = spreadMore := by decide +kernel
  rw [hall] at hkept
  refine ⟨hr, h, hkept, fun hinfix => ?_⟩
  obtain ⟨-, rest, heq, -⟩ := htogether.mp hinfix
  exact absurd (List.cons.inj heq).1 (by decide +kernel)

/-- An import of `B` over three lines, and code with a brace of its own. -/
def bracedContent : Text :=
  "package p\nimport a.\x7b\n  B\n\x7d\nobject O \x7b B \x7d\n".toList

/-- The same import, and code without a brace. -/
def bracelessContent : Text := "package p\nimport a.\x7b\n  B\n\x7d\nB\n".toList

/-- With a brace in the code the opening line is kept, apart from the lines below it; without one it
is dropped, and they are kept. -/
theorem spread_comes_apart :
    tidied .standard bracedContent =
        "package p\n\nimport a.\x7b\n\n  B\n\x7d\nobject O \x7b B \x7d\n".toList ∧
      ¬ "import a.\x7b\n  B\n\x7d\n".toList <:+: tidied .standard bracedContent ∧
      tidied .standard bracelessContent = "package p\n\n  B\n\x7d\nB\n".toList := by
  decide +kernel

end SourceFile

end ImportTidy

/-
# ImportTidy.Proofs.Import.Printing — what can be a line of a file stays so

A statement is printable when it can be a line of its own: an import without a line feed and with no
blank at its end. Every statement that is read from a file is printable, and the work on import
blocks keeps it so, whatever the statements look like otherwise: expanding groups, importing another
member, compacting, and rewriting if the table of rewrites does (`printable_clean`). The reason
is the same each time. A statement is cut at a brace or a dot, neither of which can stand in the
keyword or right behind it, so that what is put behind the cut cannot make it anything but an import.
-/
import ImportTidy.Proofs.Import.Compaction
import ImportTidy.Proofs.Import.Selection
import ImportTidy.Proofs.Text.Lines
import ImportTidy.Source

namespace ImportTidy

namespace Text

/-! ## Margins and cuts -/

/-- What a trimmed text has lost at its end are blanks. -/
theorem exists_eq_trimEnd_append (t : Text) :
    ∃ blanks, t = trimEnd t ++ blanks ∧ ∀ c ∈ blanks, isBlank c = true := by
  refine ⟨(t.reverse.takeWhile isBlank).reverse, ?_, ?_⟩
  · rw [trimEnd, ← List.reverse_append, List.takeWhile_append_dropWhile, List.reverse_reverse]
  · intro c hc
    exact List.all_eq_true.mp List.all_takeWhile c (List.mem_reverse.mp hc)

theorem endsSolid_trimEnd (t : Text) : EndsSolid (trimEnd t) := by
  intro c hc
  rw [trimEnd, List.getLast?_reverse] at hc
  have h := List.head?_dropWhile_not isBlank t.reverse
  rw [hc] at h
  simpa using h

theorem mem_of_mem_trimEnd {c : Char} {t : Text} (h : c ∈ trimEnd t) : c ∈ t := by
  obtain ⟨blanks, heq, -⟩ := exists_eq_trimEnd_append t
  rw [heq]
  exact List.mem_append_left blanks h

theorem mem_of_mem_trim {c : Char} {t : Text} (h : c ∈ trim t) : c ∈ t :=
  (List.dropWhile_sublist isBlank).subset (mem_of_mem_trimEnd h)

theorem mem_join_of_mem {c : Char} {separator p : Text} {parts : List Text} (hp : p ∈ parts)
    (hc : c ∈ p) : c ∈ join separator parts := by
  induction parts with
  | nil => exact absurd hp List.not_mem_nil
  | cons q parts ih =>
      cases parts with
      | nil =>
          obtain rfl := List.mem_singleton.mp hp
          simpa [join] using hc
      | cons q' parts =>
          rw [join, List.intercalate_cons_cons, List.append_assoc, List.mem_append, List.mem_append]
          rcases List.mem_cons.mp hp with rfl | hp
          · exact Or.inl hc
          · exact Or.inr (Or.inr (ih hp))

/-- The pieces of a text have its characters. -/
theorem mem_of_mem_splitOn {c d : Char} {p t : Text} (hp : p ∈ t.splitOn d) (hc : c ∈ p) : c ∈ t := by
  have hjoin : [d].intercalate (t.splitOn d) = t := List.intercalate_splitOn d
  rw [← hjoin]
  exact mem_join_of_mem hp hc

theorem eq_append_of_cutFirst? {c : Char} {t before behind : Text}
    (h : cutFirst? c t = some (before, behind)) : t = before ++ c :: behind := by
  induction t generalizing before with
  | nil => exact absurd h (by simp [cutFirst?])
  | cons d t ih =>
      rw [cutFirst?] at h
      split at h
      · rename_i hd
        obtain ⟨rfl, rfl⟩ := Prod.mk.inj (Option.some.inj h)
        rw [hd, List.nil_append]
      · obtain ⟨⟨before', behind'⟩, hcut, heq⟩ := Option.map_eq_some_iff.mp h
        obtain ⟨rfl, rfl⟩ := Prod.mk.inj heq
        rw [ih hcut, List.cons_append]

/-- A replacement leaves a text alone or puts the replacement in the place of an occurrence. -/
theorem replaceFirst_cases (needle replacement t : Text) :
    replaceFirst needle replacement t = t ∨
      ∃ before behind, t = before ++ (needle ++ behind) ∧
        replaceFirst needle replacement t = before ++ (replacement ++ behind) := by
  induction t with
  | nil =>
      cases needle with
      | nil => exact Or.inr ⟨[], [], rfl, by simp [replaceFirst]⟩
      | cons c needle => exact Or.inl rfl
  | cons d t ih =>
      rw [replaceFirst]
      cases hafter : after? needle (d :: t) with
      | some rest =>
          have ht : d :: t = needle ++ rest := after?_eq_some.mp hafter
          exact Or.inr ⟨[], rest, ht, rfl⟩
      | none =>
          rcases ih with h | ⟨before, behind, ht, h⟩
          · exact Or.inl (congrArg (d :: ·) h)
          · exact Or.inr ⟨d :: before, behind, congrArg (d :: ·) ht, congrArg (d :: ·) h⟩

end Text

namespace Statement

/-! ## The front of an import line -/

theorem isImportLine_iff {t : Text} :
    isImportLine t = true ↔ t = keyword ∨ ∃ b rest, Text.isBlank b = true ∧ t = keyword ++ b :: rest := by
  constructor
  · intro h
    unfold isImportLine at h
    split at h
    · rename_i hafter
      exact Or.inl (by simpa using Text.after?_eq_some.mp hafter)
    · rename_i b rest hafter
      exact Or.inr ⟨b, rest, h, Text.after?_eq_some.mp hafter⟩
    · exact absurd h Bool.false_ne_true
  · rintro (rfl | ⟨b, rest, hb, rfl⟩)
    · decide
    · have hafter : Text.after? keyword (keyword ++ b :: rest) = some (b :: rest) :=
        Text.after?_eq_some.mpr rfl
      rw [isImportLine, hafter]
      exact hb

/-- A character that is not in the keyword stands behind it, either right there or behind the blank
that follows the keyword. -/
theorem front_of_isImportLine {front behind : Text} {c : Char} (hc : c ∉ keyword)
    (h : isImportLine (front ++ c :: behind) = true) :
    (front = keyword ∧ Text.isBlank c = true) ∨
      ∃ b rest, Text.isBlank b = true ∧ front = keyword ++ b :: rest := by
  rcases isImportLine_iff.mp h with h | ⟨b, rest, hb, h⟩
  · exact absurd (by rw [← h]; simp) hc
  · rcases List.append_eq_append_iff.mp h with ⟨u, hk, hu⟩ | ⟨u, rfl, hu⟩
    · cases u with
      | nil =>
          obtain ⟨rfl, -⟩ := List.cons.inj hu
          exact Or.inl ⟨by simpa using hk.symm, hb⟩
      | cons d u =>
          obtain ⟨rfl, -⟩ := List.cons.inj hu
          exact absurd (by rw [hk]; simp) hc
    · cases u with
      | nil =>
          obtain ⟨rfl, -⟩ := List.cons.inj hu
          exact Or.inl ⟨by simp, hb⟩
      | cons d u =>
          obtain ⟨rfl, -⟩ := List.cons.inj hu
          exact Or.inr ⟨b, u, hb, rfl⟩

/-- Behind a solid character that is not in the keyword an import line can be cut off and go on in
any way. -/
theorem Printable.cut {front behind t : Text} {c : Char}
    (h : (Statement.mk (front ++ c :: behind)).Printable) (hc : c ∉ keyword)
    (hsolid : Text.isBlank c = false) (hne : t ≠ []) (hline : '\n' ∉ t) (hend : Text.EndsSolid t) :
    (Statement.mk (front ++ t)).Printable where
  isImportLine := by
    rcases front_of_isImportLine hc h.isImportLine with ⟨-, hb⟩ | ⟨b, rest, hb, rfl⟩
    · exact absurd (hb.symm.trans hsolid) (by decide)
    · exact isImportLine_iff.mpr (Or.inr ⟨b, rest ++ t, hb, by simp⟩)
  oneLine := by
    have hfront : '\n' ∉ front := fun hm => h.oneLine (List.mem_append_left _ hm)
    simp [hfront, hline]
  endsSolid := Text.endsSolid_append hend hne front

theorem split?_eq_some {s : Statement} {q m : Text} (h : s.split? = some (q, m)) :
    s = ofMember q m ∧ '.' ∉ m := by
  obtain ⟨htext, hdot⟩ := Text.cutLast?_eq_some.mp h
  exact ⟨by rw [ofMember, ← htext], hdot⟩

/-- Any selector can follow the last dot. -/
theorem Printable.ofMember {q m m' : Text} (h : (ofMember q m).Printable) (hline : '\n' ∉ m')
    (hend : Text.EndsSolid m') : (Statement.ofMember q m').Printable := by
  refine Printable.cut h (by decide) (by decide) (List.cons_ne_nil _ _) (by simp [hline]) ?_
  cases m' with
  | nil => exact Text.endsSolid_concat (by decide) []
  | cons c m' => exact Text.endsSolid_append hend (List.cons_ne_nil c m') ['.']

theorem Printable.member {q m : Text} (h : (Statement.ofMember q m).Printable) :
    '\n' ∉ m ∧ Text.EndsSolid m := by
  constructor
  · intro hm
    exact h.oneLine (by simp [Statement.ofMember, hm])
  · cases m with
    | nil => simp [Text.EndsSolid]
    | cons c m =>
        intro d hd
        refine h.endsSolid d ?_
        simpa [Statement.ofMember, List.getLast?_append, List.getLast?_cons] using hd

/-! ## Steps on one statement -/

/-- An import line without the blanks at its end can be a line of a file. -/
theorem printable_trimEnd {line : Text} (himport : isImportLine line = true) (hline : '\n' ∉ line) :
    (Statement.mk (Text.trimEnd line)).Printable where
  isImportLine := by
    obtain ⟨blanks, heq, hblank⟩ := Text.exists_eq_trimEnd_append line
    rcases isImportLine_iff.mp himport with rfl | ⟨b, rest, hb, h⟩
    · decide
    · rw [heq] at h
      rcases List.append_eq_append_iff.mp h with ⟨u, hk, hu⟩ | ⟨u, ht, hu⟩
      · -- blanks that reach into the keyword would be letters of it
        cases u with
        | nil => exact isImportLine_iff.mpr (Or.inl (by simpa using hk.symm))
        | cons d u =>
            have hd : Text.isBlank d = true := hblank d (by simp [hu])
            have hletters : keyword.any Text.isBlank = false := by decide
            have hletter := List.any_eq_false.mp hletters d (by rw [hk]; simp)
            exact absurd hd hletter
      · cases u with
        | nil => exact isImportLine_iff.mpr (Or.inl (by simpa using ht))
        | cons d u =>
            obtain ⟨rfl, -⟩ := List.cons.inj hu
            exact isImportLine_iff.mpr (Or.inr ⟨b, u, hb, ht⟩)
  oneLine := fun h => hline (Text.mem_of_mem_trimEnd h)
  endsSolid := Text.endsSolid_trimEnd line

/-- A member of a group is made of the text before the brace and of a name from behind it. -/
theorem exists_name_of_mem_expand? {s x : Statement} {members : List Statement}
    (hexpand : s.expand? = some members) (hx : x ∈ members) :
    ∃ before behind name, s.text = before ++ '\x7b' :: behind ∧ x = ⟨before ++ name⟩ ∧ name ≠ [] ∧
      (∀ c ∈ name, c ∈ behind) ∧ Text.EndsSolid name := by
  unfold Statement.expand? at hexpand
  split at hexpand
  · exact absurd hexpand (by simp)
  · obtain ⟨⟨before, names⟩, hbraces, rfl⟩ := Option.map_eq_some_iff.mp hexpand
    obtain ⟨name, hname, rfl⟩ := List.mem_map.mp hx
    unfold braces? at hbraces
    split at hbraces
    · exact absurd hbraces (by simp)
    · rename_i b behind hopen
      split at hbraces
      · exact absurd hbraces (by simp)
      · rename_i inside more hclose
        obtain ⟨rfl, rfl⟩ := Prod.mk.inj (Option.some.inj hbraces)
        obtain ⟨hname, hne⟩ := List.mem_filter.mp hname
        obtain ⟨piece, hpiece, rfl⟩ := List.mem_map.mp hname
        refine ⟨b, behind, _, Text.eq_append_of_cutFirst? hopen, rfl, by simpa using hne, ?_,
          Text.endsSolid_trimEnd _⟩
        intro c hc
        rw [(Text.cutLast?_eq_some.mp hclose).1]
        exact List.mem_append_left _ (Text.mem_of_mem_splitOn hpiece (Text.mem_of_mem_trim hc))

theorem Printable.expand? {s x : Statement} {members : List Statement} (h : s.Printable)
    (hexpand : s.expand? = some members) (hx : x ∈ members) : x.Printable := by
  obtain ⟨before, behind, name, htext, rfl, hne, hmem, hend⟩ :=
    exists_name_of_mem_expand? hexpand hx
  refine Printable.cut (by rw [← htext]; exact h) (by decide) (by decide) hne ?_ hend
  intro hm
  exact h.oneLine (by rw [htext]; simp [hmem _ hm])

theorem Printable.withMember? {s x : Statement} {member : Text} (h : s.Printable)
    (hline : '\n' ∉ member) (hend : Text.EndsSolid member) (hx : s.withMember? member = some x) :
    x.Printable := by
  obtain ⟨⟨q, m⟩, hsplit, rfl⟩ := Option.map_eq_some_iff.mp hx
  obtain ⟨rfl, -⟩ := split?_eq_some hsplit
  exact h.ofMember hline hend

/-- A rule that starts with a blank on both sides, and whose target can end a line, keeps statements
printable. -/
theorem Printable.rewrite {s : Statement} {source target : Text} (h : s.Printable)
    (hsource : source.head? = some ' ') (htarget : target.head? = some ' ') (hline : '\n' ∉ target)
    (hend : Text.EndsSolid target) : (s.rewrite source target).Printable := by
  obtain ⟨w, rfl⟩ := List.head?_eq_some_iff.mp hsource
  obtain ⟨w', rfl⟩ := List.head?_eq_some_iff.mp htarget
  rcases Text.replaceFirst_cases (' ' :: w) (' ' :: w') s.text with heq | ⟨before, behind, htext, heq⟩
  · rw [Statement.rewrite, heq]
    exact h
  · have hs : s = ⟨before ++ ' ' :: (w ++ behind)⟩ := by
      rw [← List.cons_append, ← htext]
    rw [Statement.rewrite, heq]
    rw [hs] at h
    have hbefore : '\n' ∉ before := fun hm => h.oneLine (List.mem_append_left _ hm)
    have hbehind : '\n' ∉ behind := fun hm => h.oneLine (by simp [hm])
    refine ⟨?_, ?_, ?_⟩
    · rcases front_of_isImportLine (by decide) h.isImportLine with ⟨rfl, -⟩ | ⟨b, rest, hb, rfl⟩
      · exact isImportLine_iff.mpr (Or.inr ⟨' ', w' ++ behind, by decide, rfl⟩)
      · exact isImportLine_iff.mpr (Or.inr ⟨b, rest ++ (' ' :: w' ++ behind), hb, by simp⟩)
    · simp only [List.mem_append, not_or]
      exact ⟨hbefore, hline, hbehind⟩
    · cases behind with
      | nil =>
          rw [List.append_nil]
          exact Text.endsSolid_append hend (List.cons_ne_nil _ _) before
      | cons c behind =>
          have hlast : Text.EndsSolid (c :: behind) := by
            intro d hd
            refine h.endsSolid d ?_
            simpa [List.getLast?_append, List.getLast?_cons] using hd
          exact Text.endsSolid_append (Text.endsSolid_append hlast (by simp) _) (by simp) before

end Statement

namespace Block

variable {b : Block}

/-! ## Steps on a block -/

theorem printable_importsOf {lines : List Text} (h : ∀ line ∈ lines, '\n' ∉ line) :
    ∀ s ∈ SourceFile.importsOf lines, s.Printable := by
  intro s hs
  obtain ⟨line, hline, rfl⟩ := List.mem_map.mp hs
  obtain ⟨hmem, himport⟩ := List.mem_filter.mp hline
  exact Statement.printable_trimEnd himport (h line hmem)

/-- The imports that are read from a content can be lines of a file. -/
theorem printable_parse (content : Text) : ∀ s ∈ (SourceFile.parse content).imports, s.Printable :=
  printable_importsOf fun _ hline =>
    Text.lineFeed_not_mem_of_mem_lines (List.mem_of_mem_tail hline)

theorem printable_expand (hb : ∀ s ∈ b, s.Printable) : ∀ s ∈ b.expand, s.Printable := by
  intro x hx
  rcases mem_expand.mp hx with ⟨hx, -⟩ | ⟨s, hs, members, hexpand, hx⟩
  · exact hb x hx
  · exact (hb s hs).expand? hexpand hx

/-- A member stands behind a qualifier in some statement of the block. -/
theorem printable_of_mem_members (hb : ∀ s ∈ b, s.Printable) {q m : Text} (hm : m ∈ b.members q) :
    (Statement.ofMember q m).Printable := by
  obtain ⟨s, hfilter, hmember⟩ := List.mem_filterMap.mp hm
  obtain ⟨hs, hq⟩ := List.mem_filter.mp hfilter
  obtain ⟨⟨q', m'⟩, hsplit, rfl⟩ := Option.map_eq_some_iff.mp hmember
  have hqual : s.qualifier = q' := by rw [Statement.qualifier, hsplit]
  obtain ⟨rfl, -⟩ := Statement.split?_eq_some hsplit
  rw [hqual, beq_iff_eq] at hq
  subst hq
  exact hb (.ofMember q' m') hs

theorem printable_plainStatement {t : Nat} {q : Text} {members : List Text}
    (h : ∀ m ∈ members, (Statement.ofMember q m).Printable) :
    ∀ s ∈ plainStatement t q members, s.Printable := by
  intro s hs
  unfold plainStatement at hs
  split at hs
  · exact absurd hs List.not_mem_nil
  · rw [List.mem_singleton.mp hs]
    exact h _ (by simp)
  · rename_i hnil hone
    -- there is a first member, and what stands behind the dot is exchanged for a group or the sign
    obtain ⟨m, hm⟩ := List.exists_mem_of_ne_nil members (by simpa using hnil)
    split at hs
    · rw [List.mem_singleton.mp hs]
      exact (h m hm).ofMember (not_mem_group (fun x hx => (h x hx).member.1) (by decide))
        (Text.endsSolid_concat (by decide) _)
    · rw [List.mem_singleton.mp hs]
      exact (h m hm).ofMember (by decide) Text.isName_wildcardSelector.endsSolid

theorem printable_gathered {t : Nat} {q : Text} {members : List Text} (hne : members ≠ [])
    (h : ∀ m ∈ members, (Statement.ofMember q m).Printable) :
    ∀ s ∈ gathered t q members, s.Printable := by
  intro s hs
  unfold gathered at hs
  split at hs
  · exact absurd rfl hne
  · rw [List.mem_singleton.mp hs]
    exact h _ (by simp)
  · rcases List.mem_append.mp hs with hs | hs
    · refine printable_plainStatement (fun m hm => h m ?_) s hs
      exact (List.mem_filter.mp (mem_of_mem_wildcardLast hm)).1
    · obtain ⟨m, hm, rfl⟩ := List.mem_map.mp hs
      exact h m (List.mem_filter.mp hm).1

/-- Compaction keeps statements printable, of whatever shape they are. -/
theorem printable_compact (t : Nat) (hb : ∀ s ∈ b, s.Printable) :
    ∀ s ∈ b.compact t, s.Printable := by
  intro s hs
  obtain ⟨q, hq, hs⟩ := List.mem_flatMap.mp hs
  by_cases hm : b.members q = []
  · obtain ⟨x, hx, -, rfl⟩ := eq_text_of_members_eq_nil hq hm
    rw [hm, gathered, List.mem_singleton] at hs
    rw [hs]
    exact hb x hx
  · exact printable_gathered hm (fun m hmem => printable_of_mem_members hb hmem) s hs

end Block

namespace Rules

variable {r : Rules}

/-! ## Cleaning -/

/-- The rewrites make printable statements of printable ones. -/
def RewritesPrint (r : Rules) : Prop := ∀ s : Statement, s.Printable → (r.rewriteAll s).Printable

theorem printable_clean (hr : r.RewritesPrint) {b : Block} (hb : ∀ s ∈ b, s.Printable)
    (code : Text) : ∀ s ∈ r.clean code b, s.Printable := by
  refine Block.printable_compact _ fun s hs => ?_
  obtain ⟨x, hx, rfl⟩ := List.mem_map.mp (r.mem_select.mp hs).1
  exact hr x (Block.printable_expand hb x hx)

/-- The built-in rewrites start with a blank and end in none. -/
theorem rewritesPrint_standard : standard.RewritesPrint := by
  intro s hs
  have hrules : ∀ rule ∈ standard.rewrites, rule.source.head? = some ' ' ∧
      rule.target.head? = some ' ' ∧ '\n' ∉ rule.target ∧ Text.EndsSolid rule.target := by
    decide
  unfold rewriteAll
  generalize standard.rewrites = rules at hrules
  induction rules generalizing s with
  | nil => exact hs
  | cons rule rules ih =>
      obtain ⟨hsource, htarget, hline, hend⟩ := hrules rule List.mem_cons_self
      exact ih _ (hs.rewrite hsource htarget hline hend) fun x hx =>
        hrules x (List.mem_cons_of_mem rule hx)

end Rules

end ImportTidy

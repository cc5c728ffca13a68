/-
# ImportTidy.Proofs.Wildcard.Resolved — what becomes of a wildcard that was resolved

A wildcard that was resolved is taken out of the block, and what is put in its place are names that
start with a capital letter, never a wildcard. So at the end of the loop the wildcards in the block
are exactly those that were kept (`Remaining`). The cleaning at the end may bring a resolved wildcard
back, and there are two ways (`reduce_returns_resolved_iff`): so many statements import from its
qualifier by then that they collapse, or a rewrite makes it out of a wildcard that was kept.
-/
import ImportTidy.Proofs.Import.Standard
import ImportTidy.Proofs.Wildcard.Kept
import ImportTidy.Proofs.Wildcard.Rounds

namespace ImportTidy

/-! ## Rewrites keep the end of a statement -/

/-- A short end of a text is not touched when source and target end alike. -/
theorem Text.suffix_replaceFirst_iff {source target common a b e : Text} (hs : source = a ++ common)
    (ht : target = b ++ common) (he : e.length ≤ common.length) (t : Text) :
    e <:+ replaceFirst source target t ↔ e <:+ t := by
  -- an end that is no longer than the common one does not see what stands before it
  have hend : ∀ front behind : Text, e <:+ front ++ (common ++ behind) ↔ e <:+ common ++ behind := by
    intro front behind
    constructor
    · intro h
      apply List.suffix_of_suffix_length_le h (List.suffix_append _ _)
      rw [List.length_append]
      omega
    · intro h
      exact h.trans (List.suffix_append _ _)
  rcases replaceFirst_cases source target t with h | ⟨before, behind, rfl, h⟩
  · rw [h]
  · rw [h, hs, ht, List.append_assoc, List.append_assoc, ← List.append_assoc before,
      ← List.append_assoc before, hend, hend]

/-- The last two characters of the source are those of the target. -/
def Rewrite.KeepsEnd (rule : Rewrite) : Prop :=
  2 ≤ rule.source.length ∧ 2 ≤ rule.target.length ∧
    rule.source.drop (rule.source.length - 2) = rule.target.drop (rule.target.length - 2)

instance (rule : Rewrite) : Decidable rule.KeepsEnd := inferInstanceAs (Decidable (_ ∧ _ ∧ _))

theorem Statement.suffix_rewrite_iff {rule : Rewrite} (h : rule.KeepsEnd) {e : Text}
    (he : e.length ≤ 2) (s : Statement) :
    e <:+ (s.rewrite rule.source rule.target).text ↔ e <:+ s.text := by
  obtain ⟨hsource, htarget, hsame⟩ := h
  apply Text.suffix_replaceFirst_iff (List.take_append_drop (rule.source.length - 2) _).symm
  · rw [hsame, List.take_append_drop]
  · rw [List.length_drop]
    omega

theorem Rules.suffix_rewriteAll_iff {r : Rules} (h : ∀ rule ∈ r.rewrites, rule.KeepsEnd) {e : Text}
    (he : e.length ≤ 2) (s : Statement) : e <:+ (r.rewriteAll s).text ↔ e <:+ s.text := by
  unfold rewriteAll
  revert h
  induction r.rewrites generalizing s with
  | nil =>
      intro _
      rfl
  | cons rule rules ih =>
      intro h
      rw [List.foldl_cons, ih _ fun x hx => h x (List.mem_cons_of_mem rule hx),
        Statement.suffix_rewrite_iff (h rule List.mem_cons_self) he]

namespace Statement

/-- The text ends with a dot and the sign for all members. -/
theorem suffix_text_iff {s : Statement} :
    '.' :: wildcardSelector <:+ s.text ↔ ∃ q, s = ofMember q wildcardSelector := by
  constructor
  · rintro ⟨q, hq⟩
    exact ⟨q, by rw [ofMember, hq]⟩
  · rintro ⟨q, rfl⟩
    exact List.suffix_append q _

theorem isWildcard_ofMember {q m : Text} (hm : '.' ∉ m) :
    (ofMember q m).isWildcard = (m == wildcardSelector) := by
  rw [isWildcard, trailing, split?_ofMember hm]

end Statement

namespace Rules

variable {r : Rules} {code : Text} {b : Block}

/-- A cleaned block imports a wildcard that was selected, or that a qualifier collapsed to. -/
theorem wildcard_mem_expand_clean_iff (hr : r.defect? = none)
    (hb : ∀ s ∈ r.select code b, s.Regular) {q : Text} :
    Statement.ofMember q Statement.wildcardSelector ∈ (r.clean code b).expand ↔
      Statement.ofMember q Statement.wildcardSelector ∈ r.select code b ∨
        Block.Reaches r.groupThreshold (r.select code b) q := by
  have ht := r.two_le_groupThreshold hr
  have hn := r.nodup_select code b
  have hdot : '.' ∉ Statement.wildcardSelector := by decide
  constructor
  · intro h
    rcases Block.mem_or_wildcard_of_mem_expand_compact ht hb hn h with h | ⟨q', hq', heq⟩
    · exact Or.inl h
    · rw [(Statement.ofMember_inj hdot hdot heq).1]
      exact Or.inr hq'
  · intro h
    rw [clean, Block.mem_expand_compact ht hb hn]
    by_cases hq : Block.Reaches r.groupThreshold (r.select code b) q
    · exact Or.inr (Or.inr (Or.inl ⟨q, hq, rfl⟩))
    · have hmem := h.resolve_right hq
      cases hren : (Statement.ofMember q Statement.wildcardSelector).isRename with
      | true => exact Or.inl ⟨hmem, rfl⟩
      | false =>
          refine Or.inr (Or.inl ⟨q, Block.mem_plainUnder.mpr ⟨?_, hren⟩, hq⟩)
          exact Block.mem_under.mpr ⟨hmem, _, hdot, rfl⟩

/-- With the built-in rules a wildcard is selected if a rewrite makes it or leaves it. -/
theorem wildcard_mem_select_standard {q : Text} :
    Statement.ofMember q Statement.wildcardSelector ∈ standard.select code b ↔
      ∃ v ∈ b.expand, standard.rewriteAll v = .ofMember q Statement.wildcardSelector := by
  rw [mem_select, rewritten, List.mem_map]
  refine and_iff_left ⟨?_, isUsed_wildcard q⟩
  intro hremoved
  have hlast := getLast?_wildcard q
  rw [List.mem_singleton.mp hremoved] at hlast
  exact absurd hlast (by decide)

theorem keepsEnd_standard : ∀ rule ∈ standard.rewrites, rule.KeepsEnd := by
  decide +kernel

end Rules

/-! ## The explicit imports of a wildcard -/

theorem DiagnosticPattern.isNameChar_of_wordChar {c : Char} (h : wordChar.mem c = true) :
    Text.isNameChar c = true := by
  have hne : ∀ d, wordChar.mem d = false → c ≠ d := by
    rintro d hd rfl
    rw [h] at hd
    exact Bool.noConfusion hd
  simp [Text.isNameChar, not_blank_of_mem_wordChar h, hne '.' (by decide), hne ',' (by decide),
    hne '\x7b' (by decide), hne '\x7d' (by decide)]

theorem DiagnosticPattern.Capitalised.isName {t : Text} (h : Capitalised t) : Text.IsName t := by
  obtain ⟨x, u, rfl, hx, hu⟩ := h
  have hword : ∀ c ∈ x :: u, wordChar.mem c = true :=
    List.forall_mem_cons.mpr ⟨wordChar_of_capital hx, hu⟩
  refine ⟨by simp, fun c hc => isNameChar_of_wordChar (hword c hc), ?_⟩
  intro harrow
  have hmem : '=' ∈ x :: u := harrow.subset (by decide)
  exact absurd (hword '=' hmem) (by decide)

theorem DiagnosticPattern.Capitalised.ne_wildcardSelector {t : Text} (h : Capitalised t) :
    t ≠ Statement.wildcardSelector := by
  rintro rfl
  obtain ⟨x, u, heq, hx, -⟩ := h
  obtain ⟨rfl, -⟩ := List.cons.inj heq
  exact absurd hx (by decide)

namespace SearchPlan

variable {σ ε : Type} {p : SearchPlan} {bench : Bench σ ε} {wildcard : Statement} {imports : Block}

/-- A search that succeeds gives what some outputs asked for. -/
theorem mem_candidates_of_search {s s' : σ} {found : List Statement}
    (h : p.search bench wildcard imports s = (.ok found, s')) {x : Statement} (hx : x ∈ found) :
    ∃ output, x ∈ p.candidates wildcard output := by
  obtain ⟨result, s₁, record, hrecord, hends⟩ := ends_search p bench wildcard imports s
  have hview : p.search bench wildcard imports s = _ :=
    search_view bench.shows_recorded p wildcard imports (s, [])
  rw [h, hrecord] at hview
  obtain rfl := (Prod.mk.inj hview).1
  cases hends with
  | @clean failed output _ _ _ =>
      obtain ⟨d, hd, hmember⟩ := List.mem_filterMap.mp (List.mem_eraseDups.mp hx)
      obtain ⟨output, -, hd⟩ := List.mem_flatMap.mp hd
      exact ⟨output, List.mem_filterMap.mpr ⟨d, hd, hmember⟩⟩

/-- **What replaces a wildcard is explicit.** With the built-in pattern the statements found for a
well-shaped wildcard are well-shaped, and none of them is a wildcard. -/
theorem explicit_of_search (hp : p.pattern = .standard) (hw : wildcard.WellShaped) {s s' : σ}
    {found : List Statement} (h : p.search bench wildcard imports s = (.ok found, s')) :
    ∀ x ∈ found, x.WellShaped ∧ x.isWildcard = false := by
  intro x hx
  obtain ⟨output, hx⟩ := mem_candidates_of_search h hx
  obtain ⟨d, hd, hmember⟩ := List.mem_filterMap.mp hx
  rw [hp] at hd
  have hsymbol := DiagnosticPattern.capitalised_of_mem_scan hd
  obtain ⟨q, m, hq, hm, rfl⟩ := hw
  rw [Statement.withMember?, Statement.split?_ofMember hm.dotless] at hmember
  obtain rfl : x = .ofMember q d.symbol := (Option.some.inj hmember).symm
  have hselector : Statement.IsSelector d.symbol := .name hsymbol.isName
  refine ⟨⟨q, d.symbol, hq, hselector, rfl⟩, ?_⟩
  rw [Statement.isWildcard_ofMember hselector.dotless]
  simpa using hsymbol.ne_wildcardSelector

end SearchPlan

namespace Site

variable {σ ε : Type} {site : Site σ ε} {plan : SearchPlan} {f : SourceFile} {content : Text}

/-! ## The wildcards that remain -/

/-- The invariant of the loop: the block has a copy of a wildcard for each time that it was kept or is
pending, and no other. -/
structure Remaining (pending : List Statement) (current : Block) (done : Reduction) : Prop where
  shaped : ∀ x ∈ current, x.WellShaped
  wildcards : ∀ w ∈ pending, w.isWildcard = true
  copies : ∀ v, v.isWildcard = true → current.count v = (done.unresolved ++ pending).count v

theorem Remaining.mem_current {wildcard : Statement} {more : List Statement} {current : Block}
    {done : Reduction} (h : Remaining (wildcard :: more) current done) : wildcard ∈ current := by
  have hcopies := h.copies wildcard (h.wildcards wildcard List.mem_cons_self)
  rw [List.count_append, List.count_cons_self] at hcopies
  exact List.count_pos_iff.mp (by omega)

theorem Remaining.replaced {wildcard : Statement} {more : List Statement} {current : Block}
    {done : Reduction} (h : Remaining (wildcard :: more) current done) {found : List Statement}
    (hfound : ∀ x ∈ found, x.WellShaped ∧ x.isWildcard = false) :
    Remaining more (current.replace wildcard found)
      { done with resolved := done.resolved ++ [(wildcard, found)] } where
  shaped := by
    intro x hx
    rcases Block.mem_of_mem_replace hx with hx | hx
    · exact h.shaped x hx
    · exact (hfound x hx).1
  wildcards := fun w hw => h.wildcards w (List.mem_cons_of_mem wildcard hw)
  copies := by
    intro v hv
    obtain ⟨before, behind, hcut⟩ := Block.exists_cutAt?_of_mem h.mem_current
    have hcopies := h.copies v hv
    have hnone : (found.filter fun x => !(before ++ behind).contains x).count v = 0 := by
      rw [List.count_eq_zero]
      intro hmem
      have hexplicit := (hfound v (List.mem_filter.mp hmem).1).2
      rw [hv] at hexplicit
      exact Bool.noConfusion hexplicit
    rw [Block.eq_append_of_cutAt? hcut] at hcopies
    rw [Block.replace_of_cutAt? hcut]
    simp only [List.count_append, List.count_cons] at hcopies ⊢
    omega

theorem Remaining.kept {wildcard : Statement} {more : List Statement} {current : Block}
    {done : Reduction} (h : Remaining (wildcard :: more) current done) :
    Remaining more current { done with unresolved := done.unresolved ++ [wildcard] } where
  shaped := h.shaped
  wildcards := fun w hw => h.wildcards w (List.mem_cons_of_mem wildcard hw)
  copies := by
    have hcopies := h.copies
    simp only [List.append_assoc]
    exact hcopies

/-- **At the end of the loop the wildcards of the block are those that were kept.** -/
theorem remaining_replaceWildcards (hp : plan.pattern = .standard)
    (hshaped : ∀ x ∈ (SourceFile.parse content).imports.expand, x.WellShaped) {s s₁ : σ}
    {current : Block} {done : Reduction}
    (h : site.replaceWildcards plan content s = (.ok (current, done), s₁)) :
    Remaining [] current done := by
  refine reduceFrom_keeps ?_ (fun h => h.kept) _ _ _ s ⟨hshaped, ?_, ?_⟩ h
  · intro wildcard more current done found s s₁ h hsearch
    exact h.replaced (plan.explicit_of_search hp (h.shaped _ h.mem_current) hsearch)
  · intro w hw
    exact (List.mem_filter.mp hw).2
  · intro v hv
    rw [List.nil_append]
    exact (List.count_filter hv).symm

theorem Remaining.mem_unresolved_iff {current : Block} {done : Reduction}
    (h : Remaining [] current done) {v : Statement} (hv : v.isWildcard = true) :
    v ∈ current ↔ v ∈ done.unresolved := by
  have hcopies := h.copies v hv
  rw [List.append_nil] at hcopies
  rw [← List.count_pos_iff, ← List.count_pos_iff, hcopies]

/-! ## The wildcards that come back -/

theorem Remaining.expand_current {pending : List Statement} {current : Block} {done : Reduction}
    (h : Remaining pending current done) : current.expand = current :=
  Block.expand_of_forall_none fun x hx => Statement.Regular.expand? (Or.inl (h.shaped x hx))

theorem Remaining.regular_rewritten {pending : List Statement} {current : Block} {done : Reduction}
    (h : Remaining pending current done) :
    ∀ x ∈ Rules.standard.rewritten current, x.Regular := by
  have hexpand : ∀ x ∈ current.expand, x.Regular := by
    rw [h.expand_current]
    exact fun x hx => Or.inl (h.shaped x hx)
  exact fun x hx => (Rules.anchored_standard.rewritten hexpand x hx).1

/-- A cleaning with the built-in rules makes a wildcard out of one that was kept, or collapses a
qualifier to it. -/
theorem Remaining.wildcard_mem_expand_clean_iff {current : Block} {done : Reduction}
    (h : Remaining [] current done) (code q : Text) :
    Statement.ofMember q Statement.wildcardSelector ∈ (Rules.standard.clean code current).expand ↔
      Block.Reaches Rules.standard.groupThreshold (Rules.standard.select code current) q ∨
        ∃ v ∈ done.unresolved, Rules.standard.rewriteAll v =
          .ofMember q Statement.wildcardSelector := by
  have hregular : ∀ x ∈ Rules.standard.select code current, x.Regular :=
    fun x hx => h.regular_rewritten x (Rules.standard.mem_select.mp hx).1
  rw [Rules.wildcard_mem_expand_clean_iff (by decide) hregular, Rules.wildcard_mem_select_standard,
    h.expand_current, or_comm]
  refine or_congr_right (exists_congr fun v => and_congr_left fun hv => ?_)
  -- what is rewritten to a wildcard was one
  have hsuffix : '.' :: Statement.wildcardSelector <:+ (Rules.standard.rewriteAll v).text := by
    rw [Statement.suffix_text_iff]
    exact ⟨q, hv⟩
  rw [Rules.suffix_rewriteAll_iff Rules.keepsEnd_standard (by decide),
    Statement.suffix_text_iff] at hsuffix
  obtain ⟨q', rfl⟩ := hsuffix
  apply h.mem_unresolved_iff
  rw [Statement.isWildcard_ofMember (by decide)]
  exact beq_self_eq_true _

/-- **When a resolved wildcard comes back.** With the built-in rules and settings, on a file whose
imports have a recognised shape, a wildcard that a successful reduction reports as resolved is
imported by the file that was written last if and only if so many statements import from its
qualifier in the end that they collapse to it, or a rewrite makes it out of a wildcard that was not
resolved. Otherwise it is gone, whatever the compiler said and however often it stood in the file. -/
theorem reduce_returns_resolved_iff {s s' : σ} {done : Reduction}
    (hplan : SearchSettings.standard.plan = .ok plan) (hread : site.read s = .ok content)
    (hshape : ∀ x ∈ (SourceFile.parse content).imports, x.Recognised)
    (hrun : site.reduce .standard plan s = (.ok done, s')) :
    ∃ current s₁ text texts,
      site.replaceWildcards plan content s = (.ok (current, done), s₁) ∧
      site.noted.reduce .standard plan (s, []) = (.ok done, s', text :: texts) ∧
      ∀ w ∈ done.resolved.map Prod.fst,
        w ∈ (SourceFile.parse text).imports.expand ↔
          Block.Reaches Rules.standard.groupThreshold
              (Rules.standard.select (SourceFile.parse content).codeText current) w.qualifier ∨
            ∃ v ∈ done.unresolved, Rules.standard.rewriteAll v = w := by
  have hshaped := Block.wellShaped_of_mem_expand hshape
  have hpattern : plan.pattern = .standard := by
    have hread := SearchSettings.pattern_of_plan hplan
    rw [DiagnosticPattern.read_standard] at hread
    exact (Except.ok.inj hread).symm
  obtain ⟨current, s₁, hloop, hwrite⟩ := (reduce_eq_ok hread).mp hrun
  have hremaining := remaining_replaceWildcards hpattern hshaped hloop
  obtain ⟨texts, hnoted⟩ := noted_reduce_eq_ok hread hloop hwrite
  refine ⟨current, s₁, _, texts, hloop, hnoted, ?_⟩
  intro w hw
  -- a resolved wildcard is one of the expanded imports
  have hturned : w ∈ done.turned ++ [] := by
    rw [List.append_nil]
    exact List.mem_append_left _ hw
  obtain ⟨hmem, hwild⟩ :=
    List.mem_filter.mp ((accounted_replaceWildcards hloop).turns.mem_iff.mp hturned)
  have hw' := Statement.eq_wildcard (hshaped w hmem) hwild
  rw [imports_parse_cleaned_of_regular hremaining.regular_rewritten, hw',
    Statement.qualifier_ofMember (by decide)]
  exact hremaining.wildcard_mem_expand_clean_iff _ _

/-- Two wildcards. -/
def twoContent : Text := "package p\nimport a._\nimport z._\nX\n".toList

/-- The compiler misses one symbol without the first wildcard, and is never content without the
second. -/
def twoScript : List Text :=
  ["error: not found: value X".toList, [], "error".toList, "error".toList, "error".toList,
    "error".toList, "error".toList]

/-- The first wildcard is replaced, the second one is kept. -/
def twoReduction : Reduction where
  resolved := [(⟨"import a._".toList⟩, [⟨"import a.X".toList⟩])]
  unresolved := [⟨"import z._".toList⟩]

/-- What is put back last, and written in the end. -/
def twoWritten : Text := "package p\n\nimport a.X\nimport z._\n\nX\n".toList

theorem replaceWildcards_twoContent :
    flaky.replaceWildcards standardPlan twoContent (twoContent, [], twoScript) =
      (.ok ([⟨"import a.X".toList⟩, ⟨"import z._".toList⟩], twoReduction), twoWritten, [], []) := by
  unfold twoContent
  rewrite [String.toList_ofList]
  cbv

/-- Both statements are selected. -/
theorem select_two : Rules.standard.select (SourceFile.parse twoContent).codeText
      [⟨"import a.X".toList⟩, ⟨"import z._".toList⟩] =
    [⟨"import a.X".toList⟩, ⟨"import z._".toList⟩] := by
  have hsorted : (Rules.standard.prepare [⟨"import a.X".toList⟩, ⟨"import z._".toList⟩]).Sorted
      .standard := by decide +kernel
  rw [Rules.standard.select_of_sorted hsorted]
  decide +kernel

theorem normalize_two :
    ((SourceFile.parse twoContent).withImports
      [⟨"import a.X".toList⟩, ⟨"import z._".toList⟩]).normalize .standard = twoWritten := by
  show SourceFile.renderWith _ (Block.layout _ (Block.compact _ (Rules.standard.select
    (SourceFile.parse twoContent).codeText [⟨"import a.X".toList⟩, ⟨"import z._".toList⟩]))) = _
  rw [select_two]
  decide +kernel

theorem reduce_twoContent :
    flaky.reduce .standard standardPlan (twoContent, [], twoScript) =
      (.ok twoReduction, twoWritten, [], []) := by
  refine (reduce_eq_ok rfl).mpr ⟨_, _, replaceWildcards_twoContent, ?_⟩
  rw [normalize_two]
  rfl

theorem recognised_twoContent : ∀ x ∈ (SourceFile.parse twoContent).imports, x.Recognised := by
  have ha := Statement.isQualifier_name (n := ['a']) (by decide)
  have hz := Statement.isQualifier_name (n := ['z']) (by decide)
  have heq : (SourceFile.parse twoContent).imports =
      [.ofMember (Statement.keyword ++ [' ', 'a']) Statement.wildcardSelector,
        .ofMember (Statement.keyword ++ [' ', 'z']) Statement.wildcardSelector] := by
    unfold twoContent
    rewrite [String.toList_ofList]
    cbv
  rw [heq]
  simp only [List.forall_mem_cons]
  exact ⟨Or.inl ⟨_, _, ha, .wildcard, rfl⟩, Or.inl ⟨_, _, hz, .wildcard, rfl⟩, by simp⟩

theorem reduce_returns_resolved_twoContent :
    SearchSettings.standard.plan = .ok standardPlan ∧
      (∀ x ∈ (SourceFile.parse twoContent).imports, x.Recognised) ∧
      flaky.reduce .standard standardPlan (twoContent, [], twoScript) =
        (.ok twoReduction, twoWritten, [], []) ∧
      ∃ text texts, flaky.noted.reduce .standard standardPlan ((twoContent, [], twoScript), []) =
          (.ok twoReduction, (twoWritten, [], []), text :: texts) ∧
        (⟨"import a._".toList⟩ : Statement) ∉ (SourceFile.parse text).imports.expand := by
  obtain ⟨current, s₁, text, texts, hloop, hnoted, hreturns⟩ :=
    reduce_returns_resolved_iff plan_standard rfl recognised_twoContent reduce_twoContent
  obtain ⟨hcurrent, -⟩ := Prod.mk.inj (hloop.symm.trans replaceWildcards_twoContent)
  obtain ⟨rfl, -⟩ := Prod.mk.inj (Except.ok.inj hcurrent)
  refine ⟨plan_standard, recognised_twoContent, reduce_twoContent, text, texts, hnoted, ?_⟩
  rw [hreturns _ List.mem_cons_self]
  -- one statement does not collapse, and the other wildcard stays what it is
  rintro (hreaches | ⟨v, hv, heq⟩)
  · rw [select_two] at hreaches
    exact absurd hreaches (by decide +kernel)
  · rw [List.mem_singleton.mp hv] at heq
    exact absurd heq (by decide +kernel)

/-- One wildcard, and eight names that come from it. -/
def eightContent : Text := "package p\nimport a._\nA B C D E F G H\n".toList

/-- The compiler misses all of the names. -/
def eightScript : List Text :=
  ["error not found: value A\nnot found: value B\nnot found: value C\nnot found: value D\n".toList ++
    "not found: value E\nnot found: value F\nnot found: value G\nnot found: value H".toList]

/-- The wildcard is replaced by eight explicit imports. -/
def eightReduction : Reduction where
  resolved := [(⟨"import a._".toList⟩, [⟨"import a.A".toList⟩, ⟨"import a.B".toList⟩,
    ⟨"import a.C".toList⟩, ⟨"import a.D".toList⟩, ⟨"import a.E".toList⟩, ⟨"import a.F".toList⟩,
    ⟨"import a.G".toList⟩, ⟨"import a.H".toList⟩])]
  unresolved := []

set_option maxRecDepth 4000 in
/-- **A resolved wildcard can come back.** The only wildcard of the file is resolved to eight explicit
imports, and so many collapse to the wildcard when the file is written. -/
theorem flaky_returns_wildcard :
    (SourceFile.parse eightContent).imports = [⟨"import a._".toList⟩] ∧
      flaky.reduce .standard standardPlan (eightContent, [], eightScript) =
        (.ok eightReduction, "package p\n\nimport a._\n\nA B C D E F G H\n".toList, [], []) ∧
      (⟨"import a._".toList⟩ : Statement) ∈
        (SourceFile.parse "package p\n\nimport a._\n\nA B C D E F G H\n".toList).imports.expand := by
  refine ⟨?_, ?_, ?_⟩
  · decide +kernel
  · unfold eightContent eightScript
    rewrite [String.toList_ofList, String.toList_ofList, String.toList_ofList]
    cbv
  · decide +kernel

end Site

end ImportTidy

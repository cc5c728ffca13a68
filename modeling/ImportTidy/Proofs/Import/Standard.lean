/-
# ImportTidy.Proofs.Import.Standard — what the built-in tables keep and what they do not

The rules of the built-in tables act on the starts of paths, and no target starts like a source
(`anchored_standard`), so that the statements which a cleaning selects are final. Of what compaction
makes of them, a single statement is not: `Tap._` is a source, and a collapse can make it
(`unmoved_of_mem_expand_clean`). The tiers are given by single names, so that all members of a
qualifier are in one tier and its wildcard comes before its renames.
-/
import ImportTidy.Proofs.Import.Leaders
import ImportTidy.Proofs.Import.Rewriting

namespace ImportTidy

namespace Statement

/-- Behind the first name of a path stands a path or a selector. -/
theorem IsPath.of_under {n x : Text} (hn : '.' ∉ n) (h : IsPath (n ++ '.' :: x)) :
    IsPath x ∨ IsSelector x := by
  have hinj : ∀ {n' x' : Text}, '.' ∉ n' → n ++ '.' :: x = n' ++ '.' :: x' → x = x' := by
    intro n' x' hn' he
    have hcut : Text.cutFirst? '.' (n ++ '.' :: x) = some (n, x) := Text.cutFirst?_append_cons hn
    rw [he, Text.cutFirst?_append_cons hn'] at hcut
    exact (Prod.mk.inj (Option.some.inj hcut)).2.symm
  generalize he : n ++ '.' :: x = p at h
  cases h with
  | name hp => exact absurd (by simp [← he]) (hp.not_mem (c := '.') (by decide))
  | selector hn' hm => exact Or.inr (hinj (hn'.not_mem (by decide)) he ▸ hm)
  | under hn' hp => exact Or.inl (hinj (hn'.not_mem (by decide)) he ▸ hp)

end Statement

namespace Rules

/-! ## The rewrites -/

/-- The rule that takes `_root_` off the path. -/
theorem onPaths_root : Rewrite.OnPaths ⟨" _root_.util".toList, " util".toList⟩
    "_root_.util".toList "util".toList where
  source_eq := by decide
  target_eq := by decide
  dotted := by decide
  isPath := by
    intro rest h
    have hroot : '.' ∉ "_root_".toList := by decide
    rcases Statement.IsPath.of_under hroot (x := "util".toList ++ rest) h with h | h
    · exact h
    · -- a selector that starts with a letter is a name
      rcases h.name_or_group with h | ⟨inside, he, -⟩
      · exact .name h
      · exact absurd (congrArg List.head? he) (by simp)

/-- The texts differ before either of them ends. -/
def Apart (a b : Text) : Prop := ¬ a <+: b ∧ ¬ b <+: a

instance (a b : Text) : Decidable (Apart a b) := inferInstanceAs (Decidable (_ ∧ _))

theorem Apart.not_prefix_append {a b : Text} (h : Apart a b) (rest : Text) : ¬ a <+: b ++ rest := by
  intro hpre
  rcases List.prefix_or_prefix_of_prefix hpre (List.prefix_append b rest) with h' | h'
  · exact h.1 h'
  · exact h.2 h'

/-- **The built-in rewrites act on paths and do not chain.** -/
theorem anchored_standard : standard.Anchored := by
  -- all rules but the first put a name before the path
  have hunder : ∀ (rule : Rewrite) (n lead : Text), Text.IsName n → '.' ∈ lead →
      rule.source = ' ' :: lead → rule.target = ' ' :: (n ++ '.' :: lead) →
      rule.OnPaths lead (n ++ '.' :: lead) := by
    intro rule n lead hn hd hs ht
    refine ⟨hs, ht, hd, fun rest h => ?_⟩
    rw [List.append_assoc]
    exact .under hn h
  -- no source is found where a target was put
  have hapart : ∀ rule ∈ standard.rewrites, ∀ other ∈ standard.rewrites,
      Apart other.source rule.target := by
    decide +kernel
  have hclear : ∀ {rule : Rewrite} {new : Text}, rule ∈ standard.rewrites →
      rule.target = ' ' :: new →
      ∀ other ∈ standard.rewrites, ∀ rest, ¬ other.source <+: ' ' :: (new ++ rest) := by
    intro rule new hmem ht other hother rest
    have h := (hapart rule hmem other hother).not_prefix_append rest
    rwa [ht] at h
  have hrule : ∀ (rule : Rewrite) (n lead : Text), rule ∈ standard.rewrites →
      (Text.IsName n ∧ '.' ∈ lead ∧ rule.source = ' ' :: lead ∧
        rule.target = ' ' :: (n ++ '.' :: lead)) →
      ∃ lead new, rule.OnPaths lead new ∧
        ∀ other ∈ standard.rewrites, ∀ rest, ¬ other.source <+: ' ' :: (new ++ rest) := by
    rintro rule n lead hmem ⟨hn, hd, hs, ht⟩
    exact ⟨lead, _, hunder rule n lead hn hd hs ht, hclear hmem ht⟩
  intro rule hmem
  have hcases := hmem
  simp only [standard, List.mem_cons, List.not_mem_nil, or_false] at hcases
  rcases hcases with rfl | rfl | rfl | rfl | rfl | rfl | rfl
  · exact ⟨_, _, onPaths_root, hclear hmem onPaths_root.target_eq⟩
  · exact hrule _ "util".toList "Tap._".toList hmem (by decide +kernel)
  · exact hrule _ "models".toList "DataPoint.DataType".toList hmem (by decide +kernel)
  · exact hrule _ "controllers".toList "action.".toList hmem (by decide +kernel)
  · exact hrule _ "controllers".toList "helpers.".toList hmem (by decide +kernel)
  · exact hrule _ "scala".toList "concurrent.".toList hmem (by decide +kernel)
  · exact hrule _ "scala".toList "collection.".toList hmem (by decide +kernel)

/-! ## The order of members -/

/-- What is read off the built-in tables: the paths of the tiers are single names, of the sources of
the rewrites only `Tap._` ends like a wildcard, and nothing that is removed does. -/
theorem standard_tables :
    (∀ top ∈ standard.languagePaths, '.' ∉ top) ∧ (∀ top ∈ standard.externalPaths, '.' ∉ top) ∧
      (∀ rule ∈ standard.rewrites, rule.source.getLast? = some '_' →
        rule.source = " Tap._".toList) ∧
      ∀ text ∈ standard.removes, text.getLast? ≠ some '_' := by
  decide +kernel

/-- A single name at the start of a path tells the tier, whatever stands behind a later dot. -/
theorem belongsTo_append_dot {tops : List Text} (h : ∀ top ∈ tops, '.' ∉ top) (p x y : Text) :
    belongsTo tops (p ++ '.' :: x) = belongsTo tops (p ++ '.' :: y) := by
  have hone : ∀ {top : Text} (z : Text), '.' ∉ top →
      (p ++ '.' :: z = top ∨ top ++ ['.'] <+: p ++ '.' :: z ↔ top ++ ['.'] <+: p ++ ['.']) := by
    intro top z htop
    have hz : p ++ '.' :: z = p ++ ['.'] ++ z := by simp
    rw [hz]
    constructor
    · rintro (rfl | hpre)
      · exact absurd (by simp) htop
      · rcases List.prefix_or_prefix_of_prefix hpre (List.prefix_append _ z) with hpre | hpre
        · exact hpre
        · rcases List.prefix_concat_iff.mp hpre with he | hpre
          · exact he ▸ List.prefix_rfl
          · exact absurd (hpre.subset (by simp)) htop
    · intro hpre
      exact Or.inr (hpre.trans (List.prefix_append _ z))
  rw [Bool.eq_iff_iff, belongsTo_iff, belongsTo_iff]
  refine exists_congr fun top => and_congr_right fun hmem => ?_
  rw [hone x (h top hmem), hone y (h top hmem)]

theorem compare_append (a b c : Text) : Text.compare (a ++ b) (a ++ c) = Text.compare b c := by
  induction a with
  | nil => rfl
  | cons d a ih => simpa [Text.compare] using ih

theorem wildcardsFirst_standard {b : Block} (hb : ∀ s ∈ b, s.Regular) :
    standard.WildcardsFirst b := by
  intro s hs hren
  rcases hb s hs with ⟨q, m, hq, hm, rfl⟩ | hbare
  · rw [Statement.qualifier_ofMember hm.dotless]
    rw [Statement.isRename_ofMember hq] at hren
    obtain ⟨p, rfl, hne, hsolid, -⟩ := hq.exists_path
    have hpath : ∀ x, (Statement.ofMember (Statement.keyword ++ ' ' :: p) x).path =
        p ++ '.' :: x := by
      intro x
      apply Statement.path_eq
      · simp [Statement.ofMember]
      · exact Text.startsSolid_append hsolid hne _
    rcases hm.name_or_group with hname | ⟨inside, rfl, -⟩
    · rw [hm.isRenaming_eq_false_iff.mpr hname] at hren
      exact Bool.noConfusion hren
    · -- both are in one tier, and the underscore comes before the brace
      rw [standard.mayPrecede_iff_isLE, hpath, hpath, comparePaths, compareLex, compareLex]
      have htier : ∀ tops : List Text, (∀ top ∈ tops, '.' ∉ top) →
          compareOn (belongsTo tops) (p ++ '.' :: Statement.wildcardSelector)
            (p ++ '.' :: ('\x7b' :: inside ++ ['\x7d'])) = .eq := by
        intro tops htops
        rw [compareOn, belongsTo_append_dot htops p _ ('\x7b' :: inside ++ ['\x7d'])]
        exact Std.ReflOrd.compare_self
      rw [htier _ standard_tables.1, htier _ standard_tables.2.1, compare_append]
      rfl
  · rw [hbare.isRename] at hren
    exact Bool.noConfusion hren

/-! ## What a second cleaning finds -/

theorem getLast?_wildcard (q : Text) :
    (Statement.ofMember q Statement.wildcardSelector).text.getLast? = some '_' := by
  simp [Statement.ofMember, Statement.wildcardSelector]

/-- The qualifier whose wildcard is the source of a rewrite. -/
def tapQualifier : Text := "import Tap".toList

/-- The statement that a rewrite finds and that a collapse can make. -/
def tapWildcard : Statement := .ofMember tapQualifier Statement.wildcardSelector

theorem isRewritten_tapWildcard : tapWildcard.isRewritten " Tap._".toList = true ∧
    (standard.rewriteAll tapWildcard).qualifier ≠ tapQualifier := by
  decide +kernel

theorem not_unmoved_tapWildcard : ¬ standard.Unmoved tapWildcard := by
  intro h
  have hrule : ⟨" Tap._".toList, " util.Tap._".toList⟩ ∈ standard.rewrites := .tail _ (.head _)
  exact Bool.false_ne_true ((h _ hrule).symm.trans isRewritten_tapWildcard.1)

/-- A rewrite that passes over a statement and yet finds the wildcard of its qualifier finds that of
`Tap`. -/
theorem eq_tapQualifier_of_isRewritten {rule : Rewrite} (hrule : rule ∈ standard.rewrites)
    {q m : Text} (hq : Statement.IsQualifier q) (hm : Statement.IsSelector m)
    (hnot : (Statement.ofMember q m).isRewritten rule.source = false)
    (hit : (Statement.ofMember q Statement.wildcardSelector).isRewritten rule.source = true) :
    q = tapQualifier := by
  have htext := anchored_standard.source_of_wildcard hrule hq hm hnot hit
  have hlast : rule.source.getLast? = some '_' := by
    have h := getLast?_wildcard q
    rw [htext, List.getLast?_append] at h
    rcases hc : rule.source.getLast? with _ | c
    · rw [hc] at h
      exact absurd h (by decide)
    · rwa [hc] at h
  rw [standard_tables.2.2.1 rule hrule hlast] at htext
  have hcancel : q ++ ['.', '_'] = tapQualifier ++ ['.', '_'] := htext
  exact List.append_cancel_right hcancel

section Clean

variable {code : Text} {b : Block} (hb : ∀ s ∈ standard.select code b, s.Regular)

include hb

/-- What compaction makes of selected statements is not removed. -/
theorem not_removed_of_mem_expand_clean :
    ∀ s ∈ (standard.clean code b).expand, s.text ∉ standard.removes := by
  intro s hs
  rcases Block.mem_or_wildcard_of_mem_expand_compact (by decide) hb (standard.nodup_select code b)
    hs with h | ⟨q, -, rfl⟩
  · exact (standard.mem_select.mp h).2.1
  · -- the one statement to be removed does not end like a wildcard
    intro hmem
    exact standard_tables.2.2.2 _ hmem (getLast?_wildcard q)

/-- A rewrite finds nothing in what compaction makes, but for the wildcard of `Tap`. -/
theorem unmoved_of_mem_expand_clean (hu : standard.Settled (standard.select code b))
    {s : Statement} (hs : s ∈ (standard.clean code b).expand) :
    standard.Unmoved s ∨
      (s = tapWildcard ∧
        Block.Reaches standard.groupThreshold (standard.select code b) tapQualifier) := by
  rcases Block.mem_or_wildcard_of_mem_expand_compact (by decide) hb (standard.nodup_select code b)
    hs with h | ⟨q, hq, rfl⟩
  · exact Or.inl (hu s h)
  · obtain ⟨m, hm⟩ := List.exists_mem_of_ne_nil _ (Block.members_ne_nil_of_reaches (by decide) hq)
    obtain ⟨hqual, hsel⟩ := Block.shape_of_mem_members hb hm
    by_cases htap : q = tapQualifier
    · subst htap
      exact Or.inr ⟨rfl, hq⟩
    · refine Or.inl fun rule hrule => ?_
      rw [← Bool.not_eq_true]
      intro hit
      have hnot := hu _ (Block.mem_members.mp hm).2 rule hrule
      exact htap (eq_tapQualifier_of_isRewritten hrule hqual hsel hnot hit)

theorem tapWildcard_mem_expand_clean
    (hreach : Block.Reaches standard.groupThreshold (standard.select code b) tapQualifier) :
    tapWildcard ∈ (standard.clean code b).expand :=
  (Block.mem_expand_compact (by decide) hb (standard.nodup_select code b)).mpr
    (Or.inr (Or.inr (Or.inl ⟨_, hreach, rfl⟩)))

/-- The second time `Tap` has its renames left, and nothing else. -/
theorem not_reaches_tap_select_clean (hu : standard.Settled (standard.select code b))
    (hreach : Block.Reaches standard.groupThreshold (standard.select code b) tapQualifier) :
    ¬ Block.Reaches standard.groupThreshold (standard.select code (standard.clean code b))
      tapQualifier := by
  intro hagain
  obtain ⟨s, hs⟩ := Block.exists_plain_of_reaches (by decide) hagain
  obtain ⟨hunder, hren⟩ := Block.mem_plainUnder.mp hs
  obtain ⟨hmem, m, hd, rfl⟩ := Block.mem_under.mp hunder
  obtain ⟨x, hx, he⟩ := List.mem_map.mp (standard.mem_select.mp hmem).1
  rcases unmoved_of_mem_expand_clean hb hu hx with hmove | ⟨rfl, -⟩
  · have hself : standard.rewriteAll x = x := foldl_rewrite_eq_self hmove
    rw [hself] at he
    subst he
    have hx' := ((Block.mem_expand_compact_iff (by decide) hb (standard.nodup_select code b)).mp hx).2
    rw [Statement.qualifier_ofMember hd, Block.mem_expand_gathered (by decide) hb
      (standard.nodup_select code b) (Block.members_ne_nil_of_reaches (by decide) hreach)] at hx'
    rcases hx' with ⟨-, h⟩ | ⟨-, h⟩ | ⟨-, h⟩
    · exact absurd h (by simp [hren])
    · exact h hreach
    · rw [h] at hmove
      exact not_unmoved_tapWildcard hmove
  · -- the rewritten wildcard has another qualifier
    have hq := congrArg Statement.qualifier he
    rw [Statement.qualifier_ofMember hd] at hq
    exact isRewritten_tapWildcard.2 hq

/-- Whatever collapsed, the statements of the second time are regular, and final. -/
theorem final_select_clean :
    ∀ s ∈ standard.select code (standard.clean code b), s.Regular ∧ standard.Unmoved s := by
  intro s hs
  exact anchored_standard.rewritten (regular_of_mem_expand_clean (by decide) hb) s
    (standard.mem_select.mp hs).1

/-- **Collapsed members of `Tap` do not stay.** The wildcard falls under a rewrite when it is read
again. -/
theorem clean_clean_ne_of_reaches_tap (hu : standard.Settled (standard.select code b))
    (hreach : Block.Reaches standard.groupThreshold (standard.select code b) tapQualifier) :
    standard.clean code (standard.clean code b) ≠ standard.clean code b := by
  intro h
  have hfinal := final_select_clean hb
  have htap := tapWildcard_mem_expand_clean hb hreach
  rw [← h] at htap
  rcases unmoved_of_mem_expand_clean (fun s hs => (hfinal s hs).1) (fun s hs => (hfinal s hs).2)
    htap with hmove | ⟨-, hagain⟩
  · exact not_unmoved_tapWildcard hmove
  · exact not_reaches_tap_select_clean hb hu hreach hagain

/-- **The exact condition for the built-in tables.** -/
theorem clean_clean_standard_iff (hu : standard.Settled (standard.select code b)) :
    standard.clean code (standard.clean code b) = standard.clean code b ↔
      ¬ Block.Reaches standard.groupThreshold (standard.select code b) tapQualifier ∧
        (standard.select code b).LeadersInOrder standard := by
  by_cases hreach : Block.Reaches standard.groupThreshold (standard.select code b) tapQualifier
  · simp only [hreach, not_true_eq_false, false_and, iff_false]
    exact clean_clean_ne_of_reaches_tap hb hu hreach
  · have hs : standard.Settled (standard.clean code b).expand := by
      intro s hs
      rcases unmoved_of_mem_expand_clean hb hu hs with h | ⟨-, h⟩
      · exact h
      · exact absurd h hreach
    rw [clean_clean_iff (by decide) hb hs (not_removed_of_mem_expand_clean hb)
      (wildcardsFirst_standard hb)]
    simp only [hreach, not_false_eq_true, true_and]

end Clean

end Rules

end ImportTidy

/-
# ImportTidy.Proofs.Source.References — which imports a tidied file drops

An import is dropped when nothing refers to it, and what counts as a reference is a mention in the
code. Another import may refer to it as well, by a path that starts with its name, but the import
lines are no part of the code and such a reference does not count (`tidied_drops_relative`). So of
the plain imports that no rule touches, exactly those stay that the code mentions or that are
imported for their effect, each by itself or through the wildcard of its qualifier
(`tidied_keeps_mentioned`).
-/
import ImportTidy.Proofs.Source.Idempotence

namespace ImportTidy

namespace Rules

variable {r : Rules} {code : Text} {b : Block} {q m : Text}

/-! ## Plain imports in a cleaned block -/

/-- A plain import is used when its name stands in the code or it has an effect. -/
theorem isUsed_ofMember (hq : Statement.IsQualifier q) (hm : Text.IsName m)
    (hw : m ≠ Statement.wildcardSelector) :
    r.isUsed code (.ofMember q m) = true ↔
      Text.occurs m code = true ∨ r.isSideEffecting (.ofMember q m) = true := by
  have hdot : '.' ∉ m := hm.not_mem (by decide)
  have htrail : (Statement.ofMember q m).trailing = m := by
    rw [Statement.trailing, Statement.split?_ofMember hdot]
  have hwild : (Statement.ofMember q m).isWildcard = false := by
    rw [Statement.isWildcard, htrail]
    exact beq_false_of_ne hw
  have hrename : (Statement.ofMember q m).isRename = false := by
    rw [Statement.isRename_ofMember hq]
    exact (Statement.IsSelector.name hm).isRenaming_eq_false_iff.mpr hm
  rw [isUsed, hwild, hrename, htrail, Bool.false_or, Bool.false_or, Bool.or_eq_true]

/-- A plain import that no rule touches is selected when it is used. -/
theorem ofMember_mem_select (hq : Statement.IsQualifier q) (hm : Text.IsName m)
    (hw : m ≠ Statement.wildcardSelector) (hs : Statement.ofMember q m ∈ b.expand)
    (hmoved : r.Unmoved (.ofMember q m)) (hkept : (Statement.ofMember q m).text ∉ r.removes) :
    Statement.ofMember q m ∈ r.select code b ↔
      Text.occurs m code = true ∨ r.isSideEffecting (.ofMember q m) = true := by
  have hmem : Statement.ofMember q m ∈ r.rewritten b :=
    List.mem_map.mpr ⟨_, hs, foldl_rewrite_eq_self hmoved⟩
  rw [mem_select, isUsed_ofMember hq hm hw]
  exact ⟨fun h => h.2.2, fun h => ⟨hmem, hkept, h⟩⟩

/-- What was selected with a member is in the cleaned block, or the wildcard of its qualifier is. -/
theorem mem_or_wildcard_mem_expand_clean (hr : r.defect? = none)
    (hb : ∀ s ∈ r.select code b, s.Regular) (hdot : '.' ∉ m)
    (hs : Statement.ofMember q m ∈ r.select code b) :
    Statement.ofMember q m ∈ (r.clean code b).expand ∨
      Statement.ofMember q Statement.wildcardSelector ∈ (r.clean code b).expand := by
  have ht := r.two_le_groupThreshold hr
  have hn := r.nodup_select code b
  by_cases hreach : Block.Reaches r.groupThreshold (r.select code b) q
  · right
    exact (Block.mem_expand_compact ht hb hn).mpr (Or.inr (Or.inr (Or.inl ⟨q, hreach, rfl⟩)))
  · left
    apply (Block.mem_expand_compact ht hb hn).mpr
    rcases hrename : (Statement.ofMember q m).isRename with _ | _
    · have hplain : Statement.ofMember q m ∈ (r.select code b).plainUnder q :=
        Block.mem_plainUnder.mpr ⟨Block.mem_under.mpr ⟨hs, m, hdot, rfl⟩, hrename⟩
      exact Or.inr (Or.inl ⟨q, hplain, hreach⟩)
    · exact Or.inl ⟨hs, rfl⟩

/-- A cleaned block has no plain import that was not selected. -/
theorem mem_select_of_mem_expand_clean (hr : r.defect? = none)
    (hb : ∀ s ∈ r.select code b, s.Regular) (hdot : '.' ∉ m)
    (hw : m ≠ Statement.wildcardSelector)
    (hs : Statement.ofMember q m ∈ (r.clean code b).expand) :
    Statement.ofMember q m ∈ r.select code b := by
  rcases Block.mem_or_wildcard_of_mem_expand_compact (r.two_le_groupThreshold hr) hb
    (r.nodup_select code b) hs with h | ⟨p, -, he⟩
  · exact h
  · exact absurd (Statement.ofMember_inj hdot (by decide) he).2 hw

end Rules

namespace SourceFile

/-! ## Plain imports in a tidied file -/

/-- The imports of a tidied file are the cleaned ones. -/
theorem imports_tidied {r : Rules} {content : Text}
    (hb : ∀ s ∈ r.select (parse content).codeText (parse content).imports, s.Regular) :
    (parse (tidied r content)).imports = r.clean (parse content).codeText (parse content).imports :=
  imports_parse_normalize (parted_parse content)
    (Block.printable_compact _ fun s hs => (hb s hs).printable)

/-- **An import that the code mentions is never dropped.** Under the built-in tables, and in a content
whose imports all have a recognised shape, take a plain import that is neither removed nor rewritten.
If the code mentions its name or it is imported for its effect, the tidied file imports it, by itself
or through the wildcard of its qualifier. Otherwise the tidied file does not import it by itself,
whatever else it imports. -/
theorem tidied_keeps_mentioned {content : Text} (h : ∀ s ∈ (parse content).imports, s.Recognised)
    {q m : Text} (hm : Text.IsName m) (hw : m ≠ Statement.wildcardSelector)
    (hs : Statement.ofMember q m ∈ (parse content).imports.expand)
    (hmoved : Rules.standard.Unmoved (.ofMember q m))
    (hkept : (Statement.ofMember q m).text ∉ Rules.standard.removes) :
    (Text.occurs m (parse content).codeText = true ∨
        Rules.standard.isSideEffecting (.ofMember q m) = true →
      Statement.ofMember q m ∈ (parse (tidied .standard content)).imports.expand ∨
        Statement.ofMember q Statement.wildcardSelector ∈
          (parse (tidied .standard content)).imports.expand) ∧
    (Statement.ofMember q m ∈ (parse (tidied .standard content)).imports.expand →
      Text.occurs m (parse content).codeText = true ∨
        Rules.standard.isSideEffecting (.ofMember q m) = true) := by
  have hdot : '.' ∉ m := hm.not_mem (by decide)
  have hq : Statement.IsQualifier q :=
    (Statement.Regular.shape_of_ofMember (Or.inl (Block.wellShaped_of_mem_expand h _ hs)) hdot).1
  have hb : ∀ s ∈ Rules.standard.select (parse content).codeText (parse content).imports,
      s.Regular := fun s hs => (final_select_standard h _ s hs).1
  rw [imports_tidied hb, ← Rules.ofMember_mem_select hq hm hw hs hmoved hkept]
  exact ⟨Rules.mem_or_wildcard_mem_expand_clean (by decide) hb hdot,
    Rules.mem_select_of_mem_expand_clean (by decide) hb hdot hw⟩

/-- A group of which the code mentions one member, and an import that is relative to it. -/
def relativeContent : Text := "package p\nimport a.\x7bM, N\x7d\nimport M.X\nval m = M(X)\n".toList

theorem imports_relativeContent : (parse relativeContent).imports =
    [.ofGroup (Statement.keyword ++ [' ', 'a']) [['M'], ['N']],
      .ofMember (Statement.keyword ++ [' ', 'M']) ['X']] := by
  unfold relativeContent
  rewrite [String.toList_ofList]
  cbv

theorem occurs_relativeContent : Text.occurs ['M'] (parse relativeContent).codeText = true ∧
    Text.occurs ['N'] (parse relativeContent).codeText = false := by
  unfold relativeContent
  rewrite [String.toList_ofList]
  exact ⟨by cbv, by cbv⟩

/-- No table says anything about the members of the group. -/
theorem standard_passes_members :
    Rules.standard.Settled
        [.ofMember "import a".toList ['M'], .ofMember "import a".toList ['N']] ∧
      (Statement.ofMember "import a".toList ['M']).text ∉ Rules.standard.removes ∧
      (Statement.ofMember "import a".toList ['N']).text ∉ Rules.standard.removes ∧
      Rules.standard.isSideEffecting (.ofMember "import a".toList ['N']) = false := by
  decide +kernel

theorem tidied_keeps_mentioned_relativeContent :
    (∀ s ∈ (parse relativeContent).imports, s.Recognised) ∧
      Statement.ofMember "import a".toList ['M'] ∈ (parse relativeContent).imports.expand ∧
      (Statement.ofMember "import a".toList ['M'] ∈
          (parse (tidied .standard relativeContent)).imports.expand ∨
        Statement.ofMember "import a".toList Statement.wildcardSelector ∈
          (parse (tidied .standard relativeContent)).imports.expand) ∧
      Statement.ofMember "import a".toList ['N'] ∉
        (parse (tidied .standard relativeContent)).imports.expand := by
  have hrec : ∀ s ∈ (parse relativeContent).imports, s.Recognised := by
    have ha := Statement.isQualifier_name (n := ['a']) (by decide)
    have hM := Statement.isQualifier_name (n := ['M']) (by decide)
    have hnames : ∀ n ∈ [['M'], ['N']], Text.IsName n :=
      List.forall_mem_cons.mpr ⟨by decide, List.forall_mem_singleton.mpr (by decide)⟩
    rw [imports_relativeContent]
    simp only [List.forall_mem_cons]
    exact ⟨Block.recognised_ofGroup ha hnames, Or.inl ⟨_, _, hM, .name (by decide), rfl⟩, by simp⟩
  have hexpand : (parse relativeContent).imports.expand =
      [.ofMember "import a".toList ['M'], .ofMember "import a".toList ['N'],
        .ofMember "import M".toList ['X']] := by
    rw [imports_relativeContent]
    cbv
  obtain ⟨hM, hN⟩ := occurs_relativeContent
  obtain ⟨hsettled, hkeptM, hkeptN, hplain⟩ := standard_passes_members
  have hmemM : Statement.ofMember "import a".toList ['M'] ∈ (parse relativeContent).imports.expand := by
    rw [hexpand]
    exact .head _
  have hmemN : Statement.ofMember "import a".toList ['N'] ∈ (parse relativeContent).imports.expand := by
    rw [hexpand]
    exact .tail _ (.head _)
  obtain ⟨hkeeps, -⟩ := tidied_keeps_mentioned hrec (by decide) (by decide) hmemM
    (hsettled _ (.head _)) hkeptM
  obtain ⟨-, hdrops⟩ := tidied_keeps_mentioned hrec (by decide) (by decide) hmemN
    (hsettled _ (.tail _ (.head _))) hkeptN
  refine ⟨hrec, hmemM, hkeeps (Or.inl hM), fun hn => ?_⟩
  rcases hdrops hn with h | h
  · exact Bool.false_ne_true (hN.symm.trans h)
  · exact Bool.false_ne_true (hplain.symm.trans h)

/-- An import that only another import refers to. -/
def danglingContent : Text := "package p\nimport M.X\nimport a.M\nX\n".toList

theorem imports_danglingContent : (parse danglingContent).imports =
    [.ofMember (Statement.keyword ++ [' ', 'M']) ['X'],
      .ofMember (Statement.keyword ++ [' ', 'a']) ['M']] := by
  unfold danglingContent
  rewrite [String.toList_ofList]
  cbv

theorem tidied_danglingContent :
    tidied .standard danglingContent = "package p\n\nimport M.X\n\nX\n".toList := by
  have hsorted : (Rules.standard.prepare (parse danglingContent).imports).Sorted .standard := by
    rw [imports_danglingContent]
    decide +kernel
  unfold tidied normalize Rules.cleanLines Rules.clean
  rw [Rules.select_of_sorted _ hsorted, imports_danglingContent]
  unfold danglingContent
  rewrite [String.toList_ofList, String.toList_ofList]
  decide +kernel

/-- **An import that another import refers to can be dropped.** The tidied file keeps `M.X`, whose
path starts with the name of `a.M`, and imports `a.M` no longer. -/
theorem tidied_drops_relative :
    (∀ s ∈ (parse danglingContent).imports, s.Recognised) ∧
      Statement.ofMember "import a".toList ['M'] ∈ (parse danglingContent).imports ∧
      Rules.standard.Unmoved (.ofMember "import a".toList ['M']) ∧
      (Statement.ofMember "import a".toList ['M']).text ∉ Rules.standard.removes ∧
      Statement.ofMember "import M".toList ['X'] ∈
        (parse (tidied .standard danglingContent)).imports.expand ∧
      Statement.ofMember "import a".toList ['M'] ∉
        (parse (tidied .standard danglingContent)).imports.expand ∧
      Statement.ofMember "import a".toList Statement.wildcardSelector ∉
        (parse (tidied .standard danglingContent)).imports.expand := by
  have hrec : ∀ s ∈ (parse danglingContent).imports, s.Recognised := by
    have ha := Statement.isQualifier_name (n := ['a']) (by decide)
    have hM := Statement.isQualifier_name (n := ['M']) (by decide)
    rw [imports_danglingContent]
    simp only [List.forall_mem_cons]
    exact ⟨Or.inl ⟨_, _, hM, .name (by decide), rfl⟩, Or.inl ⟨_, _, ha, .name (by decide), rfl⟩,
      by simp⟩
  have hexpand : (parse (tidied .standard danglingContent)).imports.expand =
      [.ofMember (Statement.keyword ++ [' ', 'M']) ['X']] := by
    rewrite [tidied_danglingContent, String.toList_ofList]
    cbv
  obtain ⟨hsettled, hkept, -⟩ := standard_passes_members
  have hmem : Statement.ofMember "import a".toList ['M'] ∈ (parse danglingContent).imports := by
    rw [imports_danglingContent]
    exact .tail _ (.head _)
  rw [hexpand]
  refine ⟨hrec, hmem, hsettled _ (.head _), hkept, .head _, fun h => ?_, fun h => ?_⟩
  · exact absurd (List.mem_singleton.mp h) (by decide)
  · exact absurd (List.mem_singleton.mp h) (by decide)

end SourceFile

end ImportTidy

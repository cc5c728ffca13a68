/-
# ImportTidy.Proofs.Import.Survivors — which statements a compaction leaves as they are

A compacted block has three kinds of statements: texts without a dot, renames, and one statement for
the plain members of each qualifier (`mem_compact`). A rename is always left as it is. A text without
a dot shares its place with the members of the qualifier of the same text, and it is lost as soon as
there is one (`compact_keeps_dotless_iff`). A plain statement is left as it is when no other plain
one has its qualifier (`mem_compact_iff_staysWhole`).
-/
import ImportTidy.Proofs.Import.Grouping

namespace ImportTidy

namespace Statement

variable {s : Statement}

theorem member?_eq_none_iff : s.member? = none ↔ '.' ∉ s.text := by
  rw [member?, Option.map_eq_none_iff, split?, Text.cutLast?_eq_none]

theorem IsAliased.member?_ne_none (h : s.IsAliased) : s.member? ≠ none := by
  obtain ⟨m, hm, -⟩ := h
  rw [hm]
  exact Option.some_ne_none m

theorem isAliased_ofMember {q m : Text} (hdot : '.' ∉ m) :
    (ofMember q m).IsAliased ↔ Block.isRenaming m = true := by
  simp only [IsAliased, member?_ofMember hdot, Option.some.injEq, exists_eq_left']

end Statement

namespace Block

variable {t : Nat} {b : Block} {s : Statement}

/-! ## The statements of a compacted block -/

theorem under_eq_nil_iff {q : Text} : b.under q = [] ↔ b.members q = [] := by
  rw [← map_members, List.map_eq_nil_iff]

theorem mem_of_isAliased_gathered {q : Text}
    (hs : s ∈ ((b.members q).filter isRenaming).map (Statement.ofMember q)) :
    s ∈ b ∧ s.IsAliased := by
  refine ⟨?_, isAliased_renames hs⟩
  obtain ⟨m, hm, rfl⟩ := List.mem_map.mp hs
  exact (mem_members.mp (List.mem_filter.mp hm).1).2

/-- What a compacted block consists of. -/
theorem mem_compact :
    s ∈ b.compact t ↔
      (s ∈ b ∧ s.member? = none ∧ b.under s.text = []) ∨ (s ∈ b ∧ s.IsAliased) ∨
        ∃ q, s ∈ plainStatement t q (items (b.members q)) := by
  constructor
  · intro hs
    obtain ⟨q, hq, hs⟩ := List.mem_flatMap.mp hs
    by_cases hm : b.members q = []
    · obtain ⟨x, hx, hnone, rfl⟩ := eq_text_of_members_eq_nil hq hm
      rw [hm, gathered, List.mem_singleton] at hs
      subst hs
      exact Or.inl ⟨hx, hnone, under_eq_nil_iff.mpr hm⟩
    · rw [gathered_eq t q hm, List.mem_append] at hs
      rcases hs with hs | hs
      · exact Or.inr (Or.inr ⟨q, hs⟩)
      · exact Or.inr (Or.inl (mem_of_isAliased_gathered hs))
  · rintro (⟨hs, hnone, hunder⟩ | ⟨hs, m, hm, hrename⟩ | ⟨q, hs⟩)
    · have hq := (Statement.qualifier_of_member?_eq_none hnone).1
      refine List.mem_flatMap.mpr ⟨s.text, mem_qualifiers.mpr ⟨s, hs, hq⟩, ?_⟩
      rw [under_eq_nil_iff.mp hunder, gathered]
      exact List.mem_singleton_self s
    · obtain ⟨heq, hdot⟩ := Statement.eq_ofMember_of_member? hm
      have hmem : m ∈ b.members s.qualifier := mem_members.mpr ⟨hdot, heq ▸ hs⟩
      have hne := List.ne_nil_of_mem hmem
      refine List.mem_flatMap.mpr ⟨s.qualifier, mem_qualifiers_of_members hne, ?_⟩
      rw [gathered_eq t _ hne]
      apply List.mem_append_right
      exact List.mem_map.mpr ⟨m, List.mem_filter.mpr ⟨hmem, hrename⟩, heq.symm⟩
    · have hne : b.members q ≠ [] := by
        intro hnil
        rw [hnil] at hs
        exact absurd hs List.not_mem_nil
      refine List.mem_flatMap.mpr ⟨q, mem_qualifiers_of_members hne, ?_⟩
      rw [gathered_eq t q hne]
      exact List.mem_append_left _ hs

/-! ## Statements without a dot -/

theorem mem_compact_of_dotless (hdot : '.' ∉ s.text) :
    s ∈ b.compact t ↔ s ∈ b ∧ b.under s.text = [] := by
  have hnone := Statement.member?_eq_none_iff.mpr hdot
  rw [mem_compact]
  constructor
  · rintro (⟨hs, -, hunder⟩ | ⟨-, haliased⟩ | ⟨q, hs⟩)
    · exact ⟨hs, hunder⟩
    · exact absurd hnone haliased.member?_ne_none
    · -- what is made of members has a dot
      obtain ⟨m, rfl, -⟩ := mem_plainStatement hs
      exact absurd (by simp [Statement.ofMember]) hdot
  · rintro ⟨hs, hunder⟩
    exact Or.inl ⟨hs, hnone, hunder⟩

/-- **A statement without a dot is kept where nothing is imported from it.** It is in the compacted
block exactly when it is in the block and no statement of the block has its text before the last
dot. -/
theorem compact_keeps_dotless_iff (hdot : '.' ∉ s.text) :
    s ∈ b.compact t ↔ s ∈ b ∧ ∀ x ∈ b, x.split?.map Prod.fst ≠ some s.text := by
  rw [mem_compact_of_dotless hdot]
  simp only [under, List.filter_eq_nil_iff, beq_iff_eq, ne_eq]

/-- Nothing is imported from `foo`, only from what lies below it. -/
theorem compact_keeps_dotless_below :
    '.' ∉ "import foo".toList ∧
      (⟨"import foo".toList⟩ : Statement) ∈
        compact 2 [⟨"import foo.bar.Baz".toList⟩, ⟨"import foo".toList⟩, ⟨"import foo".toList⟩] := by
  have hdot : '.' ∉ "import foo".toList := by decide +kernel
  exact ⟨hdot, (compact_keeps_dotless_iff hdot).mpr (by decide +kernel)⟩

/-- `foo` is lost beside a member of it. -/
theorem compact_loses_dotless :
    '.' ∉ "import foo".toList ∧
      (⟨"import foo".toList⟩ : Statement) ∈
        ([⟨"import foo".toList⟩, ⟨"import foo.Bar".toList⟩] : Block) ∧
      (⟨"import foo".toList⟩ : Statement) ∉
        compact 2 [⟨"import foo".toList⟩, ⟨"import foo.Bar".toList⟩] := by
  decide +kernel

/-! ## Plain statements -/

/-- The plain members have the statement of the only one, a group or the wildcard. -/
theorem plainStatement_cases {q : Text} {members : List Text}
    (hs : s ∈ plainStatement t q members) :
    (∃ m, members = [m] ∧ s = .ofMember q m) ∨ s = .ofGroup q members ∨
      s = .ofMember q Statement.wildcardSelector := by
  unfold plainStatement at hs
  split at hs
  · exact absurd hs List.not_mem_nil
  · exact Or.inl ⟨_, rfl, List.mem_singleton.mp hs⟩
  · split at hs
    · exact Or.inr (Or.inl (List.mem_singleton.mp hs))
    · exact Or.inr (Or.inr (List.mem_singleton.mp hs))

theorem items_eq_singleton_iff {ms : List Text} (hn : ms.Nodup) {m : Text} :
    items ms = [m] ↔ m ∈ items ms ∧ ∀ x ∈ items ms, x = m := by
  have hitems : (items ms).Nodup := (perm_items hn).nodup_iff.mpr (hn.sublist List.filter_sublist)
  constructor
  · intro h
    rw [h]
    exact ⟨List.mem_singleton_self m, fun x => List.mem_singleton.mp⟩
  · rintro ⟨hmem, hall⟩
    match h : items ms with
    | [] => exact absurd (h ▸ hmem) List.not_mem_nil
    | [x] => rw [hall x (by simp [h])]
    | x :: y :: more =>
        rw [h] at hitems
        have hx := hall x (by simp [h])
        have hy := hall y (by simp [h])
        exact absurd (by simp [hx, hy]) (List.nodup_cons.mp hitems).1

theorem getLast?_ofGroup (q : Text) (members : List Text) :
    (Statement.ofGroup q members).text.getLast? = some '\x7d' := by
  have htext : (Statement.ofGroup q members).text =
      (q ++ '.' :: '\x7b' :: Text.join ", ".toList members) ++ ['\x7d'] := by
    simp [Statement.ofGroup, Statement.ofMember]
  rw [htext, List.getLast?_concat]

/-- A plain member keeps its statement when it is the only one. A text in braces could be a group,
and a wildcard could stand for too many members. -/
theorem ofMember_mem_compact_iff {q m : Text} (hdot : '.' ∉ m)
    (hplain : isRenaming m = false) (hwild : m ≠ Statement.wildcardSelector)
    (hbrace : (Statement.ofMember q m).text.getLast? ≠ some '\x7d') :
    Statement.ofMember q m ∈ b.compact t ↔ items (b.members q) = [m] := by
  have hmember := Statement.member?_ofMember (q := q) hdot
  rw [mem_compact]
  constructor
  · rintro (⟨-, hnone, -⟩ | ⟨-, haliased⟩ | ⟨p, hs⟩)
    · rw [hmember] at hnone
      exact absurd hnone (Option.some_ne_none m)
    · rw [Statement.isAliased_ofMember hdot, hplain] at haliased
      exact absurd haliased Bool.false_ne_true
    · have hdots : ∀ x ∈ items (b.members p), '.' ∉ x := fun x hx =>
        (mem_members.mp (mem_of_mem_items hx).1).1
      rcases plainStatement_cases hs with ⟨x, hx, heq⟩ | heq | heq
      · obtain ⟨rfl, rfl⟩ := Statement.ofMember_inj hdot (hdots x (by simp [hx])) heq
        exact hx
      · rw [heq] at hbrace
        exact absurd (getLast?_ofGroup p _) hbrace
      · exact absurd (Statement.ofMember_inj hdot (by decide) heq).2 hwild
  · intro h
    refine Or.inr (Or.inr ⟨q, ?_⟩)
    rw [h]
    exact List.mem_singleton_self _

/-- The statement is in the block, and it is a rename or the only one that imports from its
qualifier, renames aside. From a statement without a dot nothing is imported at all. -/
def StaysWhole (b : Block) (s : Statement) : Prop :=
  s ∈ b ∧ (s.IsAliased ∨ ∀ x ∈ b.under s.qualifier, x = s ∨ x.IsAliased ∧ '.' ∈ s.text)

theorem staysWhole_iff_of_dotless (hdot : '.' ∉ s.text) :
    b.StaysWhole s ↔ s ∈ b ∧ b.under s.text = [] := by
  have hnone := Statement.member?_eq_none_iff.mpr hdot
  rw [StaysWhole, (Statement.qualifier_of_member?_eq_none hnone).1]
  refine and_congr_right fun _ => ⟨?_, ?_⟩
  · rintro (haliased | hall)
    · exact absurd hnone haliased.member?_ne_none
    · rw [List.eq_nil_iff_forall_not_mem]
      intro x hx
      obtain ⟨-, m, -, rfl⟩ := mem_under.mp hx
      rcases hall _ hx with heq | ⟨-, hmem⟩
      · exact hdot (by rw [← heq]; simp [Statement.ofMember])
      · exact hdot hmem
  · intro hnil
    rw [hnil]
    exact Or.inr fun x hx => absurd hx List.not_mem_nil

theorem staysWhole_ofMember_iff {q m : Text} (hb : b.Nodup) (hdot : '.' ∉ m)
    (hplain : isRenaming m = false) :
    b.StaysWhole (.ofMember q m) ↔ items (b.members q) = [m] := by
  have hn := nodup_members hb q
  rw [items_eq_singleton_iff hn, mem_items hn, mem_members, StaysWhole,
    Statement.qualifier_ofMember hdot]
  constructor
  · rintro ⟨hs, haliased | hall⟩
    · rw [Statement.isAliased_ofMember hdot, hplain] at haliased
      exact absurd haliased Bool.false_ne_true
    · refine ⟨⟨⟨hdot, hs⟩, hplain⟩, fun n hitem => ?_⟩
      obtain ⟨hmem, hplain'⟩ := (mem_items hn).mp hitem
      obtain ⟨hdot', hs'⟩ := mem_members.mp hmem
      rcases hall _ (mem_under.mpr ⟨hs', n, hdot', rfl⟩) with heq | ⟨haliased, -⟩
      · exact Statement.ofMember_injective heq
      · rw [Statement.isAliased_ofMember hdot', hplain'] at haliased
        exact absurd haliased Bool.false_ne_true
  · rintro ⟨⟨⟨-, hs⟩, -⟩, hall⟩
    refine ⟨hs, Or.inr fun x hx => ?_⟩
    obtain ⟨hx, n, hdotn, rfl⟩ := mem_under.mp hx
    by_cases hrename : isRenaming n = true
    · exact Or.inr ⟨(Statement.isAliased_ofMember hdotn).mpr hrename, by simp [Statement.ofMember]⟩
    · have hitem : n ∈ items (b.members q) :=
        (mem_items hn).mpr ⟨mem_members.mpr ⟨hdotn, hx⟩, Bool.eq_false_iff.mpr hrename⟩
      exact Or.inl (by rw [hall n hitem])

/-- **A statement is left as it is** where it is a rename or has no company. -/
theorem mem_compact_iff_staysWhole (hb : b.Nodup) (hbrace : s.text.getLast? ≠ some '\x7d')
    (hwild : s.isWildcard = false) : s ∈ b.compact t ↔ b.StaysWhole s := by
  rcases hm : s.member? with _ | m
  · have hdot := Statement.member?_eq_none_iff.mp hm
    rw [mem_compact_of_dotless hdot, staysWhole_iff_of_dotless hdot]
  · obtain ⟨heq, hdot⟩ := Statement.eq_ofMember_of_member? hm
    by_cases hrename : isRenaming m = true
    · have haliased : s.IsAliased := ⟨m, hm, hrename⟩
      rw [mem_compact]
      constructor
      · rintro (⟨hs, -⟩ | ⟨hs, -⟩ | ⟨q, hs⟩)
        · exact ⟨hs, Or.inl haliased⟩
        · exact ⟨hs, Or.inl haliased⟩
        · exact absurd haliased (not_isAliased_plainStatement hs)
      · rintro ⟨hs, -⟩
        exact Or.inr (Or.inl ⟨hs, haliased⟩)
    · have hplain := Bool.eq_false_iff.mpr hrename
      rw [heq] at hbrace hwild ⊢
      have hne : m ≠ Statement.wildcardSelector := by
        rintro rfl
        rw [Statement.isWildcard, Statement.trailing, Statement.split?_ofMember hdot] at hwild
        exact Bool.noConfusion hwild
      rw [ofMember_mem_compact_iff hdot hplain hne hbrace, staysWhole_ofMember_iff hb hdot hplain]

end Block

end ImportTidy

/-
# ImportTidy.Proofs.Import.Cleaning — a cleaned block imports what was wanted, and nothing else

The statements that a file wants are its rewritten ones that are neither to be removed nor unused. A
cleaned block expands to them, with the wildcard in the place of the plain statements of a qualifier
that has too many. How the statements were written down does not matter: blocks that expand to the
same ones are cleaned to the same block (`clean_canonical`). The second half of the module is about
cleaning once more. The wildcards of the first time cannot collapse again, so the second time no
qualifier has too many statements; and where that is so and no rewrite applies, cleaning keeps the
very same list.
-/
import ImportTidy.Proofs.Import.Compaction

namespace ImportTidy

namespace Rules

variable {r : Rules} {code : Text} {b : Block}

/-! ## A cleaned block expanded -/

/-- A cleaned block expands to what was selected, with a wildcard for the plain statements of a
qualifier that has too many of them. -/
theorem mem_expand_clean (hr : r.defect? = none) (hb : ∀ s ∈ r.select code b, s.WellShaped)
    {s : Statement} :
    s ∈ (r.clean code b).expand ↔
      (s ∈ r.select code b ∧
          (s.isRename = true ∨ ¬ Block.Reaches r.groupThreshold (r.select code b) s.qualifier)) ∨
        ∃ q, Block.Reaches r.groupThreshold (r.select code b) q ∧
          s = Statement.ofMember q Statement.wildcardSelector :=
  Block.mem_expand_compact_of_wellShaped (r.two_le_groupThreshold hr) hb (r.nodup_select code b)

/-! ## What a file wants -/

/-- The rewritten statements that are neither to be removed nor unused. -/
def wanted (r : Rules) (code : Text) (b : Block) : Block :=
  (r.rewritten b).filter fun s => !r.removes.contains s.text && r.isUsed code s

theorem mem_wanted_iff_mem_select {s : Statement} : s ∈ r.wanted code b ↔ s ∈ r.select code b := by
  rw [wanted, List.mem_filter, mem_select]
  simp

/-- **Cleaning loses no wanted statement and invents none.** Each wanted statement is imported by the
cleaned block, itself or through the wildcard of a qualifier with too many of them, and the cleaned
block imports nothing but these. -/
theorem clean_imports_wanted (hr : r.defect? = none) (code : Text) (b : Block)
    (hb : ∀ s ∈ r.rewritten b, s.WellShaped) :
    (∀ u ∈ r.wanted code b,
      u ∈ (r.clean code b).expand ∨
        (Statement.ofMember u.qualifier Statement.wildcardSelector ∈ (r.clean code b).expand ∧
          Block.Reaches r.groupThreshold (r.wanted code b) u.qualifier)) ∧
    ∀ s ∈ (r.clean code b).expand,
      s ∈ r.wanted code b ∨
        ∃ q, Block.Reaches r.groupThreshold (r.wanted code b) q ∧
          s = Statement.ofMember q Statement.wildcardSelector := by
  have hselect : ∀ s ∈ r.select code b, s.WellShaped := fun s hs => hb s (r.mem_select.mp hs).1
  have hreach : ∀ q, Block.Reaches r.groupThreshold (r.wanted code b) q ↔
      Block.Reaches r.groupThreshold (r.select code b) q :=
    Block.reaches_congr fun s => mem_wanted_iff_mem_select
  constructor
  · intro u hu
    rw [mem_wanted_iff_mem_select] at hu
    by_cases hq : Block.Reaches r.groupThreshold (r.select code b) u.qualifier
    · exact Or.inr ⟨(mem_expand_clean hr hselect).mpr (Or.inr ⟨_, hq, rfl⟩), (hreach _).mpr hq⟩
    · exact Or.inl ((mem_expand_clean hr hselect).mpr (Or.inl ⟨hu, Or.inr hq⟩))
  · intro s hs
    rcases (mem_expand_clean hr hselect).mp hs with ⟨h, -⟩ | ⟨q, hq, he⟩
    · exact Or.inl (mem_wanted_iff_mem_select.mpr h)
    · exact Or.inr ⟨q, (hreach q).mpr hq, he⟩

/-- The standard tables, but already two members collapse. -/
def eager : Rules := { standard with groupThreshold := 2 }

/-- Two members that collapse, a rename beside them, a single member and an unused one. -/
def crowded : Block :=
  [⟨"import a.\x7bB, C\x7d".toList⟩, ⟨"import a.\x7bD => E\x7d".toList⟩,
    ⟨"import concurrent.Y".toList⟩, ⟨"import z.Z".toList⟩]

theorem wellShaped_rewritten_crowded : ∀ s ∈ eager.rewritten crowded, s.WellShaped := by
  have ha := Statement.isQualifier_name (n := ['a']) (by decide)
  have hz := Statement.isQualifier_name (n := ['z']) (by decide)
  have hc : Statement.IsQualifier "import scala.concurrent".toList :=
    ⟨["scala".toList, "concurrent".toList], by decide, by decide +kernel, by decide⟩
  have hd : Statement.IsSelector "\x7bD => E\x7d".toList :=
    @Statement.isSelector_alias ['D'] ['E'] (by decide) (by decide)
  have heq : eager.rewritten crowded =
      [.ofMember (Statement.keyword ++ [' ', 'a']) ['B'],
        .ofMember (Statement.keyword ++ [' ', 'a']) ['C'],
        .ofMember (Statement.keyword ++ [' ', 'a']) "\x7bD => E\x7d".toList,
        .ofMember "import scala.concurrent".toList ['Y'],
        .ofMember (Statement.keyword ++ [' ', 'z']) ['Z']] := by
    decide +kernel
  rw [heq]
  simp only [List.forall_mem_cons]
  exact ⟨⟨_, _, ha, .name (by decide), rfl⟩, ⟨_, _, ha, .name (by decide), rfl⟩,
    ⟨_, _, ha, hd, rfl⟩, ⟨_, _, hc, .name (by decide), rfl⟩, ⟨_, _, hz, .name (by decide), rfl⟩,
    by simp⟩

theorem clean_imports_wanted_crowded :
    eager.defect? = none ∧ (∀ s ∈ eager.rewritten crowded, s.WellShaped) ∧
    (∀ u ∈ eager.wanted "B C Y".toList crowded,
      u ∈ (eager.clean "B C Y".toList crowded).expand ∨
        (Statement.ofMember u.qualifier Statement.wildcardSelector ∈
            (eager.clean "B C Y".toList crowded).expand ∧
          Block.Reaches eager.groupThreshold (eager.wanted "B C Y".toList crowded) u.qualifier)) ∧
    ∀ s ∈ (eager.clean "B C Y".toList crowded).expand,
      s ∈ eager.wanted "B C Y".toList crowded ∨
        ∃ q, Block.Reaches eager.groupThreshold (eager.wanted "B C Y".toList crowded) q ∧
          s = Statement.ofMember q Statement.wildcardSelector :=
  ⟨by decide, wellShaped_rewritten_crowded,
    clean_imports_wanted (by decide) _ _ wellShaped_rewritten_crowded⟩

/-! ## One cleaned block for one set of statements -/

/-- **A cleaned block is a canonical form.** Two blocks that expand to the same statements, however
these are ordered, repeated and put in groups, are cleaned to the same block and the same lines. Two
statements with one path would be an exception, since nothing but their order in the block tells
which of them comes first. -/
theorem clean_canonical (r : Rules) (code : Text) {b c : Block}
    (hsame : ∀ s, s ∈ b.expand ↔ s ∈ c.expand) (hpaths : (r.rewritten b).PathsDiffer) :
    r.cleanLines code b = r.cleanLines code c ∧ r.clean code b = r.clean code c := by
  have hclean : r.clean code b = r.clean code c := by
    rw [clean, clean, r.select_congr hpaths hsame]
  exact ⟨by rw [cleanLines, cleanLines, hclean], hclean⟩

/-- The statements of `crowded` one by one and in another order, one of them twice. -/
def scattered : Block :=
  [⟨"import z.Z".toList⟩, ⟨"import a.C".toList⟩, ⟨"import a.\x7bD => E\x7d".toList⟩,
    ⟨"import a.B".toList⟩, ⟨"import concurrent.Y".toList⟩, ⟨"import a.C".toList⟩]

theorem clean_canonical_scattered :
    (∀ s, s ∈ crowded.expand ↔ s ∈ scattered.expand) ∧ (eager.rewritten crowded).PathsDiffer ∧
      eager.cleanLines "B C Y".toList crowded = eager.cleanLines "B C Y".toList scattered ∧
      eager.clean "B C Y".toList crowded = eager.clean "B C Y".toList scattered := by
  have hcrowded : crowded.expand ⊆ scattered.expand := by decide +kernel
  have hscattered : scattered.expand ⊆ crowded.expand := by decide +kernel
  have hsame : ∀ s, s ∈ crowded.expand ↔ s ∈ scattered.expand :=
    fun s => ⟨fun h => hcrowded h, fun h => hscattered h⟩
  have hpaths : (eager.rewritten crowded).PathsDiffer := by
    intro x hx y hy
    exact Statement.Regular.eq_of_path_eq (Or.inl (wellShaped_rewritten_crowded x hx))
      (Or.inl (wellShaped_rewritten_crowded y hy))
  exact ⟨hsame, hpaths, clean_canonical eager _ hsame hpaths⟩

/-! ## Cleaning once more -/

/-- No rewrite finds anything in the statement. -/
def Unmoved (r : Rules) (s : Statement) : Prop :=
  ∀ rule ∈ r.rewrites, s.isRewritten rule.source = false

/-- No rewrite finds anything in a statement of the block. -/
def Settled (r : Rules) (b : Block) : Prop := ∀ s ∈ b, r.Unmoved s

instance (r : Rules) (b : Block) : Decidable (r.Settled b) :=
  inferInstanceAs (Decidable (∀ s ∈ b, ∀ rule ∈ r.rewrites, s.isRewritten rule.source = false))

theorem rewrite_eq_self {s : Statement} {source : Text} (h : s.isRewritten source = false)
    (target : Text) : s.rewrite source target = s :=
  congrArg Statement.mk (Text.replaceFirst_of_not_infix (Text.occurs_eq_false_iff.mp h))

/-- Rules that find nothing change nothing. -/
theorem foldl_rewrite_eq_self {s : Statement} {rules : List Rewrite}
    (h : ∀ rule ∈ rules, s.isRewritten rule.source = false) :
    rules.foldl (fun s rule => s.rewrite rule.source rule.target) s = s := by
  induction rules with
  | nil => rfl
  | cons rule rules ih =>
      rw [List.foldl_cons, rewrite_eq_self (h rule List.mem_cons_self)]
      exact ih fun x hx => h x (List.mem_cons_of_mem rule hx)

theorem rewritten_of_settled (h : r.Settled b.expand) : r.rewritten b = b.expand := by
  calc b.expand.map r.rewriteAll
      = b.expand.map id := List.map_congr_left fun s hs => foldl_rewrite_eq_self (h s hs)
    _ = b.expand := List.map_id _

theorem mem_select_of_settled (h : r.Settled b.expand) {s : Statement} :
    s ∈ r.select code b ↔ s ∈ b.expand ∧ s.text ∉ r.removes ∧ r.isUsed code s = true := by
  rw [mem_select, rewritten_of_settled h]

theorem pathsDiffer_of_regular (h : ∀ s ∈ b, s.Regular) : b.PathsDiffer :=
  fun x hx y hy => (h x hx).eq_of_path_eq (h y hy)

section WellShaped

variable (hr : r.defect? = none) (hb : ∀ s ∈ r.select code b, s.WellShaped)

include hr hb

/-- Where nothing collapses, a cleaned block expands to the statements that were selected. -/
theorem mem_expand_clean_of_not_reaches
    (hc : ∀ q, ¬ Block.Reaches r.groupThreshold (r.select code b) q) {s : Statement} :
    s ∈ (r.clean code b).expand ↔ s ∈ r.select code b := by
  rw [mem_expand_clean hr hb]
  constructor
  · rintro (⟨hs, -⟩ | ⟨q, hq, -⟩)
    · exact hs
    · exact absurd hq (hc q)
  · intro hs
    exact Or.inl ⟨hs, Or.inr (hc _)⟩

/-- Collapsed or not, the statements of a cleaned block are well-shaped. -/
theorem wellShaped_of_mem_expand_clean :
    ∀ s ∈ (r.clean code b).expand, s.WellShaped := by
  intro s hs
  rcases (mem_expand_clean hr hb).mp hs with ⟨hs, -⟩ | ⟨q, hq, rfl⟩
  · exact hb s hs
  · obtain ⟨m, hm⟩ := List.exists_mem_of_ne_nil _
      (Block.members_ne_nil_of_reaches (r.two_le_groupThreshold hr) hq)
    exact ⟨q, _, (Block.shape_of_mem_members (fun x hx => Or.inl (hb x hx)) hm).1, .wildcard, rfl⟩

theorem wellShaped_select_clean (hs : r.Settled (r.clean code b).expand) :
    ∀ s ∈ r.select code (r.clean code b), s.WellShaped := by
  intro s hmem
  exact wellShaped_of_mem_expand_clean hr hb s ((mem_select_of_settled hs).mp hmem).1

/-- **Nothing collapses twice.** A qualifier that collapsed has a single plain statement left, and
any other has at most those that it had. -/
theorem not_reaches_select_clean (hs : r.Settled (r.clean code b).expand) (q : Text) :
    ¬ Block.Reaches r.groupThreshold (r.select code (r.clean code b)) q := by
  intro hreach
  have ht := r.two_le_groupThreshold hr
  -- a plain statement of the second time was kept from the first or is a collapsed wildcard
  have hplain : ∀ s ∈ (r.select code (r.clean code b)).plainUnder q,
      (s ∈ (r.select code b).plainUnder q ∧
          ¬ Block.Reaches r.groupThreshold (r.select code b) q) ∨
        (Block.Reaches r.groupThreshold (r.select code b) q ∧
          s = Statement.ofMember q Statement.wildcardSelector) := by
    intro s hmem
    obtain ⟨hunder, hren⟩ := Block.mem_plainUnder.mp hmem
    obtain ⟨hsel, m, hm, rfl⟩ := Block.mem_under.mp hunder
    rcases (mem_expand_clean hr hb).mp ((mem_select_of_settled hs).mp hsel).1 with
      ⟨hfirst, hkeep⟩ | ⟨p, hp, he⟩
    · rw [Statement.qualifier_ofMember hm, hren] at hkeep
      refine Or.inl ⟨Block.mem_plainUnder.mpr ⟨?_, hren⟩, hkeep.resolve_left (by simp)⟩
      exact Block.mem_under.mpr ⟨hfirst, m, hm, rfl⟩
    · obtain ⟨rfl, rfl⟩ := Statement.ofMember_inj hm (by decide) he
      exact Or.inr ⟨hp, rfl⟩
  by_cases hfirst : Block.Reaches r.groupThreshold (r.select code b) q
  · -- one statement is fewer than the threshold
    have hone : ((r.select code (r.clean code b)).plainUnder q).dedup.length ≤
        [Statement.ofMember q Statement.wildcardSelector].length := by
      apply (Block.nodup_eraseDups _).length_le_of_subset
      intro s hmem
      rcases hplain s (Block.mem_dedup.mp hmem) with ⟨-, hn⟩ | ⟨-, rfl⟩
      · exact absurd hfirst hn
      · exact List.mem_singleton_self _
    have hle : r.groupThreshold ≤ _ := Nat.le_trans hreach hone
    exact absurd (Nat.le_trans ht hle) (by simp)
  · -- there are no more than there were
    apply hfirst
    refine hreach.mono ?_
    intro s hmem
    rcases hplain s hmem with ⟨h, -⟩ | ⟨h, -⟩
    · exact h
    · exact absurd h hfirst

theorem settled_clean_clean (hs : r.Settled (r.clean code b).expand) :
    r.Settled (r.clean code (r.clean code b)).expand := by
  intro s hmem
  rw [mem_expand_clean_of_not_reaches hr (wellShaped_select_clean hr hb hs)
    (not_reaches_select_clean hr hb hs), mem_select_of_settled hs] at hmem
  exact hs s hmem.1

/-- **Cleaning keeps a block that it made without collapsing anything.** -/
theorem clean_clean (hc : ∀ q, ¬ Block.Reaches r.groupThreshold (r.select code b) q)
    (hs : r.Settled (r.clean code b).expand) :
    r.clean code (r.clean code b) = r.clean code b := by
  have hselect : r.select code (r.clean code b) = r.select code b := by
    apply r.select_eq_of_mem_iff (pathsDiffer_of_regular fun s h => Or.inl (hb s h))
      (r.sorted_select code b) (r.nodup_select code b)
    intro s
    rw [mem_select_of_settled hs, mem_expand_clean_of_not_reaches hr hb hc]
    constructor
    · intro hmem
      exact ⟨hmem, (r.mem_select.mp hmem).2⟩
    · exact fun h => h.1
  show (r.select code (r.clean code b)).compact r.groupThreshold = _
  rw [hselect]
  rfl

end WellShaped

end Rules

end ImportTidy

/-
# ImportTidy.Proofs.Import.Leaders — the order of qualifiers, and when cleaning again keeps it

Compaction keeps the qualifiers in the order of their first statements. Cleaned again, a block has
its statements sorted anew, and the first statement of a qualifier may by then be another one: where
the plain statements collapsed it is the wildcard. That statement is the *leader* of the qualifier.
A block that no rewrite and no removal touches is cleaned to itself exactly when the leaders of its
qualifiers are in order (`clean_clean_iff`).
-/
import ImportTidy.Proofs.Import.Cleaning

namespace ImportTidy

namespace Block

variable {t : Nat} {b : Block}

/-! ## The order of qualifiers -/

/-- Of copies that stand side by side, one each is left. -/
theorem eraseDups_flatMap {qs : List Text} {f : Text → List Text} (hn : qs.Nodup)
    (hne : ∀ q ∈ qs, f q ≠ []) (hf : ∀ q ∈ qs, ∀ x ∈ f q, x = q) :
    (qs.flatMap f).eraseDups = qs := by
  induction qs with
  | nil => rfl
  | cons q qs ih =>
      rw [List.nodup_cons] at hn
      have hfq := hf q List.mem_cons_self
      obtain ⟨x, xs, hx⟩ := List.exists_cons_of_ne_nil (hne q List.mem_cons_self)
      rw [hx] at hfq
      obtain rfl : x = q := hfq x List.mem_cons_self
      have hcopies : (xs.filter fun y => !y == x) = [] := by
        rw [List.filter_eq_nil_iff]
        intro y hy
        simp [hfq y (List.mem_cons_of_mem x hy)]
      have hothers : ((qs.flatMap f).filter fun y => !y == x) = qs.flatMap f := by
        rw [List.filter_eq_self]
        intro y hy
        obtain ⟨p, hp, hy⟩ := List.mem_flatMap.mp hy
        have hyp : y = p := hf p (List.mem_cons_of_mem x hp) y hy
        have hne : y ≠ x := by
          rintro rfl
          exact hn.1 (hyp ▸ hp)
        simpa using hne
      rw [List.flatMap_cons, hx, List.cons_append, List.eraseDups_cons, List.filter_append, hcopies,
        hothers, List.nil_append, ih hn.2 (fun p hp => hne p (List.mem_cons_of_mem x hp))
          (fun p hp => hf p (List.mem_cons_of_mem x hp))]

/-- A qualifier comes before another when a statement of it stands before all of the other's. -/
theorem pairwise_qualifiers {R : Statement → Statement → Prop} {b : Block} (h : b.Pairwise R) :
    b.qualifiers.Pairwise fun p q =>
      ∃ x ∈ b, x.qualifier = p ∧ ∀ y ∈ b, y.qualifier = q → R x y := by
  match b with
  | [] => exact .nil
  | s :: b =>
      have hquals : qualifiers (s :: b) =
          s.qualifier :: qualifiers (b.filter fun x => !x.qualifier == s.qualifier) := by
        rw [qualifiers, List.map_cons, List.eraseDups_cons, List.filter_map]
        rfl
      have hrest : ∀ {q y}, q ∈ qualifiers (b.filter fun x => !x.qualifier == s.qualifier) →
          y ∈ s :: b → y.qualifier = q →
            y ∈ b.filter fun x => !x.qualifier == s.qualifier := by
        intro q y hq hy hyq
        obtain ⟨z, hz, rfl⟩ := mem_qualifiers.mp hq
        have hne := (List.mem_filter.mp hz).2
        rw [← hyq] at hne
        rcases List.mem_cons.mp hy with rfl | hy
        · exact absurd hne (by simp)
        · exact List.mem_filter.mpr ⟨hy, hne⟩
      obtain ⟨hhead, htail⟩ := List.pairwise_cons.mp h
      rw [hquals, List.pairwise_cons]
      constructor
      · intro q hq
        refine ⟨s, List.mem_cons_self, rfl, fun y hy hyq => hhead y ?_⟩
        exact (List.mem_filter.mp (hrest hq hy hyq)).1
      · have hfilter := pairwise_qualifiers
          (htail.sublist (List.filter_sublist (p := fun x => !x.qualifier == s.qualifier)))
        refine hfilter.imp_of_mem ?_
        rintro p q - hq ⟨x, hx, hxp, hall⟩
        exact ⟨x, List.mem_cons_of_mem s (List.mem_filter.mp hx).1, hxp,
          fun y hy hyq => hall y (hrest hq hy hyq) hyq⟩
termination_by b.length
decreasing_by exact Nat.lt_succ_of_le (List.length_filter_le _ _)

/-! ## Leaders -/

/-- The statement that comes first among those of the qualifier once the block was compacted: the
wildcard when they collapse. -/
def leader (t : Nat) (b : Block) (q : Text) : Statement :=
  if Reaches t b q then .ofMember q Statement.wildcardSelector
  else match b.members q with
    | [] => ⟨q⟩
    | m :: _ => .ofMember q m

/-- The leaders of the qualifiers stand in the order of the rules. -/
def LeadersInOrder (r : Rules) (b : Block) : Prop :=
  Sorted r (b.qualifiers.map (b.leader r.groupThreshold))

instance (r : Rules) (b : Block) : Decidable (b.LeadersInOrder r) :=
  inferInstanceAs (Decidable (Sorted _ _))

theorem leader_of_reaches {q : Text} (h : Reaches t b q) :
    b.leader t q = .ofMember q Statement.wildcardSelector := if_pos h

theorem leader_of_members {q m : Text} {ms : List Text} (h : ¬ Reaches t b q)
    (hm : b.members q = m :: ms) : b.leader t q = .ofMember q m := by
  rw [leader, if_neg h, hm]

theorem leader_of_members_nil (ht : 2 ≤ t) {q : Text} (h : b.members q = []) :
    b.leader t q = ⟨q⟩ := by
  rw [leader, if_neg fun hr => members_ne_nil_of_reaches ht hr h, h]

section Regular

variable (ht : 2 ≤ t) (hb : ∀ s ∈ b, s.Regular) (hn : b.Nodup)

include ht hb hn

/-- What is gathered for a qualifier expands to statements of that qualifier. -/
theorem qualifier_of_mem_expand_gathered {q : Text} (hq : q ∈ b.qualifiers) {s : Statement}
    (hs : s ∈ expand (gathered t q (b.members q))) : s.qualifier = q := by
  have hunder : s ∈ b.under q → s.qualifier = q := by
    intro h
    obtain ⟨-, m, hm, rfl⟩ := mem_under.mp h
    exact Statement.qualifier_ofMember hm
  by_cases hm : b.members q = []
  · obtain ⟨x, hx, hnone, rfl⟩ := eq_text_of_members_eq_nil hq hm
    rw [expand_gathered_nil hb hx hm, List.mem_singleton] at hs
    subst hs
    exact (Statement.qualifier_of_member?_eq_none hnone).1
  · rcases (mem_expand_gathered ht hb hn hm).mp hs with ⟨h, -⟩ | ⟨h, -⟩ | ⟨-, rfl⟩
    · exact hunder h
    · exact hunder (mem_plainUnder.mp h).1
    · exact Statement.qualifier_ofMember (by decide)

theorem mem_expand_compact_iff {s : Statement} :
    s ∈ (b.compact t).expand ↔
      s.qualifier ∈ b.qualifiers ∧ s ∈ expand (gathered t s.qualifier (b.members s.qualifier)) := by
  rw [compact, expand_flatMap, List.mem_flatMap]
  constructor
  · rintro ⟨q, hq, hs⟩
    obtain rfl := qualifier_of_mem_expand_gathered ht hb hn hq hs
    exact ⟨hq, hs⟩
  · rintro ⟨hq, hs⟩
    exact ⟨_, hq, hs⟩

/-- The leader is one of the statements that are gathered. -/
theorem leader_mem_expand_gathered {q : Text} (hq : q ∈ b.qualifiers) :
    b.leader t q ∈ expand (gathered t q (b.members q)) := by
  rcases hm : b.members q with _ | ⟨m, ms⟩
  · obtain ⟨x, hx, -, rfl⟩ := eq_text_of_members_eq_nil hq hm
    rw [leader_of_members_nil ht hm, ← hm, expand_gathered_nil hb hx hm]
    exact List.mem_singleton_self x
  · have hne : b.members q ≠ [] := by simp [hm]
    rw [← hm, mem_expand_gathered ht hb hn hne]
    by_cases hr : Reaches t b q
    · exact Or.inr (Or.inr ⟨hr, leader_of_reaches hr⟩)
    · rw [leader_of_members hr hm]
      have hu : Statement.ofMember q m ∈ b.under q := by
        rw [← map_members, hm]
        exact List.mem_cons_self
      rcases hren : (Statement.ofMember q m).isRename with _ | _
      · exact Or.inr (Or.inl ⟨mem_plainUnder.mpr ⟨hu, hren⟩, hr⟩)
      · exact Or.inl ⟨hu, rfl⟩

theorem qualifier_leader {q : Text} (hq : q ∈ b.qualifiers) : (b.leader t q).qualifier = q :=
  qualifier_of_mem_expand_gathered ht hb hn hq (leader_mem_expand_gathered ht hb hn hq)

end Regular

theorem wildcardLast_eq_nil {ms : List Text} : wildcardLast ms = [] ↔ ms = [] := by
  unfold wildcardLast
  split
  · rename_i hw
    have hne : ms ≠ [] := by
      rintro rfl
      exact absurd hw (by simp)
    simp [hne]
  · rfl

theorem plainStatement_eq_nil {q : Text} {ms : List Text} : plainStatement t q ms = [] ↔ ms = [] := by
  match ms with
  | [] => simp [plainStatement]
  | [m] => simp [plainStatement]
  | m :: m' :: ms =>
      simp only [plainStatement]
      split <;> simp

/-- Something is gathered for every qualifier. -/
theorem gathered_ne_nil (q : Text) (ms : List Text) : gathered t q ms ≠ [] := by
  match ms with
  | [] => simp [gathered]
  | m :: ms =>
      intro hnil
      rw [gathered_eq t q (by simp), List.append_eq_nil_iff, List.map_eq_nil_iff,
        plainStatement_eq_nil, items, wildcardLast_eq_nil] at hnil
      -- the first member is a rename or it is not
      have hplain := List.filter_eq_nil_iff.mp hnil.1 m List.mem_cons_self
      have hrename := List.filter_eq_nil_iff.mp hnil.2 m List.mem_cons_self
      simp_all

/-- **Compaction keeps the qualifiers in their order.** -/
theorem qualifiers_compact : (b.compact t).qualifiers = b.qualifiers := by
  unfold compact
  rw [qualifiers, List.map_flatMap]
  apply eraseDups_flatMap (nodup_qualifiers b)
  · intro q _ hnil
    exact gathered_ne_nil q _ (List.map_eq_nil_iff.mp hnil)
  · intro q hq x hx
    obtain ⟨s, hs, rfl⟩ := List.mem_map.mp hx
    exact qualifier_of_mem_gathered hq hs

end Block

namespace Rules

variable {r : Rules} {code : Text} {b : Block}

/-! ## Leaders of what was selected -/

theorem isUsed_wildcard (q : Text) :
    r.isUsed code (.ofMember q Statement.wildcardSelector) = true := by
  have htrail : (Statement.ofMember q Statement.wildcardSelector).trailing =
      Statement.wildcardSelector := by
    rw [Statement.trailing, Statement.split?_ofMember (by decide)]
  rw [isUsed, Statement.isWildcard, htrail]
  rfl

/-- The wildcard of a qualifier comes before its renames. -/
def WildcardsFirst (r : Rules) (b : Block) : Prop :=
  ∀ s ∈ b, s.isRename = true →
    r.mayPrecede (.ofMember s.qualifier Statement.wildcardSelector) s = true

theorem mayPrecede_refl (r : Rules) (s : Statement) : r.mayPrecede s s = true := by
  simpa using r.mayPrecede_total s s

/-- The leader comes before everything else that is gathered with it. -/
theorem leader_mayPrecede (ht : 2 ≤ r.groupThreshold) (hb : ∀ s ∈ b, s.Regular) (hn : b.Nodup)
    (hsort : b.Sorted r) (hw : r.WildcardsFirst b) {q : Text} (hq : q ∈ b.qualifiers)
    {s : Statement} (hs : s ∈ Block.expand (Block.gathered r.groupThreshold q (b.members q))) :
    r.mayPrecede (b.leader r.groupThreshold q) s = true := by
  rcases hm : b.members q with _ | ⟨m, ms⟩
  · obtain ⟨x, hx, -, rfl⟩ := Block.eq_text_of_members_eq_nil hq hm
    rw [Block.expand_gathered_nil hb hx hm, List.mem_singleton] at hs
    rw [Block.leader_of_members_nil ht hm, hs]
    exact r.mayPrecede_refl x
  · have hne : b.members q ≠ [] := by simp [hm]
    rw [Block.mem_expand_gathered ht hb hn hne] at hs
    by_cases hr : Block.Reaches r.groupThreshold b q
    · -- the wildcard leads: plain statements are gone, and renames come behind it
      rw [Block.leader_of_reaches hr]
      rcases hs with ⟨hu, hren⟩ | ⟨-, hnr⟩ | ⟨-, rfl⟩
      · obtain ⟨hmem, m', hm', rfl⟩ := Block.mem_under.mp hu
        simpa [Statement.qualifier_ofMember hm'] using hw _ hmem hren
      · exact absurd hr hnr
      · exact r.mayPrecede_refl _
    · -- the first statement of the qualifier leads, and all are as they were
      rw [Block.leader_of_members hr hm]
      have hu : s ∈ b.under q := by
        rcases hs with ⟨hu, -⟩ | ⟨hu, -⟩ | ⟨hr', -⟩
        · exact hu
        · exact (Block.mem_plainUnder.mp hu).1
        · exact absurd hr' hr
      have hsorted : (b.under q).Sorted r := hsort.sublist (b.under_sublist q)
      rw [← Block.map_members, hm, List.map_cons] at hu hsorted
      rcases List.mem_cons.mp hu with rfl | hu
      · exact r.mayPrecede_refl _
      · exact (List.pairwise_cons.mp hsorted).1 s hu

/-! ## Cleaning a settled block again -/

section Settled

variable (hr : r.defect? = none) (hb : ∀ s ∈ r.select code b, s.Regular)

include hr hb

theorem regular_of_mem_expand_clean : ∀ s ∈ (r.clean code b).expand, s.Regular := by
  intro s hs
  have ht := r.two_le_groupThreshold hr
  rcases Block.mem_or_wildcard_of_mem_expand_compact ht hb (r.nodup_select code b) hs with
    h | ⟨q, hq, rfl⟩
  · exact hb s h
  · obtain ⟨m, hm⟩ := List.exists_mem_of_ne_nil _ (Block.members_ne_nil_of_reaches ht hq)
    exact Or.inl ⟨q, _, (Block.shape_of_mem_members hb hm).1, .wildcard, rfl⟩

variable (hs : r.Settled (r.clean code b).expand)
  (hk : ∀ s ∈ (r.clean code b).expand, s.text ∉ r.removes)

include hs hk

/-- Nothing is lost the second time. -/
theorem mem_select_clean {s : Statement} :
    s ∈ r.select code (r.clean code b) ↔ s ∈ (r.clean code b).expand := by
  rw [mem_select_of_settled hs]
  refine ⟨fun h => h.1, fun h => ⟨h, hk s h, ?_⟩⟩
  rcases Block.mem_or_wildcard_of_mem_expand_compact (r.two_le_groupThreshold hr) hb
    (r.nodup_select code b) h with h | ⟨q, -, rfl⟩
  · exact (r.mem_select.mp h).2.2
  · exact isUsed_wildcard q

theorem mem_select_clean_iff {s : Statement} :
    s ∈ r.select code (r.clean code b) ↔ s.qualifier ∈ (r.select code b).qualifiers ∧
      s ∈ Block.expand (Block.gathered r.groupThreshold s.qualifier
        ((r.select code b).members s.qualifier)) := by
  rw [mem_select_clean hr hb hs hk]
  exact Block.mem_expand_compact_iff (r.two_le_groupThreshold hr) hb (r.nodup_select code b)

theorem regular_select_clean : ∀ s ∈ r.select code (r.clean code b), s.Regular := by
  intro s h
  exact regular_of_mem_expand_clean hr hb s ((mem_select_clean hr hb hs hk).mp h)

theorem leader_mem_select_clean {q : Text} (hq : q ∈ (r.select code b).qualifiers) :
    (r.select code b).leader r.groupThreshold q ∈ r.select code (r.clean code b) := by
  have ht := r.two_le_groupThreshold hr
  have hn := r.nodup_select code b
  rw [mem_select_clean_iff hr hb hs hk, Block.qualifier_leader ht hb hn hq]
  exact ⟨hq, Block.leader_mem_expand_gathered ht hb hn hq⟩

theorem mem_qualifiers_select_clean {q : Text} :
    q ∈ (r.select code (r.clean code b)).qualifiers ↔ q ∈ (r.select code b).qualifiers := by
  constructor
  · intro hq
    obtain ⟨s, h, rfl⟩ := Block.mem_qualifiers.mp hq
    exact ((mem_select_clean_iff hr hb hs hk).mp h).1
  · intro hq
    exact Block.mem_qualifiers.mpr ⟨_, leader_mem_select_clean hr hb hs hk hq,
      Block.qualifier_leader (r.two_le_groupThreshold hr) hb (r.nodup_select code b) hq⟩

/-- The second time a qualifier has the statements of the first, or its renames and the wildcard. -/
theorem mem_under_select_clean {q : Text} (hm : (r.select code b).members q ≠ []) {s : Statement} :
    s ∈ (r.select code (r.clean code b)).under q ↔
      (s ∈ (r.select code b).under q ∧
          (s.isRename = true ∨ ¬ Block.Reaches r.groupThreshold (r.select code b) q)) ∨
        (Block.Reaches r.groupThreshold (r.select code b) q ∧
          s = .ofMember q Statement.wildcardSelector) := by
  have hgathered := Block.mem_expand_gathered (s := s) (r.two_le_groupThreshold hr) hb
    (r.nodup_select code b) hm
  constructor
  · intro hu
    obtain ⟨hmem, m, hd, rfl⟩ := Block.mem_under.mp hu
    have h := ((mem_select_clean_iff hr hb hs hk).mp hmem).2
    rw [Statement.qualifier_ofMember hd] at h
    rcases hgathered.mp h with ⟨h, hren⟩ | ⟨h, hnr⟩ | h
    · exact Or.inl ⟨h, Or.inl hren⟩
    · exact Or.inl ⟨(Block.mem_plainUnder.mp h).1, Or.inr hnr⟩
    · exact Or.inr h
  · intro h
    have hmem : s ∈ Block.expand (Block.gathered r.groupThreshold q ((r.select code b).members q)) := by
      rw [hgathered]
      rcases h with ⟨hu, hkeep⟩ | h
      · rcases hren : s.isRename with _ | _
        · rw [hren] at hkeep
          exact Or.inr (Or.inl ⟨Block.mem_plainUnder.mpr ⟨hu, hren⟩, hkeep.resolve_left (by simp)⟩)
        · exact Or.inl ⟨hu, rfl⟩
      · exact Or.inr (Or.inr h)
    obtain ⟨m, hd, rfl⟩ : ∃ m, '.' ∉ m ∧ s = .ofMember q m := by
      rcases h with ⟨hu, -⟩ | ⟨-, rfl⟩
      · exact (Block.mem_under.mp hu).2
      · exact ⟨_, by decide, rfl⟩
    refine Block.mem_under.mpr ⟨?_, m, hd, rfl⟩
    rw [mem_select_clean_iff hr hb hs hk, Statement.qualifier_ofMember hd]
    exact ⟨Block.mem_qualifiers_of_members hm, hmem⟩

/-- Statements of the two times that are the same in number and kind are in the same order. -/
theorem eq_of_sublist_select {c d : Block} (hc : c.Sublist (r.select code b))
    (hd : d.Sublist (r.select code (r.clean code b))) (h : ∀ s, s ∈ d ↔ s ∈ c) : d = c :=
  Block.eq_of_sorted
    (pathsDiffer_of_regular fun s hm => regular_select_clean hr hb hs hk s (hd.subset hm))
    ((r.sorted_select _ _).sublist hd) ((r.sorted_select _ _).sublist hc)
    ((r.nodup_select _ _).sublist hd) ((r.nodup_select _ _).sublist hc) h

/-- The wildcard is all that is left of the plain members of a qualifier that collapsed. -/
theorem items_select_clean {q : Text}
    (hreach : Block.Reaches r.groupThreshold (r.select code b) q) :
    Block.items ((r.select code (r.clean code b)).members q) = [Statement.wildcardSelector] := by
  have hn := r.nodup_select code (r.clean code b)
  have hm := Block.members_ne_nil_of_reaches (r.two_le_groupThreshold hr) hreach
  obtain ⟨m₀, hm₀⟩ := List.exists_mem_of_ne_nil _ hm
  have hone : (r.select code (r.clean code b)).plainUnder q =
      [.ofMember q Statement.wildcardSelector] := by
    apply List.perm_singleton.mp
    rw [List.perm_ext_iff_of_nodup (hn.sublist (Block.plainUnder_sublist _ q)) (by simp)]
    intro s
    rw [Block.mem_plainUnder, mem_under_select_clean hr hb hs hk hm, List.mem_singleton]
    constructor
    · rintro ⟨⟨-, hren | hnr⟩ | ⟨-, rfl⟩, hnren⟩
      · exact absurd hren (by simp [hnren])
      · exact absurd hreach hnr
      · rfl
    · rintro rfl
      exact ⟨Or.inr ⟨hreach, rfl⟩,
        Statement.isRename_wildcard (Block.shape_of_mem_members hb hm₀).1⟩
  -- the items are the members of the plain statements, up to their order
  have hmap := Block.perm_map_items (regular_select_clean hr hb hs hk) hn q
  rw [hone, List.perm_singleton] at hmap
  obtain ⟨m, hitems, he⟩ := List.map_eq_singleton_iff.mp hmap
  rw [hitems, Statement.ofMember_injective he]

/-- Renames are not touched. -/
theorem renames_select_clean {q : Text} (hm : (r.select code b).members q ≠ []) :
    ((r.select code (r.clean code b)).under q).filter Statement.isRename =
      ((r.select code b).under q).filter Statement.isRename := by
  obtain ⟨m₀, hm₀⟩ := List.exists_mem_of_ne_nil _ hm
  apply eq_of_sublist_select hr hb hs hk
    (List.filter_sublist.trans (Block.under_sublist _ q))
    (List.filter_sublist.trans (Block.under_sublist _ q))
  intro s
  rw [List.mem_filter, List.mem_filter, mem_under_select_clean hr hb hs hk hm]
  constructor
  · rintro ⟨⟨hu, -⟩ | ⟨-, rfl⟩, hren⟩
    · exact ⟨hu, hren⟩
    · rw [Statement.isRename_wildcard (Block.shape_of_mem_members hb hm₀).1] at hren
      exact Bool.noConfusion hren
  · rintro ⟨hu, hren⟩
    exact ⟨Or.inl ⟨hu, Or.inl hren⟩, hren⟩

/-- A qualifier that collapsed has its wildcard and its renames left. -/
theorem gathered_select_clean_of_reaches {q : Text}
    (hreach : Block.Reaches r.groupThreshold (r.select code b) q) :
    Block.gathered r.groupThreshold q ((r.select code (r.clean code b)).members q) =
      Block.gathered r.groupThreshold q ((r.select code b).members q) := by
  have ht := r.two_le_groupThreshold hr
  have hm := Block.members_ne_nil_of_reaches ht hreach
  have hwild : Statement.ofMember q Statement.wildcardSelector ∈
      (r.select code (r.clean code b)).under q :=
    (mem_under_select_clean hr hb hs hk hm).mpr (Or.inr ⟨hreach, rfl⟩)
  have hmany := (Block.reaches_iff hb (r.nodup_select code b)).mp hreach
  rw [Block.gathered_eq _ q (Block.members_ne_nil hwild), Block.gathered_eq _ q hm,
    items_select_clean hr hb hs hk hreach, Block.plainStatement_of_le ht hmany,
    Block.map_renames (regular_select_clean hr hb hs hk), Block.map_renames hb,
    renames_select_clean hr hb hs hk hm]
  rfl

/-- **A qualifier is gathered the second time as it was the first time.** -/
theorem gathered_select_clean {q : Text} (hq : q ∈ (r.select code b).qualifiers) :
    Block.gathered r.groupThreshold q ((r.select code (r.clean code b)).members q) =
      Block.gathered r.groupThreshold q ((r.select code b).members q) := by
  have ht := r.two_le_groupThreshold hr
  by_cases hm : (r.select code b).members q = []
  · -- a bare statement that was kept, and nothing has it for a qualifier
    have hm₂ : (r.select code (r.clean code b)).members q = [] := by
      rw [List.eq_nil_iff_forall_not_mem]
      intro m hmem
      obtain ⟨hd, hmem⟩ := Block.mem_members.mp hmem
      have h := ((mem_select_clean_iff hr hb hs hk).mp hmem).2
      obtain ⟨x, hx, hnone, rfl⟩ := Block.eq_text_of_members_eq_nil hq hm
      rw [Statement.qualifier_ofMember hd, Block.expand_gathered_nil hb hx hm,
        List.mem_singleton] at h
      rw [← h, Statement.member?_ofMember hd] at hnone
      exact absurd hnone (by simp)
    rw [hm₂, hm]
  · have hunder := fun s => mem_under_select_clean hr hb hs hk hm (s := s)
    by_cases hreach : Block.Reaches r.groupThreshold (r.select code b) q
    · exact gathered_select_clean_of_reaches hr hb hs hk hreach
    · -- nothing collapsed, so the qualifier has the statements that it had
      have heq : (r.select code (r.clean code b)).under q = (r.select code b).under q := by
        apply eq_of_sublist_select hr hb hs hk (Block.under_sublist _ q) (Block.under_sublist _ q)
        intro s
        rw [hunder s]
        simp [hreach]
      rw [← Block.map_members, ← Block.map_members,
        List.map_inj_right fun _ _ => Statement.ofMember_injective] at heq
      rw [heq]

/-- Sorted anew, the statements show the qualifiers in the order of their leaders. -/
theorem sorted_leaders (hw : r.WildcardsFirst (r.select code b)) :
    Block.Sorted r ((r.select code (r.clean code b)).qualifiers.map
      ((r.select code b).leader r.groupThreshold)) := by
  have ht := r.two_le_groupThreshold hr
  have hn := r.nodup_select code b
  unfold Block.Sorted
  rw [List.pairwise_map]
  refine (Block.pairwise_qualifiers (r.sorted_select code (r.clean code b))).imp_of_mem ?_
  rintro p q hp hq ⟨x, hx, rfl, hall⟩
  rw [mem_qualifiers_select_clean hr hb hs hk] at hp hq
  have hx' := ((mem_select_clean_iff hr hb hs hk).mp hx).2
  have hfirst := leader_mayPrecede ht hb hn (r.sorted_select code b) hw hp hx'
  have hthen := hall _ (leader_mem_select_clean hr hb hs hk hq) (Block.qualifier_leader ht hb hn hq)
  exact r.mayPrecede_trans hfirst hthen

/-- Leaders in order leave one order for the qualifiers. -/
theorem qualifiers_eq_of_sorted (hw : r.WildcardsFirst (r.select code b))
    (h : (r.select code b).LeadersInOrder r) :
    (r.select code (r.clean code b)).qualifiers = (r.select code b).qualifiers := by
  have ht := r.two_le_groupThreshold hr
  have hn := r.nodup_select code b
  have hqual : ∀ {q}, q ∈ (r.select code b).qualifiers →
      ((r.select code b).leader r.groupThreshold q).qualifier = q := Block.qualifier_leader ht hb hn
  have hmem := fun q => mem_qualifiers_select_clean hr hb hs hk (q := q)
  -- the qualifier can be read off its leader, so that the leaders determine the qualifiers
  have hback : ∀ qs : List Text, (∀ q ∈ qs, q ∈ (r.select code b).qualifiers) →
      (qs.map ((r.select code b).leader r.groupThreshold)).map Statement.qualifier = qs := by
    intro qs hqs
    rw [List.map_map]
    exact (List.map_congr_left fun q hq => hqual (hqs q hq)).trans (List.map_id _)
  have hnodup : ∀ qs : List Text, qs.Nodup → (∀ q ∈ qs, q ∈ (r.select code b).qualifiers) →
      (qs.map ((r.select code b).leader r.groupThreshold)).Nodup := by
    intro qs hqs hsub
    rw [← hback qs hsub] at hqs
    exact List.Pairwise.of_map Statement.qualifier (fun x y hne he => hne (congrArg _ he)) hqs
  have hsub := fun q => (hmem q).mp
  have heq : (r.select code (r.clean code b)).qualifiers.map
      ((r.select code b).leader r.groupThreshold) =
      (r.select code b).qualifiers.map ((r.select code b).leader r.groupThreshold) := by
    refine Block.eq_of_sorted ?_ (sorted_leaders hr hb hs hk hw) h
      (hnodup _ (Block.nodup_qualifiers _) hsub) (hnodup _ (Block.nodup_qualifiers _) fun q => id) ?_
    · apply pathsDiffer_of_regular
      intro s hs'
      obtain ⟨q, hq, rfl⟩ := List.mem_map.mp hs'
      exact regular_select_clean hr hb hs hk _ (leader_mem_select_clean hr hb hs hk (hsub q hq))
    · intro s
      simp only [List.mem_map, hmem]
  rw [← hback _ hsub, heq, hback _ fun q => id]

/-- **When cleaning keeps what it made.** A cleaned block that no rewrite and no removal touches is
cleaned to itself exactly when the leaders of its qualifiers are in order. -/
theorem clean_clean_iff (hw : r.WildcardsFirst (r.select code b)) :
    r.clean code (r.clean code b) = r.clean code b ↔ (r.select code b).LeadersInOrder r := by
  have ht := r.two_le_groupThreshold hr
  have hn := r.nodup_select code b
  have hb₂ := regular_select_clean hr hb hs hk
  have hsorted := sorted_leaders hr hb hs hk hw
  constructor
  · -- compaction shows the order of the qualifiers, and the second time that of the leaders
    intro h
    have hquals : (r.select code (r.clean code b)).qualifiers = (r.select code b).qualifiers := by
      rw [← Block.qualifiers_compact (t := r.groupThreshold),
        ← Block.qualifiers_compact (b := r.select code b) (t := r.groupThreshold)]
      exact congrArg Block.qualifiers h
    rwa [hquals] at hsorted
  · intro h
    have hquals : (r.select code (r.clean code b)).qualifiers = (r.select code b).qualifiers :=
      qualifiers_eq_of_sorted hr hb hs hk hw h
    show (r.select code (r.clean code b)).compact r.groupThreshold = Block.compact _ _
    unfold Block.compact
    rw [hquals, List.flatMap_def, List.flatMap_def]
    congr 1
    apply List.map_congr_left
    intro q hq
    exact gathered_select_clean hr hb hs hk hq

end Settled

end Rules

end ImportTidy

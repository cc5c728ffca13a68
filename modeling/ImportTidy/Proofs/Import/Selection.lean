/-
# ImportTidy.Proofs.Import.Selection — which statements a cleaning keeps, and in which order

A cleaning keeps a statement exactly when it is among the rewritten ones, is not to be removed and
is used (`mem_select`). The kept statements stand in the order of the rules and each stands once.
Where no two of them share a path this leaves a single possible list, so that two cleanings keep
the same list as soon as they keep the same statements (`eq_of_sorted`).
-/
import ImportTidy.Import.Cleaning
import ImportTidy.Proofs.Import.Order

namespace ImportTidy

namespace Block

/-! ## First copies -/

theorem eraseDups_sublist {α : Type} [BEq α] [LawfulBEq α] (l : List α) :
    l.eraseDups.Sublist l := by
  cases l with
  | nil => simp
  | cons a l =>
      rw [List.eraseDups_cons]
      exact ((eraseDups_sublist (l.filter fun b => !b == a)).trans List.filter_sublist).cons_cons a
termination_by l.length
decreasing_by exact Nat.lt_succ_of_le (List.length_filter_le _ _)

theorem nodup_eraseDups {α : Type} [BEq α] [LawfulBEq α] (l : List α) : l.eraseDups.Nodup := by
  cases l with
  | nil => simp
  | cons a l =>
      rw [List.eraseDups_cons, List.nodup_cons]
      refine ⟨?_, nodup_eraseDups (l.filter fun b => !b == a)⟩
      rw [List.mem_eraseDups]
      simp
termination_by l.length
decreasing_by exact Nat.lt_succ_of_le (List.length_filter_le _ _)

theorem eraseDups_of_nodup {α : Type} [BEq α] [LawfulBEq α] {l : List α} (h : l.Nodup) :
    l.eraseDups = l := by
  induction l with
  | nil => rfl
  | cons a l ih =>
      rw [List.nodup_cons] at h
      have hf : (l.filter fun b => !b == a) = l := by
        rw [List.filter_eq_self]
        intro b hb
        have hne : b ≠ a := fun e => h.1 (e ▸ hb)
        simpa using hne
      rw [List.eraseDups_cons, hf, ih h.2]

theorem mem_dedup {s : Statement} {b : Block} : s ∈ b.dedup ↔ s ∈ b := List.mem_eraseDups

/-! ## Sorted blocks -/

/-- The statements of the block stand in the order of the rules. -/
def Sorted (r : Rules) (b : Block) : Prop := b.Pairwise fun x y => r.mayPrecede x y = true

instance (r : Rules) (b : Block) : Decidable (b.Sorted r) :=
  inferInstanceAs (Decidable (b.Pairwise _))

/-- No two different statements of the block have one path. -/
def PathsDiffer (b : Block) : Prop := ∀ x ∈ b, ∀ y ∈ b, x.path = y.path → x = y

theorem mem_sort {r : Rules} {s : Statement} {b : Block} : s ∈ b.sort r ↔ s ∈ b :=
  List.mem_mergeSort

theorem sorted_sort (r : Rules) (b : Block) : (b.sort r).Sorted r := by
  unfold Sorted sort
  apply List.pairwise_mergeSort
  · intro x y z
    exact r.mayPrecede_trans
  · exact r.mayPrecede_total

/-- There is one way to put statements with different paths in order, each once. -/
theorem eq_of_sorted {r : Rules} {b c : Block} (hp : b.PathsDiffer) (hb : b.Sorted r)
    (hc : c.Sorted r) (hbn : b.Nodup) (hcn : c.Nodup) (h : ∀ s, s ∈ b ↔ s ∈ c) : b = c := by
  have hperm : b.Perm c := (List.perm_ext_iff_of_nodup hbn hcn).mpr h
  refine hperm.eq_of_pairwise ?_ hb hc
  -- two statements that may precede each other have one path
  intro x y hx hy hxy hyx
  exact hp x hx y ((h y).mpr hy) (r.path_eq_of_mayPrecede hxy hyx)

end Block

namespace Rules

variable (r : Rules)

/-! ## What is kept -/

/-- The statement after every rewrite, one after another. -/
def rewriteAll (s : Statement) : Statement :=
  r.rewrites.foldl (fun s rule => s.rewrite rule.source rule.target) s

/-- The statements of the block, groups expanded, after every rewrite. -/
def rewritten (b : Block) : Block := b.expand.map r.rewriteAll

theorem foldl_rewrite_eq_map (rules : List Rewrite) (b : Block) :
    rules.foldl (fun b rule => Block.rewrite rule.source rule.target b) b =
      b.map fun s => rules.foldl (fun s rule => s.rewrite rule.source rule.target) s := by
  induction rules generalizing b with
  | nil => simp
  | cons rule rules ih =>
      rw [List.foldl_cons, ih, Block.rewrite, List.map_map]
      rfl

theorem mem_foldl_remove {texts : List Text} {b : Block} {s : Statement} :
    s ∈ texts.foldl (fun b text => Block.remove text b) b ↔ s ∈ b ∧ s.text ∉ texts := by
  induction texts generalizing b with
  | nil => simp
  | cons text texts ih =>
      rw [List.foldl_cons, ih, Block.remove, List.mem_filter, List.mem_cons, not_or, bne_iff_ne,
        and_assoc]

theorem mem_prepare {b : Block} {s : Statement} :
    s ∈ r.prepare b ↔ s ∈ r.rewritten b ∧ s.text ∉ r.removes := by
  unfold prepare
  rw [mem_foldl_remove, foldl_rewrite_eq_map]
  rfl

/-- A statement is kept when it is among the rewritten ones, not to be removed, and used. -/
theorem mem_select {code : Text} {b : Block} {s : Statement} :
    s ∈ r.select code b ↔
      s ∈ r.rewritten b ∧ s.text ∉ r.removes ∧ r.isUsed code s = true := by
  unfold select
  rw [Block.removeUnused, List.mem_filter, Block.mem_dedup, Block.mem_sort, mem_prepare, and_assoc]

theorem sorted_select (code : Text) (b : Block) : (r.select code b).Sorted r :=
  ((Block.sorted_sort r _).sublist (Block.eraseDups_sublist _)).sublist List.filter_sublist

theorem nodup_select (code : Text) (b : Block) : (r.select code b).Nodup :=
  (Block.nodup_eraseDups _).sublist List.filter_sublist

/-- A block that is in order stays in order. -/
theorem select_of_sorted {b : Block} (h : (r.prepare b).Sorted r) (code : Text) :
    r.select code b = ((r.prepare b).dedup).removeUnused r code := by
  have hsort : (r.prepare b).sort r = r.prepare b := List.mergeSort_of_pairwise h
  rw [select, hsort]

/-- A sorted block with different paths is what is kept when its statements are. -/
theorem select_eq_of_mem_iff {code : Text} {b c : Block} (hp : c.PathsDiffer) (hs : c.Sorted r)
    (hn : c.Nodup) (h : ∀ s, s ∈ c ↔ s ∈ r.select code b) : r.select code b = c :=
  (Block.eq_of_sorted hp hs (r.sorted_select code b) hn (r.nodup_select code b) h).symm

theorem mem_rewritten_congr {b c : Block} (h : ∀ s, s ∈ b.expand ↔ s ∈ c.expand) (s : Statement) :
    s ∈ r.rewritten b ↔ s ∈ r.rewritten c := by
  simp only [rewritten, List.mem_map, h]

/-- Which statements are there decides what is kept, and in which order: where they came from, how
often and in which groups does not count. -/
theorem select_congr {b c : Block} (hp : (r.rewritten b).PathsDiffer)
    (h : ∀ s, s ∈ b.expand ↔ s ∈ c.expand) (code : Text) : r.select code b = r.select code c := by
  have hkept : ∀ s, s ∈ r.select code b ↔ s ∈ r.select code c := by
    intro s
    rw [mem_select, mem_select, r.mem_rewritten_congr h]
  have hpaths : (r.select code b).PathsDiffer := by
    intro x hx y hy
    exact hp x (r.mem_select.mp hx).1 y (r.mem_select.mp hy).1
  exact Block.eq_of_sorted hpaths (r.sorted_select code b) (r.sorted_select code c)
    (r.nodup_select code b) (r.nodup_select code c) hkept

/-- Usable rules collapse two members at the earliest. -/
theorem two_le_groupThreshold (h : r.defect? = none) : 2 ≤ r.groupThreshold := by
  unfold defect? at h
  split at h
  · exact absurd h (by simp)
  · omega

end Rules

end ImportTidy

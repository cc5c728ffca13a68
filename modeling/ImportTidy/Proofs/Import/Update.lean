/-
# ImportTidy.Proofs.Import.Update — adding, taking out and replacing statements

A block can change in two ways that look alike: a statement is taken out and others are added at the
end, or they are put where the statement stood. Where no statement stands twice the two have the
same statements, each once, and differ in their order only (`perm_replace`).
-/
import ImportTidy.Import.Block

namespace ImportTidy

namespace Block

/-! ## Adding statements -/

theorem mem_add {b : Block} {s x : Statement} : x ∈ b.add s ↔ x ∈ b ∨ x = s := by
  unfold add
  split
  · rename_i hs
    constructor
    · exact Or.inl
    · rintro (h | rfl)
      · exact h
      · exact hs
  · rw [List.mem_append, List.mem_singleton]

theorem nodup_add {b : Block} (h : b.Nodup) (s : Statement) : (b.add s).Nodup := by
  unfold add
  split
  · exact h
  · rename_i hs
    rw [List.nodup_append]
    refine ⟨h, by simp, ?_⟩
    rintro x hx y hy rfl
    exact hs (List.mem_singleton.mp hy ▸ hx)

theorem mem_merge {b : Block} {more : List Statement} {x : Statement} :
    x ∈ b.merge more ↔ x ∈ b ∨ x ∈ more := by
  unfold merge
  induction more generalizing b with
  | nil => simp
  | cons s more ih => rw [List.foldl_cons, ih, mem_add, List.mem_cons, or_assoc]

theorem nodup_merge {b : Block} (h : b.Nodup) (more : List Statement) : (b.merge more).Nodup := by
  unfold merge
  induction more generalizing b with
  | nil => exact h
  | cons s more ih => exact ih (nodup_add h s)

/-- A merge adds the first copies of the statements that the block does not have. -/
theorem merge_eq (b : Block) (more : List Statement) :
    b.merge more = b ++ (more.filter fun x => !b.contains x).eraseDups := by
  induction more generalizing b with
  | nil => simp [merge]
  | cons s more ih =>
      show (b.add s).merge more = _
      rw [ih]
      by_cases hs : s ∈ b
      · rw [add, if_pos hs, List.filter_cons_of_neg (by simpa using hs)]
      · have hrest : (more.filter fun x => !(b ++ [s]).contains x) =
            (more.filter fun x => !b.contains x).filter fun x => !x == s := by
          rw [List.filter_filter]
          apply List.filter_congr
          intro x _
          rw [Bool.eq_iff_iff]
          simp [and_comm]
        rw [add, if_neg hs, List.filter_cons_of_pos (by simpa using hs), List.eraseDups_cons, hrest,
          List.append_assoc, List.singleton_append]

/-! ## Taking out and replacing a statement -/

theorem mem_without {b : Block} {s x : Statement} : x ∈ b.without s ↔ x ∈ b ∧ x ≠ s := by
  rw [without, List.mem_filter, bne_iff_ne]

theorem eq_append_of_cutAt? {b before behind : Block} {s : Statement}
    (h : b.cutAt? s = some (before, behind)) : b = before ++ s :: behind := by
  induction b generalizing before with
  | nil => exact absurd h (by simp [cutAt?])
  | cons x b ih =>
      by_cases hx : x = s
      · rw [cutAt?, if_pos hx] at h
        obtain ⟨rfl, rfl⟩ := Prod.mk.inj (Option.some.inj h)
        rw [hx, List.nil_append]
      · rw [cutAt?, if_neg hx] at h
        obtain ⟨⟨front, behind'⟩, hcut, heq⟩ := Option.map_eq_some_iff.mp h
        obtain ⟨rfl, rfl⟩ := Prod.mk.inj heq
        rw [ih hcut, List.cons_append]

/-- A statement of the block is found, with what stands around it. -/
theorem exists_cutAt?_of_mem {b : Block} {s : Statement} (h : s ∈ b) :
    ∃ before behind, b.cutAt? s = some (before, behind) := by
  induction b with
  | nil => exact absurd h List.not_mem_nil
  | cons x b ih =>
      by_cases hx : x = s
      · exact ⟨[], b, if_pos hx⟩
      · rcases List.mem_cons.mp h with rfl | h
        · exact absurd rfl hx
        · obtain ⟨before, behind, hcut⟩ := ih h
          refine ⟨x :: before, behind, ?_⟩
          rw [cutAt?, if_neg hx, hcut]
          rfl

theorem replace_of_cutAt? {b before behind : Block} {s : Statement}
    (h : b.cutAt? s = some (before, behind)) (more : List Statement) :
    b.replace s more =
      before ++ more.filter (fun x => !(before ++ behind).contains x) ++ behind := by
  rw [replace, replace?, h]
  rfl

/-- A replacement brings in nothing but the new statements. -/
theorem mem_of_mem_replace {b : Block} {s x : Statement} {more : List Statement}
    (hx : x ∈ b.replace s more) : x ∈ b ∨ x ∈ more := by
  rcases hcut : b.cutAt? s with _ | ⟨before, behind⟩
  · rw [replace, replace?, hcut] at hx
    exact Or.inl hx
  · rw [replace_of_cutAt? hcut, List.append_assoc, List.mem_append, List.mem_append] at hx
    rw [eq_append_of_cutAt? hcut]
    rcases hx with hx | hx | hx
    · exact Or.inl (List.mem_append_left _ hx)
    · exact Or.inr (List.mem_filter.mp hx).1
    · exact Or.inl (List.mem_append_right _ (List.mem_cons_of_mem _ hx))

theorem without_of_nodup {before behind : Block} {s : Statement}
    (h : (before ++ s :: behind).Nodup) :
    Block.without s (before ++ s :: behind) = before ++ behind := by
  have hs : s ∉ before ++ behind := (List.nodup_cons.mp (List.perm_middle.nodup_iff.mp h)).1
  have hkeep : ∀ l : Block, (∀ x ∈ l, x ∈ before ++ behind) → l.filter (fun x => x != s) = l := by
    intro l hl
    rw [List.filter_eq_self]
    intro x hx
    rw [bne_iff_ne]
    rintro rfl
    exact hs (hl x hx)
  rw [without, List.filter_append, List.filter_cons_of_neg (by simp),
    hkeep before fun x => List.mem_append_left behind,
    hkeep behind fun x => List.mem_append_right before]

/-- **Replacing in place is taking out and adding what is new, in another order.** -/
theorem perm_replace {b : Block} (hb : b.Nodup) {s : Statement} (h : s ∈ b)
    (more : List Statement) :
    (b.replace s more).Perm
      (b.without s ++ more.filter fun x => !(b.without s).contains x) := by
  obtain ⟨before, behind, hcut⟩ := exists_cutAt?_of_mem h
  obtain rfl := eq_append_of_cutAt? hcut
  rw [replace_of_cutAt? hcut, without_of_nodup hb, List.append_assoc, List.append_assoc]
  exact List.perm_append_comm.append_left before

theorem mem_replace {b : Block} (hb : b.Nodup) {s : Statement} (h : s ∈ b)
    {more : List Statement} {x : Statement} :
    x ∈ b.replace s more ↔ x ∈ b.without s ∨ x ∈ more := by
  rw [(perm_replace hb h more).mem_iff, List.mem_append, List.mem_filter]
  by_cases hx : x ∈ b.without s
  · simp [hx]
  · simp [hx]

theorem nodup_replace {b : Block} (hb : b.Nodup) {s : Statement} (h : s ∈ b)
    {more : List Statement} (hm : more.Nodup) : (b.replace s more).Nodup := by
  rw [(perm_replace hb h more).nodup_iff, List.nodup_append]
  refine ⟨hb.sublist List.filter_sublist, hm.sublist List.filter_sublist, ?_⟩
  rintro x hx y hy rfl
  have hnot := (List.mem_filter.mp hy).2
  simp [hx] at hnot

end Block

end ImportTidy

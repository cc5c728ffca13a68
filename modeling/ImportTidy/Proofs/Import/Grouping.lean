/-
# ImportTidy.Proofs.Import.Grouping — what stands side by side in a cleaned block

Compaction puts together what has one qualifier, and it does so for every text: a member has no
dot, so that a list of members in braces is again one member, and a list of members without an arrow
has no arrow. Hence the statements of a compacted block fall into one run for each qualifier, in
the order of the qualifiers, and a run holds at most one statement that renames nothing, which opens
it (`clean_grouped`). Nothing is asked of the texts here.
-/
import ImportTidy.Proofs.Import.Leaders
import Mathlib.Data.List.Basic

namespace ImportTidy

/-- The member of the statement gives itself another name. -/
def Statement.IsAliased (s : Statement) : Prop :=
  ∃ m, s.member? = some m ∧ Block.isRenaming m = true

namespace Block

variable {t : Nat} {b : Block}

/-! ## Members in braces -/

/-- Members without an arrow have no arrow between them in their group either. -/
theorem isRenaming_group {members : List Text} (h : ∀ m ∈ members, isRenaming m = false) :
    isRenaming ('\x7b' :: Text.join ", ".toList members ++ ['\x7d']) = false := by
  have hmembers : ∀ m ∈ members, ¬ Statement.renameArrow <:+: m := fun m hm =>
    Text.occurs_eq_false_iff.mp (h m hm)
  show Text.occurs _ (['\x7b'] ++ Text.join ", ".toList members ++ ['\x7d']) = false
  rw [Text.occurs_eq_false_iff, Text.infix_margins_iff (List.forall_mem_singleton.mpr (by decide))
    (List.forall_mem_singleton.mpr (by decide)) (by decide)]
  match members with
  | [] => decide
  | m :: members =>
      rw [Text.join_comma_blank, Text.infix_join_iff (by decide) (by decide)]
      rintro ⟨p, hp, harrow⟩
      rcases List.mem_cons.mp hp with rfl | hp
      · exact hmembers p List.mem_cons_self harrow
      · -- behind the first member, each has a blank before it
        obtain ⟨x, hx, rfl⟩ := List.mem_map.mp hp
        rcases (Text.infix_append_cons_iff (a := []) (by decide)).mp harrow with hnil | harrow
        · exact absurd hnil (by decide)
        · exact hmembers x (List.mem_cons_of_mem m hx) harrow

/-! ## The statements of one qualifier -/

/-- The plain members have at most one statement. -/
theorem pairwise_plainStatement (R : Statement → Statement → Prop) (q : Text) (ms : List Text) :
    (plainStatement t q ms).Pairwise R := by
  match ms with
  | [] => exact List.Pairwise.nil
  | [m] => exact List.pairwise_singleton R _
  | m :: m' :: ms =>
      simp only [plainStatement]
      split <;> exact List.pairwise_singleton R _

/-- The statement for the plain members renames nothing. -/
theorem not_isAliased_plainStatement {q : Text} {s : Statement}
    (hs : s ∈ plainStatement t q (items (b.members q))) : ¬ s.IsAliased := by
  have hdotless : ∀ m ∈ items (b.members q), '.' ∉ m := fun m hm =>
    (mem_members.mp (mem_of_mem_items hm).1).1
  have hplain : ∀ m ∈ items (b.members q), isRenaming m = false := fun m hm =>
    (mem_of_mem_items hm).2
  rintro ⟨n, hn, hrename⟩
  obtain ⟨m, rfl, hm | rfl | rfl⟩ := mem_plainStatement hs
  · rw [Statement.member?_ofMember (hdotless m hm), Option.some.injEq] at hn
    exact Bool.false_ne_true ((hplain m hm).symm.trans (hn ▸ hrename))
  · rw [Statement.member?_ofMember (not_mem_group hdotless (by decide)), Option.some.injEq] at hn
    exact Bool.false_ne_true ((isRenaming_group hplain).symm.trans (hn ▸ hrename))
  · rw [Statement.member?_ofMember (by decide), Option.some.injEq] at hn
    exact absurd (hn ▸ hrename) (by decide)

/-- The statements behind the first one for the plain members are the renames. -/
theorem isAliased_renames {q : Text} {s : Statement}
    (hs : s ∈ ((b.members q).filter isRenaming).map (Statement.ofMember q)) : s.IsAliased := by
  obtain ⟨m, hm, rfl⟩ := List.mem_map.mp hs
  obtain ⟨hm, hrename⟩ := List.mem_filter.mp hm
  exact ⟨m, Statement.member?_ofMember (mem_members.mp hm).1, hrename⟩

/-- Of the statements of a qualifier all but the first are renames. -/
theorem pairwise_isAliased_gathered (q : Text) :
    (gathered t q (b.members q)).Pairwise fun _ y => y.IsAliased := by
  by_cases hm : b.members q = []
  · rw [hm]
    exact List.pairwise_singleton _ _
  rw [gathered_eq t q hm, List.pairwise_append]
  refine ⟨pairwise_plainStatement _ q _, ?_, fun _ _ y hy => isAliased_renames hy⟩
  apply List.pairwise_of_forall_mem_list
  intro _ _ y hy
  exact isAliased_renames hy

theorem nodup_gathered (hb : b.Nodup) (q : Text) : (gathered t q (b.members q)).Nodup := by
  by_cases hm : b.members q = []
  · rw [hm]
    exact List.pairwise_singleton _ _
  rw [gathered_eq t q hm, List.nodup_append]
  refine ⟨pairwise_plainStatement _ q _, ?_, ?_⟩
  · refine List.Pairwise.map _ ?_ ((nodup_members hb q).sublist List.filter_sublist)
    intro m m' hne heq
    exact hne (Statement.ofMember_injective heq)
  · rintro x hx y hy rfl
    exact not_isAliased_plainStatement hx (isAliased_renames hy)

/-! ## The runs of a compacted block -/

/-- What holds among the statements of each qualifier, and from one qualifier to a later one. -/
theorem pairwise_compact {R : Statement → Statement → Prop}
    (hin : ∀ q ∈ b.qualifiers, (gathered t q (b.members q)).Pairwise R)
    (hout : b.qualifiers.Pairwise fun p q => ∀ x y, x.qualifier = p → y.qualifier = q → R x y) :
    (b.compact t).Pairwise R := by
  rw [compact, List.pairwise_flatMap]
  refine ⟨hin, hout.imp_of_mem ?_⟩
  intro p q hp hq h x hx y hy
  exact h x y (qualifier_of_mem_gathered hp hx) (qualifier_of_mem_gathered hq hy)

/-- Between two statements of one qualifier there are only statements of that qualifier. -/
def InRuns (b : Block) : Prop :=
  ∀ before between behind x y, b = before ++ x :: (between ++ y :: behind) →
    x.qualifier = y.qualifier → ∀ z ∈ between, z.qualifier = x.qualifier

theorem nodup_compact (hb : b.Nodup) : (b.compact t).Nodup := by
  apply pairwise_compact
  · intro q _
    exact nodup_gathered hb q
  · apply (nodup_qualifiers b).imp
    rintro p q hne x y rfl rfl rfl
    exact hne rfl

theorem pairwise_isAliased_compact :
    (b.compact t).Pairwise fun x y => x.qualifier = y.qualifier → y.IsAliased := by
  apply pairwise_compact
  · intro q _
    apply (pairwise_isAliased_gathered q).imp
    intro x y hy _
    exact hy
  · apply (nodup_qualifiers b).imp
    rintro p q hne x y rfl rfl heq
    exact absurd heq hne

/-- Along a compacted block the places of the qualifiers never fall. -/
theorem pairwise_idxOf_compact :
    (b.compact t).Pairwise fun x y =>
      b.qualifiers.idxOf x.qualifier ≤ b.qualifiers.idxOf y.qualifier := by
  apply pairwise_compact
  · intro q hq
    apply List.pairwise_of_forall_mem_list
    intro x hx y hy
    apply Nat.le_of_eq
    rw [qualifier_of_mem_gathered hq hx, qualifier_of_mem_gathered hq hy]
  · rw [List.pairwise_iff_getElem]
    rintro i j hi hj hij x y hx hy
    rw [hx, hy, (nodup_qualifiers b).idxOf_getElem, (nodup_qualifiers b).idxOf_getElem]
    exact Nat.le_of_lt hij

/-- A qualifier whose place lies between two equal places is the one at that place. -/
theorem inRuns_compact : (b.compact t).InRuns := by
  intro before between behind x y heq hxy z hz
  have hplaces := pairwise_idxOf_compact (t := t) (b := b)
  rw [heq, List.pairwise_append, List.pairwise_cons, List.pairwise_append] at hplaces
  obtain ⟨-, ⟨hx, -, -, hbetween⟩, -⟩ := hplaces
  have hxz := hx z (List.mem_append_left _ hz)
  have hzy := hbetween z hz y List.mem_cons_self
  have hmem : z.qualifier ∈ b.qualifiers := by
    rw [← qualifiers_compact (t := t), mem_qualifiers, heq]
    exact ⟨z, by simp [hz], rfl⟩
  apply (List.idxOf_inj hmem).mp
  rw [← hxy] at hzy
  omega

end Block

namespace Rules

/-- **A cleaned block has one run for each qualifier.** No statement stands in it twice; what has
one qualifier stands side by side; all but the first of a run are renames, so that at most one of
them is not, and it comes first; and the runs follow each other as the qualifiers do in the sorted
statements that the code needs. As in compaction, a statement without a dot belongs to the qualifier
that its whole text is. -/
theorem clean_grouped (r : Rules) (code : Text) (b : Block) :
    (r.clean code b).Nodup ∧
      (r.clean code b).InRuns ∧
      (r.clean code b).Pairwise (fun x y => x.qualifier = y.qualifier → y.IsAliased) ∧
      (r.clean code b).qualifiers = (r.select code b).qualifiers := by
  refine ⟨?_, ?_, ?_, ?_⟩
  · exact Block.nodup_compact (r.nodup_select code b)
  · exact Block.inRuns_compact
  · exact Block.pairwise_isAliased_compact
  · exact Block.qualifiers_compact

end Rules

end ImportTidy

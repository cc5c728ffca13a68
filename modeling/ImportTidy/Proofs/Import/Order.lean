/-
# ImportTidy.Proofs.Import.Order — the criteria make one order of paths

Statements are compared through their paths, and paths by three criteria in turn. The first two
compare truth values, the last compares code points, and each is a lawful comparison of its own.
Combined they stay lawful, and since the last criterion tells different texts apart, two statements
compare as equal exactly when their paths are the same (`compare_eq_eq_iff`).
-/
import ImportTidy.Import.Block

namespace ImportTidy

namespace Text

/-! ## The order of texts -/

/-- The order of texts is the lexicographic order of the numbers of their code points. -/
theorem compare_eq_compareLex (a b : Text) :
    Text.compare a b = List.compareLex (compareOn Char.toNat) a b := by
  induction a generalizing b with
  | nil => cases b <;> simp [Text.compare, List.compareLex_nil_nil, List.compareLex_nil_cons]
  | cons c a ih =>
      cases b with
      | nil => simp [Text.compare, List.compareLex_cons_nil]
      | cons d b =>
          rw [List.compareLex_cons_cons, ← ih b]
          simp only [Text.compare, compareOn]
          rcases Nat.lt_trichotomy c.toNat d.toNat with h | h | h
          · rw [if_pos h, Nat.compare_eq_lt.mpr h]
            rfl
          · rw [if_neg (by omega), if_neg (by omega), Nat.compare_eq_eq.mpr h]
            rfl
          · rw [if_neg (by omega), if_pos h, Nat.compare_eq_gt.mpr h]
            rfl

instance : Std.LawfulEqCmp (compareOn Char.toNat) where
  compare_self := by
    intro c
    exact Std.ReflOrd.compare_self
  eq_of_compare := by
    intro c d h
    exact Char.toNat_inj.mp (Std.LawfulEqOrd.eq_of_compare h)

instance : Std.TransCmp Text.compare := by
  rw [show Text.compare = List.compareLex (compareOn Char.toNat) from
    funext fun a => funext (compare_eq_compareLex a)]
  infer_instance

instance : Std.LawfulEqCmp Text.compare := by
  rw [show Text.compare = List.compareLex (compareOn Char.toNat) from
    funext fun a => funext (compare_eq_compareLex a)]
  infer_instance

end Text

/-- A path belongs to a top when it is the top or goes on behind it with a dot. -/
theorem belongsTo_iff {paths : List Text} {p : Text} :
    belongsTo paths p = true ↔ ∃ top ∈ paths, p = top ∨ top ++ ['.'] <+: p := by
  unfold belongsTo
  rw [List.any_eq_true]
  refine exists_congr fun top => and_congr_right fun _ => ?_
  rcases h : Text.after? top p with _ | rest
  · have hno : ∀ rest, p ≠ top ++ rest := by
      intro rest he
      rw [Text.after?_eq_some.mpr he] at h
      cases h
    constructor
    · intro hf
      cases hf
    · rintro (rfl | ⟨rest, rfl⟩)
      · exact absurd (List.append_nil p).symm (hno [])
      · exact absurd (List.append_assoc top ['.'] rest) (hno _)
  · rw [Text.after?_eq_some] at h
    subst h
    cases rest with
    | nil => simp
    | cons c rest =>
        rw [List.prefix_append_right_inj, List.cons_prefix_cons]
        simp [@eq_comm _ '.' c]

/-- What belongs to the paths comes later, as `true` comes after `false`. -/
theorem compareBelonging_eq (paths : List Text) :
    compareBelonging paths = compareOn (belongsTo paths) := by
  funext a b
  unfold compareBelonging compareOn
  cases belongsTo paths a <;> cases belongsTo paths b <;> rfl

namespace Rules

variable (r : Rules)

/-! ## The order of statements -/

/-- The order of paths: the three criteria, one after the other. -/
def comparePaths : Text → Text → Ordering :=
  compareLex (compareOn (belongsTo r.languagePaths))
    (compareLex (compareOn (belongsTo r.externalPaths)) Text.compare)

instance : Std.TransCmp r.comparePaths :=
  inferInstanceAs (Std.TransCmp (compareLex _ _))

/-- Statements are compared as their paths are. -/
theorem compare_eq_comparePaths (a b : Statement) :
    r.compare a b = r.comparePaths a.path b.path := by
  simp only [Rules.compare, Criterion.chain, List.foldr, compareBy, compareBelonging_eq,
    comparePaths, compareLex, Ordering.then_eq]

theorem comparePaths_eq_eq_iff {a b : Text} : r.comparePaths a b = .eq ↔ a = b := by
  constructor
  · intro h
    rw [comparePaths, compareLex_eq_eq, compareLex_eq_eq] at h
    exact Std.LawfulEqCmp.eq_of_compare h.2.2
  · rintro rfl
    exact Std.ReflCmp.compare_self

/-- Only statements with the same path compare as equal. -/
theorem compare_eq_eq_iff {a b : Statement} : r.compare a b = .eq ↔ a.path = b.path := by
  rw [compare_eq_comparePaths, comparePaths_eq_eq_iff]

theorem compare_swap (a b : Statement) : r.compare b a = (r.compare a b).swap := by
  rw [compare_eq_comparePaths, compare_eq_comparePaths]
  exact Std.OrientedCmp.eq_swap

theorem mayPrecede_iff_isLE {a b : Statement} :
    r.mayPrecede a b = true ↔ (r.comparePaths a.path b.path).isLE = true := by
  rw [mayPrecede, compare_eq_comparePaths]
  cases r.comparePaths a.path b.path <;> simp

theorem mayPrecede_total (a b : Statement) : (r.mayPrecede a b || r.mayPrecede b a) = true := by
  simp only [mayPrecede, r.compare_swap a b]
  cases r.compare a b <;> rfl

theorem mayPrecede_trans {a b c : Statement} (hab : r.mayPrecede a b = true)
    (hbc : r.mayPrecede b c = true) : r.mayPrecede a c = true := by
  rw [mayPrecede_iff_isLE] at hab hbc ⊢
  exact Std.TransCmp.isLE_trans hab hbc

/-- Two statements that may each precede the other have one path. -/
theorem path_eq_of_mayPrecede {a b : Statement} (hab : r.mayPrecede a b = true)
    (hba : r.mayPrecede b a = true) : a.path = b.path := by
  rw [mayPrecede_iff_isLE] at hab hba
  exact r.comparePaths_eq_eq_iff.mp (Std.OrientedCmp.isLE_antisymm hab hba)

end Rules

end ImportTidy

/-
# ImportTidy.Proofs.Import.PathOrder — when statements of one tier are ordered by their paths

The tier of a statement and its place in the order are read off the same two tables, but not in the
same way: a path of the language is not looked up among the libraries for its tier, while the order
asks both tables in turn. The two readings part only where a path is in both tables. Outside the
language the statements of a tier are in the order of their paths, byte by byte; within it a path
that is also one of the libraries is held back behind all that are not (`compare_within_tier`).
-/
import ImportTidy.Proofs.Import.Order
import ImportTidy.Proofs.Text.ByteOrder

namespace ImportTidy

/-- Of two different texts one comes first. -/
theorem Utf8.compareBytes_lt_or_gt {a b : Text} (h : a ≠ b) :
    compareBytes a b = .lt ∧ compareBytes b a = .gt ∨
      compareBytes a b = .gt ∧ compareBytes b a = .lt := by
  have hswap : Text.compare b a = (Text.compare a b).swap := Std.OrientedCmp.eq_swap
  rw [← compare_eq_compareBytes, ← compare_eq_compareBytes, hswap]
  cases hab : Text.compare a b with
  | lt => exact Or.inl ⟨rfl, rfl⟩
  | gt => exact Or.inr ⟨rfl, rfl⟩
  | eq => exact absurd (Std.LawfulEqCmp.eq_of_compare hab) h

namespace Rules

variable {r : Rules} {a b s : Statement}

/-! ## What a tier tells about the tables -/

theorem tier_eq_languageCore_iff :
    r.tier s = .languageCore ↔ belongsTo r.languagePaths s.path = true := by
  unfold tier pathTier
  cases belongsTo r.languagePaths s.path <;> cases belongsTo r.externalPaths s.path <;> decide

/-- Statements of one tier are alike in whether they belong to the language. -/
theorem language_eq_of_tier_eq (h : r.tier a = r.tier b) :
    belongsTo r.languagePaths a.path = belongsTo r.languagePaths b.path := by
  rw [Bool.eq_iff_iff, ← tier_eq_languageCore_iff, ← tier_eq_languageCore_iff, h]

/-- Outside the language the tier is all that the libraries are asked for. -/
theorem external_eq_of_tier_eq (h : r.tier a = r.tier b) (ha : r.tier a ≠ .languageCore) :
    belongsTo r.externalPaths a.path = belongsTo r.externalPaths b.path := by
  have hla : belongsTo r.languagePaths a.path = false := by
    rwa [Ne, tier_eq_languageCore_iff, Bool.not_eq_true] at ha
  have hlb := (language_eq_of_tier_eq h).symm.trans hla
  unfold tier pathTier at h
  rw [hla, hlb] at h
  cases hea : belongsTo r.externalPaths a.path <;>
    cases heb : belongsTo r.externalPaths b.path <;> simp [hea, heb] at h ⊢

/-! ## The order within a tier -/

/-- Within a tier the libraries decide first and then the bytes of the paths. -/
theorem compare_of_tier_eq (h : r.tier a = r.tier b) :
    r.compare a b =
      (compareBelonging r.externalPaths a.path b.path).then (Utf8.compareBytes a.path b.path) := by
  rw [compare_eq_comparePaths, comparePaths, compareLex, compareLex, compareOn, compareBelonging_eq,
    language_eq_of_tier_eq h, Std.ReflOrd.compare_self, Ordering.eq_then,
    Utf8.compare_eq_compareBytes]

/-- Both statements are of the language and `a` has the smaller path, but only `a` is one of the
libraries as well. -/
def HeldBack (r : Rules) (a b : Statement) : Prop :=
  r.tier a = .languageCore ∧ r.tier b = .languageCore ∧
    belongsTo r.externalPaths a.path = true ∧ belongsTo r.externalPaths b.path = false ∧
      Utf8.compareBytes a.path b.path = .lt

instance (r : Rules) (a b : Statement) : Decidable (r.HeldBack a b) :=
  inferInstanceAs (Decidable (_ ∧ _))

theorem HeldBack.external_ne (h : r.HeldBack a b) :
    belongsTo r.externalPaths a.path ≠ belongsTo r.externalPaths b.path := by
  obtain ⟨-, -, ha, hb, -⟩ := h
  rw [ha, hb]
  decide

/-- **The order within a tier.** Two statements of one tier are ordered as the bytes of their paths
are, exactly when neither is held back by the libraries; and one that is held back comes after the
other. -/
theorem compare_within_tier (h : r.tier a = r.tier b) :
    (r.compare a b = Utf8.compareBytes a.path b.path ↔ ¬ r.HeldBack a b ∧ ¬ r.HeldBack b a) ∧
      (r.HeldBack a b → r.compare a b = .gt) := by
  rw [compare_of_tier_eq h]
  by_cases hext : belongsTo r.externalPaths a.path = belongsTo r.externalPaths b.path
  · -- the libraries do not tell the two apart
    have hab : ¬ r.HeldBack a b := fun hheld => hheld.external_ne hext
    have hba : ¬ r.HeldBack b a := fun hheld => hheld.external_ne hext.symm
    rw [compareBelonging_eq, compareOn, hext, Std.ReflOrd.compare_self, Ordering.eq_then]
    simp only [hab, hba, not_false_eq_true, and_self, false_implies]
  · have hla : r.tier a = .languageCore :=
      Classical.byContradiction fun hla => hext (external_eq_of_tier_eq h hla)
    have hlb : r.tier b = .languageCore := h.symm.trans hla
    have hne : a.path ≠ b.path := fun heq => hext (by rw [heq])
    have horder := Utf8.compareBytes_lt_or_gt hne
    cases ha : belongsTo r.externalPaths a.path with
    | false =>
        -- only `b` is one of the libraries, so `a` comes first whatever the paths are
        have hb : belongsTo r.externalPaths b.path = true := by simpa [ha] using hext
        have hlt : compareBelonging r.externalPaths a.path b.path = .lt := by
          simp only [compareBelonging, ha, hb]
        rw [hlt, Ordering.lt_then]
        rcases horder with ⟨hab, hba⟩ | ⟨hab, hba⟩ <;> simp [HeldBack, hla, hlb, ha, hb, hab, hba]
    | true =>
        have hb : belongsTo r.externalPaths b.path = false := by simpa [ha] using hext
        have hgt : compareBelonging r.externalPaths a.path b.path = .gt := by
          simp only [compareBelonging, ha, hb]
        rw [hgt, Ordering.gt_then]
        rcases horder with ⟨hab, hba⟩ | ⟨hab, hba⟩ <;> simp [HeldBack, hla, hlb, ha, hb, hab, hba]

/-- A path of the language lies below one of the libraries. -/
def overlapping : Rules :=
  { standard with
    languagePaths := ["com.lang".toList, "java".toList]
    externalPaths := ["com".toList] }

/-- Two statements of the language, both below a path of the libraries. -/
theorem compare_within_tier_overlapping :
    overlapping.tier ⟨"import com.lang.B".toList⟩ = overlapping.tier ⟨"import com.lang.A.C".toList⟩ ∧
      overlapping.compare ⟨"import com.lang.B".toList⟩ ⟨"import com.lang.A.C".toList⟩ =
        Utf8.compareBytes (Statement.mk "import com.lang.B".toList).path
          (Statement.mk "import com.lang.A.C".toList).path := by
  have htier : overlapping.tier ⟨"import com.lang.B".toList⟩ =
      overlapping.tier ⟨"import com.lang.A.C".toList⟩ := by decide +kernel
  exact ⟨htier, (compare_within_tier htier).1.mpr (by decide +kernel)⟩

/-- `com.lang.A` is held back behind `java.Z` in the tier of the language. -/
theorem overlapping_holds_back :
    overlapping.defect? = none ∧
      overlapping.tier ⟨"import com.lang.A".toList⟩ = overlapping.tier ⟨"import java.Z".toList⟩ ∧
      Utf8.compareBytes (Statement.mk "import com.lang.A".toList).path
        (Statement.mk "import java.Z".toList).path = .lt ∧
      overlapping.compare ⟨"import com.lang.A".toList⟩ ⟨"import java.Z".toList⟩ = .gt := by
  decide +kernel

end Rules

end ImportTidy

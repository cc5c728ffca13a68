/-
# ImportTidy.Proofs.Text.Cuts — how cuts, searches and margins act on texts put together

A text that is put together from parts is taken apart again at the same places, as long as the
parts do not hold the character at which it is cut. The lemmas here say so for the first and the
last cut, for searches across a separating character, for margins of blanks and for lists in
commas.
-/
import ImportTidy.Text.Basic

namespace ImportTidy

namespace Text

/-! ## Occurrences -/

/-- An occurrence cannot reach over a character that it does not have. -/
theorem infix_append_cons_iff {needle a b : Text} {c : Char} (hc : c ∉ needle) :
    needle <:+: a ++ c :: b ↔ needle <:+: a ∨ needle <:+: b := by
  constructor
  · rintro ⟨s, t, h⟩
    rw [List.append_assoc] at h
    rcases List.append_eq_append_iff.mp h with ⟨u, ha, hu⟩ | ⟨u, hs, hu⟩
    · -- the occurrence starts within `a`, and ends there since `c` is not in it
      rcases List.append_eq_append_iff.mp hu with ⟨v, hv, -⟩ | ⟨v, hn, hv⟩
      · exact Or.inl ⟨s, v, by rw [ha, hv, List.append_assoc]⟩
      · cases v with
        | nil => exact Or.inl ⟨s, [], by simp [ha, hn]⟩
        | cons x v =>
            rw [List.cons_append, List.cons.injEq] at hv
            exact absurd (by simp [hn, hv.1]) hc
    · -- it starts behind `a`: not at `c`, so behind `c`
      cases u with
      | nil =>
          cases needle with
          | nil => exact Or.inl (List.nil_infix)
          | cons x needle =>
              rw [List.nil_append, List.cons_append, List.cons.injEq] at hu
              exact absurd (by simp [hu.1]) hc
      | cons x u =>
          rw [List.cons_append, List.cons.injEq] at hu
          exact Or.inr ⟨u, t, by rw [List.append_assoc, hu.2]⟩
  · rintro (⟨s, t, h⟩ | ⟨s, t, h⟩)
    · exact ⟨s, t ++ c :: b, by rw [← h]; simp⟩
    · exact ⟨a ++ c :: s, t, by rw [← h]; simp⟩

/-- An occurrence cannot reach into margins that have none of its characters. -/
theorem infix_margins_iff {needle left t right : Text} (hl : ∀ c ∈ left, c ∉ needle)
    (hr : ∀ c ∈ right, c ∉ needle) (hne : needle ≠ []) :
    needle <:+: left ++ t ++ right ↔ needle <:+: t := by
  have hright : needle <:+: t ++ right ↔ needle <:+: t := by
    cases right with
    | nil => rw [List.append_nil]
    | cons c right =>
        rw [infix_append_cons_iff (hr c List.mem_cons_self), or_iff_left]
        intro h
        obtain ⟨d, hd⟩ := List.exists_mem_of_ne_nil needle hne
        exact hr d (List.mem_cons_of_mem c (h.subset hd)) hd
  -- the left margin goes character by character
  rw [List.append_assoc, ← hright]
  induction left with
  | nil => rfl
  | cons c left ih =>
      have h := infix_append_cons_iff (a := []) (b := left ++ (t ++ right))
        (hl c List.mem_cons_self)
      rw [List.nil_append] at h
      exact (h.trans (or_iff_right (by simp [hne]))).trans
        (ih fun d hd => hl d (List.mem_cons_of_mem c hd))

theorem occurs_eq_false_iff {needle t : Text} : occurs needle t = false ↔ ¬ needle <:+: t := by
  rw [← occurs_iff, Bool.not_eq_true]

/-- Nothing is replaced where nothing is found. -/
theorem replaceFirst_of_not_infix {needle replacement t : Text} (h : ¬ needle <:+: t) :
    replaceFirst needle replacement t = t := by
  induction t with
  | nil =>
      have hne : needle.isEmpty = false := by
        cases needle with
        | nil => exact absurd (List.nil_infix) h
        | cons c needle => rfl
      simp [replaceFirst, hne]
  | cons c t ih =>
      rw [List.infix_cons_iff, not_or] at h
      have hn : after? needle (c :: t) = none := by
        rw [Option.eq_none_iff_forall_not_mem]
        intro rest hr
        exact h.1 ⟨rest, (after?_eq_some.mp hr).symm⟩
      rw [replaceFirst, hn]
      simp only [ih h.2]

/-! ## Cuts -/

theorem cutFirst?_eq_none {c : Char} {t : Text} : cutFirst? c t = none ↔ c ∉ t := by
  induction t with
  | nil => simp [cutFirst?]
  | cons d t ih =>
      by_cases hd : d = c
      · simp [cutFirst?, hd]
      · simp [cutFirst?, hd, ih, Ne.symm hd]

/-- The first cut is made where the character first stands. -/
theorem cutFirst?_append_cons {c : Char} {before behind : Text} (h : c ∉ before) :
    cutFirst? c (before ++ c :: behind) = some (before, behind) := by
  induction before with
  | nil => simp [cutFirst?]
  | cons d before ih =>
      rw [List.mem_cons, not_or] at h
      rw [List.cons_append, cutFirst?, if_neg (Ne.symm h.1), ih h.2]
      rfl

/-- The last cut is made where the character last stands. -/
theorem cutLast?_append_cons {c : Char} {before behind : Text} (h : c ∉ behind) :
    cutLast? c (before ++ c :: behind) = some (before, behind) :=
  cutLast?_eq_some.mpr ⟨rfl, h⟩

/-! ## Margins -/

/-- The text does not start with a blank. -/
def StartsSolid (t : Text) : Prop := ∀ c ∈ t.head?, isBlank c = false

/-- The text does not end in a blank. -/
def EndsSolid (t : Text) : Prop := ∀ c ∈ t.getLast?, isBlank c = false

theorem endsSolid_iff {t : Text} : t.getLast?.any isBlank = false ↔ EndsSolid t := by
  unfold EndsSolid
  cases t.getLast? with
  | none => simp
  | some c => simp

instance (t : Text) : Decidable (EndsSolid t) := decidable_of_iff _ endsSolid_iff

theorem startsSolid_append {a : Text} (ha : StartsSolid a) (hne : a ≠ []) (b : Text) :
    StartsSolid (a ++ b) := by
  cases a with
  | nil => exact absurd rfl hne
  | cons c a => exact ha

theorem endsSolid_append {b : Text} (hb : EndsSolid b) (hne : b ≠ []) (a : Text) :
    EndsSolid (a ++ b) := by
  intro c hc
  rw [List.getLast?_append, List.getLast?_eq_some_getLast hne, Option.some_or] at hc
  exact hb c (by rwa [List.getLast?_eq_some_getLast hne])

/-- A text that ends in a solid character. -/
theorem endsSolid_concat {c : Char} (hc : isBlank c = false) (t : Text) : EndsSolid (t ++ [c]) := by
  intro d hd
  rw [List.getLast?_concat] at hd
  rwa [← Option.some.inj hd]

theorem trimStart_append {left t : Text} (hl : ∀ c ∈ left, isBlank c = true)
    (ht : StartsSolid t) : trimStart (left ++ t) = t := by
  induction left with
  | nil =>
      cases t with
      | nil => rfl
      | cons c t =>
          have hc : isBlank c = false := ht c rfl
          simp [trimStart, hc]
  | cons c left ih =>
      have hc : isBlank c = true := hl c List.mem_cons_self
      have ih' := ih fun d hd => hl d (List.mem_cons_of_mem c hd)
      simpa [trimStart, hc] using ih'

theorem trimEnd_append {right t : Text} (hr : ∀ c ∈ right, isBlank c = true)
    (ht : EndsSolid t) : trimEnd (t ++ right) = t := by
  have h : trimStart (right.reverse ++ t.reverse) = t.reverse := by
    apply trimStart_append
    · intro c hc
      exact hr c (List.mem_reverse.mp hc)
    · intro c hc
      exact ht c (by simpa using hc)
  rw [trimEnd, List.reverse_append, ← trimStart, h, List.reverse_reverse]

theorem trimEnd_of_endsSolid {t : Text} (ht : EndsSolid t) : trimEnd t = t := by
  have h : trimEnd (t ++ []) = t := trimEnd_append (by simp) ht
  rwa [List.append_nil] at h

/-- A trimmed text has no blanks left around it. -/
theorem trim_append {left right t : Text} (hl : ∀ c ∈ left, isBlank c = true)
    (hr : ∀ c ∈ right, isBlank c = true) (hs : StartsSolid t) (he : EndsSolid t) (hne : t ≠ []) :
    trim (left ++ t ++ right) = t := by
  rw [trim, List.append_assoc, trimStart_append hl (startsSolid_append hs hne right),
    trimEnd_append hr he]

/-! ## Joined parts -/

theorem mem_join {c : Char} {separator : Text} {parts : List Text} (h : c ∈ join separator parts) :
    c ∈ separator ∨ ∃ p ∈ parts, c ∈ p := by
  induction parts with
  | nil => simp [join] at h
  | cons p parts ih =>
      cases parts with
      | nil => exact Or.inr ⟨p, by simp, by simpa [join] using h⟩
      | cons q parts =>
          rw [join, List.intercalate_cons_cons, List.append_assoc, List.mem_append,
            List.mem_append] at h
          rcases h with h | h | h
          · exact Or.inr ⟨p, by simp, h⟩
          · exact Or.inl h
          · rcases ih h with h | ⟨x, hx, hc⟩
            · exact Or.inl h
            · exact Or.inr ⟨x, List.mem_cons_of_mem p hx, hc⟩

/-- Parts in commas and blanks are parts in commas, each but the first with a blank before it. -/
theorem join_comma_blank (p : Text) (parts : List Text) :
    join ", ".toList (p :: parts) = join [','] (p :: parts.map (' ' :: ·)) := by
  induction parts generalizing p with
  | nil => simp [join]
  | cons q parts ih =>
      have h := ih q
      simp only [join] at h ⊢
      rw [List.intercalate_cons_cons, h, List.map_cons, List.intercalate_cons_cons,
        List.intercalate_cons_cons_left]
      simp

end Text

end ImportTidy

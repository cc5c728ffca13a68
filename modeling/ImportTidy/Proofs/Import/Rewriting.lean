/-
# ImportTidy.Proofs.Import.Rewriting — rewrites of the start of a path

A rewrite replaces the first occurrence of a text, wherever it stands. When the text is a blank and
the start of a path with a dot in it, it can only stand behind the keyword of a regular statement,
because no dot follows a blank anywhere else. A table whose rules are of this kind, and whose targets
start like no source, rewrites every regular statement to a regular one to which no rule applies any
more (`Anchored.rewriteAll`). What compaction makes of such statements can fall under a rule in one
way only: a collapsed wildcard can be the source itself (`Anchored.source_of_wildcard`).
-/
import ImportTidy.Proofs.Import.Cleaning

namespace ImportTidy

namespace Text

/-- An occurrence is replaced when no character before it could start one. -/
theorem replaceFirst_append {c : Char} {before : Text} (h : c ∉ before) (w target behind : Text) :
    replaceFirst (c :: w) target (before ++ c :: (w ++ behind)) = before ++ (target ++ behind) := by
  induction before with
  | nil =>
      have hafter : after? (c :: w) (c :: (w ++ behind)) = some behind := by
        rw [after?_eq_some]
        rfl
      rw [List.nil_append, replaceFirst, hafter]
      rfl
  | cons d before ih =>
      rw [List.mem_cons, not_or] at h
      have hafter : after? (c :: w) (d :: (before ++ c :: (w ++ behind))) = none := if_neg h.1
      rw [List.cons_append, replaceFirst, hafter, ih h.2]
      rfl

/-- A character that stands neither before the cut nor at it stands behind it. -/
theorem exists_append_cons_of_eq {c d : Char} {n x l r : Text} (hc : c ∉ n) (hcd : c ≠ d)
    (h : n ++ d :: x = l ++ c :: r) : ∃ l', x = l' ++ c :: r := by
  induction n generalizing l with
  | nil =>
      cases l with
      | nil => exact absurd (List.cons.inj h).1.symm hcd
      | cons a l => exact ⟨l, (List.cons.inj h).2⟩
  | cons a n ih =>
      rw [List.mem_cons, not_or] at hc
      cases l with
      | nil => exact absurd (List.cons.inj h).1.symm hc.1
      | cons a' l => exact ih hc.2 (List.cons.inj h).2

end Text

namespace Statement

/-! ## Paths -/

/-- What may stand behind the keyword of a regular statement. -/
inductive IsPath : Text → Prop
  | name {n : Text} : Text.IsName n → IsPath n
  | selector {n m : Text} : Text.IsName n → IsSelector m → IsPath (n ++ '.' :: m)
  | under {n p : Text} : Text.IsName n → IsPath p → IsPath (n ++ '.' :: p)

theorem isPath_join {names : List Text} {m : Text} (hne : names ≠ [])
    (hn : ∀ n ∈ names, Text.IsName n) (hm : IsSelector m) :
    IsPath (Text.join ['.'] names ++ '.' :: m) := by
  induction names with
  | nil => exact absurd rfl hne
  | cons n names ih =>
      have hn₁ := hn n List.mem_cons_self
      cases names with
      | nil =>
          rw [Text.join, List.intercalate_singleton]
          exact .selector hn₁ hm
      | cons n' names =>
          have hrest := ih (by simp) fun x hx => hn x (List.mem_cons_of_mem n hx)
          rw [Text.join, List.intercalate_cons_cons, ← Text.join, List.append_assoc,
            List.append_assoc, List.singleton_append]
          exact .under hn₁ hrest

theorem IsPath.regular {p : Text} (h : IsPath p) : Regular ⟨keyword ++ ' ' :: p⟩ := by
  induction h with
  | name hn => exact Or.inr ⟨_, hn, rfl⟩
  | selector hn hm => exact Or.inl ⟨_, _, isQualifier_name hn, hm, by simp [ofMember]⟩
  | @under n p hn _ ih =>
      rcases ih with ⟨q, m, ⟨names, hne, hnames, rfl⟩, hm, he⟩ | ⟨n', hn', he⟩
      · have hp : p = Text.join ['.'] names ++ '.' :: m := by simpa [ofMember] using he
        obtain ⟨n', names, rfl⟩ := List.exists_cons_of_ne_nil hne
        refine Or.inl ⟨_, m, ⟨n :: n' :: names, by simp, ?_, rfl⟩, hm, ?_⟩
        · exact List.forall_mem_cons.mpr ⟨hn, hnames⟩
        · rw [hp, ofMember, Text.join, Text.join, List.intercalate_cons_cons]
          simp
      · have hp : p = n' := by simpa using he
        subst hp
        exact Or.inl ⟨_, _, isQualifier_name hn, .name hn', by simp [ofMember]⟩

theorem Regular.isPath {s : Statement} (h : s.Regular) :
    ∃ p, IsPath p ∧ s = ⟨keyword ++ ' ' :: p⟩ := by
  rcases h with ⟨q, m, ⟨names, hne, hn, rfl⟩, hm, rfl⟩ | ⟨n, hn, rfl⟩
  · exact ⟨_, isPath_join hne hn hm, by simp [ofMember]⟩
  · exact ⟨n, .name hn, rfl⟩

/-- Blanks stand in the selector only, and no dot does. -/
theorem IsPath.dotless_behind_blank {p l r : Text} (h : IsPath p) (he : p = l ++ ' ' :: r) :
    '.' ∉ r := by
  induction h generalizing l with
  | name hn =>
      have hmem : ' ' ∈ l ++ ' ' :: r := by simp
      exact absurd (he ▸ hmem) (hn.not_mem (by decide))
  | selector hn hm =>
      obtain ⟨l', rfl⟩ := Text.exists_append_cons_of_eq (hn.not_mem (by decide)) (by decide) he
      intro hdot
      exact hm.dotless (List.mem_append_right l' (List.mem_cons_of_mem _ hdot))
  | under hn _ ih =>
      obtain ⟨l', hp⟩ := Text.exists_append_cons_of_eq (hn.not_mem (by decide)) (by decide) he
      exact ih hp

/-- A blank and a dotted text are found where the path starts with the text, and nowhere else. -/
theorem IsPath.isRewritten_iff {p lead : Text} (hp : IsPath p) (hd : '.' ∈ lead) :
    isRewritten (' ' :: lead) ⟨keyword ++ ' ' :: p⟩ = true ↔ lead <+: p := by
  rw [isRewritten, Text.occurs_iff]
  constructor
  · rintro ⟨l, t, h⟩
    have h' : l ++ ' ' :: (lead ++ t) = keyword ++ ' ' :: p := by simpa using h
    rcases List.append_eq_append_iff.mp h' with ⟨a, hk, ha⟩ | ⟨a, -, ha⟩
    · cases a with
      | nil => exact ⟨t, (List.cons.inj ha).2⟩
      | cons c a =>
          -- the blank of the source would stand in the keyword
          have hc : ' ' ∈ keyword := by
            rw [hk, (List.cons.inj ha).1]
            simp
          exact absurd hc (by decide)
    · cases a with
      | nil => exact ⟨t, (List.cons.inj ha).2.symm⟩
      | cons c a =>
          -- the blank of the source would stand in the path, and a dot behind it
          have hdot := hp.dotless_behind_blank (List.cons.inj ha).2
          exact absurd (List.mem_append_left t hd) hdot
  · rintro ⟨t, rfl⟩
    exact ⟨keyword, t, by simp⟩

end Statement

/-! ## Rules that act on paths -/

/-- The rule replaces a dotted start of a path by another. -/
structure Rewrite.OnPaths (rule : Rewrite) (lead new : Text) : Prop where
  source_eq : rule.source = ' ' :: lead
  target_eq : rule.target = ' ' :: new
  dotted : '.' ∈ lead
  isPath : ∀ rest, Statement.IsPath (lead ++ rest) → Statement.IsPath (new ++ rest)

namespace Rules

variable {r : Rules}

/-- Every rule acts on paths, and no path that starts like a target starts like a source. -/
def Anchored (r : Rules) : Prop :=
  ∀ rule ∈ r.rewrites, ∃ lead new, rule.OnPaths lead new ∧
    ∀ other ∈ r.rewrites, ∀ rest, ¬ other.source <+: ' ' :: (new ++ rest)

/-- A rule that applies makes a regular statement to which no rule applies. -/
theorem Anchored.rewrite (h : r.Anchored) {rule : Rewrite} (hrule : rule ∈ r.rewrites)
    {s : Statement} (hs : s.Regular) (hit : s.isRewritten rule.source = true) :
    (s.rewrite rule.source rule.target).Regular ∧
      r.Unmoved (s.rewrite rule.source rule.target) := by
  obtain ⟨p, hp, rfl⟩ := hs.isPath
  obtain ⟨lead, new, hon, hclear⟩ := h rule hrule
  rw [hon.source_eq, hp.isRewritten_iff hon.dotted] at hit
  obtain ⟨rest, rfl⟩ := hit
  have hnew : Statement.IsPath (new ++ rest) := hon.isPath rest hp
  have heq : Statement.rewrite rule.source rule.target
      ⟨Statement.keyword ++ ' ' :: (lead ++ rest)⟩ = ⟨Statement.keyword ++ ' ' :: (new ++ rest)⟩ := by
    rw [Statement.rewrite, hon.source_eq, hon.target_eq,
      Text.replaceFirst_append (by decide) lead (' ' :: new) rest, List.cons_append]
  rw [heq]
  refine ⟨hnew.regular, fun other hother => ?_⟩
  obtain ⟨lead', new', hon', -⟩ := h other hother
  rw [← Bool.not_eq_true, hon'.source_eq, hnew.isRewritten_iff hon'.dotted]
  intro hpre
  apply hclear other hother rest
  rw [hon'.source_eq]
  exact List.cons_prefix_cons.mpr ⟨rfl, hpre⟩

/-- Some of the rules have been applied: one of them has made a final statement, or none of them
found anything. -/
theorem Anchored.foldl (h : r.Anchored) {s : Statement} (hs : s.Regular) {rules : List Rewrite}
    (hsub : ∀ rule ∈ rules, rule ∈ r.rewrites) :
    ∃ s', rules.foldl (fun s rule => s.rewrite rule.source rule.target) s = s' ∧ s'.Regular ∧
      (r.Unmoved s' ∨ (s' = s ∧ ∀ rule ∈ rules, s.isRewritten rule.source = false)) := by
  induction rules with
  | nil => exact ⟨s, rfl, hs, Or.inr ⟨rfl, by simp⟩⟩
  | cons rule rules ih =>
      have hrules : ∀ x ∈ rules, x ∈ r.rewrites := fun x hx => hsub x (List.mem_cons_of_mem rule hx)
      rcases hit : s.isRewritten rule.source with _ | _
      · -- the rule finds nothing and leaves the statement to the others
        obtain ⟨s', heq, hs', hcase⟩ := ih hrules
        refine ⟨s', by rw [List.foldl_cons, rewrite_eq_self hit, heq], hs', ?_⟩
        rcases hcase with hdone | ⟨he, hnone⟩
        · exact Or.inl hdone
        · exact Or.inr ⟨he, List.forall_mem_cons.mpr ⟨hit, hnone⟩⟩
      · -- what the rule makes is final, so the others find nothing
        obtain ⟨hreg, hdone⟩ := h.rewrite (hsub rule List.mem_cons_self) hs hit
        refine ⟨_, ?_, hreg, Or.inl hdone⟩
        rw [List.foldl_cons]
        exact foldl_rewrite_eq_self fun x hx => hdone x (hrules x hx)

/-- **Rewriting once is enough.** -/
theorem Anchored.rewriteAll (h : r.Anchored) {s : Statement} (hs : s.Regular) :
    (r.rewriteAll s).Regular ∧ r.Unmoved (r.rewriteAll s) := by
  have htable : ∀ rule ∈ r.rewrites, rule ∈ r.rewrites := fun rule => id
  obtain ⟨s', heq, hs', hcase⟩ := h.foldl hs htable
  have hall : r.rewriteAll s = s' := heq
  rw [hall]
  refine ⟨hs', ?_⟩
  rcases hcase with hdone | ⟨rfl, hnone⟩
  · exact hdone
  · exact hnone

theorem Anchored.rewritten (h : r.Anchored) {b : Block} (hb : ∀ s ∈ b.expand, s.Regular) :
    ∀ s ∈ r.rewritten b, s.Regular ∧ r.Unmoved s := by
  intro s hs
  obtain ⟨x, hx, rfl⟩ := List.mem_map.mp hs
  exact h.rewriteAll (hb x hx)

/-- A rule that does not apply to a member of a qualifier applies to its wildcard only if the
wildcard is its source. -/
theorem Anchored.source_of_wildcard (h : r.Anchored) {rule : Rewrite} (hrule : rule ∈ r.rewrites)
    {q m : Text} (hq : Statement.IsQualifier q) (hm : Statement.IsSelector m)
    (hnot : (Statement.ofMember q m).isRewritten rule.source = false)
    (hit : (Statement.ofMember q Statement.wildcardSelector).isRewritten rule.source = true) :
    (Statement.ofMember q Statement.wildcardSelector).text = Statement.keyword ++ rule.source := by
  obtain ⟨lead, new, hon, -⟩ := h rule hrule
  obtain ⟨names, hne, hn, rfl⟩ := hq
  have hform : ∀ x, Statement.ofMember (Statement.keyword ++ ' ' :: Text.join ['.'] names) x =
      ⟨Statement.keyword ++ ' ' :: (Text.join ['.'] names ++ '.' :: x)⟩ := by
    intro x
    simp [Statement.ofMember]
  rw [hform, hon.source_eq,
    (Statement.isPath_join hne hn .wildcard).isRewritten_iff hon.dotted] at hit
  rw [hform, hon.source_eq, ← Bool.not_eq_true,
    (Statement.isPath_join hne hn hm).isRewritten_iff hon.dotted] at hnot
  have hsplit : Text.join ['.'] names ++ '.' :: Statement.wildcardSelector =
      (Text.join ['.'] names ++ ['.']) ++ ['_'] := by simp [Statement.wildcardSelector]
  rw [hsplit, List.prefix_concat_iff] at hit
  rcases hit with hit | hit
  · rw [hform, hon.source_eq, hit, ← hsplit]
  · -- a source that ends at the dot would start the member's path too
    obtain ⟨t, ht⟩ := hit
    refine absurd ⟨t ++ m, ?_⟩ hnot
    rw [← List.append_assoc, ht]
    simp

end Rules

end ImportTidy

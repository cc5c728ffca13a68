/-
# ImportTidy.Proofs.Import.Compaction — gathering members loses none and invents none

Compaction writes the members of a qualifier anew: in braces, as a wildcard, or one by one. Expanded
again, its result has the statements it was made from (`mem_expand_compact`), except that the plain
statements of a qualifier with too many of them have become its wildcard, and that a bare statement
is lost when its text is also the qualifier of others.
-/
import ImportTidy.Proofs.Import.Selection
import ImportTidy.Proofs.Import.Shape

namespace ImportTidy

namespace Block

/-! ## Statements by their qualifier -/

/-- The statements that import something from the qualifier. -/
def under (b : Block) (q : Text) : Block := b.filter fun s => s.split?.map Prod.fst == some q

/-- Those of them that do not rename. -/
def plainUnder (b : Block) (q : Text) : Block := (b.under q).filter fun s => !s.isRename

/-- At least so many different statements import from the qualifier without renaming. -/
def Reaches (threshold : Nat) (b : Block) (q : Text) : Prop :=
  threshold ≤ (b.plainUnder q).dedup.length

instance (threshold : Nat) (b : Block) (q : Text) : Decidable (Reaches threshold b q) :=
  inferInstanceAs (Decidable (_ ≤ _))

theorem mem_qualifiers {b : Block} {q : Text} : q ∈ b.qualifiers ↔ ∃ s ∈ b, s.qualifier = q := by
  rw [qualifiers, List.mem_eraseDups, List.mem_map]

theorem nodup_qualifiers (b : Block) : b.qualifiers.Nodup := nodup_eraseDups _

/-- The members of a qualifier are those of its statements, in the same order. -/
theorem map_members (b : Block) (q : Text) :
    (b.members q).map (Statement.ofMember q) = b.under q := by
  induction b with
  | nil => rfl
  | cons s b ih =>
      unfold members under at ih ⊢
      rcases hs : s.split? with _ | ⟨p, m⟩
      · -- a statement without a dot has no member, whether or not its text is `q`
        have hm : s.member? = none := by rw [Statement.member?, hs]; rfl
        by_cases hq : (s.qualifier == q) = true
        · simpa [hq, hs, hm] using ih
        · simpa [hq, hs] using ih
      · have hm : s.member? = some m := by rw [Statement.member?, hs]; rfl
        have hp : s.qualifier = p := by rw [Statement.qualifier, hs]
        by_cases hq : p = q
        · have hsq : Statement.ofMember q m = s := by
            rw [← hq, ← hp]
            exact (Statement.eq_ofMember_of_member? hm).1.symm
          simpa [hp, hs, hm, hq, hsq] using ih
        · simpa [hp, hs, hq] using ih

theorem mem_under {b : Block} {q : Text} {s : Statement} :
    s ∈ b.under q ↔ s ∈ b ∧ ∃ m, '.' ∉ m ∧ s = Statement.ofMember q m := by
  rw [under, List.mem_filter, beq_iff_eq, Option.map_eq_some_iff]
  refine and_congr_right fun _ => ⟨?_, ?_⟩
  · rintro ⟨⟨p, m⟩, hs, rfl⟩
    obtain ⟨ht, hm⟩ := Text.cutLast?_eq_some.mp hs
    exact ⟨m, hm, congrArg Statement.mk ht⟩
  · rintro ⟨m, hm, rfl⟩
    exact ⟨(q, m), Statement.split?_ofMember hm, rfl⟩

theorem under_sublist (b : Block) (q : Text) : (b.under q).Sublist b := List.filter_sublist

theorem plainUnder_sublist (b : Block) (q : Text) : (b.plainUnder q).Sublist b :=
  List.filter_sublist.trans (b.under_sublist q)

theorem mem_plainUnder {b : Block} {q : Text} {s : Statement} :
    s ∈ b.plainUnder q ↔ s ∈ b.under q ∧ s.isRename = false := by
  rw [plainUnder, List.mem_filter, Bool.not_eq_true']

theorem Reaches.mono {t : Nat} {b c : Block} {q : Text}
    (h : ∀ s ∈ b.plainUnder q, s ∈ c.plainUnder q) (hr : Reaches t b q) : Reaches t c q := by
  refine Nat.le_trans hr ((nodup_eraseDups _).length_le_of_subset ?_)
  intro s hs
  exact mem_dedup.mpr (h s (mem_dedup.mp hs))

/-- How many different statements there are depends on which there are. -/
theorem reaches_congr {t : Nat} {b c : Block} (h : ∀ s, s ∈ b ↔ s ∈ c) (q : Text) :
    Reaches t b q ↔ Reaches t c q := by
  have hsub : ∀ s, s ∈ b.plainUnder q ↔ s ∈ c.plainUnder q := by
    intro s
    rw [mem_plainUnder, mem_plainUnder, mem_under, mem_under, h s]
  exact ⟨.mono fun s => (hsub s).mp, .mono fun s => (hsub s).mpr⟩

theorem mem_members {b : Block} {q m : Text} :
    m ∈ b.members q ↔ '.' ∉ m ∧ Statement.ofMember q m ∈ b := by
  have h : m ∈ b.members q ↔ Statement.ofMember q m ∈ b.under q := by
    rw [← map_members, List.mem_map]
    constructor
    · intro hm
      exact ⟨m, hm, rfl⟩
    · rintro ⟨m', hm', he⟩
      rwa [← Statement.ofMember_injective he]
  rw [h, mem_under]
  constructor
  · rintro ⟨hb, m', hm', he⟩
    exact ⟨Statement.ofMember_injective he ▸ hm', hb⟩
  · rintro ⟨hm, hb⟩
    exact ⟨hb, m, hm, rfl⟩

theorem nodup_members {b : Block} (hb : b.Nodup) (q : Text) : (b.members q).Nodup := by
  have h : (b.under q).Nodup := hb.sublist List.filter_sublist
  rw [← map_members, List.nodup_iff_pairwise_ne, List.pairwise_map] at h
  exact h.imp fun hne he => hne (congrArg _ he)

/-- A statement with a member is among those of its qualifier. -/
theorem mem_under_qualifier {b : Block} {s : Statement} {m : Text} (hs : s ∈ b)
    (hm : s.member? = some m) : s ∈ b.under s.qualifier := by
  obtain ⟨he, hd⟩ := Statement.eq_ofMember_of_member? hm
  exact mem_under.mpr ⟨hs, m, hd, he⟩

theorem members_ne_nil {b : Block} {q : Text} {s : Statement} (h : s ∈ b.under q) :
    b.members q ≠ [] := by
  intro hnil
  rw [← map_members, hnil] at h
  exact absurd h List.not_mem_nil

theorem mem_qualifiers_of_members {b : Block} {q : Text} (h : b.members q ≠ []) :
    q ∈ b.qualifiers := by
  obtain ⟨m, hm⟩ := List.exists_mem_of_ne_nil _ h
  obtain ⟨hd, hmem⟩ := mem_members.mp hm
  exact mem_qualifiers.mpr ⟨_, hmem, Statement.qualifier_ofMember hd⟩

/-- A qualifier without members is the text of a statement without a dot. -/
theorem eq_text_of_members_eq_nil {b : Block} {q : Text} (hq : q ∈ b.qualifiers)
    (h : b.members q = []) : ∃ s ∈ b, s.member? = none ∧ s.text = q := by
  obtain ⟨s, hs, rfl⟩ := mem_qualifiers.mp hq
  rcases hm : s.member? with _ | m
  · exact ⟨s, hs, hm, (Statement.qualifier_of_member?_eq_none hm).1.symm⟩
  · exact absurd h (members_ne_nil (mem_under_qualifier hs hm))

/-! ## Gathering the members of one qualifier -/

/-- The plain members in the order in which they are gathered. -/
def items (members : List Text) : List Text :=
  wildcardLast (members.filter fun m => !isRenaming m)

/-- One statement for the plain members and one for each rename, also for a single member. -/
theorem gathered_eq (t : Nat) (q : Text) {ms : List Text} (h : ms ≠ []) :
    gathered t q ms =
      plainStatement t q (items ms) ++ (ms.filter isRenaming).map (Statement.ofMember q) := by
  match ms with
  | [] => exact absurd rfl h
  | [m] =>
      cases hm : isRenaming m with
      | true => simp [gathered, items, hm, wildcardLast, plainStatement]
      | false =>
          by_cases hw : m = Statement.wildcardSelector
          · subst hw
            simp [gathered, items, hm, wildcardLast, plainStatement]
          · simp [gathered, items, hm, wildcardLast, plainStatement, Ne.symm hw]
  | m :: m' :: ms => rfl

theorem perm_wildcardLast {ms : List Text} (h : ms.Nodup) : (wildcardLast ms).Perm ms := by
  unfold wildcardLast
  by_cases hw : ms.contains Statement.wildcardSelector = true
  · rw [if_pos hw]
    have hm : Statement.wildcardSelector ∈ ms := by simpa using hw
    rw [← h.erase_eq_filter]
    exact (List.perm_append_comm).trans (List.perm_cons_erase hm).symm
  · rw [if_neg hw]

theorem perm_items {ms : List Text} (h : ms.Nodup) :
    (items ms).Perm (ms.filter fun m => !isRenaming m) :=
  perm_wildcardLast (h.sublist List.filter_sublist)

theorem mem_items {ms : List Text} (h : ms.Nodup) {m : Text} :
    m ∈ items ms ↔ m ∈ ms ∧ isRenaming m = false := by
  rw [(perm_items h).mem_iff, List.mem_filter, Bool.not_eq_true']

/-! ## Expanding what was gathered -/

/-- A statement of the expanded block stands in the block itself, or is a member of a group there. -/
theorem mem_expand {b : Block} {x : Statement} :
    x ∈ b.expand ↔ (x ∈ b ∧ x.expand? = none) ∨
      ∃ s ∈ b, ∃ members, s.expand? = some members ∧ x ∈ members := by
  rw [expand, List.mem_flatMap]
  constructor
  · rintro ⟨s, hs, hx⟩
    cases hexpand : s.expand? with
    | none =>
        rw [hexpand, Option.getD_none, List.mem_singleton] at hx
        subst hx
        exact Or.inl ⟨hs, hexpand⟩
    | some members =>
        rw [hexpand] at hx
        exact Or.inr ⟨s, hs, members, hexpand, hx⟩
  · rintro (⟨hx, hnone⟩ | ⟨s, hs, members, hexpand, hx⟩)
    · refine ⟨x, hx, ?_⟩
      rw [hnone]
      exact List.mem_singleton_self x
    · refine ⟨s, hs, ?_⟩
      rwa [hexpand]

theorem expand_append (b c : Block) : expand (b ++ c) = b.expand ++ c.expand :=
  List.flatMap_append

theorem expand_flatMap {α : Type} (l : List α) (f : α → Block) :
    expand (l.flatMap f) = l.flatMap fun a => (f a).expand :=
  List.flatMap_assoc

theorem expand_of_forall_none {b : Block} (h : ∀ s ∈ b, s.expand? = none) : b.expand = b := by
  induction b with
  | nil => rfl
  | cons s b ih =>
      rw [expand, List.flatMap_cons, h s List.mem_cons_self, ← expand,
        ih fun x hx => h x (List.mem_cons_of_mem s hx)]
      rfl

/-- A group is written in pieces, each but the first with a blank before the name. -/
theorem ofGroup_eq_inBraces (q : Text) {names : List Text} (hn : ∀ n ∈ names, Text.IsName n) :
    ∃ pieces, Statement.ofGroup q names = Statement.ofMember q (Statement.inBraces pieces) ∧
      (∀ p ∈ pieces, Text.Padded Text.IsName p) ∧ pieces.map Text.trim = names := by
  have hpiece : ∀ left n, Text.IsPadding left → Text.IsName n →
      Text.Padded Text.IsName (left ++ n) ∧ Text.trim (left ++ n) = n := by
    intro left n hl h
    refine ⟨⟨left, n, [], hl, Text.isPadding_nil, h, by simp⟩, ?_⟩
    simpa using h.trim_append hl Text.isPadding_nil
  cases names with
  | nil => exact ⟨[], by simp [Statement.ofGroup, Statement.inBraces, Text.join], by simp, rfl⟩
  | cons n names =>
      obtain ⟨hn₁, hn₂⟩ := List.forall_mem_cons.mp hn
      refine ⟨n :: names.map (' ' :: ·), ?_, ?_, ?_⟩
      · rw [Statement.ofGroup, Text.join_comma_blank, Statement.inBraces]
      · intro p hp
        rcases List.mem_cons.mp hp with rfl | hp
        · exact (hpiece [] _ Text.isPadding_nil hn₁).1
        · obtain ⟨m, hm, rfl⟩ := List.mem_map.mp hp
          exact (hpiece [' '] m Text.isPadding_blank (hn₂ m hm)).1
      · rw [List.map_cons, List.map_map, show Text.trim n = n from (hpiece [] n Text.isPadding_nil hn₁).2]
        congr 1
        exact (List.map_congr_left fun m hm =>
          (hpiece [' '] m Text.isPadding_blank (hn₂ m hm)).2).trans (List.map_id _)

/-- Braces around names in commas and blanks are opened again. -/
theorem expand?_ofGroup {q : Text} {names : List Text} (hq : Statement.IsQualifier q)
    (hn : ∀ n ∈ names, Text.IsName n) :
    (Statement.ofGroup q names).expand? = some (names.map (Statement.ofMember q)) := by
  obtain ⟨pieces, hg, hp, hnames⟩ := ofGroup_eq_inBraces q hn
  rw [hg, Statement.expand?_inBraces hq hp, ← hnames, List.map_map]
  rfl

theorem recognised_ofGroup {q : Text} {names : List Text} (hq : Statement.IsQualifier q)
    (hn : ∀ n ∈ names, Text.IsName n) : (Statement.ofGroup q names).Recognised := by
  obtain ⟨pieces, hg, hp, -⟩ := ofGroup_eq_inBraces q hn
  exact Or.inr ⟨q, pieces, hq, hp, hg⟩

/-- The statement for the plain members expands to them, or to the wildcard when there are too
many. -/
theorem expand_plainStatement {t : Nat} {q : Text} {names : List Text} (ht : 2 ≤ t)
    (hq : Statement.IsQualifier q) (hn : ∀ n ∈ names, Text.IsName n) :
    expand (plainStatement t q names) =
      if names.length < t then names.map (Statement.ofMember q)
      else [Statement.ofMember q Statement.wildcardSelector] := by
  have hself : ∀ m, Text.IsName m →
      expand [Statement.ofMember q m] = [Statement.ofMember q m] := by
    intro m hm
    apply expand_of_forall_none
    intro s hs
    obtain rfl := List.mem_singleton.mp hs
    exact Statement.expand?_ofMember hq (.name hm)
  match names with
  | [] =>
      rw [plainStatement, if_pos (by simp; omega)]
      rfl
  | [m] =>
      rw [plainStatement, if_pos (by simp; omega), hself m (hn m List.mem_cons_self)]
      rfl
  | m :: m' :: names =>
      show expand (if (m :: m' :: names).length < t then [Statement.ofGroup q (m :: m' :: names)]
        else [Statement.ofMember q Statement.wildcardSelector]) = _
      by_cases hlen : (m :: m' :: names).length < t
      · rw [if_pos hlen, if_pos hlen, expand, List.flatMap_singleton, expand?_ofGroup hq hn]
        rfl
      · rw [if_neg hlen, if_neg hlen, hself _ Text.isName_wildcardSelector]

/-- Too many members become the wildcard. -/
theorem plainStatement_of_le {t : Nat} {q : Text} {names : List Text} (ht : 2 ≤ t)
    (h : t ≤ names.length) :
    plainStatement t q names = [.ofMember q Statement.wildcardSelector] := by
  match names with
  | [] => exact absurd h (by simp; omega)
  | [m] => exact absurd h (by simp; omega)
  | m :: m' :: names => exact if_neg (Nat.not_lt_of_le h)

/-- Statements of a shape that is recognised expand to well-shaped ones. -/
theorem wellShaped_of_mem_expand {b : Block} (hb : ∀ s ∈ b, s.Recognised) :
    ∀ s ∈ b.expand, s.WellShaped := by
  intro s hs
  obtain ⟨x, hx, hs⟩ := List.mem_flatMap.mp hs
  rcases hb x hx with ⟨q, m, hq, hm, rfl⟩ | ⟨q, pieces, hq, hp, rfl⟩
  · rw [Statement.expand?_ofMember hq hm, Option.getD_none, List.mem_singleton] at hs
    exact ⟨q, m, hq, hm, hs⟩
  · rw [Statement.expand?_inBraces hq hp, Option.getD_some] at hs
    obtain ⟨p, hmem, rfl⟩ := List.mem_map.mp hs
    exact ⟨q, _, hq, .name (Text.isName_trim (hp p hmem)), rfl⟩

section Regular

variable {t : Nat} {b : Block}

theorem shape_of_mem_members (hb : ∀ s ∈ b, s.Regular) {q m : Text} (h : m ∈ b.members q) :
    Statement.IsQualifier q ∧ Statement.IsSelector m := by
  obtain ⟨hd, hm⟩ := mem_members.mp h
  exact (hb _ hm).shape_of_ofMember hd

/-- Which members rename can be read off their statements. -/
theorem filter_under (hb : ∀ s ∈ b, s.Regular) (p : Bool → Bool) (q : Text) :
    ((b.members q).filter fun m => p (isRenaming m)).map (Statement.ofMember q) =
      (b.under q).filter fun s => p s.isRename := by
  rw [← map_members, List.filter_map]
  congr 1
  apply List.filter_congr
  intro m hm
  rw [Function.comp_apply, Statement.isRename_ofMember (shape_of_mem_members hb hm).1]

theorem map_renames (hb : ∀ s ∈ b, s.Regular) (q : Text) :
    ((b.members q).filter isRenaming).map (Statement.ofMember q) =
      (b.under q).filter Statement.isRename :=
  filter_under hb id q

theorem names_of_mem_items (hb : ∀ s ∈ b, s.Regular) (hn : b.Nodup) {q m : Text}
    (h : m ∈ items (b.members q)) : Text.IsName m := by
  obtain ⟨hm, hr⟩ := (mem_items (nodup_members hn q)).mp h
  exact (shape_of_mem_members hb hm).2.isRenaming_eq_false_iff.mp hr

theorem perm_map_items (hb : ∀ s ∈ b, s.Regular) (hn : b.Nodup) (q : Text) :
    ((items (b.members q)).map (Statement.ofMember q)).Perm (b.plainUnder q) := by
  have hplain : ((b.members q).filter fun m => !isRenaming m).map (Statement.ofMember q) =
      b.plainUnder q := filter_under hb not q
  rw [← hplain]
  exact (perm_items (nodup_members hn q)).map _

/-- A qualifier is gathered to a wildcard when it has too many plain statements. -/
theorem reaches_iff (hb : ∀ s ∈ b, s.Regular) (hn : b.Nodup) {q : Text} :
    Reaches t b q ↔ t ≤ (items (b.members q)).length := by
  rw [Reaches, dedup, eraseDups_of_nodup (hn.sublist (b.plainUnder_sublist q)),
    ← (perm_map_items hb hn q).length_eq, List.length_map]

theorem expand_renames (hb : ∀ s ∈ b, s.Regular) (q : Text) :
    expand ((b.under q).filter Statement.isRename) = (b.under q).filter Statement.isRename := by
  apply expand_of_forall_none
  intro s hs
  exact (hb s (mem_under.mp (List.mem_filter.mp hs).1).1).expand?

/-- What the statements for one qualifier expand to. -/
theorem mem_expand_gathered (ht : 2 ≤ t) (hb : ∀ s ∈ b, s.Regular) (hn : b.Nodup) {q : Text}
    (hq : b.members q ≠ []) {s : Statement} :
    s ∈ expand (gathered t q (b.members q)) ↔
      (s ∈ b.under q ∧ s.isRename = true) ∨ (s ∈ b.plainUnder q ∧ ¬ Reaches t b q) ∨
        (Reaches t b q ∧ s = Statement.ofMember q Statement.wildcardSelector) := by
  obtain ⟨m₀, hm₀⟩ := List.exists_mem_of_ne_nil _ hq
  have hqual : Statement.IsQualifier q := (shape_of_mem_members hb hm₀).1
  have hnames : ∀ m ∈ items (b.members q), Text.IsName m := fun m => names_of_mem_items hb hn
  rw [gathered_eq t q hq, expand_append, expand_plainStatement ht hqual hnames, map_renames hb,
    expand_renames hb, List.mem_append, List.mem_filter, reaches_iff hb hn]
  by_cases hlen : (items (b.members q)).length < t
  · rw [if_pos hlen, (perm_map_items hb hn q).mem_iff]
    have hnot : ¬ t ≤ (items (b.members q)).length := by omega
    simp only [hnot, not_false_eq_true, and_true, false_and, or_false]
    exact or_comm
  · rw [if_neg hlen, List.mem_singleton]
    have hle : t ≤ (items (b.members q)).length := by omega
    simp only [hle, not_true_eq_false, and_false, true_and, false_or]
    exact or_comm

theorem exists_plain_of_reaches (ht : 2 ≤ t) {q : Text} (h : Reaches t b q) :
    ∃ s, s ∈ b.plainUnder q := by
  apply List.exists_mem_of_ne_nil
  intro hnil
  rw [Reaches, hnil] at h
  have hzero : (dedup []).length = 0 := rfl
  omega

theorem members_ne_nil_of_reaches (ht : 2 ≤ t) {q : Text} (h : Reaches t b q) :
    b.members q ≠ [] := by
  obtain ⟨s, hs⟩ := exists_plain_of_reaches ht h
  exact members_ne_nil (mem_plainUnder.mp hs).1

/-- A statement without a dot stays when it is the only one with its qualifier. -/
theorem expand_gathered_nil (hb : ∀ s ∈ b, s.Regular) {s : Statement} (hs : s ∈ b)
    (h : b.members s.text = []) : expand (gathered t s.text (b.members s.text)) = [s] := by
  rw [h, gathered]
  apply expand_of_forall_none
  intro x hx
  obtain rfl := List.mem_singleton.mp hx
  exact (hb _ hs).expand?

/-- **Compaction keeps what it gathers.** Expanded, a compacted block has the renames of the block,
the plain statements of every qualifier that has few of them, the wildcard of every other qualifier,
and the bare statements whose text is nobody's qualifier. -/
theorem mem_expand_compact (ht : 2 ≤ t) (hb : ∀ s ∈ b, s.Regular) (hn : b.Nodup)
    {s : Statement} :
    s ∈ (b.compact t).expand ↔
      (s ∈ b ∧ s.isRename = true) ∨ (∃ q, s ∈ b.plainUnder q ∧ ¬ Reaches t b q) ∨
        (∃ q, Reaches t b q ∧ s = Statement.ofMember q Statement.wildcardSelector) ∨
          (s ∈ b ∧ s.member? = none ∧ b.members s.text = []) := by
  rw [compact, expand_flatMap, List.mem_flatMap]
  constructor
  · rintro ⟨q, hq, hs⟩
    by_cases hm : b.members q = []
    · obtain ⟨x, hx, hnone, rfl⟩ := eq_text_of_members_eq_nil hq hm
      rw [expand_gathered_nil hb hx hm, List.mem_singleton] at hs
      subst hs
      exact Or.inr (Or.inr (Or.inr ⟨hx, hnone, hm⟩))
    · rcases (mem_expand_gathered ht hb hn hm).mp hs with ⟨h, hr⟩ | h | h
      · exact Or.inl ⟨(mem_under.mp h).1, hr⟩
      · exact Or.inr (Or.inl ⟨q, h⟩)
      · exact Or.inr (Or.inr (Or.inl ⟨q, h⟩))
  · rintro (⟨hs, hr⟩ | ⟨q, hs, hr⟩ | ⟨q, hr, hs⟩ | ⟨hs, hnone, hm⟩)
    · -- a rename has a member, so it is under its qualifier
      have hu : s ∈ b.under s.qualifier := by
        rcases hb s hs with ⟨q, m, hq, hm, rfl⟩ | hbare
        · exact mem_under_qualifier hs (Statement.member?_ofMember hm.dotless)
        · rw [hbare.isRename] at hr
          exact Bool.noConfusion hr
      have hne := members_ne_nil hu
      exact ⟨_, mem_qualifiers_of_members hne,
        (mem_expand_gathered ht hb hn hne).mpr (Or.inl ⟨hu, hr⟩)⟩
    · have hne := members_ne_nil (List.mem_filter.mp hs).1
      exact ⟨q, mem_qualifiers_of_members hne,
        (mem_expand_gathered ht hb hn hne).mpr (Or.inr (Or.inl ⟨hs, hr⟩))⟩
    · have hne := members_ne_nil_of_reaches ht hr
      exact ⟨q, mem_qualifiers_of_members hne,
        (mem_expand_gathered ht hb hn hne).mpr (Or.inr (Or.inr ⟨hr, hs⟩))⟩
    · have htext := (Statement.qualifier_of_member?_eq_none hnone).1
      refine ⟨s.text, mem_qualifiers.mpr ⟨s, hs, htext⟩, ?_⟩
      rw [expand_gathered_nil hb hs hm]
      exact List.mem_singleton_self s

/-- Compaction makes up no statement but wildcards. -/
theorem mem_or_wildcard_of_mem_expand_compact (ht : 2 ≤ t) (hb : ∀ s ∈ b, s.Regular) (hn : b.Nodup)
    {s : Statement} (hs : s ∈ (b.compact t).expand) :
    s ∈ b ∨ ∃ q, Reaches t b q ∧ s = Statement.ofMember q Statement.wildcardSelector := by
  rcases (mem_expand_compact ht hb hn).mp hs with ⟨h, -⟩ | ⟨q, h, -⟩ | h | ⟨h, -⟩
  · exact Or.inl h
  · exact Or.inl ((b.plainUnder_sublist q).subset h)
  · exact Or.inr h
  · exact Or.inl h

/-- Well-shaped statements all have a member, and so none is lost. -/
theorem mem_expand_compact_of_wellShaped (ht : 2 ≤ t) (hb : ∀ s ∈ b, s.WellShaped) (hn : b.Nodup)
    {s : Statement} :
    s ∈ (b.compact t).expand ↔
      (s ∈ b ∧ (s.isRename = true ∨ ¬ Reaches t b s.qualifier)) ∨
        ∃ q, Reaches t b q ∧ s = Statement.ofMember q Statement.wildcardSelector := by
  rw [mem_expand_compact ht (fun x hx => Or.inl (hb x hx)) hn]
  constructor
  · rintro (⟨hs, hr⟩ | ⟨q, hs, hr⟩ | h | ⟨hs, hnone, -⟩)
    · exact Or.inl ⟨hs, Or.inl hr⟩
    · obtain ⟨hmem, m, hm, rfl⟩ := mem_under.mp (mem_plainUnder.mp hs).1
      exact Or.inl ⟨hmem, Or.inr (by rwa [Statement.qualifier_ofMember hm])⟩
    · exact Or.inr h
    · obtain ⟨q, m, -, hm, rfl⟩ := hb s hs
      rw [Statement.member?_ofMember hm.dotless] at hnone
      exact absurd hnone (by simp)
  · rintro (⟨hs, hr⟩ | h)
    · rcases hren : s.isRename with _ | _
      · refine Or.inr (Or.inl ⟨s.qualifier, mem_plainUnder.mpr ⟨?_, hren⟩, ?_⟩)
        · obtain ⟨q, m, -, hm, rfl⟩ := hb s hs
          exact mem_under_qualifier hs (Statement.member?_ofMember hm.dotless)
        · exact hr.resolve_left (by simp [hren])
      · exact Or.inl ⟨hs, rfl⟩
    · exact Or.inr (Or.inr (Or.inl h))

end Regular

/-! ## The statements of a compacted block -/

/-- A character that is in no member, and no punctuation of groups, is not in their group. -/
theorem not_mem_group {members : List Text} {c : Char} (h : ∀ m ∈ members, c ∉ m)
    (hg : c ∉ "\x7b, \x7d".toList) : c ∉ '\x7b' :: Text.join ", ".toList members ++ ['\x7d'] := by
  intro hm
  simp only [List.cons_append, List.mem_cons, List.mem_append, List.not_mem_nil, or_false] at hm
  rcases hm with rfl | hm | rfl
  · exact absurd hg (by decide)
  · rcases Text.mem_join hm with hm | ⟨m, hmem, hm⟩
    · exact hg (List.mem_of_mem_tail (List.mem_append_left _ hm))
    · exact h m hmem hm
  · exact absurd hg (by decide)

theorem mem_of_mem_wildcardLast {m : Text} {members : List Text} (h : m ∈ wildcardLast members) :
    m ∈ members := by
  unfold wildcardLast at h
  split at h
  · rename_i hcontains
    rcases List.mem_append.mp h with h | h
    · exact (List.mem_filter.mp h).1
    · rw [List.mem_singleton.mp h]
      simpa using hcontains
  · exact h

theorem mem_of_mem_items {m : Text} {members : List Text} (h : m ∈ items members) :
    m ∈ members ∧ isRenaming m = false := by
  obtain ⟨hm, hplain⟩ := List.mem_filter.mp (mem_of_mem_wildcardLast h)
  exact ⟨hm, by simpa using hplain⟩

/-- What a qualifier has one statement for: a member, a group of members or all of them. -/
theorem mem_plainStatement {t : Nat} {q : Text} {members : List Text} {s : Statement}
    (hs : s ∈ plainStatement t q members) :
    ∃ m, s = .ofMember q m ∧
      (m ∈ members ∨ m = '\x7b' :: Text.join ", ".toList members ++ ['\x7d'] ∨
        m = Statement.wildcardSelector) := by
  unfold plainStatement at hs
  split at hs
  · exact absurd hs List.not_mem_nil
  · exact ⟨_, List.mem_singleton.mp hs, Or.inl (List.mem_singleton_self _)⟩
  · split at hs
    · exact ⟨_, List.mem_singleton.mp hs, Or.inr (Or.inl rfl)⟩
    · exact ⟨_, List.mem_singleton.mp hs, Or.inr (Or.inr rfl)⟩

/-- What is gathered for a qualifier with members imports something from it, whatever the members
look like. -/
theorem member_of_mem_gathered {t : Nat} {b : Block} {q : Text} (hm : b.members q ≠ [])
    {s : Statement} (hs : s ∈ gathered t q (b.members q)) :
    ∃ m, s = Statement.ofMember q m ∧ '.' ∉ m := by
  have hdotless : ∀ m ∈ b.members q, '.' ∉ m := fun m hmem => (mem_members.mp hmem).1
  rw [gathered_eq t q hm, List.mem_append] at hs
  rcases hs with hs | hs
  · obtain ⟨m, rfl, hmem | rfl | rfl⟩ := mem_plainStatement hs
    · exact ⟨m, rfl, hdotless m (mem_of_mem_items hmem).1⟩
    · exact ⟨_, rfl, not_mem_group (fun x hx => hdotless x (mem_of_mem_items hx).1) (by decide)⟩
    · exact ⟨_, rfl, by decide⟩
  · obtain ⟨m, hmem, rfl⟩ := List.mem_map.mp hs
    exact ⟨m, rfl, hdotless m (List.mem_filter.mp hmem).1⟩

/-- What is gathered for a qualifier has that qualifier. -/
theorem qualifier_of_mem_gathered {t : Nat} {b : Block} {q : Text} (hq : q ∈ b.qualifiers)
    {s : Statement} (hs : s ∈ gathered t q (b.members q)) : s.qualifier = q := by
  by_cases hm : b.members q = []
  · obtain ⟨x, -, hnone, rfl⟩ := eq_text_of_members_eq_nil hq hm
    rw [hm, gathered, List.mem_singleton] at hs
    subst hs
    exact (Statement.qualifier_of_member?_eq_none hnone).1
  · obtain ⟨m, rfl, hd⟩ := member_of_mem_gathered hm hs
    exact Statement.qualifier_ofMember hd

end Block

end ImportTidy

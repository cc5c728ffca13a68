/-
# ImportTidy.Proofs.Import.Shape — statements of a regular shape and how they are read

Every text is a statement, but not every text is meant as one. A *well-shaped* statement is
`import `, names in dots, and one selector: a name, the wildcard, or a group in braces that gives
at least one member another name. A *bare* statement imports a single name. Of these statements
every reading gives back what they were put together from: the qualifier and the selector, the
path, and (for a group of plain names) the members.
-/
import ImportTidy.Import.Compaction
import ImportTidy.Proofs.Text.Cuts

namespace ImportTidy

namespace Text

/-! ## Names -/

/-- A character of a name: no blank, dot, comma or brace. -/
def isNameChar (c : Char) : Bool :=
  !isBlank c && c != '.' && c != ',' && c != '\x7b' && c != '\x7d'

/-- A name is not empty, has only characters of names, and no arrow. -/
structure IsName (t : Text) : Prop where
  ne_nil : t ≠ []
  chars : ∀ c ∈ t, isNameChar c = true
  arrowless : ¬ Statement.renameArrow <:+: t

/-- The test for a name. -/
def isName (t : Text) : Bool :=
  !t.isEmpty && t.all isNameChar && !occurs Statement.renameArrow t

theorem isName_iff {t : Text} : isName t = true ↔ IsName t := by
  simp only [isName, Bool.and_eq_true, Bool.not_eq_true', List.isEmpty_eq_false_iff,
    List.all_eq_true, occurs_eq_false_iff]
  constructor
  · rintro ⟨⟨hne, hchars⟩, harrow⟩
    exact ⟨hne, hchars, harrow⟩
  · rintro ⟨hne, hchars, harrow⟩
    exact ⟨⟨hne, hchars⟩, harrow⟩

instance (t : Text) : Decidable (IsName t) := decidable_of_iff _ isName_iff

/-- Blanks that do not end the line. -/
def IsPadding (t : Text) : Prop := ∀ c ∈ t, isBlank c = true ∧ c ≠ '\n'

/-- A text with blanks around it. -/
def Padded (P : Text → Prop) (t : Text) : Prop :=
  ∃ left core right, IsPadding left ∧ IsPadding right ∧ P core ∧ t = left ++ core ++ right

/-- A name, an arrow and the name to be used instead. -/
def IsAlias (t : Text) : Prop :=
  ∃ old left right new, IsName old ∧ IsPadding left ∧ IsPadding right ∧ IsName new ∧
    t = old ++ left ++ Statement.renameArrow ++ right ++ new

theorem IsName.not_mem {t : Text} (h : IsName t) {c : Char} (hc : isNameChar c = false) :
    c ∉ t := by
  intro hm
  rw [h.chars c hm] at hc
  exact Bool.noConfusion hc

theorem IsName.not_blank {t : Text} (h : IsName t) {c : Char} (hc : c ∈ t) : isBlank c = false := by
  have hn := h.chars c hc
  simp only [isNameChar, Bool.and_eq_true, Bool.not_eq_true'] at hn
  exact hn.1.1.1.1

theorem IsName.startsSolid {t : Text} (h : IsName t) : StartsSolid t := by
  intro c hc
  exact h.not_blank (List.mem_of_mem_head? hc)

theorem IsName.endsSolid {t : Text} (h : IsName t) : EndsSolid t := by
  intro c hc
  exact h.not_blank (List.mem_of_mem_getLast? hc)

/-- The sign for all members is a name like any other. -/
theorem isName_wildcardSelector : IsName Statement.wildcardSelector := by decide

theorem isPadding_nil : IsPadding [] := fun _ hc => absurd hc List.not_mem_nil

theorem isPadding_blank : IsPadding [' '] := List.forall_mem_singleton.mpr (by decide)

/-- Blanks around a name are trimmed. -/
theorem IsName.trim_append {left t right : Text} (h : IsName t) (hl : IsPadding left)
    (hr : IsPadding right) : trim (left ++ t ++ right) = t :=
  Text.trim_append (fun c hc => (hl c hc).1) (fun c hc => (hr c hc).1) h.startsSolid h.endsSolid
    h.ne_nil

theorem isName_trim {t : Text} (h : Padded IsName t) : IsName (trim t) := by
  obtain ⟨left, core, right, hl, hr, hc, rfl⟩ := h
  rwa [hc.trim_append hl hr]

/-- An occurrence without the separator lies within one of the parts. -/
theorem infix_join_iff {needle : Text} {c : Char} {parts : List Text} (hc : c ∉ needle)
    (hne : needle ≠ []) : needle <:+: join [c] parts ↔ ∃ p ∈ parts, needle <:+: p := by
  induction parts with
  | nil => simpa [join] using hne
  | cons p parts ih =>
      cases parts with
      | nil => simp [join]
      | cons q parts =>
          rw [join, List.intercalate_cons_cons, List.append_assoc, List.singleton_append,
            infix_append_cons_iff hc, ← join, ih]
          simp

end Text

namespace Statement

/-! ## Shapes -/

/-- Pieces in commas, in braces. -/
def inBraces (pieces : List Text) : Text := '\x7b' :: Text.join [','] pieces ++ ['\x7d']

/-- What may stand behind the last dot. -/
inductive IsSelector : Text → Prop
  | name {t : Text} : Text.IsName t → IsSelector t
  | wildcard : IsSelector wildcardSelector
  | aliases {pieces : List Text} :
      (∀ p ∈ pieces, Text.Padded (fun t => Text.IsName t ∨ Text.IsAlias t) p) →
      (∃ p ∈ pieces, Text.Padded Text.IsAlias p) → IsSelector (inBraces pieces)

/-- The keyword, one blank, and names in dots. -/
def IsQualifier (q : Text) : Prop :=
  ∃ names : List Text, names ≠ [] ∧ (∀ n ∈ names, Text.IsName n) ∧
    q = keyword ++ ' ' :: Text.join ['.'] names

/-- A selector imported from a qualifier. -/
def WellShaped (s : Statement) : Prop :=
  ∃ q m, IsQualifier q ∧ IsSelector m ∧ s = ofMember q m

/-- A shape that a line of imports is meant to have: well-shaped, or plain names in braces. -/
def Recognised (s : Statement) : Prop :=
  s.WellShaped ∨ ∃ q pieces, IsQualifier q ∧ (∀ p ∈ pieces, Text.Padded Text.IsName p) ∧
    s = ofMember q (inBraces pieces)

/-- A single name imported. -/
def Bare (s : Statement) : Prop := ∃ n, Text.IsName n ∧ s = ⟨keyword ++ ' ' :: n⟩

/-- A well-shaped or a bare statement. -/
def Regular (s : Statement) : Prop := s.WellShaped ∨ s.Bare

/-- The statement can be a line of a file: an import without a line feed, and no blank at its
end. -/
structure Printable (s : Statement) : Prop where
  isImportLine : isImportLine s.text = true
  oneLine : '\n' ∉ s.text
  endsSolid : Text.EndsSolid s.text

/-- The test for a printable statement. -/
def isPrintable (s : Statement) : Bool :=
  Statement.isImportLine s.text && !s.text.contains '\n' && !s.text.getLast?.any Text.isBlank

theorem isPrintable_iff {s : Statement} : s.isPrintable = true ↔ s.Printable := by
  simp only [isPrintable, Bool.and_eq_true, Bool.not_eq_true', List.contains_eq_mem,
    decide_eq_false_iff_not, Text.endsSolid_iff]
  constructor
  · rintro ⟨⟨himport, hline⟩, hsolid⟩
    exact ⟨himport, hline, hsolid⟩
  · rintro ⟨himport, hline, hsolid⟩
    exact ⟨⟨himport, hline⟩, hsolid⟩

instance (s : Statement) : Decidable s.Printable := decidable_of_iff _ isPrintable_iff

theorem Printable.ne_nil {s : Statement} (h : s.Printable) : s.text ≠ [] := by
  intro hnil
  have hi := h.isImportLine
  rw [hnil] at hi
  exact absurd hi (by decide)

/-! ## Qualifiers -/

/-- The names in dots start and end with a name. -/
theorem join_names_solid {names : List Text} (hne : names ≠ [])
    (hn : ∀ n ∈ names, Text.IsName n) :
    Text.join ['.'] names ≠ [] ∧ Text.StartsSolid (Text.join ['.'] names) ∧
      Text.EndsSolid (Text.join ['.'] names) := by
  induction names with
  | nil => exact absurd rfl hne
  | cons n names ih =>
      have hn₁ := hn n List.mem_cons_self
      cases names with
      | nil =>
          rw [Text.join, List.intercalate_singleton]
          exact ⟨hn₁.ne_nil, hn₁.startsSolid, hn₁.endsSolid⟩
      | cons m names =>
          obtain ⟨h₁, -, h₃⟩ := ih (by simp) fun x hx => hn x (List.mem_cons_of_mem n hx)
          rw [Text.join, List.intercalate_cons_cons, ← Text.join]
          refine ⟨by simp, ?_, Text.endsSolid_append h₃ h₁ _⟩
          rw [List.append_assoc]
          exact Text.startsSolid_append hn₁.startsSolid hn₁.ne_nil _

theorem IsQualifier.exists_path {q : Text} (h : IsQualifier q) :
    ∃ p, q = keyword ++ ' ' :: p ∧ p ≠ [] ∧ Text.StartsSolid p ∧ Text.EndsSolid p := by
  obtain ⟨names, hne, hn, rfl⟩ := h
  exact ⟨_, rfl, join_names_solid hne hn⟩

theorem isQualifier_name {n : Text} (hn : Text.IsName n) : IsQualifier (keyword ++ ' ' :: n) :=
  ⟨[n], by simp, by simpa using hn, by simp [Text.join]⟩

theorem IsQualifier.not_mem {q : Text} (h : IsQualifier q) {c : Char}
    (hc : Text.isNameChar c = false) (hdot : c ≠ '.') (hk : c ∉ keyword ++ [' ']) : c ∉ q := by
  obtain ⟨names, hne, hn, rfl⟩ := h
  intro hm
  rw [← List.singleton_append, ← List.append_assoc, List.mem_append] at hm
  rcases hm with hm | hm
  · exact hk hm
  · rcases Text.mem_join hm with hm | ⟨n, hn', hm⟩
    · exact hdot (by simpa using hm)
    · exact (hn n hn').not_mem hc hm

theorem IsQualifier.arrowless {q : Text} (h : IsQualifier q) : ¬ renameArrow <:+: q := by
  obtain ⟨names, hne, hn, rfl⟩ := h
  rw [Text.infix_append_cons_iff (by decide), Text.infix_join_iff (by decide) (by decide)]
  rintro (h | ⟨n, hn', h⟩)
  · exact absurd h (by decide)
  · exact (hn n hn').arrowless h

theorem IsQualifier.braceless {q : Text} (h : IsQualifier q) : '\x7b' ∉ q :=
  h.not_mem (by decide) (by decide) (by decide)

/-- A text that starts like a qualifier reads as an import line. -/
theorem IsQualifier.isImportLine_append {q : Text} (h : IsQualifier q) (t : Text) :
    isImportLine (q ++ t) = true := by
  obtain ⟨names, -, -, rfl⟩ := h
  have hk : Text.after? keyword (keyword ++ ' ' :: Text.join ['.'] names ++ t) =
      some (' ' :: (Text.join ['.'] names ++ t)) := by
    rw [Text.after?_eq_some]
    simp
  rw [isImportLine, hk]
  show Text.isBlank ' ' = true
  decide

/-! ## Selectors -/

theorem Padded.not_mem {P : Text → Prop} {t : Text} (h : Text.Padded P t) {c : Char}
    (hb : Text.isBlank c = false ∨ c = '\n') (hP : ∀ core, P core → c ∉ core) : c ∉ t := by
  obtain ⟨left, core, right, hl, hr, hc, rfl⟩ := h
  have hpad : ∀ u, Text.IsPadding u → c ∉ u := by
    intro u hu hm
    obtain ⟨h₁, h₂⟩ := hu c hm
    rcases hb with hb | hb
    · rw [h₁] at hb
      exact Bool.noConfusion hb
    · exact h₂ hb
  simp only [List.mem_append, not_or]
  exact ⟨⟨hpad left hl, hP core hc⟩, hpad right hr⟩

/-- An alias has the characters of its names, its arrow and its blanks. -/
theorem IsAlias.not_mem {t : Text} (h : Text.IsAlias t) {c : Char}
    (hc : Text.isNameChar c = false) (hb : Text.isBlank c = false ∨ c = '\n')
    (ha : c ∉ renameArrow) : c ∉ t := by
  obtain ⟨old, left, right, new, ho, hl, hr, hn, rfl⟩ := h
  have hmid : c ∉ left ++ renameArrow ++ right :=
    Padded.not_mem (P := fun t => t = renameArrow) ⟨left, _, right, hl, hr, rfl, rfl⟩ hb
      fun core h => h ▸ ha
  simp only [List.mem_append, not_or] at hmid ⊢
  exact ⟨⟨⟨⟨ho.not_mem hc, hmid.1.1⟩, hmid.1.2⟩, hmid.2⟩, hn.not_mem hc⟩

/-- One member under another name. -/
theorem isSelector_alias {old new : Text} (ho : Text.IsName old) (hn : Text.IsName new) :
    IsSelector (inBraces [old ++ [' '] ++ renameArrow ++ [' '] ++ new]) := by
  have halias : Text.IsAlias (old ++ [' '] ++ renameArrow ++ [' '] ++ new) :=
    ⟨old, [' '], [' '], new, ho, Text.isPadding_blank, Text.isPadding_blank, hn, rfl⟩
  have hpadded : ∀ P : Text → Prop, P (old ++ [' '] ++ renameArrow ++ [' '] ++ new) →
      Text.Padded P (old ++ [' '] ++ renameArrow ++ [' '] ++ new) := by
    intro P h
    exact ⟨[], _, [], Text.isPadding_nil, Text.isPadding_nil, h, by simp⟩
  refine .aliases ?_ ⟨_, List.mem_singleton_self _, hpadded _ halias⟩
  intro p hp
  obtain rfl := List.mem_singleton.mp hp
  exact hpadded _ (Or.inr halias)

/-- A selector is a name, or it gives a member another name and is a group in braces without dot
and line feed. -/
theorem IsSelector.name_or_group {m : Text} (h : IsSelector m) :
    Text.IsName m ∨ ∃ inside, m = '\x7b' :: inside ++ ['\x7d'] ∧ renameArrow <:+: inside ∧
      '.' ∉ m ∧ '\n' ∉ m := by
  cases h with
  | name h => exact Or.inl h
  | wildcard => exact Or.inl Text.isName_wildcardSelector
  | @aliases pieces hall hsome =>
      -- what is no character of a name, no blank and not in the arrow is punctuation of the group
      have hchar : ∀ c, Text.isNameChar c = false → (Text.isBlank c = false ∨ c = '\n') →
          c ∉ renameArrow ++ ['\x7b', ',', '\x7d'] → c ∉ inBraces pieces := by
        intro c hc hb ha hm
        simp only [List.mem_append, not_or] at ha
        simp only [inBraces, List.cons_append, List.mem_cons, List.mem_append] at hm
        rcases hm with hm | hm | hm
        · exact ha.2 (by simp [hm])
        · rcases Text.mem_join hm with hm | ⟨p, hp, hm⟩
          · exact ha.2 (by simp at hm; simp [hm])
          · refine Padded.not_mem (hall p hp) hb ?_ hm
            rintro core (h | h)
            · exact h.not_mem hc
            · exact IsAlias.not_mem h hc hb ha.1
        · exact ha.2 (by simp at hm; simp [hm])
      refine Or.inr ⟨Text.join [','] pieces, rfl, ?_, hchar '.' (by decide) (by decide) (by decide),
        hchar '\n' (by decide) (by decide) (by decide)⟩
      rw [Text.infix_join_iff (by decide) (by decide)]
      obtain ⟨p, hp, left, core, right, -, -, ⟨old, l, r, new, -, -, -, -, rfl⟩, rfl⟩ := hsome
      exact ⟨_, hp, left ++ (old ++ l), r ++ new ++ right, by simp⟩

theorem IsSelector.dotless {m : Text} (h : IsSelector m) : '.' ∉ m := by
  rcases h.name_or_group with h | ⟨inside, -, -, h, -⟩
  · exact h.not_mem (by decide)
  · exact h

theorem IsSelector.oneLine {m : Text} (h : IsSelector m) : '\n' ∉ m := by
  rcases h.name_or_group with h | ⟨inside, -, -, -, h⟩
  · exact h.not_mem (by decide)
  · exact h

theorem IsSelector.ne_nil {m : Text} (h : IsSelector m) : m ≠ [] := by
  rcases h.name_or_group with h | ⟨inside, rfl, -⟩
  · exact h.ne_nil
  · simp

theorem IsSelector.endsSolid {m : Text} (h : IsSelector m) : Text.EndsSolid m := by
  rcases h.name_or_group with h | ⟨inside, rfl, -⟩
  · exact h.endsSolid
  · exact Text.endsSolid_concat (by decide) _

/-- The selectors without an arrow are the names. -/
theorem IsSelector.isRenaming_eq_false_iff {m : Text} (h : IsSelector m) :
    Block.isRenaming m = false ↔ Text.IsName m := by
  rw [Block.isRenaming, Text.occurs_eq_false_iff]
  constructor
  · intro hm
    rcases h.name_or_group with h | ⟨inside, rfl, ha, -⟩
    · exact h
    · obtain ⟨s, t, rfl⟩ := ha
      exact absurd ⟨'\x7b' :: s, t ++ ['\x7d'], by simp⟩ hm
  · intro hm
    exact hm.arrowless

/-! ## Reading what was put together -/

theorem split?_ofMember {q m : Text} (hm : '.' ∉ m) : (ofMember q m).split? = some (q, m) :=
  Text.cutLast?_append_cons hm

theorem qualifier_ofMember {q m : Text} (hm : '.' ∉ m) : (ofMember q m).qualifier = q := by
  rw [qualifier, split?_ofMember hm]

theorem member?_ofMember {q m : Text} (hm : '.' ∉ m) : (ofMember q m).member? = some m := by
  rw [member?, split?_ofMember hm]
  rfl

theorem ofMember_injective {q m m' : Text} (h : ofMember q m = ofMember q m') : m = m' := by
  simpa [ofMember] using h

/-- A statement with a member is put together from its qualifier and the member. -/
theorem eq_ofMember_of_member? {s : Statement} {m : Text} (h : s.member? = some m) :
    s = ofMember s.qualifier m ∧ '.' ∉ m := by
  rw [member?, Option.map_eq_some_iff] at h
  obtain ⟨⟨q, m'⟩, hs, rfl⟩ := h
  obtain ⟨ht, hd⟩ := Text.cutLast?_eq_some.mp hs
  refine ⟨?_, hd⟩
  rw [qualifier, hs]
  cases s
  simp_all [ofMember]

theorem qualifier_of_member?_eq_none {s : Statement} (h : s.member? = none) :
    s.qualifier = s.text ∧ '.' ∉ s.text := by
  rw [member?, Option.map_eq_none_iff] at h
  refine ⟨by rw [qualifier, h], ?_⟩
  exact Text.cutLast?_eq_none.mp h

theorem ofMember_inj {q q' m m' : Text} (hm : '.' ∉ m) (hm' : '.' ∉ m')
    (h : ofMember q m = ofMember q' m') : q = q' ∧ m = m' := by
  have hs : some (q, m) = some (q', m') := by rw [← split?_ofMember hm, h, split?_ofMember hm']
  simpa using hs

theorem Bare.member? {s : Statement} (h : s.Bare) : s.member? = none := by
  obtain ⟨n, hn, rfl⟩ := h
  have hd : '.' ∉ keyword ++ ' ' :: n := by
    rw [List.mem_append, List.mem_cons, not_or, not_or]
    exact ⟨by decide, by decide, hn.not_mem (by decide)⟩
  rw [Statement.member?, split?, Text.cutLast?_eq_none.mpr hd]
  rfl

/-- A regular statement with a dot is well-shaped. -/
theorem Regular.shape_of_ofMember {q m : Text} (h : (ofMember q m).Regular) (hm : '.' ∉ m) :
    IsQualifier q ∧ IsSelector m := by
  rcases h with ⟨q', m', hq, hm', he⟩ | hb
  · obtain ⟨rfl, rfl⟩ := ofMember_inj hm hm'.dotless he
    exact ⟨hq, hm'⟩
  · have hnone := hb.member?
    rw [member?_ofMember hm] at hnone
    exact absurd hnone (by simp)

/-- Only the selector of a well-shaped statement can rename. -/
theorem isRename_ofMember {q m : Text} (hq : IsQualifier q) :
    (ofMember q m).isRename = Block.isRenaming m := by
  rw [Bool.eq_iff_iff, isRename, Block.isRenaming, Text.occurs_iff, Text.occurs_iff, ofMember,
    Text.infix_append_cons_iff (by decide)]
  simp [hq.arrowless]

/-- A wildcard renames nothing. -/
theorem isRename_wildcard {q : Text} (hq : IsQualifier q) :
    (ofMember q wildcardSelector).isRename = false := by
  rw [isRename_ofMember hq]
  decide

theorem expand?_eq_none_of_braceless {s : Statement} (h : '\x7b' ∉ s.text) : s.expand? = none := by
  rw [expand?, braces?, Text.cutFirst?_eq_none.mpr h]
  simp

/-- Well-shaped statements do not expand. -/
theorem expand?_ofMember {q m : Text} (hq : IsQualifier q) (hm : IsSelector m) :
    (ofMember q m).expand? = none := by
  rcases hb : Block.isRenaming m with _ | _
  · have hn := hm.isRenaming_eq_false_iff.mp hb
    apply expand?_eq_none_of_braceless
    simp only [ofMember, List.mem_append, List.mem_cons, not_or]
    exact ⟨hq.braceless, by decide, hn.not_mem (by decide)⟩
  · rw [expand?, isRename_ofMember hq, hb]
    rfl

theorem isRenaming_inBraces {pieces : List Text} (hp : ∀ p ∈ pieces, Text.Padded Text.IsName p) :
    Block.isRenaming (inBraces pieces) = false := by
  have hb : ∀ c, Text.isBlank c = true → c ∉ renameArrow := by
    rintro c hc hm
    simp only [renameArrow, List.mem_cons, List.not_mem_nil, or_false] at hm
    rcases hm with rfl | rfl <;> exact absurd hc (by decide)
  rw [Block.isRenaming, Text.occurs_eq_false_iff, inBraces, ← List.singleton_append,
    Text.infix_margins_iff (List.forall_mem_singleton.mpr (by decide))
      (List.forall_mem_singleton.mpr (by decide)) (by decide),
    Text.infix_join_iff (by decide) (by decide)]
  rintro ⟨p, hm, h⟩
  obtain ⟨left, core, right, hl, hr, hc, rfl⟩ := hp p hm
  rw [Text.infix_margins_iff (fun c h => hb c (hl c h).1) (fun c h => hb c (hr c h).1)
    (by decide)] at h
  exact hc.arrowless h

/-- The pieces of a group are found again between its braces. -/
theorem braces?_inBraces {q : Text} {pieces : List Text} (hq : IsQualifier q)
    (hp : ∀ p ∈ pieces, Text.Padded Text.IsName p) :
    (ofMember q (inBraces pieces)).braces? = some (q ++ ['.'], pieces.map Text.trim) := by
  have hcomma : ∀ p ∈ pieces, ',' ∉ p := by
    intro p h
    exact Padded.not_mem (hp p h) (by decide) fun core hc => hc.not_mem (by decide)
  -- the first brace is the group's own, for the qualifier has none
  have hcut : Text.cutFirst? '\x7b' (ofMember q (inBraces pieces)).text =
      some (q ++ ['.'], Text.join [','] pieces ++ ['\x7d']) := by
    have h : '\x7b' ∉ q ++ ['.'] := by
      rw [List.mem_append, not_or]
      exact ⟨hq.braceless, by decide⟩
    rw [← Text.cutFirst?_append_cons h]
    simp [ofMember, inBraces]
  have hsplit : (((Text.join [','] pieces).splitOn ',').map Text.trim).filter
      (fun name => !name.isEmpty) = pieces.map Text.trim := by
    cases pieces with
    | nil => decide
    | cons p pieces =>
        rw [Text.join, List.splitOn_intercalate ',' hcomma (by simp), List.filter_eq_self]
        intro t ht
        obtain ⟨p', hp', rfl⟩ := List.mem_map.mp ht
        simpa using (Text.isName_trim (hp p' hp')).ne_nil
  rw [braces?, hcut]
  simp only [Text.cutLast?_append_cons List.not_mem_nil, hsplit]

/-- Names in commas between braces are imported one by one. -/
theorem expand?_inBraces {q : Text} {pieces : List Text} (hq : IsQualifier q)
    (hp : ∀ p ∈ pieces, Text.Padded Text.IsName p) :
    (ofMember q (inBraces pieces)).expand? =
      some (pieces.map fun p => ofMember q (Text.trim p)) := by
  rw [expand?, isRename_ofMember hq, isRenaming_inBraces hp, braces?_inBraces hq hp]
  simp [ofMember]

theorem Bare.isRename {s : Statement} (h : s.Bare) : s.isRename = false := by
  obtain ⟨n, hn, rfl⟩ := h
  rw [Statement.isRename, Text.occurs_eq_false_iff, Text.infix_append_cons_iff (by decide)]
  rintro (h | h)
  · exact absurd h (by decide)
  · exact hn.arrowless h

/-- Regular statements do not expand. -/
theorem Regular.expand? {s : Statement} (h : s.Regular) : s.expand? = none := by
  rcases h with ⟨q, m, hq, hm, rfl⟩ | ⟨n, hn, rfl⟩
  · exact expand?_ofMember hq hm
  · apply expand?_eq_none_of_braceless
    simp only [List.mem_append, List.mem_cons, not_or]
    exact ⟨by decide, by decide, hn.not_mem (by decide)⟩

/-! ## Lines and paths -/

theorem printable_ofMember {q m : Text} (hq : IsQualifier q) (hne : m ≠ []) (hn : '\n' ∉ m)
    (he : Text.EndsSolid m) : Printable (ofMember q m) where
  isImportLine := hq.isImportLine_append _
  oneLine := by
    simp only [ofMember, List.mem_append, List.mem_cons, not_or]
    exact ⟨hq.not_mem (by decide) (by decide) (by decide), by decide, hn⟩
  endsSolid := by
    rw [ofMember, ← List.singleton_append, ← List.append_assoc]
    exact Text.endsSolid_append he hne _

theorem Regular.printable {s : Statement} (h : s.Regular) : s.Printable := by
  rcases h with ⟨q, m, hq, hm, rfl⟩ | ⟨n, hn, rfl⟩
  · exact printable_ofMember hq hm.ne_nil hm.oneLine hm.endsSolid
  · have hq := isQualifier_name hn
    refine ⟨?_, hq.not_mem (by decide) (by decide) (by decide), ?_⟩
    · simpa using hq.isImportLine_append []
    · rw [← List.singleton_append, ← List.append_assoc]
      exact Text.endsSolid_append hn.endsSolid hn.ne_nil _

/-- Behind the keyword and one blank stands the path. -/
theorem path_eq {s : Statement} {p : Text} (ht : s.text = keyword ++ ' ' :: p)
    (hp : Text.StartsSolid p) : s.path = p := by
  have h : Text.after? keyword s.text = some (' ' :: p) := Text.after?_eq_some.mpr ht
  rw [path, h]
  have hl : ∀ c ∈ [' '], Text.isBlank c = true := List.forall_mem_singleton.mpr (by decide)
  exact Text.trimStart_append hl hp

theorem Regular.text_eq {s : Statement} (h : s.Regular) : s.text = keyword ++ ' ' :: s.path := by
  rcases h with ⟨q, m, hq, -, rfl⟩ | ⟨n, hn, rfl⟩
  · obtain ⟨p, rfl, hne, hs, -⟩ := hq.exists_path
    have ht : (ofMember (keyword ++ ' ' :: p) m).text = keyword ++ ' ' :: (p ++ '.' :: m) := by
      simp [ofMember]
    rw [path_eq ht (Text.startsSolid_append hs hne _), ht]
  · rw [path_eq rfl hn.startsSolid]

/-- Regular statements differ in their paths. -/
theorem Regular.eq_of_path_eq {s t : Statement} (hs : s.Regular) (ht : t.Regular)
    (h : s.path = t.path) : s = t := by
  have htext : s.text = t.text := by rw [hs.text_eq, ht.text_eq, h]
  cases s
  cases t
  exact congrArg Statement.mk htext

end Statement

end ImportTidy

/-
# ImportTidy.Proofs.Wildcard.Kept — a wildcard that was not resolved stays in force

The loop over the wildcards takes its list before it starts, while the block changes under it: a
replacement takes out the first copy of a wildcard, and what it puts in its place may be anything.
So copies are counted. Every wildcard has one turn for each copy, and the block has at least as many
copies of it as were kept and are still to come (`Accounted`). One that was kept is therefore in the
block that is cleaned at the end, and a cleaned block imports it: alone, in a group, or as the
wildcard of a qualifier that collapsed.

There is one exception. The members of a group may have braces of their own, and then a wildcard of
the expanded imports is a statement that expands again. Cleaning does that, and only what does not
expand is kept (`reduce_keeps_unresolved`).
-/
import ImportTidy.Proofs.Wildcard.Frame

namespace ImportTidy

/-! ## Copies in a block -/

/-- A replacement takes out no more than one copy of its target. -/
theorem Block.count_le_count_replace (b : Block) (s x : Statement) (more : List Statement) :
    b.count x ≤ (b.replace s more).count x + [s].count x := by
  rcases hcut : b.cutAt? s with _ | ⟨before, behind⟩
  · rw [replace, replace?, hcut]
    exact Nat.le_add_right _ _
  · rw [replace_of_cutAt? hcut, eq_append_of_cutAt? hcut, ← List.singleton_append]
    simp only [List.count_append]
    omega

/-! ## A wildcard in a cleaned block -/

theorem Statement.eq_wildcard {s : Statement} (hs : s.WellShaped) (hw : s.isWildcard = true) :
    s = ofMember s.qualifier wildcardSelector := by
  obtain ⟨q, m, -, hm, rfl⟩ := hs
  have hselector : m = wildcardSelector := by
    rw [isWildcard, trailing, split?_ofMember hm.dotless] at hw
    exact eq_of_beq hw
  rw [qualifier_ofMember hm.dotless, hselector]

namespace Rules

variable {r : Rules} {code : Text} {b : Block}

/-- A wildcard that no rule touches is selected, whatever the code needs. -/
theorem wildcard_mem_select {w : Statement} (hmem : w ∈ b) (hw : w.isWildcard = true)
    (hmoved : r.Unmoved w) (hkept : w.text ∉ r.removes) (hexpand : w.expand? = none) :
    w ∈ r.select code b := by
  rw [mem_select]
  refine ⟨?_, hkept, ?_⟩
  · apply List.mem_map.mpr
    exact ⟨w, Block.mem_expand.mpr (Or.inl ⟨hmem, hexpand⟩), foldl_rewrite_eq_self hmoved⟩
  · rw [isUsed, hw]
    rfl

/-- **A cleaned block imports the wildcards of the block that do not expand.** -/
theorem wildcard_mem_expand_clean (hr : r.defect? = none) (hb : ∀ s ∈ r.rewritten b, s.WellShaped)
    {w : Statement} (hmem : w ∈ b) (hw : w.isWildcard = true) (hmoved : r.Unmoved w)
    (hkept : w.text ∉ r.removes) : w ∈ (r.clean code b).expand ↔ w.expand? = none := by
  have hselect : ∀ s ∈ r.select code b, s.WellShaped := fun s hs => hb s (r.mem_select.mp hs).1
  constructor
  · intro h
    exact Statement.Regular.expand? (Or.inl (wellShaped_of_mem_expand_clean hr hselect w h))
  · intro hexpand
    have hsel : w ∈ r.select code b := wildcard_mem_select hmem hw hmoved hkept hexpand
    rw [mem_expand_clean hr hselect]
    by_cases hq : Block.Reaches r.groupThreshold (r.select code b) w.qualifier
    · -- the plain statements of the qualifier give way to this very wildcard
      exact Or.inr ⟨w.qualifier, hq, Statement.eq_wildcard (hselect w hsel) hw⟩
    · exact Or.inl ⟨hsel, Or.inr hq⟩

end Rules

/-- The wildcards that had their turn. -/
def Reduction.turned (done : Reduction) : List Statement :=
  done.resolved.map Prod.fst ++ done.unresolved

namespace Site

variable {σ ε : Type} {site : Site σ ε} {plan : SearchPlan} {f : SourceFile} {content : Text}

/-! ## The turns of the wildcards -/

/-- The invariant of the loop: every wildcard had its turn or is pending, and the block has a copy
for each time that it was kept or is pending. -/
structure Accounted (wildcards pending : List Statement) (current : Block) (done : Reduction) :
    Prop where
  turns : (done.turned ++ pending).Perm wildcards
  copies : ∀ w, (done.unresolved ++ pending).count w ≤ current.count w

theorem Accounted.replaced {wildcards more : List Statement} {wildcard : Statement}
    {current : Block} {done : Reduction}
    (h : Accounted wildcards (wildcard :: more) current done) (found : List Statement) :
    Accounted wildcards more (current.replace wildcard found)
      { done with resolved := done.resolved ++ [(wildcard, found)] } where
  turns := by
    refine List.Perm.trans ?_ h.turns
    -- the wildcard goes from the front of the pending ones to the end of the resolved ones
    apply List.perm_iff_count.mpr
    intro x
    simp only [Reduction.turned, List.map_append, List.map_cons, List.map_nil, List.count_append,
      List.count_cons, List.count_nil]
    omega
  copies := by
    intro w
    have hcopies := h.copies w
    have hreplace := Block.count_le_count_replace current wildcard w found
    rw [← List.singleton_append] at hcopies
    simp only [List.count_append] at hcopies ⊢
    omega

theorem Accounted.kept {wildcards more : List Statement} {wildcard : Statement} {current : Block}
    {done : Reduction} (h : Accounted wildcards (wildcard :: more) current done) :
    Accounted wildcards more current
      { done with unresolved := done.unresolved ++ [wildcard] } where
  turns := by
    have hturns := h.turns
    simp only [Reduction.turned, List.append_assoc] at hturns ⊢
    exact hturns
  copies := by
    have hcopies := h.copies
    simp only [List.append_assoc]
    exact hcopies

/-- **The loop keeps what each of its turns keeps**, whether the wildcard is replaced or kept. -/
theorem reduceFrom_keeps {P : List Statement → Block → Reduction → Prop}
    (hreplaced : ∀ {wildcard more current done found s s₁}, P (wildcard :: more) current done →
      plan.search (site.bench f) wildcard current s = (.ok found, s₁) →
        P more (current.replace wildcard found)
          { done with resolved := done.resolved ++ [(wildcard, found)] })
    (hkept : ∀ {wildcard more current done}, P (wildcard :: more) current done →
      P more current { done with unresolved := done.unresolved ++ [wildcard] })
    (pending : List Statement) (current : Block) (done : Reduction) (s : σ)
    (h : P pending current done) {final : Block} {done' : Reduction} {s' : σ}
    (hrun : site.reduceFrom plan f content pending current done s = (.ok (final, done'), s')) :
    P [] final done' := by
  induction pending generalizing current done s with
  | nil =>
      obtain ⟨he, -⟩ := Prod.mk.inj hrun
      obtain ⟨rfl, rfl⟩ := Prod.mk.inj (Except.ok.inj he)
      exact h
  | cons wildcard more ih =>
      rw [reduceFrom] at hrun
      rcases hsearch : plan.search (site.bench f) wildcard current s with ⟨fault | found, s₁⟩
      · rw [hsearch] at hrun
        cases fault with
        | failed cause => exact absurd hrun (by simp)
        | unresolved x n =>
            dsimp only at hrun
            rcases hback : (site.bench f).persist current s₁ with ⟨cause | _, s₂⟩
            · rw [hback] at hrun
              exact absurd hrun (by simp)
            · rw [hback] at hrun
              exact ih _ _ _ (hkept h) hrun
      · rw [hsearch] at hrun
        exact ih _ _ _ (hreplaced h hsearch) hrun

/-- Every wildcard is accounted for at the end of the loop. -/
theorem accounted_reduceFrom {wildcards : List Statement} (pending : List Statement)
    (current : Block) (done : Reduction) (s : σ) (h : Accounted wildcards pending current done)
    {final : Block} {done' : Reduction} {s' : σ}
    (hrun : site.reduceFrom plan f content pending current done s = (.ok (final, done'), s')) :
    Accounted wildcards [] final done' :=
  reduceFrom_keeps (fun h _ => h.replaced _) (fun h => h.kept) pending current done s h hrun

theorem accounted_replaceWildcards {s s₁ : σ} {current : Block} {done : Reduction}
    (h : site.replaceWildcards plan content s = (.ok (current, done), s₁)) :
    Accounted (SourceFile.parse content).imports.expand.wildcards [] current done := by
  refine accounted_reduceFrom _ _ _ s ⟨List.Perm.refl _, fun w => ?_⟩ h
  exact List.filter_sublist.count_le w

/-- What was kept is a wildcard, and still in the block. -/
theorem Accounted.mem_of_mem_unresolved {b current : Block} {done : Reduction}
    (h : Accounted b.wildcards [] current done) {w : Statement} (hw : w ∈ done.unresolved) :
    w.isWildcard = true ∧ w ∈ current := by
  constructor
  · have hturned : w ∈ done.turned ++ [] := by simp [Reduction.turned, hw]
    exact (List.mem_filter.mp (h.turns.mem_iff.mp hturned)).2
  · have hcopies := h.copies w
    have hone : 0 < (done.unresolved ++ []).count w := List.count_pos_iff.mpr (by simpa using hw)
    exact List.count_pos_iff.mp (by omega)

/-! ## The file that is written -/

/-- A reduction that succeeds writes the cleaned file last. -/
theorem noted_reduce_eq_ok {rules : Rules} {s s₁ s' : σ} {current : Block} {done : Reduction}
    (hread : site.read s = .ok content)
    (hloop : site.replaceWildcards plan content s = (.ok (current, done), s₁))
    (hwrite : site.write (((SourceFile.parse content).withImports current).normalize rules) s₁ =
      (.ok (), s')) :
    ∃ texts, site.noted.reduce rules plan (s, []) =
      (.ok done, s', ((SourceFile.parse content).withImports current).normalize rules :: texts) := by
  have hview : site.replaceWildcards plan content s =
      ((site.noted.replaceWildcards plan content (s, [])).1,
        (site.noted.replaceWildcards plan content (s, [])).2.1) :=
    reduceFrom_view site.shows_noted plan _ content _ _ _ (s, [])
  rcases hnoted : site.noted.replaceWildcards plan content (s, []) with ⟨result, s₂, texts⟩
  rw [hnoted, hloop] at hview
  obtain ⟨rfl, rfl⟩ := Prod.mk.inj hview
  have hread' : site.noted.read (s, []) = .ok content := hread
  refine ⟨texts, (reduce_eq_ok hread').mpr ⟨current, _, hnoted, ?_⟩⟩
  simp only [noted, hwrite]

/-- The cleaned file is read back with its cleaned imports. -/
theorem imports_parse_cleaned_of_regular {rules : Rules} {current : Block}
    (hb : ∀ x ∈ rules.rewritten current, x.Regular) :
    (SourceFile.parse (((SourceFile.parse content).withImports current).normalize rules)).imports =
      rules.clean (SourceFile.parse content).codeText current := by
  have hparted : ((SourceFile.parse content).withImports current).Parted := by
    obtain ⟨h₁, h₂, h₃, h₄⟩ := SourceFile.parted_parse content
    exact ⟨h₁, h₂, h₃, h₄⟩
  apply SourceFile.imports_parse_normalize hparted
  apply Block.printable_compact
  intro x hx
  exact (hb x (rules.mem_select.mp hx).1).printable

theorem imports_parse_cleaned {rules : Rules} {current : Block}
    (hb : ∀ x ∈ rules.rewritten current, x.WellShaped) :
    (SourceFile.parse (((SourceFile.parse content).withImports current).normalize rules)).imports =
      rules.clean (SourceFile.parse content).codeText current :=
  imports_parse_cleaned_of_regular fun x hx => Or.inl (hb x hx)

/-- **A wildcard that was not resolved stays in force.** When a reduction succeeds, each wildcard of
the expanded imports was resolved or not, once for each copy. One that was not, that no rewrite finds
and no removal takes out, is imported by the file that was written last if and only if it does not
expand, provided that the statements of the final block are well-shaped once expanded and rewritten.
This holds whatever the compiler says, and however often the wildcard stood in the file. -/
theorem reduce_keeps_unresolved {rules : Rules} (hr : rules.defect? = none) {s s' : σ}
    {done : Reduction} (hread : site.read s = .ok content)
    (hrun : site.reduce rules plan s = (.ok done, s')) :
    (done.resolved.map Prod.fst ++ done.unresolved).Perm
        (SourceFile.parse content).imports.expand.wildcards ∧
      ∃ current s₁ text texts,
        site.replaceWildcards plan content s = (.ok (current, done), s₁) ∧
        site.noted.reduce rules plan (s, []) = (.ok done, s', text :: texts) ∧
        ((∀ x ∈ rules.rewritten current, x.WellShaped) →
          ∀ w ∈ done.unresolved, rules.Unmoved w → w.text ∉ rules.removes →
            (w ∈ (SourceFile.parse text).imports.expand ↔ w.expand? = none)) := by
  obtain ⟨current, s₁, hloop, hwrite⟩ := (reduce_eq_ok hread).mp hrun
  have haccounted := accounted_replaceWildcards hloop
  obtain ⟨texts, hnoted⟩ := noted_reduce_eq_ok hread hloop hwrite
  refine ⟨by simpa [Reduction.turned] using haccounted.turns, current, s₁, _, texts, hloop, hnoted,
    ?_⟩
  intro hb w hw hmoved hkept
  obtain ⟨hwild, hmem⟩ := haccounted.mem_of_mem_unresolved hw
  rw [imports_parse_cleaned hb]
  exact Rules.wildcard_mem_expand_clean hr hb hmem hwild hmoved hkept

/-- One wildcard twice. -/
def twiceContent : Text := "package p\nimport a._\nimport a._\nX\n".toList

/-- The first copy is replaced by the symbol that the compiler misses, the second one is kept. -/
def twiceReduction : Reduction where
  resolved := [(⟨"import a._".toList⟩, [⟨"import a.X".toList⟩])]
  unresolved := [⟨"import a._".toList⟩]

/-- What a cleaning makes of the copy that was kept. -/
def twiceWritten : Text := "package p\n\nimport a.\x7bX, _\x7d\n\nX\n".toList

theorem reduce_twiceContent :
    flaky.reduce .standard capitalPlan (twiceContent, [], mixedScript) =
      (.ok twiceReduction, twiceWritten, [], []) := by
  cbv

theorem replaceWildcards_twiceContent :
    (flaky.replaceWildcards capitalPlan twiceContent (twiceContent, [], mixedScript)).1 =
      .ok ([⟨"import a.X".toList⟩, ⟨"import a._".toList⟩], twiceReduction) := by
  cbv

theorem wellShaped_rewritten_twice : ∀ x ∈ Rules.standard.rewritten
    [⟨"import a.X".toList⟩, ⟨"import a._".toList⟩], x.WellShaped := by
  have ha := Statement.isQualifier_name (n := ['a']) (by decide)
  have heq : Rules.standard.rewritten [⟨"import a.X".toList⟩, ⟨"import a._".toList⟩] =
      [.ofMember (Statement.keyword ++ [' ', 'a']) ['X'],
        .ofMember (Statement.keyword ++ [' ', 'a']) Statement.wildcardSelector] := by
    decide +kernel
  rw [heq]
  simp only [List.forall_mem_cons]
  exact ⟨⟨_, _, ha, .name (by decide), rfl⟩, ⟨_, _, ha, .wildcard, rfl⟩, by simp⟩

theorem reduce_keeps_unresolved_twiceContent :
    Rules.standard.defect? = none ∧
      flaky.reduce .standard capitalPlan (twiceContent, [], mixedScript) =
        (.ok twiceReduction, twiceWritten, [], []) ∧
      ∃ text texts, flaky.noted.reduce .standard capitalPlan ((twiceContent, [], mixedScript), []) =
          (.ok twiceReduction, (twiceWritten, [], []), text :: texts) ∧
        (⟨"import a._".toList⟩ : Statement) ∈ (SourceFile.parse text).imports.expand := by
  have hmoved : Rules.standard.Settled twiceReduction.unresolved := by decide +kernel
  obtain ⟨-, current, s₁, text, texts, hloop, hnoted, hkept⟩ :=
    reduce_keeps_unresolved (by decide) rfl reduce_twiceContent
  have hcurrent := replaceWildcards_twiceContent
  rw [hloop] at hcurrent
  obtain ⟨rfl, -⟩ := Prod.mk.inj (Except.ok.inj hcurrent)
  refine ⟨by decide, reduce_twiceContent, text, texts, hnoted, ?_⟩
  exact (hkept wellShaped_rewritten_twice _ List.mem_cons_self (hmoved _ List.mem_cons_self)
    (by decide +kernel)).mpr (by decide +kernel)

/-- A wildcard with braces in its qualifier. -/
def nestedWildcard : Statement := ⟨"import a.b.\x7bc\x7d._".toList⟩

/-- That wildcard as the only member of a group. -/
def nestedContent : Text := "package p\nimport a.\x7bb.\x7bc\x7d._\x7d\nc\n".toList

/-- The final block has nothing but that wildcard, and the file is written without it. -/
theorem reduce_nestedContent :
    (flaky.replaceWildcards capitalPlan nestedContent
        (nestedContent, [], ["error".toList, "error".toList])).1 =
      .ok ([nestedWildcard], ⟨[], [nestedWildcard]⟩) ∧
    flaky.reduce .standard capitalPlan (nestedContent, [], ["error".toList, "error".toList]) =
      (.ok ⟨[], [nestedWildcard]⟩, "package p\n\nimport a.b.c\n\nc\n".toList, [], []) :=
  ⟨by cbv, by cbv⟩

theorem wellShaped_rewritten_nested :
    ∀ x ∈ Rules.standard.rewritten [nestedWildcard], x.WellShaped := by
  have hq : Statement.IsQualifier "import a.b".toList :=
    ⟨[['a'], ['b']], by decide, by decide +kernel, by decide⟩
  have heq : Rules.standard.rewritten [nestedWildcard] = [.ofMember "import a.b".toList ['c']] := by
    decide +kernel
  rw [heq]
  exact List.forall_mem_singleton.mpr ⟨_, _, hq, .name (by decide), rfl⟩

/-- **A wildcard that expands is lost.** It is kept by the loop, no rule touches it, and the
statements of the final block are well-shaped once expanded, but it is not among the imports of the
file that is written. -/
theorem flaky_expands_wildcard :
    (flaky.replaceWildcards capitalPlan nestedContent
        (nestedContent, [], ["error".toList, "error".toList])).1 =
      .ok ([nestedWildcard], ⟨[], [nestedWildcard]⟩) ∧
    flaky.reduce .standard capitalPlan (nestedContent, [], ["error".toList, "error".toList]) =
      (.ok ⟨[], [nestedWildcard]⟩, "package p\n\nimport a.b.c\n\nc\n".toList, [], []) ∧
    Rules.standard.Unmoved nestedWildcard ∧ nestedWildcard.text ∉ Rules.standard.removes ∧
    (∀ x ∈ Rules.standard.rewritten [nestedWildcard], x.WellShaped) ∧
    nestedWildcard ∉
      (SourceFile.parse "package p\n\nimport a.b.c\n\nc\n".toList).imports.expand := by
  have hmoved : Rules.standard.Settled [nestedWildcard] := by decide +kernel
  exact ⟨reduce_nestedContent.1, reduce_nestedContent.2, hmoved _ List.mem_cons_self,
    by decide +kernel, wellShaped_rewritten_nested, by decide +kernel⟩

end Site

end ImportTidy

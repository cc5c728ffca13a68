/-
# ImportTidy.Proofs.Wildcard.Rounds — a search is rounds of storing and compiling

A search stores a block and has it compiled, and as long as the compiler is not content it stores the
next. To say what it does, a bench is *recorded*: the same bench, with a list of all that was done to
it. The outputs on the list decide everything (`search_exact`): which blocks were stored, in which round
the search ended, and with which statements.

Two lists grow in the loop, and the second is merged into the first again in every round. Both are
functions of the outputs so far: the explicit imports that were *found*, each once, and the block *on
trial*, which has those of them that the file did not have yet.
-/
import ImportTidy.Proofs.Import.Selection
import ImportTidy.Proofs.Wildcard.Accepted

namespace ImportTidy

/-! ## The record of a search -/

/-- What a search does to its surroundings, and what comes of it. -/
inductive Deed (ε : Type) where
  | stored (b : Block)
  /-- The block was to be stored, but there was a fault. -/
  | unstored (b : Block) (cause : ε)
  | compiled (output : Text)
  /-- There was a fault instead of an output. -/
  | uncompiled (cause : ε)

namespace Deed

variable {ε : Type}

/-- The fault that came of a deed. -/
def fault? : Deed ε → Option ε
  | stored _ => none
  | unstored _ cause => some cause
  | compiled _ => none
  | uncompiled cause => some cause

/-- The compiler's output that came of a deed. -/
def output? : Deed ε → Option Text
  | compiled output => some output
  | _ => none

/-- The outputs of a record. -/
def outputs (record : List (Deed ε)) : List Text := record.filterMap output?

end Deed

/-- The bench with a record of what was done to it, the earliest first. -/
def Bench.recorded {σ ε : Type} (bench : Bench σ ε) : Bench (σ × List (Deed ε)) ε where
  compile w :=
    match bench.compile w.1 with
    | (.ok output, s) => (.ok output, s, w.2 ++ [.compiled output])
    | (.error cause, s) => (.error cause, s, w.2 ++ [.uncompiled cause])
  persist b w :=
    match bench.persist b w.1 with
    | (.ok (), s) => (.ok (), s, w.2 ++ [.stored b])
    | (.error cause, s) => (.error cause, s, w.2 ++ [.unstored b cause])

namespace Bench

variable {σ ε : Type} {bench : Bench σ ε} {s s₁ : σ}

theorem shows_recorded (bench : Bench σ ε) : bench.recorded.Shows bench Prod.fst where
  compile := by
    rintro ⟨s, record⟩
    simp only [recorded]
    rcases bench.compile s with ⟨cause | output, s₁⟩ <;> rfl
  persist := by
    rintro b ⟨s, record⟩
    simp only [recorded]
    rcases bench.persist b s with ⟨cause | _, s₁⟩ <;> rfl

theorem recorded_compile_ok {output : Text} (h : bench.compile s = (.ok output, s₁))
    (record : List (Deed ε)) :
    bench.recorded.compile (s, record) = (.ok output, s₁, record ++ [.compiled output]) := by
  simp only [recorded, h]

theorem recorded_compile_error {cause : ε} (h : bench.compile s = (.error cause, s₁))
    (record : List (Deed ε)) :
    bench.recorded.compile (s, record) = (.error cause, s₁, record ++ [.uncompiled cause]) := by
  simp only [recorded, h]

theorem recorded_persist_ok {b : Block} (h : bench.persist b s = (.ok (), s₁))
    (record : List (Deed ε)) :
    bench.recorded.persist b (s, record) = (.ok (), s₁, record ++ [.stored b]) := by
  simp only [recorded, h]

theorem recorded_persist_error {b : Block} {cause : ε} (h : bench.persist b s = (.error cause, s₁))
    (record : List (Deed ε)) :
    bench.recorded.persist b (s, record) = (.error cause, s₁, record ++ [.unstored b cause]) := by
  simp only [recorded, h]

end Bench

/-- Statements that were merged once are not merged again. -/
theorem Block.merge_filter_append {b : Block} {old new : List Statement} (h : (old ++ new).Nodup) :
    Block.merge (b ++ old.filter fun x => !b.contains x) (old ++ new) =
      b ++ (old ++ new).filter fun x => !b.contains x := by
  obtain ⟨-, hnew, hapart⟩ := List.nodup_append.mp h
  have hold : (old.filter fun x => !(b ++ old.filter fun x => !b.contains x).contains x) = [] := by
    rw [List.filter_eq_nil_iff]
    intro x hx
    by_cases hb : x ∈ b
    · simp [hb]
    · simp [hb, hx]
  have hrest : (new.filter fun x => !(b ++ old.filter fun x => !b.contains x).contains x) =
      new.filter fun x => !b.contains x := by
    apply List.filter_congr
    intro x hx
    have hne : x ∉ old := fun hmem => hapart x hmem x hx rfl
    simp [hne]
  rw [merge_eq, List.filter_append, hold, hrest, List.nil_append,
    eraseDups_of_nodup (hnew.sublist List.filter_sublist), List.filter_append, List.append_assoc]

namespace SearchPlan

variable {σ ε : Type} (p : SearchPlan) (wildcard : Statement) (imports : Block)

/-! ## What the outputs decide -/

/-- The explicit imports for the symbols that the outputs name, each once, in the order in which they
appear first. -/
def found (outputs : List Text) : List Statement :=
  ((outputs.flatMap p.pattern.scan).filterMap fun d => wildcard.withMember? d.symbol).eraseDups

/-- The block that is tried after these outputs: the imports without the wildcard, and behind them the
explicit imports that are not among them. -/
def onTrial (outputs : List Text) : Block :=
  imports.without wildcard ++
    (p.found wildcard outputs).filter fun s => !(imports.without wildcard).contains s

/-- The rounds with these outputs, after those in which the outputs `before` came: in each of them a
block is stored and compiled. -/
def roundsAfter (before : List Text) : List Text → List (Deed ε)
  | [] => []
  | output :: outputs =>
    .stored (p.onTrial wildcard imports before) :: .compiled output ::
      roundsAfter (before ++ [output]) outputs

/-- The rounds of a search with these outputs. -/
def rounds (outputs : List Text) : List (Deed ε) := p.roundsAfter wildcard imports [] outputs

theorem found_concat (outputs : List Text) (output : Text) :
    p.found wildcard (outputs ++ [output]) =
      Block.merge (p.found wildcard outputs) (p.candidates wildcard output) := by
  have hnew : ∀ l : List Statement,
      (p.candidates wildcard output).removeAll l =
        (p.candidates wildcard output).filter fun x => !(l.eraseDups).contains x := by
    intro l
    apply List.filter_congr
    intro x _
    rw [Bool.eq_iff_iff]
    simp
  rw [found, List.flatMap_append, List.flatMap_singleton, List.filterMap_append,
    List.eraseDups_append, Block.merge_eq]
  exact congrArg _ (congrArg List.eraseDups (hnew _))

/-- What was found before does not count again: the next block is the last one with what is new. -/
theorem onTrial_concat (outputs : List Text) (output : Text) :
    p.onTrial wildcard imports (outputs ++ [output]) =
      Block.merge (p.onTrial wildcard imports outputs) (p.found wildcard (outputs ++ [output])) := by
  have hnodup : (p.found wildcard (outputs ++ [output])).Nodup := Block.nodup_eraseDups _
  rw [onTrial, onTrial]
  rw [found_concat, Block.merge_eq] at hnodup ⊢
  exact (Block.merge_filter_append hnodup).symm

theorem roundsAfter_append (before outputs more : List Text) :
    (p.roundsAfter wildcard imports before (outputs ++ more) : List (Deed ε)) =
      p.roundsAfter wildcard imports before outputs ++
        p.roundsAfter wildcard imports (before ++ outputs) more := by
  induction outputs generalizing before with
  | nil => rw [List.nil_append, List.append_nil]; rfl
  | cons output outputs ih =>
      rw [List.cons_append, roundsAfter, ih, roundsAfter, List.append_assoc, List.singleton_append]
      rfl

theorem rounds_concat (outputs : List Text) (output : Text) :
    (p.rounds wildcard imports (outputs ++ [output]) : List (Deed ε)) =
      p.rounds wildcard imports outputs ++
        [.stored (p.onTrial wildcard imports outputs), .compiled output] :=
  p.roundsAfter_append wildcard imports [] outputs [output]

/-- Nothing but the outputs comes of rounds. -/
theorem outputs_roundsAfter (before outputs : List Text) :
    Deed.outputs (p.roundsAfter wildcard imports before outputs : List (Deed ε)) = outputs := by
  induction outputs generalizing before with
  | nil => rfl
  | cons output outputs ih => exact congrArg (output :: ·) (ih _)

theorem fault?_roundsAfter (before outputs : List Text) :
    ∀ d ∈ (p.roundsAfter wildcard imports before outputs : List (Deed ε)), d.fault? = none := by
  induction outputs generalizing before with
  | nil => simp [roundsAfter]
  | cons output outputs ih =>
      rw [roundsAfter, List.forall_mem_cons, List.forall_mem_cons]
      exact ⟨rfl, rfl, ih _⟩

/-! ## How a search ends -/

/-- The ends of a search, each with its result and its record. In all of them the outputs before the
last deed were not clean. -/
inductive Ends : Except (SearchFault ε) (List Statement) → List (Deed ε) → Prop
  /-- The last output was clean. -/
  | clean {failed : List Text} {output : Text} : failed.length < p.attempts →
      (∀ o ∈ failed, p.isClean o = false) → p.isClean output = true →
      Ends (.ok (p.found wildcard failed)) (p.rounds wildcard imports (failed ++ [output]))
  /-- All attempts were made; the last block stays stored. -/
  | givenUp {failed : List Text} : failed.length = p.attempts →
      (∀ o ∈ failed, p.isClean o = false) →
      Ends (.error (.unresolved wildcard p.attempts))
        (p.rounds wildcard imports failed ++ [.stored (p.onTrial wildcard imports failed)])
  | uncompiled {failed : List Text} {cause : ε} : failed.length < p.attempts →
      (∀ o ∈ failed, p.isClean o = false) →
      Ends (.error (.failed cause))
        (p.rounds wildcard imports failed ++
          [.stored (p.onTrial wildcard imports failed), .uncompiled cause])
  | unstored {failed : List Text} {cause : ε} : failed.length ≤ p.attempts →
      (∀ o ∈ failed, p.isClean o = false) →
      Ends (.error (.failed cause))
        (p.rounds wildcard imports failed ++ [.unstored (p.onTrial wildcard imports failed) cause])

variable {p wildcard imports} {bench : Bench σ ε}

/-- **From a stored block on.** After the rounds with the outputs `failed`, both lists of the loop are
what these outputs decide. -/
theorem ends_searchFrom (left : Nat) {failed : List Text} (s : σ)
    (hleft : failed.length + left = p.attempts) (hfailed : ∀ o ∈ failed, p.isClean o = false) :
    ∃ result s' record, p.searchFrom bench.recorded wildcard left
        (p.onTrial wildcard imports failed) (p.found wildcard failed)
        (s, p.rounds wildcard imports failed ++ [.stored (p.onTrial wildcard imports failed)]) =
          (result, s', record) ∧ p.Ends wildcard imports result record := by
  induction left generalizing failed s with
  | zero => exact ⟨_, s, _, rfl, .givenUp (by omega) hfailed⟩
  | succ left ih =>
      rw [searchFrom]
      rcases hcompile : bench.compile s with ⟨cause | output, s₁⟩
      · rw [Bench.recorded_compile_error hcompile, List.append_assoc]
        exact ⟨_, s₁, _, rfl, .uncompiled (by omega) hfailed⟩
      · rw [Bench.recorded_compile_ok hcompile, List.append_assoc, List.singleton_append,
          ← rounds_concat]
        by_cases hclean : p.isClean output = true
        · exact ⟨_, s₁, _, if_pos hclean, .clean (by omega) hfailed hclean⟩
        · -- the loop goes on with one output more
          have hlength : (failed ++ [output]).length + left = p.attempts := by
            rw [List.length_append, List.length_singleton]
            omega
          have hfailed' : ∀ o ∈ failed ++ [output], p.isClean o = false := by
            intro o ho
            rcases List.mem_append.mp ho with ho | ho
            · exact hfailed o ho
            · rw [List.mem_singleton.mp ho]
              exact Bool.eq_false_iff.mpr hclean
          dsimp only
          rw [if_neg hclean, ← found_concat, ← onTrial_concat]
          rcases hpersist : bench.persist (p.onTrial wildcard imports (failed ++ [output])) s₁ with
            ⟨cause | _, s₂⟩
          · rw [Bench.recorded_persist_error hpersist]
            exact ⟨_, s₂, _, rfl, .unstored (by omega) hfailed'⟩
          · rw [Bench.recorded_persist_ok hpersist]
            exact ih s₂ hlength hfailed'

/-- **Every search has one of the four ends.** -/
theorem ends_search (p : SearchPlan) (bench : Bench σ ε) (wildcard : Statement) (imports : Block)
    (s : σ) :
    ∃ result s' record, p.search bench.recorded wildcard imports (s, []) = (result, s', record) ∧
      p.Ends wildcard imports result record := by
  have hnone : ∀ o ∈ ([] : List Text), p.isClean o = false := by simp
  have hfirst : p.onTrial wildcard imports [] = imports.without wildcard := List.append_nil _
  rw [search, ← hfirst]
  rcases hpersist : bench.persist (p.onTrial wildcard imports []) s with ⟨cause | _, s₁⟩
  · rw [Bench.recorded_persist_error hpersist]
    exact ⟨_, s₁, _, rfl, .unstored (Nat.zero_le _) hnone⟩
  · rw [Bench.recorded_persist_ok hpersist]
    exact ends_searchFrom p.attempts s₁ (Nat.zero_add _) hnone

/-- Deeds without an output add none to those of the rounds. -/
theorem outputs_rounds_append {outputs : List Text} {more : List (Deed ε)}
    (h : Deed.outputs more = []) :
    Deed.outputs (p.rounds wildcard imports outputs ++ more) = outputs := by
  rw [Deed.outputs, List.filterMap_append, ← Deed.outputs, ← Deed.outputs, h, List.append_nil]
  exact p.outputs_roundsAfter wildcard imports [] outputs

/-- A fault on a record of rounds with something behind them is there. -/
theorem mem_of_fault?_rounds_append {outputs : List Text} {more : List (Deed ε)} {d : Deed ε}
    {cause : ε} (hd : d ∈ p.rounds wildcard imports outputs ++ more) (hfault : d.fault? = some cause) :
    d ∈ more := by
  rcases List.mem_append.mp hd with hd | hd
  · rw [p.fault?_roundsAfter wildcard imports [] outputs d hd] at hfault
    exact absurd hfault (by simp)
  · exact hd

/-- Without a fault on the record, a search was content with its last output, or gave up. -/
theorem Ends.of_faultless {result : Except (SearchFault ε) (List Statement)} {record : List (Deed ε)}
    (h : p.Ends wildcard imports result record) (hrecord : ∀ d ∈ record, d.fault? = none) :
    (∀ k, (Deed.outputs record).findIdx? p.isClean = some k →
      k < p.attempts ∧ (Deed.outputs record).length = k + 1 ∧
      record = p.rounds wildcard imports (Deed.outputs record) ∧
      result = .ok (p.found wildcard ((Deed.outputs record).take k))) ∧
    ((Deed.outputs record).findIdx? p.isClean = none →
      (Deed.outputs record).length = p.attempts ∧
      record = p.rounds wildcard imports (Deed.outputs record) ++
        [.stored (p.onTrial wildcard imports (Deed.outputs record))] ∧
      result = .error (.unresolved wildcard p.attempts)) := by
  cases h with
  | @clean failed output hlength hfailed hclean =>
      have houtputs : Deed.outputs (p.rounds wildcard imports (failed ++ [output]) : List (Deed ε)) =
          failed ++ [output] := p.outputs_roundsAfter wildcard imports [] _
      have hindex : (failed ++ [output]).findIdx? p.isClean = some failed.length := by
        rw [List.findIdx?_append, List.findIdx?_eq_none_iff.mpr hfailed, List.findIdx?_singleton,
          if_pos hclean]
        simp
      rw [houtputs, hindex]
      refine ⟨fun k hk => ?_, fun hnone => absurd hnone (by simp)⟩
      obtain rfl := Option.some.inj hk
      rw [List.take_left']
      · exact ⟨hlength, by simp, rfl, rfl⟩
      · rfl
  | @givenUp failed hlength hfailed =>
      have houtputs : Deed.outputs (p.rounds wildcard imports failed ++
          [Deed.stored (p.onTrial wildcard imports failed)] : List (Deed ε)) = failed :=
        outputs_rounds_append rfl
      rw [houtputs, List.findIdx?_eq_none_iff.mpr hfailed]
      exact ⟨fun k hk => absurd hk (by simp), fun _ => ⟨hlength, rfl, rfl⟩⟩
  | @uncompiled failed cause =>
      exact absurd (hrecord (.uncompiled cause) (by simp)) (by simp [Deed.fault?])
  | @unstored failed cause =>
      exact absurd (hrecord (.unstored _ cause) (List.mem_append_right _ List.mem_cons_self))
        (by simp [Deed.fault?])

/-- A fault on the record is the last thing there, and the result. -/
theorem Ends.of_fault {result : Except (SearchFault ε) (List Statement)} {record : List (Deed ε)}
    (h : p.Ends wildcard imports result record) {d : Deed ε} (hd : d ∈ record) {cause : ε}
    (hfault : d.fault? = some cause) :
    (∀ o ∈ Deed.outputs record, p.isClean o = false) ∧ (Deed.outputs record).length ≤ p.attempts ∧
    (record = p.rounds wildcard imports (Deed.outputs record) ++
        [.unstored (p.onTrial wildcard imports (Deed.outputs record)) cause] ∨
      record = p.rounds wildcard imports (Deed.outputs record) ++
        [.stored (p.onTrial wildcard imports (Deed.outputs record)), .uncompiled cause]) ∧
    result = .error (.failed cause) := by
  cases h with
  | @clean failed output =>
      rw [← List.append_nil (p.rounds wildcard imports (failed ++ [output]))] at hd
      exact absurd (mem_of_fault?_rounds_append hd hfault) List.not_mem_nil
  | givenUp =>
      obtain rfl := List.mem_singleton.mp (mem_of_fault?_rounds_append hd hfault)
      exact absurd hfault (by simp [Deed.fault?])
  | @uncompiled failed cause' hlength hfailed =>
      have hlast := mem_of_fault?_rounds_append hd hfault
      rw [List.mem_cons, List.mem_singleton] at hlast
      rcases hlast with rfl | rfl
      · exact absurd hfault (by simp [Deed.fault?])
      · obtain rfl : cause' = cause := Option.some.inj hfault
        have houtputs : Deed.outputs (p.rounds wildcard imports failed ++
            [.stored (p.onTrial wildcard imports failed), .uncompiled cause']) = failed :=
          outputs_rounds_append rfl
        rw [houtputs]
        exact ⟨hfailed, Nat.le_of_lt hlength, Or.inr rfl, rfl⟩
  | @unstored failed cause' hlength hfailed =>
      obtain rfl := List.mem_singleton.mp (mem_of_fault?_rounds_append hd hfault)
      obtain rfl : cause' = cause := Option.some.inj hfault
      have houtputs : Deed.outputs (p.rounds wildcard imports failed ++
          [.unstored (p.onTrial wildcard imports failed) cause']) = failed :=
        outputs_rounds_append rfl
      rw [houtputs]
      exact ⟨hfailed, hlength, Or.inl rfl, rfl⟩

/-- **The outputs decide what a search does.** Storing and compiling alternate, and a block is compiled
after it was stored. Without a fault, the search ends in the round of the first clean output and gives
what was found in the outputs before it; if no output is clean, it makes all its attempts, leaves one
more block stored and gives up. A fault is the last thing on the record, and the result. -/
theorem search_exact (p : SearchPlan) (bench : Bench σ ε) (wildcard : Statement) (imports : Block)
    (s : σ) :
    ∃ result s' record outputs,
      p.search bench.recorded wildcard imports (s, []) = (result, s', record) ∧
      p.search bench wildcard imports s = (result, s') ∧
      Deed.outputs record = outputs ∧
      ((∀ d ∈ record, d.fault? = none) →
        (∀ k, outputs.findIdx? p.isClean = some k →
          k < p.attempts ∧ outputs.length = k + 1 ∧
          record = p.rounds wildcard imports outputs ∧
          result = .ok (p.found wildcard (outputs.take k))) ∧
        (outputs.findIdx? p.isClean = none →
          outputs.length = p.attempts ∧
          record = p.rounds wildcard imports outputs ++ [.stored (p.onTrial wildcard imports outputs)] ∧
          result = .error (.unresolved wildcard p.attempts))) ∧
      ∀ d ∈ record, ∀ cause, d.fault? = some cause →
        (∀ o ∈ outputs, p.isClean o = false) ∧ outputs.length ≤ p.attempts ∧
        (record = p.rounds wildcard imports outputs ++
            [.unstored (p.onTrial wildcard imports outputs) cause] ∨
          record = p.rounds wildcard imports outputs ++
            [.stored (p.onTrial wildcard imports outputs), .uncompiled cause]) ∧
        result = .error (.failed cause) := by
  obtain ⟨result, s', record, hrun, hends⟩ := p.ends_search bench wildcard imports s
  have hview := p.search_view bench.shows_recorded wildcard imports (s, [])
  rw [hrun] at hview
  exact ⟨result, s', record, _, hrun, hview, rfl, hends.of_faultless,
    fun d hd cause hfault => hends.of_fault hd hfault⟩

/-- Every block can be stored, and the compiler says what a script says. -/
def scriptedBench : Bench (List Text) Unit where
  compile script := (.ok (script.headD []), script.tail)
  persist _ script := (.ok (), script)

/-- A wildcard that stands twice, around one of the two symbols that the compiler will miss. -/
def repeatedWildcard : Block :=
  [⟨"import a._".toList⟩, ⟨"import a.Y".toList⟩, ⟨"import a._".toList⟩]

/-- Both symbols were missing, and one of them was to be added. -/
def twoRounds : List (Deed Unit) :=
  [.stored [⟨"import a.Y".toList⟩], .compiled "error Y X".toList,
    .stored [⟨"import a.Y".toList⟩, ⟨"import a.X".toList⟩], .compiled []]

theorem search_repeatedWildcard :
    Site.capitalPlan.search scriptedBench.recorded ⟨"import a._".toList⟩ repeatedWildcard
        (["error Y X".toList, []], []) =
      (.ok [⟨"import a.Y".toList⟩, ⟨"import a.X".toList⟩], [], twoRounds) := by
  cbv

theorem search_exact_repeatedWildcard :
    (∀ d ∈ twoRounds, d.fault? = none) ∧
      (Deed.outputs twoRounds).findIdx? Site.capitalPlan.isClean = some 1 ∧
      twoRounds = Site.capitalPlan.rounds ⟨"import a._".toList⟩ repeatedWildcard
        (Deed.outputs twoRounds) ∧
      Site.capitalPlan.found ⟨"import a._".toList⟩ ["error Y X".toList] =
        [⟨"import a.Y".toList⟩, ⟨"import a.X".toList⟩] := by
  have hfaultless : ∀ d ∈ twoRounds, d.fault? = none := by simp [twoRounds, Deed.fault?]
  have hclean : (Deed.outputs twoRounds).findIdx? Site.capitalPlan.isClean = some 1 := by
    decide +kernel
  obtain ⟨result, s', record, outputs, hrun, -, houtputs, hends, -⟩ :=
    search_exact Site.capitalPlan scriptedBench ⟨"import a._".toList⟩ repeatedWildcard
      ["error Y X".toList, []]
  rw [search_repeatedWildcard] at hrun
  obtain ⟨rfl, hstate⟩ := Prod.mk.inj hrun
  obtain ⟨rfl, rfl⟩ := Prod.mk.inj hstate
  subst houtputs
  obtain ⟨-, -, hrecord, hresult⟩ := (hends hfaultless).1 1 hclean
  exact ⟨hfaultless, hclean, hrecord, (Except.ok.inj hresult).symm⟩

end SearchPlan

end ImportTidy

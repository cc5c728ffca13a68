/-
# ImportTidy.Proofs.Wildcard.Accepted — a reduction keeps the imports that were last compiled cleanly

Two places keep track of the imports while wildcards are replaced. The search stores a block and adds
to it what the compiler misses; the reduction puts what was found in the wildcard's place. They must
agree after every wildcard. To say what the compiler has seen, a site is *watched*: the same site,
with a record of what each compilation found in the file and said about it. The theorem is about the
whole loop: however many wildcards there are and whatever becomes of them, the imports that go into
the final cleaning are, up to order, those of the last clean compilation on record, or the original
ones if there is none.
-/
import Mathlib
import ImportTidy.Proofs.Import.Update
import ImportTidy.Run.Optimize

namespace ImportTidy

/-! ## The record of a run -/

/-- What a compilation found in the file, and what the compiler said. -/
structure Compilation (ε : Type) where
  content : Except ε Text
  output : Text

/-- The latest clean compilation of a record that has the latest first. -/
def SearchPlan.lastClean? {ε : Type} (p : SearchPlan) (record : List (Compilation ε)) :
    Option (Compilation ε) :=
  record.find? fun c => p.isClean c.output

namespace Site

variable {σ ε : Type} (site : Site σ ε)

/-- The site with a record of its compilations, the latest first. -/
def watched : Site (σ × List (Compilation ε)) ε where
  read w := site.read w.1
  write text w :=
    match site.write text w.1 with
    | (result, s) => (result, s, w.2)
  compile w :=
    match site.compile w.1 with
    | (.ok output, s) => (.ok output, s, ⟨site.read w.1, output⟩ :: w.2)
    | (.error cause, s) => (.error cause, s, w.2)

end Site

/-- Every step of the one bench shows as that step of the other, in the states that `view` gives. -/
structure Bench.Shows {σ τ ε : Type} (fine : Bench τ ε) (coarse : Bench σ ε) (view : τ → σ) :
    Prop where
  compile : ∀ t, coarse.compile (view t) = ((fine.compile t).1, view (fine.compile t).2)
  persist : ∀ b t, coarse.persist b (view t) = ((fine.persist b t).1, view (fine.persist b t).2)

namespace SearchPlan

variable {σ τ ε : Type} {fine : Bench τ ε} {coarse : Bench σ ε} {view : τ → σ}

theorem searchFrom_view (h : fine.Shows coarse view) (plan : SearchPlan) (wildcard : Statement)
    (left : Nat) (working needed : Block) (t : τ) :
    plan.searchFrom coarse wildcard left working needed (view t) =
      ((plan.searchFrom fine wildcard left working needed t).1,
        view (plan.searchFrom fine wildcard left working needed t).2) := by
  induction left generalizing working needed t with
  | zero => rfl
  | succ left ih =>
      simp only [searchFrom, h.compile]
      rcases fine.compile t with ⟨cause | output, t₁⟩
      · rfl
      · dsimp only
        split
        · rfl
        · rw [h.persist]
          rcases fine.persist _ t₁ with ⟨cause | _, t₂⟩
          · rfl
          · exact ih _ _ t₂

theorem search_view (h : fine.Shows coarse view) (plan : SearchPlan) (wildcard : Statement)
    (imports : Block) (t : τ) :
    plan.search coarse wildcard imports (view t) =
      ((plan.search fine wildcard imports t).1, view (plan.search fine wildcard imports t).2) := by
  simp only [search, h.persist]
  rcases fine.persist _ t with ⟨cause | _, t₁⟩
  · rfl
  · exact searchFrom_view h plan wildcard _ _ _ t₁

end SearchPlan

namespace Site

/-- Every step of the one site shows as that step of the other, in the states that `view` gives. -/
structure Shows {σ τ ε : Type} (fine : Site τ ε) (coarse : Site σ ε) (view : τ → σ) : Prop where
  read : ∀ t, coarse.read (view t) = fine.read t
  write : ∀ text t, coarse.write text (view t) = ((fine.write text t).1, view (fine.write text t).2)
  compile : ∀ t, coarse.compile (view t) = ((fine.compile t).1, view (fine.compile t).2)

section

variable {σ τ ε : Type} {fine : Site τ ε} {coarse : Site σ ε} {view : τ → σ}

theorem Shows.bench (h : fine.Shows coarse view) (f : SourceFile) :
    (fine.bench f).Shows (coarse.bench f) view where
  compile := h.compile
  persist b := h.write (f.renderWith b.lines)

theorem reduceFrom_view (h : fine.Shows coarse view) (plan : SearchPlan) (f : SourceFile)
    (content : Text) (wildcards : List Statement) (current : Block) (done : Reduction) (t : τ) :
    coarse.reduceFrom plan f content wildcards current done (view t) =
      ((fine.reduceFrom plan f content wildcards current done t).1,
        view (fine.reduceFrom plan f content wildcards current done t).2) := by
  induction wildcards generalizing current done t with
  | nil => rfl
  | cons wildcard more ih =>
      simp only [reduceFrom, plan.search_view (h.bench f)]
      rcases plan.search (fine.bench f) wildcard current t with ⟨fault | found, t₁⟩
      · cases fault with
        | unresolved _ _ =>
            dsimp only
            rw [(h.bench f).persist]
            rcases (fine.bench f).persist current t₁ with ⟨cause | _, t₂⟩
            · rfl
            · exact ih _ _ t₂
        | failed cause => simp only [restore, h.write]
      · exact ih _ _ t₁

/-- **A closer look at a reduction does not change it.** -/
theorem reduce_view (h : fine.Shows coarse view) (rules : Rules) (plan : SearchPlan) (t : τ) :
    coarse.reduce rules plan (view t) =
      ((fine.reduce rules plan t).1, view (fine.reduce rules plan t).2) := by
  simp only [reduce, h.read]
  rcases fine.read t with cause | content
  · rfl
  · simp only [reduceFrom_view h]
    rcases fine.reduceFrom plan (.parse content) content _ _ ⟨[], []⟩ t with
      ⟨cause | ⟨current, done⟩, t₁⟩
    · rfl
    · simp only [h.write]
      rcases fine.write _ t₁ with ⟨cause | _, t₂⟩
      · rfl
      · rfl

end

variable {σ ε : Type} (site : Site σ ε)

theorem shows_watched : site.watched.Shows site Prod.fst where
  read := fun _ => rfl
  write := fun _ _ => rfl
  compile := by
    rintro ⟨s, record⟩
    simp only [watched]
    rcases site.compile s with ⟨cause | output, s₁⟩ <;> rfl

section

variable {site} {f : SourceFile} {s s₁ : σ}

theorem watched_compile_ok {output : Text} (h : site.compile s = (.ok output, s₁))
    (record : List (Compilation ε)) :
    (site.watched.bench f).compile (s, record) =
      (.ok output, s₁, ⟨site.read s, output⟩ :: record) := by
  simp only [bench, watched, h]

theorem watched_compile_error {cause : ε} (h : site.compile s = (.error cause, s₁))
    (record : List (Compilation ε)) :
    (site.watched.bench f).compile (s, record) = (.error cause, s₁, record) := by
  simp only [bench, watched, h]

theorem watched_persist {b : Block} {result : Except ε Unit}
    (h : site.write (f.renderWith b.lines) s = (result, s₁)) (record : List (Compilation ε)) :
    (site.watched.bench f).persist b (s, record) = (result, s₁, record) := by
  simp only [bench, watched, h]

end

/-! ## What the record shows -/

/-- In sound states a file holds what was written to it, and a compilation keeps the state sound. -/
structure Faithful (sound : σ → Prop) : Prop where
  write : ∀ {text s s'}, sound s → site.write text s = (.ok (), s') →
    sound s' ∧ site.read s' = .ok text
  compile : ∀ {s}, sound s → sound (site.compile s).2

end Site

/-- The compilation saw the file with this block. -/
def Compilation.Saw {ε : Type} (c : Compilation ε) (f : SourceFile) (b : Block) : Prop :=
  c.content = .ok (f.renderWith b.lines)

namespace SearchPlan

variable {σ ε : Type} {site : Site σ ε} {sound : σ → Prop} {f : SourceFile}

/-- What a search from the given block and record leaves: a clean compilation of the block with the
statements that are needed, or no further clean compilation. -/
def Leaves (plan : SearchPlan) (f : SourceFile) (sound : σ → Prop) (base : Block)
    (record : List (Compilation ε)) :
    Except (SearchFault ε) (List Statement) × σ × List (Compilation ε) → Prop
  | (.ok needed, s, record') =>
    sound s ∧ needed.Nodup ∧ ∃ c b, plan.lastClean? record' = some c ∧ c.Saw f b ∧ b.Nodup ∧
      ∀ x, x ∈ b ↔ x ∈ base ∨ x ∈ needed
  | (.error (.unresolved _ _), s, record') =>
    sound s ∧ plan.lastClean? record' = plan.lastClean? record
  | (.error (.failed _), _) => True

/-- The invariant of the search: the file holds `working`, which is the block that it started from
and the statements that are needed so far. -/
theorem leaves_searchFrom (hsite : site.Faithful sound) (plan : SearchPlan) (wildcard : Statement)
    {base : Block} {record₀ : List (Compilation ε)} (left : Nat) (working needed : Block) (s : σ)
    (record : List (Compilation ε)) (hs : sound s)
    (hread : site.read s = .ok (f.renderWith working.lines)) (hwork : working.Nodup)
    (hneed : needed.Nodup) (hmem : ∀ x, x ∈ working ↔ x ∈ base ∨ x ∈ needed)
    (hrecord : plan.lastClean? record = plan.lastClean? record₀) :
    plan.Leaves f sound base record₀
      (plan.searchFrom (site.watched.bench f) wildcard left working needed (s, record)) := by
  induction left generalizing working needed s record with
  | zero => exact ⟨hs, hrecord⟩
  | succ left ih =>
      have hsound := hsite.compile hs
      rcases hcomp : site.compile s with ⟨cause | output, s₁⟩
      · rw [searchFrom, Site.watched_compile_error hcomp]
        trivial
      · rw [hcomp] at hsound
        rw [searchFrom, Site.watched_compile_ok hcomp]
        by_cases hclean : plan.isClean output = true
        · -- a clean compilation of `working`, which the file holds
          simp only [hclean, if_true]
          refine ⟨hsound, hneed, ⟨site.read s, output⟩, working, ?_, hread, hwork, hmem⟩
          exact List.find?_cons_of_pos hclean
        · -- the missing statements are added to both blocks, and the file is written
          simp only [hclean, Bool.false_eq_true, if_false]
          rcases hwrite : site.write (f.renderWith (Block.lines (Block.merge working
            (Block.merge needed (plan.candidates wildcard output))))) s₁ with ⟨cause | _, s₂⟩
          · rw [Site.watched_persist hwrite]
            trivial
          · rw [Site.watched_persist hwrite]
            obtain ⟨hs₂, hread₂⟩ := hsite.write hsound hwrite
            have hskip : plan.lastClean? (⟨site.read s, output⟩ :: record) =
                plan.lastClean? record₀ := by
              rw [← hrecord]
              exact List.find?_cons_of_neg hclean
            refine ih _ _ s₂ _ hs₂ hread₂ (Block.nodup_merge hwork _) (Block.nodup_merge hneed _) ?_
              hskip
            intro x
            rw [Block.mem_merge, hmem, Block.mem_merge]
            constructor
            · rintro ((h | h) | h)
              · exact Or.inl h
              · exact Or.inr (Or.inl h)
              · exact Or.inr h
            · rintro (h | h)
              · exact Or.inl (Or.inl h)
              · exact Or.inr h

theorem leaves_search (hsite : site.Faithful sound) (plan : SearchPlan) (wildcard : Statement)
    {imports : Block} (himports : imports.Nodup) {s : σ} (hs : sound s)
    (record : List (Compilation ε)) :
    plan.Leaves f sound (imports.without wildcard) record
      (plan.search (site.watched.bench f) wildcard imports (s, record)) := by
  rw [search]
  rcases hwrite : site.write (f.renderWith (Block.lines (Block.without wildcard imports))) s with
    ⟨cause | _, s₁⟩
  · rw [Site.watched_persist hwrite]
    trivial
  · rw [Site.watched_persist hwrite]
    obtain ⟨hs₁, hread⟩ := hsite.write hs hwrite
    exact leaves_searchFrom hsite plan wildcard _ _ [] s₁ record hs₁ hread
      (himports.sublist List.filter_sublist) .nil (by simp) rfl

end SearchPlan

namespace Site

variable {σ ε : Type} {site : Site σ ε} {sound : σ → Prop} {f : SourceFile}

/-- The imports are those of the last clean compilation on record, in some order, or the original
ones if there is none. -/
def Accepted (plan : SearchPlan) (f : SourceFile) (original current : Block)
    (record : List (Compilation ε)) : Prop :=
  match plan.lastClean? record with
  | none => current = original
  | some c => ∃ b, c.Saw f b ∧ b.Perm current

/-- The invariant of the loop over the wildcards. -/
structure Tracked (plan : SearchPlan) (f : SourceFile) (sound : σ → Prop) (original current : Block)
    (wildcards : List Statement) (w : σ × List (Compilation ε)) : Prop where
  sound : sound w.1
  nodup : current.Nodup
  accepted : Accepted plan f original current w.2
  pending : ∀ x ∈ wildcards, x ∈ current
  pending_nodup : wildcards.Nodup

/-- A wildcard that was replaced: its search and the replacement agree. -/
theorem Tracked.replaced {plan : SearchPlan} {original current : Block} {wildcard : Statement}
    {more : List Statement} {w w' : σ × List (Compilation ε)} {found : List Statement}
    (h : Tracked plan f sound original current (wildcard :: more) w)
    (hsearch : plan.Leaves f sound (current.without wildcard) w.2 (.ok found, w')) :
    Tracked plan f sound original (current.replace wildcard found) more w' := by
  obtain ⟨hs, hfound, c, b, hlast, hsaw, hb, hmem⟩ := hsearch
  have hin : wildcard ∈ current := h.pending wildcard List.mem_cons_self
  obtain ⟨hnot, hmore⟩ := List.nodup_cons.mp h.pending_nodup
  have hnodup := Block.nodup_replace h.nodup hin hfound
  refine ⟨hs, hnodup, ?_, ?_, hmore⟩
  · -- both blocks have each statement once, so the members decide
    rw [Accepted, hlast]
    refine ⟨b, hsaw, (List.perm_ext_iff_of_nodup hb hnodup).mpr fun x => ?_⟩
    rw [hmem, Block.mem_replace h.nodup hin]
  · -- the other wildcards are still there
    intro x hx
    rw [Block.mem_replace h.nodup hin, Block.mem_without]
    refine Or.inl ⟨h.pending x (List.mem_cons_of_mem _ hx), ?_⟩
    rintro rfl
    exact hnot hx

/-- A wildcard that was kept: its compilations were not clean. -/
theorem Tracked.kept {plan : SearchPlan} {original current : Block} {wildcard : Statement}
    {more : List Statement} {w w' : σ × List (Compilation ε)} {s : σ} {unresolved : Statement}
    {attempts : Nat} (h : Tracked plan f sound original current (wildcard :: more) w)
    (hsearch : plan.Leaves f sound (current.without wildcard) w.2
      (.error (.unresolved unresolved attempts), w')) (hs : sound s) :
    Tracked plan f sound original current more (s, w'.2) := by
  refine ⟨hs, h.nodup, ?_, ?_, (List.nodup_cons.mp h.pending_nodup).2⟩
  · rw [Accepted, hsearch.2]
    exact h.accepted
  · intro x hx
    exact h.pending x (List.mem_cons_of_mem _ hx)

/-- **The loop keeps what was accepted.** -/
theorem accepted_reduceFrom (hsite : site.Faithful sound) {plan : SearchPlan} {content : Text}
    {original : Block} (wildcards : List Statement) (current : Block) (done : Reduction)
    (w : σ × List (Compilation ε)) (h : Tracked plan f sound original current wildcards w)
    {final : Block} {done' : Reduction} {w' : σ × List (Compilation ε)}
    (hrun : site.watched.reduceFrom plan f content wildcards current done w =
      (.ok (final, done'), w')) : Accepted plan f original final w'.2 := by
  induction wildcards generalizing current done w with
  | nil =>
      obtain ⟨he, rfl⟩ := Prod.mk.inj hrun
      obtain ⟨rfl, -⟩ := Prod.mk.inj (Except.ok.inj he)
      exact h.accepted
  | cons wildcard more ih =>
      have hleaves := plan.leaves_search (f := f) hsite wildcard h.nodup h.sound w.2
      rw [reduceFrom] at hrun
      rcases hsearch : plan.search (site.watched.bench f) wildcard current w with
        ⟨fault | found, w₁⟩
      · rw [hsearch] at hleaves
        rw [hsearch] at hrun
        cases fault with
        | unresolved x n =>
            dsimp only at hrun
            rcases hwrite : site.write (f.renderWith (Block.lines current)) w₁.1 with
              ⟨cause | _, s₂⟩
            · rw [watched_persist hwrite] at hrun
              exact absurd hrun (by simp)
            · rw [watched_persist hwrite] at hrun
              exact ih _ _ _ (h.kept hleaves (hsite.write hleaves.1 hwrite).1) hrun
        | failed cause => exact absurd hrun (by simp)
      · rw [hsearch] at hleaves
        rw [hsearch] at hrun
        exact ih _ _ _ (h.replaced hleaves) hrun

/-- The part of a reduction that replaces the wildcards of a content. -/
def replaceWildcards (site : Site σ ε) (plan : SearchPlan) (content : Text) (s : σ) :
    Except ε (Block × Reduction) × σ :=
  let imports := (SourceFile.parse content).imports.expand
  site.reduceFrom plan (.parse content) content imports.wildcards imports ⟨[], []⟩ s

/-- A reduction that succeeds has replaced the wildcards and written the cleaned file. -/
theorem reduce_eq_ok {rules : Rules} {plan : SearchPlan} {s s' : σ} {content : Text}
    {done : Reduction} (hread : site.read s = .ok content) :
    site.reduce rules plan s = (.ok done, s') ↔
      ∃ current s₁, site.replaceWildcards plan content s = (.ok (current, done), s₁) ∧
        site.write (((SourceFile.parse content).withImports current).normalize rules) s₁ =
          (.ok (), s') := by
  simp only [reduce, hread]
  rw [← replaceWildcards]
  rcases site.replaceWildcards plan content s with ⟨cause | ⟨current, done₁⟩, s₁⟩
  · simp
  · constructor
    · intro h
      dsimp only at h
      rcases hwrite : site.write
        (((SourceFile.parse content).withImports current).normalize rules) s₁ with ⟨cause | _, s₂⟩
      · rw [hwrite] at h
        exact absurd h (by simp)
      · rw [hwrite] at h
        obtain ⟨he, rfl⟩ := Prod.mk.inj h
        obtain rfl := Except.ok.inj he
        exact ⟨current, s₁, rfl, hwrite⟩
    · rintro ⟨current', s₁', hloop, hwrite⟩
      obtain ⟨he, rfl⟩ := Prod.mk.inj hloop
      obtain ⟨rfl, rfl⟩ := Prod.mk.inj (Except.ok.inj he)
      simp only [hwrite]

theorem replaceWildcards_watched (plan : SearchPlan) (content : Text) (s : σ)
    (record : List (Compilation ε)) :
    site.replaceWildcards plan content s =
      ((site.watched.replaceWildcards plan content (s, record)).1,
        (site.watched.replaceWildcards plan content (s, record)).2.1) :=
  reduceFrom_view site.shows_watched plan _ content _ _ _ (s, record)

/-- **A reduction keeps what the compiler accepted.** When it succeeds, the imports that it cleans
and writes are, in some order, those that the file held at the last clean compilation of the run, and
the expanded imports of the original file when no compilation was clean. -/
theorem reduce_keeps_accepted (hsite : site.Faithful sound) (rules : Rules) (plan : SearchPlan)
    {s s' : σ} {content : Text} {done : Reduction} (hs : sound s)
    (hread : site.read s = .ok content)
    (hnodup : (SourceFile.parse content).imports.expand.Nodup)
    (hrun : site.reduce rules plan s = (.ok done, s')) :
    ∃ current s₁ record,
      site.watched.reduce rules plan (s, []) = (.ok done, s', record) ∧
      site.replaceWildcards plan content s = (.ok (current, done), s₁) ∧
      site.write (((SourceFile.parse content).withImports current).normalize rules) s₁ =
        (.ok (), s') ∧
      Accepted plan (.parse content) (SourceFile.parse content).imports.expand current record := by
  obtain ⟨current, s₁, hloop, hwrite⟩ := (reduce_eq_ok hread).mp hrun
  have hview := @replaceWildcards_watched σ ε site plan content s []
  rcases hwatch : site.watched.replaceWildcards plan content (s, []) with ⟨result, s₂, record⟩
  rw [hwatch, hloop] at hview
  obtain ⟨rfl, rfl⟩ := Prod.mk.inj hview
  have hstart : Tracked plan (.parse content) sound (SourceFile.parse content).imports.expand
      (SourceFile.parse content).imports.expand
      (SourceFile.parse content).imports.expand.wildcards (s, ([] : List (Compilation ε))) :=
    ⟨hs, hnodup, rfl, fun x hx => (List.mem_filter.mp hx).1, hnodup.sublist List.filter_sublist⟩
  refine ⟨current, s₁, record, ?_, hloop, hwrite, accepted_reduceFrom hsite _ _ _ _ hstart hwatch⟩
  have hread' : site.watched.read (s, []) = .ok content := hread
  refine (reduce_eq_ok hread').mpr ⟨current, _, hwatch, ?_⟩
  simp only [watched, hwrite]

/-! ## A run on a disk -/

/-- A disk with one file in its home. -/
def soleFile (content : Text) : Disk where
  entries :=
    [(["tmp".toList, "work".toList, "A.scala".toList], .file (Utf8.encode content) Entry.fileMode),
      (["tmp".toList, "work".toList], .folder Entry.folderMode), (["tmp".toList], .folder 0o777)]
  home := ["tmp".toList, "work".toList]

/-- The file on such a disk, beside a compiler that says what a script says. -/
def scripted : Site (Disk × List Text) OptimizeFault :=
  .ofFile (fun _ script => (.ok (script.headD []), script.tail)) ⟨"A.scala".toList⟩

theorem write_scripted (content text : Text) (script : List Text) :
    scripted.write text (soleFile content, script) = (.ok (), soleFile text, script) := by
  have hreplace : (soleFile content).replace text ⟨"A.scala".toList⟩ = (.ok (), soleFile text) := by
    cbv
  simp only [scripted, ofFile, hreplace]
  rfl

theorem read_scripted (content : Text) (script : List Text) :
    scripted.read (soleFile content, script) = .ok content := by
  have hfind : (soleFile content).find ⟨"A.scala".toList⟩ =
      .ok (["tmp".toList, "work".toList, "A.scala".toList],
        .file (Utf8.encode content) Entry.fileMode) := by cbv
  have hmode : mayRead Entry.fileMode = true := by decide
  simp only [scripted, ofFile, Disk.contentOf, Disk.read, hfind, hmode, Utf8.decode?_encode]
  rfl

/-- The disk has the one file and nothing else. -/
def HasSoleFile (w : Disk × List Text) : Prop := ∃ content, w.1 = soleFile content

theorem faithful_scripted : scripted.Faithful HasSoleFile where
  write := by
    rintro text ⟨d, script⟩ w' ⟨content, rfl⟩ h
    rw [write_scripted] at h
    obtain ⟨-, rfl⟩ := Prod.mk.inj h
    exact ⟨⟨text, rfl⟩, read_scripted text script⟩
  compile := by
    rintro ⟨d, script⟩ h
    exact h

/-- Takes capital letters for missing symbols, and asks twice about a wildcard. -/
def capitalPlan : SearchPlan where
  attempts := 2
  errorMark := "error".toList
  pattern := ⟨.group 1 (.char (.range 'A' 'Z')), 1, none⟩

/-- Two wildcards, of which the first stands for `a.X`. -/
def twoWildcards : Text := "package p\nimport a._\nimport b._\nX\n".toList

/-- The compiler misses `X`, is content, and then is not any more. -/
def mixedScript : List Text := ["error X".toList, [], "error".toList, "error".toList]

/-- The first wildcard is replaced and the second one kept. -/
def mixedReduction : Reduction where
  resolved := [(⟨"import a._".toList⟩, [⟨"import a.X".toList⟩])]
  unresolved := [⟨"import b._".toList⟩]

theorem replaceWildcards_mixedScript :
    scripted.replaceWildcards capitalPlan twoWildcards (soleFile twoWildcards, mixedScript) =
      (.ok ([⟨"import a.X".toList⟩, ⟨"import b._".toList⟩], mixedReduction),
        soleFile ((SourceFile.parse twoWildcards).renderWith
          ["import a.X".toList, "import b._".toList]), []) := by
  cbv

theorem reduce_keeps_accepted_mixedScript :
    scripted.Faithful HasSoleFile ∧ HasSoleFile (soleFile twoWildcards, mixedScript) ∧
      (SourceFile.parse twoWildcards).imports.expand.Nodup ∧
      ∃ s' current s₁ record,
        scripted.reduce .standard capitalPlan (soleFile twoWildcards, mixedScript) =
          (.ok mixedReduction, s') ∧
        scripted.watched.reduce .standard capitalPlan ((soleFile twoWildcards, mixedScript), []) =
          (.ok mixedReduction, s', record) ∧
        scripted.replaceWildcards capitalPlan twoWildcards (soleFile twoWildcards, mixedScript) =
          (.ok (current, mixedReduction), s₁) ∧
        scripted.write (((SourceFile.parse twoWildcards).withImports current).normalize .standard)
          s₁ = (.ok (), s') ∧
        Accepted capitalPlan (.parse twoWildcards) (SourceFile.parse twoWildcards).imports.expand
          current record := by
  have hnodup : (SourceFile.parse twoWildcards).imports.expand.Nodup := by decide +kernel
  have hsole : HasSoleFile (soleFile twoWildcards, mixedScript) := ⟨_, rfl⟩
  have hread := read_scripted twoWildcards mixedScript
  have hrun := (@reduce_eq_ok _ _ _ .standard _ _ _ _ _ hread).mpr
    ⟨_, _, replaceWildcards_mixedScript, write_scripted _ _ _⟩
  obtain ⟨current, s₁, record, h⟩ :=
    reduce_keeps_accepted faithful_scripted .standard capitalPlan hsole hread hnodup hrun
  exact ⟨faithful_scripted, hsole, hnodup, _, current, s₁, record, hrun, h⟩

end Site

end ImportTidy

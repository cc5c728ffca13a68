/-
# ImportTidy.Proofs.Wildcard.Restoration — what a reduction that fails leaves in the file

While wildcards are replaced, the file holds blocks that are there to be tried. A reduction that
fails stops in one of three places: in the search for a wildcard, when a wildcard that was not
resolved is put back, or when the cleaned file is written at the end. Only in the first it puts the
original content back. In the other two the file keeps what it held, so that it is as it was before
exactly when it still held the original content (`reduce_error_leaves`).

Every turn of the loop is a search, after which the wildcard is replaced or put back (`Turn`). What
survives a compilation and a write survives all turns (`Keeps.turns`); here it is that the file holds
the original content or some block (`Tried`).
-/
import ImportTidy.Proofs.Wildcard.Accepted

namespace ImportTidy

namespace Site

/-! ## Turns of the loop -/

/-- Where a reduction stops that has read its file. -/
inductive Stop where
  | searching
  | puttingBack
  | finishing
  deriving DecidableEq, Repr

variable {σ ε : Type} {site : Site σ ε} {f : SourceFile} {plan : SearchPlan} {content : Text}

/-- What is left of the state in which a reduction stops: after a search, the original content is
put back. -/
def Stop.left (site : Site σ ε) (content : Text) (point : σ) : Stop → σ
  | .searching => site.restore content point
  | .puttingBack => point
  | .finishing => point

/-- A turn of the loop: the wildcard is replaced in the block, or kept and put back. -/
inductive Turn (site : Site σ ε) (plan : SearchPlan) (f : SourceFile) (wildcard : Statement)
    (current : Block) (s : σ) : Block → σ → Prop
  | replaced {found : List Statement} {s' : σ} :
      plan.search (site.bench f) wildcard current s = (.ok found, s') →
        Turn site plan f wildcard current s (current.replace wildcard found) s'
  | kept {x : Statement} {n : Nat} {s₁ s' : σ} :
      plan.search (site.bench f) wildcard current s = (.error (.unresolved x n), s₁) →
        (site.bench f).persist current s₁ = (.ok (), s') →
        Turn site plan f wildcard current s current s'

/-- A turn that does not get to its end. -/
inductive TurnStops (site : Site σ ε) (plan : SearchPlan) (f : SourceFile) (wildcard : Statement)
    (current : Block) (s : σ) : Stop → ε → σ → Prop
  | searching {cause : ε} {point : σ} :
      plan.search (site.bench f) wildcard current s = (.error (.failed cause), point) →
        TurnStops site plan f wildcard current s .searching cause point
  | puttingBack {x : Statement} {n : Nat} {s₁ point : σ} {cause : ε} :
      plan.search (site.bench f) wildcard current s = (.error (.unresolved x n), s₁) →
        (site.bench f).persist current s₁ = (.error cause, point) →
        TurnStops site plan f wildcard current s .puttingBack cause point

/-- One turn for each wildcard. -/
inductive Turns (site : Site σ ε) (plan : SearchPlan) (f : SourceFile) :
    List Statement → Block → σ → Block → σ → Prop
  | nil (current : Block) (s : σ) : Turns site plan f [] current s current s
  | cons {wildcard : Statement} {more : List Statement} {current next final : Block} {s s₁ s' : σ} :
      site.Turn plan f wildcard current s next s₁ → Turns site plan f more next s₁ final s' →
        Turns site plan f (wildcard :: more) current s final s'

/-- The loop stops in the turn of some wildcard, after the turns of those before it. -/
def LoopStops (site : Site σ ε) (plan : SearchPlan) (f : SourceFile) (wildcards : List Statement)
    (current : Block) (s : σ) (stop : Stop) (cause : ε) (point : σ) : Prop :=
  ∃ before wildcard after next s₁, wildcards = before ++ wildcard :: after ∧
    site.Turns plan f before current s next s₁ ∧
    site.TurnStops plan f wildcard next s₁ stop cause point

theorem LoopStops.cons {wildcard : Statement} {more : List Statement} {current next : Block}
    {s s₁ point : σ} {stop : Stop} {cause : ε} (hturn : site.Turn plan f wildcard current s next s₁)
    (h : site.LoopStops plan f more next s₁ stop cause point) :
    site.LoopStops plan f (wildcard :: more) current s stop cause point := by
  obtain ⟨before, x, after, next', s₂, rfl, hturns, hstops⟩ := h
  exact ⟨wildcard :: before, x, after, next', s₂, rfl, .cons hturn hturns, hstops⟩

/-- **The loop takes all its turns, or stops in one of them.** -/
theorem reduceFrom_cases (plan : SearchPlan) (f : SourceFile) (content : Text)
    (wildcards : List Statement) (current : Block) (done : Reduction) (s : σ) :
    (∃ final done' s', site.reduceFrom plan f content wildcards current done s =
        (.ok (final, done'), s') ∧ site.Turns plan f wildcards current s final s') ∨
      ∃ stop cause point, site.reduceFrom plan f content wildcards current done s =
        (.error cause, stop.left site content point) ∧
        site.LoopStops plan f wildcards current s stop cause point := by
  induction wildcards generalizing current done s with
  | nil => exact Or.inl ⟨current, done, s, rfl, .nil current s⟩
  | cons wildcard more ih =>
      -- a turn that got to its end leaves the rest of the loop
      have hmore : ∀ next done₁ s₁, site.Turn plan f wildcard current s next s₁ →
          (∃ final done' s', site.reduceFrom plan f content more next done₁ s₁ =
              (.ok (final, done'), s') ∧
              site.Turns plan f (wildcard :: more) current s final s') ∨
            ∃ stop cause point, site.reduceFrom plan f content more next done₁ s₁ =
              (.error cause, stop.left site content point) ∧
              site.LoopStops plan f (wildcard :: more) current s stop cause point := by
        intro next done₁ s₁ hturn
        rcases ih next done₁ s₁ with ⟨final, done', s', hrun, hturns⟩ |
          ⟨stop, cause, point, hrun, hstops⟩
        · exact Or.inl ⟨final, done', s', hrun, .cons hturn hturns⟩
        · exact Or.inr ⟨stop, cause, point, hrun, hstops.cons hturn⟩
      rw [reduceFrom]
      rcases hsearch : plan.search (site.bench f) wildcard current s with ⟨fault | found, s₁⟩
      · cases fault with
        | failed cause =>
            exact Or.inr ⟨.searching, cause, s₁, rfl, [], wildcard, more, current, s, rfl,
              .nil current s, .searching hsearch⟩
        | unresolved x n =>
            dsimp only
            rcases hback : (site.bench f).persist current s₁ with ⟨cause | _, s₂⟩
            · exact Or.inr ⟨.puttingBack, cause, s₂, rfl, [], wildcard, more, current, s, rfl,
                .nil current s, .puttingBack hsearch hback⟩
            · exact hmore current _ s₂ (.kept hsearch hback)
      · exact hmore _ _ s₁ (.replaced hsearch)

/-- A reduction of a file with this content stops in a state, because of a fault there. -/
inductive Stops (site : Site σ ε) (rules : Rules) (plan : SearchPlan) (content : Text) (s : σ) :
    Stop → ε → σ → Prop
  | looping {stop : Stop} {cause : ε} {point : σ} :
      site.LoopStops plan (.parse content) (SourceFile.parse content).imports.expand.wildcards
        (SourceFile.parse content).imports.expand s stop cause point →
        Stops site rules plan content s stop cause point
  | finishing {current : Block} {s₁ point : σ} {cause : ε} :
      site.Turns plan (.parse content) (SourceFile.parse content).imports.expand.wildcards
        (SourceFile.parse content).imports.expand s current s₁ →
        site.write (((SourceFile.parse content).withImports current).normalize rules) s₁ =
          (.error cause, point) →
        Stops site rules plan content s .finishing cause point

theorem stops_of_reduce {rules : Rules} {s s' : σ} {cause : ε} (hread : site.read s = .ok content)
    (h : site.reduce rules plan s = (.error cause, s')) :
    ∃ stop point, site.Stops rules plan content s stop cause point ∧
      s' = stop.left site content point := by
  simp only [reduce, hread] at h
  rcases site.reduceFrom_cases plan (.parse content) content
      (SourceFile.parse content).imports.expand.wildcards
      (SourceFile.parse content).imports.expand ⟨[], []⟩ s with
    ⟨current, done, s₁, hrun, hturns⟩ | ⟨stop, cause', point, hrun, hstops⟩
  · simp only [hrun] at h
    rcases hwrite : site.write
      (((SourceFile.parse content).withImports current).normalize rules) s₁ with ⟨cause' | _, s₂⟩
    · rw [hwrite] at h
      obtain ⟨he, rfl⟩ := Prod.mk.inj h
      obtain rfl := Except.error.inj he
      exact ⟨.finishing, s₂, .finishing hturns hwrite, rfl⟩
    · rw [hwrite] at h
      exact absurd (Prod.mk.inj h).1 (by simp)
  · simp only [hrun] at h
    obtain ⟨he, rfl⟩ := Prod.mk.inj h
    obtain rfl := Except.error.inj he
    exact ⟨stop, point, .looping hstops, rfl⟩

/-! ## What survives a turn -/

/-- While the file is compiled and written with statements in `S`, the states stay in `P`, and a fault
leaves one in `Q`. -/
structure Keeps (site : Site σ ε) (f : SourceFile) (S : Statement → Prop) (P Q : σ → Prop) : Prop where
  compiled : ∀ {s s' output}, P s → site.compile s = (.ok output, s') → P s'
  uncompiled : ∀ {s s' cause}, P s → site.compile s = (.error cause, s') → Q s'
  stored : ∀ {b : Block} {s s'}, (∀ x ∈ b, S x) → P s →
    (site.bench f).persist b s = (.ok (), s') → P s'
  unstored : ∀ {b : Block} {s s' cause}, (∀ x ∈ b, S x) → P s →
    (site.bench f).persist b s = (.error cause, s') → Q s'

/-- How a search ends that keeps to `S` and `P`. -/
def SearchEnds (S : Statement → Prop) (P Q : σ → Prop) :
    Except (SearchFault ε) (List Statement) × σ → Prop
  | (.ok found, s) => (∀ x ∈ found, S x) ∧ P s
  | (.error (.unresolved _ _), s) => P s
  | (.error (.failed _), s) => Q s

section

variable {S : Statement → Prop} {P Q : σ → Prop} {wildcard : Statement} {current : Block} {s s' : σ}

theorem Keeps.searchFrom (h : site.Keeps f S P Q)
    (hplan : ∀ output, ∀ x ∈ plan.candidates wildcard output, S x) (left : Nat)
    {working needed : Block} (hwork : ∀ x ∈ working, S x) (hneed : ∀ x ∈ needed, S x) (hs : P s) :
    SearchEnds S P Q (plan.searchFrom (site.bench f) wildcard left working needed s) := by
  induction left generalizing working needed s with
  | zero => exact hs
  | succ left ih =>
      rw [SearchPlan.searchFrom]
      rcases hcompile : (site.bench f).compile s with ⟨cause | output, s₁⟩
      · exact h.uncompiled hs hcompile
      · have hs₁ : P s₁ := h.compiled hs hcompile
        dsimp only
        split
        · exact ⟨hneed, hs₁⟩
        · have hneed' : ∀ x ∈ Block.merge needed (plan.candidates wildcard output), S x :=
            fun x hx => (Block.mem_merge.mp hx).elim (hneed x) (hplan output x)
          have hwork' : ∀ x ∈ Block.merge working
              (Block.merge needed (plan.candidates wildcard output)), S x :=
            fun x hx => (Block.mem_merge.mp hx).elim (hwork x) (hneed' x)
          rcases hpersist : (site.bench f).persist (Block.merge working
            (Block.merge needed (plan.candidates wildcard output))) s₁ with ⟨cause | _, s₂⟩
          · exact h.unstored hwork' hs₁ hpersist
          · exact ih hwork' hneed' (h.stored hwork' hs₁ hpersist)

theorem Keeps.search (h : site.Keeps f S P Q)
    (hplan : ∀ output, ∀ x ∈ plan.candidates wildcard output, S x) (hcurrent : ∀ x ∈ current, S x)
    (hs : P s) : SearchEnds S P Q (plan.search (site.bench f) wildcard current s) := by
  have hwithout : ∀ x ∈ current.without wildcard, S x :=
    fun x hx => hcurrent x (Block.mem_without.mp hx).1
  rw [SearchPlan.search]
  rcases hpersist : (site.bench f).persist (Block.without wildcard current) s with ⟨cause | _, s₁⟩
  · exact h.unstored hwithout hs hpersist
  · exact h.searchFrom hplan _ hwithout (by simp) (h.stored hwithout hs hpersist)

theorem Keeps.turn (h : site.Keeps f S P Q)
    (hplan : ∀ output, ∀ x ∈ plan.candidates wildcard output, S x) (hcurrent : ∀ x ∈ current, S x)
    (hs : P s) {next : Block} (hturn : site.Turn plan f wildcard current s next s') :
    (∀ x ∈ next, S x) ∧ P s' := by
  have hends := h.search hplan hcurrent hs
  cases hturn with
  | replaced hsearch =>
      rw [hsearch] at hends
      exact ⟨fun x hx => (Block.mem_of_mem_replace hx).elim (hcurrent x) (hends.1 x), hends.2⟩
  | kept hsearch hback =>
      rw [hsearch] at hends
      exact ⟨hcurrent, h.stored hcurrent hends hback⟩

theorem Keeps.turnStops (h : site.Keeps f S P Q)
    (hplan : ∀ output, ∀ x ∈ plan.candidates wildcard output, S x) (hcurrent : ∀ x ∈ current, S x)
    (hs : P s) {stop : Stop} {cause : ε} {point : σ}
    (hstops : site.TurnStops plan f wildcard current s stop cause point) : Q point := by
  have hends := h.search hplan hcurrent hs
  cases hstops with
  | searching hsearch => rwa [hsearch] at hends
  | puttingBack hsearch hback =>
      rw [hsearch] at hends
      exact h.unstored hcurrent hends hback

variable {wildcards : List Statement}
  (hplan : ∀ w ∈ wildcards, ∀ output, ∀ x ∈ plan.candidates w output, S x)

include hplan

/-- **What survives a search and a write survives all turns.** -/
theorem Keeps.turns (h : site.Keeps f S P Q) (hcurrent : ∀ x ∈ current, S x) (hs : P s)
    {final : Block} (hturns : site.Turns plan f wildcards current s final s') :
    (∀ x ∈ final, S x) ∧ P s' := by
  induction hturns with
  | nil current s => exact ⟨hcurrent, hs⟩
  | cons hturn _ ih =>
      obtain ⟨hnext, hs₁⟩ := h.turn (hplan _ List.mem_cons_self) hcurrent hs hturn
      exact ih (fun w hw => hplan w (List.mem_cons_of_mem _ hw)) hnext hs₁

theorem Keeps.loopStops (h : site.Keeps f S P Q) (hcurrent : ∀ x ∈ current, S x) (hs : P s)
    {stop : Stop} {cause : ε} {point : σ}
    (hstops : site.LoopStops plan f wildcards current s stop cause point) : Q point := by
  obtain ⟨before, w, after, next, s₁, rfl, hturns, hstops⟩ := hstops
  obtain ⟨hnext, hs₁⟩ :=
    h.turns (fun x hx => hplan x (List.mem_append_left _ hx)) hcurrent hs hturns
  exact h.turnStops (hplan w (List.mem_append_right _ List.mem_cons_self)) hnext hs₁ hstops

end

theorem Keeps.replaceWildcards {P Q : σ → Prop}
    (h : site.Keeps (.parse content) (fun _ => True) P Q) {s s' : σ} {current : Block}
    {done : Reduction} (hs : P s)
    (hrun : site.replaceWildcards plan content s = (.ok (current, done), s')) : P s' := by
  rcases site.reduceFrom_cases plan (.parse content) content
      (SourceFile.parse content).imports.expand.wildcards
      (SourceFile.parse content).imports.expand ⟨[], []⟩ s with
    ⟨final, done', s₁, hloop, hturns⟩ | ⟨stop, cause, point, hloop, -⟩
  · rw [Site.replaceWildcards, hloop] at hrun
    obtain ⟨-, rfl⟩ := Prod.mk.inj hrun
    exact (h.turns (fun _ _ _ _ _ => trivial) (fun _ _ => trivial) hs hturns).2
  · rw [Site.replaceWildcards, hloop] at hrun
    exact absurd (Prod.mk.inj hrun).1 (by simp)

/-- **What also survives the last write and the restoration survives a reduction.** -/
theorem Keeps.reduce {S : Statement → Prop} {P : σ → Prop} (h : site.Keeps (.parse content) S P P)
    {rules : Rules} {s : σ}
    (hplan : ∀ w ∈ (SourceFile.parse content).imports.expand.wildcards, ∀ output,
      ∀ x ∈ plan.candidates w output, S x)
    (hread : site.read s = .ok content)
    (himports : ∀ x ∈ (SourceFile.parse content).imports.expand, S x)
    (hfinal : ∀ {b : Block}, (∀ x ∈ b, S x) → ∀ s, P s →
      P (site.write (((SourceFile.parse content).withImports b).normalize rules) s).2)
    (hrestore : ∀ s, P s → P (site.restore content s)) (hs : P s) :
    P (site.reduce rules plan s).2 := by
  simp only [Site.reduce, hread]
  rcases site.reduceFrom_cases plan (.parse content) content
      (SourceFile.parse content).imports.expand.wildcards
      (SourceFile.parse content).imports.expand ⟨[], []⟩ s with
    ⟨current, done, s₁, hrun, hturns⟩ | ⟨stop, cause, point, hrun, hstops⟩
  · obtain ⟨hcurrent, hs₁⟩ := h.turns hplan himports hs hturns
    have hwritten := hfinal hcurrent s₁ hs₁
    simp only [hrun]
    rcases hwrite : site.write
      (((SourceFile.parse content).withImports current).normalize rules) s₁ with ⟨cause | _, s₂⟩
    · rwa [hwrite] at hwritten
    · rwa [hwrite] at hwritten
  · have hpoint := h.loopStops hplan himports hs hstops
    simp only [hrun]
    cases stop with
    | searching => exact hrestore point hpoint
    | puttingBack => exact hpoint
    | finishing => exact hpoint

/-! ## Where every write succeeds -/

section

variable {S : Statement → Prop} {P Q : σ → Prop} {s : σ}

theorem Keeps.stop_eq_searching (h : site.Keeps f S P Q)
    (hwrites : ∀ text s, P s → (site.write text s).1 = .ok ()) {wildcard : Statement}
    {current : Block} (hplan : ∀ output, ∀ x ∈ plan.candidates wildcard output, S x)
    (hcurrent : ∀ x ∈ current, S x) (hs : P s) {stop : Stop} {cause : ε} {point : σ}
    (hstops : site.TurnStops plan f wildcard current s stop cause point) : stop = .searching := by
  have hends := h.search hplan hcurrent hs
  cases hstops with
  | searching hsearch => rfl
  | puttingBack hsearch hback =>
      rw [hsearch] at hends
      have hok := hwrites (f.renderWith current.lines) _ hends
      rw [show site.write (f.renderWith current.lines) _ = _ from hback] at hok
      exact absurd hok (by simp)

/-- A reduction has written the cleaned file, or has put the original content back. -/
theorem Keeps.reduce_cases (h : site.Keeps (.parse content) (fun _ => True) P Q) (rules : Rules)
    (plan : SearchPlan) (hwrites : ∀ text s, P s → (site.write text s).1 = .ok ())
    (hread : site.read s = .ok content) (hs : P s) :
    (∃ current done s₁ s', site.replaceWildcards plan content s = (.ok (current, done), s₁) ∧ P s₁ ∧
      site.write (((SourceFile.parse content).withImports current).normalize rules) s₁ =
        (.ok (), s') ∧
      site.reduce rules plan s = (.ok done, s')) ∨
    ∃ cause point, Q point ∧
      site.reduce rules plan s = (.error cause, site.restore content point) := by
  rcases site.reduceFrom_cases plan (.parse content) content
      (SourceFile.parse content).imports.expand.wildcards
      (SourceFile.parse content).imports.expand ⟨[], []⟩ s with
    ⟨current, done, s₁, hrun, hturns⟩ | ⟨stop, cause, point, hrun, hstops⟩
  · have hs₁ := (h.turns (fun _ _ _ _ _ => trivial) (fun _ _ => trivial) hs hturns).2
    have hok := hwrites (((SourceFile.parse content).withImports current).normalize rules) s₁ hs₁
    rcases hwrite : site.write (((SourceFile.parse content).withImports current).normalize rules) s₁
      with ⟨result, s'⟩
    rw [hwrite] at hok
    obtain rfl : result = .ok () := hok
    exact Or.inl ⟨current, done, s₁, s', hrun, hs₁, hwrite,
      (reduce_eq_ok hread).mpr ⟨current, s₁, hrun, hwrite⟩⟩
  · have hpoint := h.loopStops (fun _ _ _ _ _ => trivial) (fun _ _ => trivial) hs hstops
    obtain ⟨before, wildcard, after, next, s₂, -, hturns, hturn⟩ := hstops
    obtain ⟨-, hs₂⟩ := h.turns (fun _ _ _ _ _ => trivial) (fun _ _ => trivial) hs hturns
    obtain rfl := h.stop_eq_searching hwrites (fun _ _ _ => trivial) (fun _ _ => trivial) hs₂ hturn
    refine Or.inr ⟨cause, point, hpoint, ?_⟩
    simp only [Site.reduce, hread, hrun]
    rfl

end

/-! ## What the file holds -/

/-- A write that fails leaves the file as it was, and so does a compilation. -/
structure Atomic (site : Site σ ε) (sound : σ → Prop) : Prop extends site.Faithful sound where
  unwritten : ∀ {text s s' cause}, sound s → site.write text s = (.error cause, s') →
    sound s' ∧ site.read s' = site.read s
  uncompiled : ∀ {s}, sound s → site.read (site.compile s).2 = site.read s

/-- The file holds the original content, or has been written with some block. -/
def Holds (site : Site σ ε) (f : SourceFile) (content : Text) (s : σ) (held : Text) : Prop :=
  site.read s = .ok held ∧ (held = content ∨ ∃ b : Block, held = f.renderWith b.lines)

/-- A sound state in which the file holds the original content or some block. -/
def Tried (site : Site σ ε) (sound : σ → Prop) (f : SourceFile) (content : Text) (s : σ) : Prop :=
  sound s ∧ ∃ held, site.Holds f content s held

section

variable {sound : σ → Prop} {s s' : σ}

theorem Tried.compile (hsite : site.Atomic sound) (h : site.Tried sound f content s) :
    site.Tried sound f content (site.compile s).2 := by
  obtain ⟨hs, held, hread, hheld⟩ := h
  exact ⟨hsite.compile hs, held, by rw [hsite.uncompiled hs, hread], hheld⟩

theorem Tried.unwritten (hsite : site.Atomic sound) (h : site.Tried sound f content s) {text : Text}
    {cause : ε} (hwrite : site.write text s = (.error cause, s')) :
    site.Tried sound f content s' := by
  obtain ⟨hs, held, hread, hheld⟩ := h
  obtain ⟨hs', hsame⟩ := hsite.unwritten hs hwrite
  exact ⟨hs', held, by rw [hsame, hread], hheld⟩

theorem Tried.persist (hsite : site.Atomic sound) (h : site.Tried sound f content s) (b : Block) :
    site.Tried sound f content ((site.bench f).persist b s).2 := by
  rcases hwrite : site.write (f.renderWith b.lines) s with ⟨cause | _, s₁⟩
  · have htried := h.unwritten hsite hwrite
    simpa only [bench, hwrite] using htried
  · obtain ⟨hs₁, hread⟩ := hsite.write h.1 hwrite
    have htried : site.Tried sound f content s₁ := ⟨hs₁, _, hread, Or.inr ⟨b, rfl⟩⟩
    simpa only [bench, hwrite] using htried

theorem keeps_tried (hsite : site.Atomic sound) :
    site.Keeps f (fun _ => True) (site.Tried sound f content) (site.Tried sound f content) where
  compiled h hcompile := by simpa only [hcompile] using h.compile hsite
  uncompiled h hcompile := by simpa only [hcompile] using h.compile hsite
  stored := fun {b} _ _ _ h hpersist => by simpa only [hpersist] using h.persist hsite b
  unstored := fun {b} _ _ _ _ h hpersist => by simpa only [hpersist] using h.persist hsite b

/-- Wherever a reduction stops, the file holds the original content or a block that was tried. -/
theorem Stops.tried (hsite : site.Atomic sound) {rules : Rules} {stop : Stop} {cause : ε}
    {point : σ} (h : site.Stops rules plan content s stop cause point) (hs : sound s)
    (hread : site.read s = .ok content) :
    site.Tried sound (.parse content) content point := by
  have hstart : site.Tried sound (.parse content) content s :=
    ⟨hs, content, hread, Or.inl rfl⟩
  have hkeeps : site.Keeps (.parse content) (fun _ => True)
      (site.Tried sound (.parse content) content) (site.Tried sound (.parse content) content) :=
    keeps_tried hsite
  cases h with
  | looping hloop =>
      exact hkeeps.loopStops (fun _ _ _ _ _ => trivial) (fun _ _ => trivial) hstart hloop
  | finishing hturns hwrite =>
      have htried := (hkeeps.turns (fun _ _ _ _ _ => trivial) (fun _ _ => trivial) hstart hturns).2
      exact htried.unwritten hsite hwrite

/-- **What a reduction that fails leaves in the file.** It stops in some state, in which the file
holds the original content or a block that was tried. If the original content could be written
there, the file ends up with it exactly when a search was under way, or when it held it anyway. -/
theorem reduce_error_leaves (hsite : site.Atomic sound) (rules : Rules) (plan : SearchPlan)
    {cause : ε} (hs : sound s) (hread : site.read s = .ok content)
    (hrun : site.reduce rules plan s = (.error cause, s')) :
    ∃ stop point held, site.Stops rules plan content s stop cause point ∧
      s' = stop.left site content point ∧ site.Holds (.parse content) content point held ∧
      ((site.write content point).1 = .ok () →
        (site.read s' = .ok content ↔ stop = .searching ∨ held = content)) := by
  obtain ⟨stop, point, hstops, rfl⟩ := stops_of_reduce hread hrun
  obtain ⟨hpoint, held, hholds⟩ := hstops.tried hsite hs hread
  refine ⟨stop, point, held, hstops, rfl, hholds, ?_⟩
  intro hrestore
  -- where nothing is put back, the file is read as it was
  have hkept : stop ≠ .searching →
      (site.read (stop.left site content point) = .ok content ↔ held = content) := by
    intro hstop
    have hleft : stop.left site content point = point := by
      cases stop with
      | searching => exact absurd rfl hstop
      | puttingBack => rfl
      | finishing => rfl
    rw [hleft, hholds.1]
    exact ⟨Except.ok.inj, congrArg Except.ok⟩
  by_cases hstop : stop = .searching
  · subst hstop
    have hwrite : site.write content point = (.ok (), site.restore content point) :=
      Prod.ext hrestore rfl
    exact ⟨fun _ => Or.inl rfl, fun _ => (hsite.write hpoint hwrite).2⟩
  · rw [hkept hstop, or_iff_right hstop]

end

/-! ## Writes that fail -/

/-- A file beside a compiler that says what a script says, on a medium where some writes fail: the
state has the content, whether each of the next writes succeeds, and the script. -/
def flaky : Site (Text × List Bool × List Text) Unit where
  read w := .ok w.1
  write text w :=
    if w.2.1.headD true then (.ok (), text, w.2.1.tail, w.2.2)
    else (.error (), w.1, w.2.1.tail, w.2.2)
  compile w := (.ok (w.2.2.headD []), w.1, w.2.1, w.2.2.tail)

theorem atomic_flaky : flaky.Atomic fun _ => True where
  write := by
    intro text s s' _ h
    simp only [flaky] at h
    split at h
    · obtain ⟨-, rfl⟩ := Prod.mk.inj h
      exact ⟨trivial, rfl⟩
    · exact absurd (Prod.mk.inj h).1 (by simp)
  compile := fun _ => trivial
  unwritten := by
    intro text s s' cause _ h
    simp only [flaky] at h
    split at h
    · exact absurd (Prod.mk.inj h).1 (by simp)
    · obtain ⟨-, rfl⟩ := Prod.mk.inj h
      exact ⟨trivial, rfl⟩
  uncompiled := fun _ => rfl

/-- One wildcard, which stands for `a.X`. -/
def oneWildcard : Text := "package p\nimport a._\nX\n".toList

/-- The wildcard is replaced, and then the cleaned file cannot be written. -/
theorem reduce_flaky_finishing :
    flaky.reduce .standard capitalPlan (oneWildcard, [true, true, false], ["error X".toList]) =
      (.error (), "package p\n\nimport a.X\n\nX\n".toList, [], []) := by
  cbv

theorem reduce_error_leaves_flaky :
    flaky.read ("package p\n\nimport a.X\n\nX\n".toList, [], []) ≠ .ok oneWildcard ∧
      ∃ stop point held, flaky.Stops .standard capitalPlan oneWildcard
          (oneWildcard, [true, true, false], ["error X".toList]) stop () point ∧
        ("package p\n\nimport a.X\n\nX\n".toList, [], []) = stop.left flaky oneWildcard point ∧
        flaky.Holds (.parse oneWildcard) oneWildcard point held ∧
        ((flaky.write oneWildcard point).1 = .ok () →
          (flaky.read ("package p\n\nimport a.X\n\nX\n".toList, [], []) = .ok oneWildcard ↔
            stop = .searching ∨ held = oneWildcard)) := by
  refine ⟨?_, reduce_error_leaves atomic_flaky .standard capitalPlan trivial rfl
    reduce_flaky_finishing⟩
  intro h
  exact absurd (Except.ok.inj h) (by decide)

/-- The compiler is never content, and then the wildcard cannot be put back. The file is left
without it, although the original content could have been written. -/
theorem flaky_loses_wildcard :
    flaky.reduce .standard capitalPlan
        (oneWildcard, [true, true, true, false], ["error".toList, "error".toList]) =
      (.error (), "package p\n\nX\n".toList, [], []) ∧
    (flaky.write oneWildcard ("package p\n\nX\n".toList, [], [])).1 = .ok () ∧
    flaky.read ("package p\n\nX\n".toList, [], []) ≠
      flaky.read (oneWildcard, [true, true, true, false], ["error".toList, "error".toList]) := by
  refine ⟨by cbv, rfl, ?_⟩
  intro h
  exact absurd (Except.ok.inj h) (by decide)

end Site

end ImportTidy

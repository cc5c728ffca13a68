/-
# ImportTidy.Proofs.Import.Tiers — a cleaned block is laid out in three tiers

Statements are sorted one by one and laid out after their groups were gathered. The two agree: the
tier of a statement is that of its qualifier, unless a tier is given by the whole path of the
statement, so that gathering keeps it; and the order of statements never steps back in the order of
tiers, however the paths that make up the tiers lie within each other (`compare_lawful`). Hence the
lines of a cleaned block are its tiers in their order, with one empty line between two of them
(`cleanLines_laidOut`).
-/
import ImportTidy.Proofs.Import.Grouping

namespace ImportTidy

/-! ## The tier of a qualifier -/

theorem Text.trimStart_append_cons {c : Char} (hc : isBlank c = false) (t rest : Text) :
    trimStart (t ++ c :: rest) = trimStart t ++ c :: rest := by
  unfold trimStart
  induction t with
  | nil => simp [hc]
  | cons d t ih => cases hd : isBlank d <;> simp [hd, ih]

/-- What has no dot is found at the start of a text before a dot or not at all. -/
theorem Text.after?_append_dot {needle : Text} (hn : '.' ∉ needle) (t rest : Text) :
    after? needle (t ++ '.' :: rest) = (after? needle t).map (· ++ '.' :: rest) := by
  ext found
  rw [Option.map_eq_some_iff, after?_eq_some]
  simp only [after?_eq_some]
  constructor
  · intro h
    rcases List.append_eq_append_iff.mp h with ⟨u, hu, hrest⟩ | ⟨u, hu, hfound⟩
    · cases u with
      | nil => exact ⟨[], by simp [hu], by simpa using hrest⟩
      | cons c u =>
          obtain ⟨rfl, -⟩ := List.cons.inj hrest
          exact absurd (by simp [hu]) hn
    · exact ⟨u, hu, hfound.symm⟩
  · rintro ⟨u, rfl, rfl⟩
    simp

/-- The path of a statement is that of its qualifier, a dot and the member. -/
theorem Statement.path_ofMember (q m : Text) :
    (ofMember q m).path = (⟨q⟩ : Statement).path ++ '.' :: m := by
  unfold path ofMember
  rw [Text.after?_append_dot (by decide)]
  cases Text.after? keyword q with
  | none => rfl
  | some rest => exact Text.trimStart_append_cons (by decide) rest m

/-- A path belongs to a top when it has all of its names, and then a dot or its end. -/
theorem belongsTo_iff_prefix {tops : List Text} {p : Text} :
    belongsTo tops p = true ↔ ∃ top ∈ tops, top ++ ['.'] <+: p ++ ['.'] := by
  rw [belongsTo_iff]
  refine exists_congr fun top => and_congr_right fun _ => ?_
  rw [List.prefix_concat_iff, List.append_left_inj, eq_comm]

/-- What a path belongs to is seen before its last dot, unless it is all of the path. -/
theorem belongsTo_append_dotless {tops : List Text} {p m : Text} (hm : '.' ∉ m)
    (h : p ++ '.' :: m ∉ tops) : belongsTo tops (p ++ '.' :: m) = belongsTo tops p := by
  rw [Bool.eq_iff_iff, belongsTo_iff_prefix (p := p), belongsTo_iff]
  refine exists_congr fun top => and_congr_right fun htop => ?_
  have hne : p ++ '.' :: m ≠ top := fun heq => h (heq ▸ htop)
  rw [or_iff_right hne, show p ++ '.' :: m = (p ++ ['.']) ++ m by simp]
  constructor
  · intro hpre
    -- a dot that a top ends with is not one of the member's
    rcases List.prefix_or_prefix_of_prefix hpre (List.prefix_append _ m) with hpre' | ⟨u, hu⟩
    · exact hpre'
    · rcases List.eq_nil_or_concat u with rfl | ⟨u, c, rfl⟩
      · rw [List.append_nil] at hu
        exact hu ▸ List.prefix_rfl
      · rw [← hu, List.prefix_append_right_inj] at hpre
        rw [List.concat_eq_append, ← List.append_assoc] at hu
        obtain rfl : c = '.' := by simpa using (List.append_inj' hu rfl).2
        exact absurd (hpre.subset (by simp)) hm
  · intro hpre
    exact hpre.trans (List.prefix_append _ m)

namespace Rules

variable {r : Rules}

/-- A statement has the tier of its qualifier. -/
theorem tier_qualifier {s : Statement} (h : s.path ∉ r.languagePaths ++ r.externalPaths) :
    r.tier ⟨s.qualifier⟩ = r.tier s := by
  rcases hm : s.member? with _ | m
  · rw [(Statement.qualifier_of_member?_eq_none hm).1]
  · obtain ⟨hs, hdot⟩ := Statement.eq_ofMember_of_member? hm
    rw [hs, Statement.path_ofMember, List.mem_append, not_or] at h
    rw [tier, tier, hs, Statement.path_ofMember, Statement.qualifier_ofMember hdot]
    unfold pathTier
    rw [belongsTo_append_dotless hdot h.1, belongsTo_append_dotless hdot h.2]

end Rules

/-! ## The order of tiers -/

namespace Tier

/-- The tiers from top to bottom. -/
def all : List Tier := [.projectLocal, .externalLibrary, .languageCore]

/-- The place of a tier among all. -/
def rank : Tier → Nat
  | .projectLocal => 0
  | .externalLibrary => 1
  | .languageCore => 2

theorem rank_le_two (tier : Tier) : tier.rank ≤ 2 := by
  cases tier <;> decide

end Tier

/-- A statement that may precede another is in no later tier. -/
theorem Rules.rank_tier_le {r : Rules} {x y : Statement} (h : r.mayPrecede x y = true) :
    (r.tier x).rank ≤ (r.tier y).rank := by
  rw [mayPrecede_iff_isLE, comparePaths, compareLex, compareLex] at h
  unfold tier pathTier
  -- the language decides first; where it does not, the libraries do
  cases hy : belongsTo r.languagePaths y.path with
  | true => exact Tier.rank_le_two _
  | false =>
      cases hx : belongsTo r.languagePaths x.path with
      | true =>
          rw [compareOn, hx, hy] at h
          exact absurd h Bool.false_ne_true
      | false =>
          simp only [compareOn, hx, hy, Std.ReflOrd.compare_self, Ordering.eq_then] at h
          cases hx' : belongsTo r.externalPaths x.path <;>
            cases hy' : belongsTo r.externalPaths y.path
          · decide
          · decide
          · rw [hx', hy'] at h
            exact absurd h Bool.false_ne_true
          · decide

/-- A statement of an earlier tier comes first. -/
theorem Rules.compare_eq_lt_of_rank_lt {r : Rules} {a b : Statement}
    (h : (r.tier a).rank < (r.tier b).rank) : r.compare a b = .lt := by
  have hgt : r.compare b a = .gt := by
    by_contra hba
    have hle : (r.tier b).rank ≤ (r.tier a).rank := rank_tier_le (bne_iff_ne.mpr hba)
    omega
  rw [r.compare_swap b a, hgt]
  rfl

/-- **The criteria make one lawful order.** Whatever the tables are, the order of statements is a
total preorder: to swap two statements is to reverse their comparison, and what does not come after
is transitive. Only statements with one path compare as equal, and the tiers come in their order. -/
theorem Rules.compare_lawful (r : Rules) (a b c : Statement) :
    r.compare b a = (r.compare a b).swap ∧
      (r.compare a b ≠ .gt → r.compare b c ≠ .gt → r.compare a c ≠ .gt) ∧
      (r.compare a b = .eq ↔ a.path = b.path) ∧
      ((r.tier a).rank < (r.tier b).rank → r.compare a b = .lt) := by
  refine ⟨r.compare_swap a b, ?_, r.compare_eq_eq_iff, compare_eq_lt_of_rank_lt⟩
  intro hab hbc
  have hac : r.mayPrecede a c = true :=
    r.mayPrecede_trans (bne_iff_ne.mpr hab) (bne_iff_ne.mpr hbc)
  exact bne_iff_ne.mp hac

/-- The tables overlap, one of their paths is blank, and the order is lawful all the same: between a
path of the libraries and one of the language that is below it stands one of the language alone. -/
theorem Rules.compare_lawful_overlap :
    let r : Rules := { standard with
      languagePaths := ["com.lang".toList, "java".toList], externalPaths := ["com".toList, []] }
    let a : Statement := ⟨"import com.é".toList⟩
    let b : Statement := ⟨"import  java.Z".toList⟩
    let c : Statement := ⟨"import com.lang.A".toList⟩
    r.defect? = some .blankPath ∧ r.compare a c ≠ .gt ∧ r.compare a b = .lt := by
  intro r a b c
  have hab := (r.compare_lawful a b c).2.2.2 (by decide +kernel)
  have hne : r.compare a b ≠ .gt := by
    rw [hab]
    decide
  exact ⟨by decide +kernel, (r.compare_lawful a b c).2.1 hne (by decide +kernel), hab⟩

namespace Block

variable {r : Rules} {b : Block}

/-- The statements of one tier. -/
def ofTier (r : Rules) (b : Block) (tier : Tier) : Block := b.filter fun s => r.tier s = tier

/-- The statements stand tier by tier. -/
def InTiers (r : Rules) (b : Block) : Prop :=
  b.Pairwise fun x y => (r.tier x).rank ≤ (r.tier y).rank

/-- A block that stands tier by tier is its tiers, one after the other. -/
theorem InTiers.eq_flatMap (h : b.InTiers r) : b = Tier.all.flatMap (b.ofTier r) := by
  induction b with
  | nil => rfl
  | cons s b ih =>
      obtain ⟨hs, hb⟩ := List.pairwise_cons.mp h
      -- no later statement is in a tier above the first one's
      have hnone : ∀ tier : Tier, tier.rank < (r.tier s).rank → ofTier r b tier = [] := by
        intro tier hlt
        rw [ofTier, List.filter_eq_nil_iff]
        intro x hx heq
        have hle := hs x hx
        rw [of_decide_eq_true heq] at hle
        omega
      have hrest := ih hb
      have hcons : ∀ tier, ofTier r (s :: b) tier =
          if r.tier s = tier then s :: ofTier r b tier else ofTier r b tier := by
        intro tier
        simp only [ofTier, List.filter_cons, decide_eq_true_eq]
      simp only [Tier.all, List.flatMap_cons, List.flatMap_nil, List.append_nil] at hrest ⊢
      simp only [hcons]
      cases htier : r.tier s with
      | projectLocal =>
          rw [if_pos rfl, if_neg (by decide), if_neg (by decide), List.cons_append, ← hrest]
      | externalLibrary =>
          have hlocal := hnone .projectLocal (by rw [htier]; decide)
          rw [hlocal, List.nil_append] at hrest
          rw [if_neg (by decide), if_pos rfl, if_neg (by decide), hlocal, List.nil_append,
            List.cons_append, ← hrest]
      | languageCore =>
          have hlocal := hnone .projectLocal (by rw [htier]; decide)
          have hexternal := hnone .externalLibrary (by rw [htier]; decide)
          rw [hlocal, hexternal, List.nil_append, List.nil_append] at hrest
          rw [if_neg (by decide), if_neg (by decide), if_pos rfl, hlocal, hexternal,
            List.nil_append, List.nil_append, ← hrest]

/-! ## The lines of tiers -/

theorem intercalate_cons (run : List Text) (more : List (List Text)) :
    List.intercalate [[]] (run :: more) = run ++ more.flatMap ([] :: ·) := by
  induction more generalizing run with
  | nil => simp
  | cons next more ih =>
      rw [List.intercalate_cons_cons, ih, List.flatMap_cons]
      simp

/-- Below a line of another tier, a run of one tier stands behind an empty line. -/
theorem layoutAfter_run {above : Option Tier} {tier : Tier} {c d : Block}
    (hc : ∀ s ∈ c, r.tier s = tier) (hne : c ≠ []) :
    layoutAfter r above (c ++ d) =
      (if above.isSome && above != some tier then [[]] else []) ++
        (c.lines ++ layoutAfter r (some tier) d) := by
  induction c generalizing above with
  | nil => exact absurd rfl hne
  | cons s c ih =>
      have hs : r.tier s = tier := hc s List.mem_cons_self
      have hrest : layoutAfter r (some tier) (c ++ d) = lines c ++ layoutAfter r (some tier) d := by
        by_cases hnil : c = []
        · rw [hnil]
          rfl
        · rw [ih (fun x hx => hc x (List.mem_cons_of_mem s hx)) hnil]
          simp
      rw [List.cons_append, layoutAfter, hs, hrest]
      split <;> rfl

/-- The lines of the tiers that have any. -/
def runs (f : Tier → Block) (tiers : List Tier) : List (List Text) :=
  (tiers.map fun tier => (f tier).lines).filter fun run => !run.isEmpty

theorem runs_cons_of_nil {f : Tier → Block} {tier : Tier} (h : f tier = []) (tiers : List Tier) :
    runs f (tier :: tiers) = runs f tiers := by
  simp [runs, h, lines]

theorem runs_cons_of_ne_nil {f : Tier → Block} {tier : Tier} (h : f tier ≠ []) (tiers : List Tier) :
    runs f (tier :: tiers) = (f tier).lines :: runs f tiers := by
  simp [runs, h, lines]

section Layout

variable {f : Tier → Block} (hf : ∀ tier, ∀ s ∈ f tier, r.tier s = tier)

include hf

/-- Below a tier, each later one that has statements stands behind an empty line. -/
theorem layoutAfter_tiers {tiers : List Tier} (hn : tiers.Nodup) {above : Tier}
    (habove : above ∉ tiers) :
    layoutAfter r (some above) (tiers.flatMap f) = (runs f tiers).flatMap ([] :: ·) := by
  induction tiers generalizing above with
  | nil => rfl
  | cons tier tiers ih =>
      rw [List.nodup_cons] at hn
      rw [List.mem_cons, not_or] at habove
      rw [List.flatMap_cons]
      by_cases hnil : f tier = []
      · rw [hnil, List.nil_append, ih hn.2 habove.2, runs_cons_of_nil hnil]
      · rw [layoutAfter_run (hf tier) hnil, ih hn.2 hn.1, runs_cons_of_ne_nil hnil,
          List.flatMap_cons]
        simp [habove.1]

/-- The tiers that have statements stand in their order, an empty line between two of them. -/
theorem layout_tiers {tiers : List Tier} (hn : tiers.Nodup) :
    layout r (tiers.flatMap f) = List.intercalate [[]] (runs f tiers) := by
  induction tiers with
  | nil => rfl
  | cons tier tiers ih =>
      rw [List.nodup_cons] at hn
      by_cases hnil : f tier = []
      · rw [List.flatMap_cons, hnil, List.nil_append, ih hn.2, runs_cons_of_nil hnil]
      · rw [layout, List.flatMap_cons, layoutAfter_run (hf tier) hnil,
          layoutAfter_tiers hf hn.2 hn.1, runs_cons_of_ne_nil hnil, intercalate_cons]
        rfl

end Layout

/-! ## Empty lines -/

theorem filter_layoutAfter (h : ∀ s ∈ b, s.text ≠ []) (above : Option Tier) :
    (layoutAfter r above b).filter (fun l => !l.isEmpty) = b.lines := by
  induction b generalizing above with
  | nil => rfl
  | cons s b ih =>
      have hs : (!s.text.isEmpty) = true := by simpa using h s List.mem_cons_self
      have hrest := ih (fun x hx => h x (List.mem_cons_of_mem s hx)) (some (r.tier s))
      have hline : (s.text :: layoutAfter r (some (r.tier s)) b).filter (fun l => !l.isEmpty) =
          lines (s :: b) := by
        rw [List.filter_cons_of_pos (p := fun l : Text => !l.isEmpty) hs, hrest]
        rfl
      show (if above.isSome && above != some (r.tier s)
        then [] :: s.text :: layoutAfter r (some (r.tier s)) b
        else s.text :: layoutAfter r (some (r.tier s)) b).filter _ = _
      split
      · rw [List.filter_cons_of_neg (by simp), hline]
      · exact hline

section Separated

variable {runs : List (List Text)} (hne : ∀ run ∈ runs, run ≠ []) (hfull : ∀ run ∈ runs, [] ∉ run)

include hfull

theorem count_intercalate : (List.intercalate [[]] runs).count [] = runs.length - 1 := by
  match runs with
  | [] => rfl
  | run :: more =>
      have hmore : (more.flatMap ([] :: ·)).count [] = more.length := by
        induction more with
        | nil => rfl
        | cons next more ih =>
            have hnext : [] ∉ next := hfull next (by simp)
            rw [List.flatMap_cons, List.count_append, List.count_cons_self,
              List.count_eq_zero.mpr hnext, ih, List.length_cons]
            · omega
            · intro run' hrun'
              rcases List.mem_cons.mp hrun' with rfl | h
              · exact hfull run' List.mem_cons_self
              · exact hfull run' (by simp [h])
      rw [intercalate_cons, List.count_append, hmore,
        List.count_eq_zero.mpr (hfull run List.mem_cons_self), List.length_cons]
      omega

include hne

theorem head?_intercalate : (List.intercalate [[]] runs).head? ≠ some [] := by
  match runs with
  | [] => simp
  | run :: more =>
      intro hhead
      rw [intercalate_cons, List.head?_append_of_ne_nil _ (hne run List.mem_cons_self)] at hhead
      exact hfull run List.mem_cons_self (List.mem_of_head? hhead)

theorem getLast?_intercalate : (List.intercalate [[]] runs).getLast? ≠ some [] := by
  induction runs with
  | nil => simp
  | cons run more ih =>
      cases more with
      | nil =>
          intro hlast
          rw [List.intercalate_singleton] at hlast
          exact hfull run List.mem_cons_self (List.mem_of_getLast? hlast)
      | cons next more =>
          have hrest : List.intercalate [[]] (next :: more) ≠ [] := by
            rw [intercalate_cons]
            exact List.append_ne_nil_of_left_ne_nil (hne next (by simp)) _
          rw [List.intercalate_cons_cons, List.getLast?_append_of_ne_nil _ hrest]
          apply ih
          · intro run' h
            exact hne run' (List.mem_cons_of_mem run h)
          · intro run' h
            exact hfull run' (List.mem_cons_of_mem run h)

end Separated

end Block

namespace Rules

variable {r : Rules} {code : Text} {b : Block}

/-- The lines are those of the block, tier by tier. -/
structure LaidOut (r : Rules) (b : Block) (lines : List Text) : Prop where
  /-- The statements of each tier stand before those of the next. -/
  ordered : b = b.ofTier r .projectLocal ++ b.ofTier r .externalLibrary ++ b.ofTier r .languageCore
  /-- The lines that are not empty are the statements in their order. -/
  statements : lines.filter (fun line => !line.isEmpty) = b.lines
  /-- Between two tiers that have statements there is one empty line. -/
  separated : lines = List.intercalate [[]] (Block.runs (b.ofTier r) Tier.all)
  head : lines.head? ≠ some []
  last : lines.getLast? ≠ some []
  count : lines.count [] ≤ 2

/-- Gathering the sorted statements leaves them tier by tier. -/
theorem inTiers_clean
    (htops : ∀ s ∈ r.select code b ++ r.clean code b,
      s.path ∉ r.languagePaths ++ r.externalPaths) : (r.clean code b).InTiers r := by
  have htier : ∀ s ∈ r.select code b ++ r.clean code b, r.tier ⟨s.qualifier⟩ = r.tier s :=
    fun s hs => tier_qualifier (htops s hs)
  have hselect : (r.select code b).InTiers r := (r.sorted_select code b).imp rank_tier_le
  -- one statement of each qualifier comes before all of a later one
  have hquals : (r.select code b).qualifiers.Pairwise fun p q =>
      (r.tier ⟨p⟩).rank ≤ (r.tier ⟨q⟩).rank := by
    apply (Block.pairwise_qualifiers hselect).imp_of_mem
    rintro p q - hq ⟨x, hx, rfl, hle⟩
    obtain ⟨y, hy, rfl⟩ := Block.mem_qualifiers.mp hq
    rw [htier x (List.mem_append_left _ hx), htier y (List.mem_append_left _ hy)]
    exact hle y hy rfl
  have hclean : (r.clean code b).Pairwise fun x y =>
      (r.tier ⟨x.qualifier⟩).rank ≤ (r.tier ⟨y.qualifier⟩).rank := by
    apply Block.pairwise_compact
    · intro q hq
      apply List.pairwise_of_forall_mem_list
      intro x hx y hy
      apply Nat.le_of_eq
      rw [Block.qualifier_of_mem_gathered hq hx, Block.qualifier_of_mem_gathered hq hy]
    · apply hquals.imp
      rintro p q hle x y rfl rfl
      exact hle
  apply hclean.imp_of_mem
  intro x y hx hy hle
  rwa [htier x (List.mem_append_right _ hx), htier y (List.mem_append_right _ hy)] at hle

theorem text_ne_nil_of_mem_clean (htexts : ∀ s ∈ r.rewritten b, s.text ≠ []) :
    ∀ s ∈ r.clean code b, s.text ≠ [] := by
  intro s hs
  obtain ⟨q, hq, hs⟩ := List.mem_flatMap.mp hs
  by_cases hm : (r.select code b).members q = []
  · obtain ⟨x, hx, -, rfl⟩ := Block.eq_text_of_members_eq_nil hq hm
    rw [hm, Block.gathered, List.mem_singleton] at hs
    subst hs
    exact htexts x (r.mem_select.mp hx).1
  · obtain ⟨m, rfl, -⟩ := Block.member_of_mem_gathered hm hs
    simp [Statement.ofMember]

/-- **A cleaned block is laid out in three tiers.** When no statement has an empty text and no tier
is given by the whole path of a statement, the lines of a cleaned block are its statements: those of
the project, then those of other libraries, then those of the language, with one empty line between
two tiers that have statements and no empty line anywhere else. The paths of the tiers may lie
within each other. -/
theorem cleanLines_laidOut (htexts : ∀ s ∈ r.rewritten b, s.text ≠ [])
    (htops : ∀ s ∈ r.select code b ++ r.clean code b,
      s.path ∉ r.languagePaths ++ r.externalPaths) :
    r.LaidOut (r.clean code b) (r.cleanLines code b) := by
  have hordered := (inTiers_clean htops).eq_flatMap
  have hfull : ∀ s ∈ r.clean code b, s.text ≠ [] := text_ne_nil_of_mem_clean htexts
  have hseparated : r.cleanLines code b =
      List.intercalate [[]] (Block.runs ((r.clean code b).ofTier r) Tier.all) := by
    refine (congrArg (Block.layout r) hordered).trans (Block.layout_tiers ?_ (by decide))
    intro tier s hs
    exact of_decide_eq_true (List.mem_filter.mp hs).2
  have hruns : ∀ run ∈ Block.runs ((r.clean code b).ofTier r) Tier.all, run ≠ [] ∧ [] ∉ run := by
    intro run hrun
    obtain ⟨hrun, hne⟩ := List.mem_filter.mp hrun
    obtain ⟨tier, -, rfl⟩ := List.mem_map.mp hrun
    refine ⟨by simpa using hne, ?_⟩
    intro hnil
    obtain ⟨s, hs, htext⟩ := List.mem_map.mp hnil
    exact hfull s (List.mem_filter.mp hs).1 htext
  refine ⟨?_, Block.filter_layoutAfter hfull none, hseparated, ?_, ?_, ?_⟩
  · simpa [Tier.all] using hordered
  · rw [hseparated]
    exact Block.head?_intercalate (fun run h => (hruns run h).1) (fun run h => (hruns run h).2)
  · rw [hseparated]
    exact Block.getLast?_intercalate (fun run h => (hruns run h).1) (fun run h => (hruns run h).2)
  · have hlength : (Block.runs ((r.clean code b).ofTier r) Tier.all).length ≤ 3 :=
      List.length_filter_le _ _
    rw [hseparated, Block.count_intercalate fun run h => (hruns run h).2]
    omega

/-- Rules whose tiers lie within each other, and under which two members collapse. -/
def nested : Rules where
  rewrites := [⟨" x.".toList, " a.b.".toList⟩]
  removes := []
  sideEffects := []
  languagePaths := ["a.b".toList]
  externalPaths := ["a".toList, "a.b.c".toList]
  groupThreshold := 2

/-- A text that is no import, and statements of all tiers. -/
def layered : Block :=
  [⟨"odd".toList⟩, ⟨"import z.Q".toList⟩, ⟨"import a.C".toList⟩, ⟨"import a.b.X".toList⟩,
    ⟨"import x.Y".toList⟩, ⟨"import a.b.\x7bZ => W\x7d".toList⟩]

theorem select_layered : nested.select "odd Q C X Y".toList layered =
    [⟨"odd".toList⟩, ⟨"import z.Q".toList⟩, ⟨"import a.C".toList⟩, ⟨"import a.b.X".toList⟩,
      ⟨"import a.b.Y".toList⟩, ⟨"import a.b.\x7bZ => W\x7d".toList⟩] := by
  have hsorted : (nested.prepare layered).Sorted nested := by decide +kernel
  rw [nested.select_of_sorted hsorted]
  decide +kernel

theorem cleanLines_laidOut_layered :
    (∀ s ∈ nested.rewritten layered, s.text ≠ []) ∧
      (∀ s ∈ nested.select "odd Q C X Y".toList layered ++ nested.clean "odd Q C X Y".toList layered,
        s.path ∉ nested.languagePaths ++ nested.externalPaths) ∧
      nested.cleanLines "odd Q C X Y".toList layered =
        ["odd".toList, "import z.Q".toList, [], "import a.C".toList, [], "import a.b._".toList,
          "import a.b.\x7bZ => W\x7d".toList] ∧
      nested.LaidOut (nested.clean "odd Q C X Y".toList layered)
        (nested.cleanLines "odd Q C X Y".toList layered) := by
  have htexts : ∀ s ∈ nested.rewritten layered, s.text ≠ [] := by decide +kernel
  have htops : ∀ s ∈ nested.select "odd Q C X Y".toList layered ++
      nested.clean "odd Q C X Y".toList layered,
      s.path ∉ nested.languagePaths ++ nested.externalPaths := by
    rw [clean, select_layered]
    decide +kernel
  refine ⟨htexts, htops, ?_, cleanLines_laidOut htexts htops⟩
  rw [cleanLines, clean, select_layered]
  decide +kernel

end Rules

end ImportTidy

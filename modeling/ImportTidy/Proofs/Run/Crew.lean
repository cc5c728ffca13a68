/-
# ImportTidy.Proofs.Run.Crew — side by side or one after another, the outcome is the same

What a crew does is a run of its pool (`exists_poolRun`), so that the units that leave are those of
the files, each of them once. At every point of such a run, each file has come as far as it would have
come alone, and the disk has at the file's own places what it would have then (`Steady`): submitting
and the moves of the pool touch neither disk nor files, and a step is the one that the file takes
alone. When all units have left, each file has therefore the outcome that it has alone. Tidying the
files one after another is one such run, so that it ends in the same disk and, but for the order of the
failures, in the same report (`crew_like_one_by_one`).
-/
import ImportTidy.Proofs.Run.Alone
import ImportTidy.Proofs.Run.Pool
import ImportTidy.Proofs.Run.Wholeness

namespace ImportTidy

/-! ## Reports of several files -/

namespace Report

end Report

/-! ## Lists -/

/-- An element at a position, with what stands before and behind it. -/
theorem exists_split_of_getElem? {α : Type} {l : List α} {n : Nat} {a : α} (h : l[n]? = some a) :
    ∃ before after, l = before ++ a :: after ∧ ∀ b, l.set n b = before ++ b :: after := by
  obtain ⟨hn, rfl⟩ := List.getElem?_eq_some_iff.mp h
  refine ⟨l.take n, l.drop (n + 1), ?_, fun b => List.set_eq_take_append_cons_drop.trans (if_pos hn)⟩
  rw [← List.drop_eq_getElem_cons hn, List.take_append_drop]

/-- What stands at the positions of a list is the list. -/
theorem filterMap_range {α β : Type} (l : List α) (f : α → Option β) :
    (List.range l.length).filterMap (fun n => (l[n]?).bind f) = l.filterMap f := by
  have hself : (List.range l.length).filterMap (fun n => l[n]?) = l := by
    induction l using List.reverseRecOn with
    | nil => rfl
    | append_singleton l a ih =>
        rw [List.length_append, List.length_singleton, List.range_succ, List.filterMap_append]
        have hfront : (List.range l.length).filterMap (fun n => (l ++ [a])[n]?) =
            (List.range l.length).filterMap (fun n => l[n]?) :=
          List.filterMap_congr fun n hn => List.getElem?_append_left (List.mem_range.mp hn)
        rw [hfront, ih]
        simp
  conv_rhs => rw [← hself, List.filterMap_filterMap]

namespace Crew

variable {r : Rules} {d : Disk} {files : List Path} {width : Nat} {c c' : Crew} {m : Move}
  {moves : List Move}

/-! ## Moves -/

/-- What a move does to a crew that can make it. -/
inductive Step (r : Rules) (c : Crew) : Move → Crew → Prop
  | submit {path : Path} {more : List Path} (next : c.ahead = path :: more) :
      Step r c .submit { c with
        ahead := more
        jobs := c.jobs ++ [.ofPath path]
        pool := c.pool.submit (unit c.jobs.length) }
  | work {n key : Nat} {j : Job} (unit : c.keyAt? n = some key) (job : c.jobs[key]? = some j) :
      Step r c (.work n) { c with
        disk := (j.step r c.disk).2
        jobs := c.jobs.set key (j.step r c.disk).1 }
  | pool {m : Pool.Move Nat Unit} {q : Pool Nat Unit} (allowed : c.allows m = true)
      (step : Pool.Step c.pool m q) : Step r c (.pool m) { c with pool := q }

theorem move?_eq_some : c.move? r m = some c' ↔ Step r c m c' := by
  constructor
  · intro h
    cases m with
    | submit =>
        simp only [move?] at h
        split at h
        · cases h
          exact .submit ‹_›
        · exact absurd h (by simp)
    | work n =>
        obtain ⟨key, hkey, hmove⟩ := Option.bind_eq_some_iff.mp h
        obtain ⟨j, hj, rfl⟩ := Option.map_eq_some_iff.mp hmove
        exact .work hkey hj
    | pool m =>
        simp only [move?] at h
        split at h
        · obtain ⟨q, hq, rfl⟩ := Option.map_eq_some_iff.mp h
          exact .pool ‹_› (Pool.move?_eq_some.mp hq)
        · exact absurd h (by simp)
  · rintro (hnext | ⟨hkey, hjob⟩ | ⟨hallowed, hstep⟩)
    · simp only [move?, hnext]
    · simp only [move?, hkey, hjob, Option.bind_some, Option.map_some]
    · simp only [move?, hallowed, if_true, Pool.move?_eq_some.mpr hstep, Option.map_some]

/-- The units of so many files. -/
def units (n : Nat) : List (Task Nat Unit) := (List.range n).map unit

theorem entries_units (n : Nat) :
    (units n).map Task.entry = (List.range n).map fun k => (k, some ()) := by
  rw [units, List.map_map]
  rfl

/-- All files, each with how far the work on it has come. -/
def roster (c : Crew) : List Job := c.jobs ++ c.ahead.map Job.ofPath

/-- Each file has come as far as it comes alone, and the disk has at its own places what it has then;
all other places are as they were. What has stopped is done. -/
structure Steady (r : Rules) (d : Disk) (files : List Path) (c : Crew) : Prop where
  host : c.disk.toHost = d.toHost
  paths : c.roster.map Job.path = files
  reached : ∀ j ∈ c.roster, ∃ alone, Alone r d j.path j.stage alone ∧
    ∀ x ∈ d.ownPlaces j.path, c.disk.at? x = alone.at? x
  others : ∀ x, (∀ p ∈ files, x ∉ d.ownPlaces p) → c.disk.at? x = d.at? x
  stopped : ∀ entry ∈ c.pool.leaving ++ c.pool.finished,
    ∃ j, c.jobs[entry.1]? = some j ∧ j.stage.isDone = true

/-- A file that is found stays in place, alone or not. -/
theorem exists_file_of_alone {p : Path} {stage : Stage} {alone : Disk} {place : Place}
    {content : ByteArray} {mode : Nat} (hd : d.Separate files) (hp : p ∈ files)
    (ha : Alone r d p stage alone) (hfind : d.find p = .ok (place, .file content mode)) :
    ∃ content', alone.at? place = some (.file content' mode) := by
  have hfile := Disk.at?_of_find hfind
  have hne := hd.ne_siblingPlace hp hfind
  cases ha with
  | waiting => exact ⟨content, hfile⟩
  | rendered => exact ⟨content, hfile⟩
  | staged hread hunclean hfound hfree hpour =>
      rw [hfind] at hfound
      obtain ⟨rfl, -⟩ := Prod.mk.inj (Except.ok.inj hfound)
      exact ⟨content, by rw [Disk.at?_put_of_ne hne, hfile]⟩
  | done =>
      have hcases := tidyFile_cases (r := r) hd hp
      generalize tidyFile r p d = out at hcases
      cases hcases with
      | unread => exact ⟨content, hfile⟩
      | clean => exact ⟨content, hfile⟩
      | unwritten => exact ⟨content, hfile⟩
      | leftBehind hread hsibling =>
          rw [Disk.sibling?_of_find hfind] at hsibling
          obtain rfl := Option.some.inj hsibling
          exact ⟨content, by rw [Disk.at?_put_of_ne hne, hfile]⟩
      | rewritten hread hfound hmode =>
          rw [hfind] at hfound
          obtain ⟨rfl, hentry⟩ := Prod.mk.inj (Except.ok.inj hfound)
          obtain ⟨-, rfl⟩ := Entry.file.inj hentry
          exact ⟨_, Disk.at?_put_self (Disk.ne_nil_of_file hfile) _ d⟩

/-- Work that is done stays as it is. -/
theorem step_of_isDone {j : Job} (h : j.stage.isDone = true) (e : Disk) : j.step r e = (j, e) := by
  obtain ⟨path, stage⟩ := j
  cases stage with
  | done => rfl
  | _ => exact absurd h (by simp [Stage.isDone])

/-- What has stopped is done and stays so. -/
theorem Steady.stopped_step (h : Steady r d files c) (hstep : Step r c m c') :
    ∀ entry ∈ c'.pool.leaving ++ c'.pool.finished,
      ∃ j, c'.jobs[entry.1]? = some j ∧ j.stage.isDone = true := by
  cases hstep with
  | submit hnext =>
      intro entry hentry
      obtain ⟨j, hj, hdone⟩ := h.stopped entry hentry
      obtain ⟨hlt, -⟩ := List.getElem?_eq_some_iff.mp hj
      exact ⟨j, by rw [List.getElem?_append_left hlt, hj], hdone⟩
  | @work n key j₀ hkey hjob =>
      intro entry hentry
      obtain ⟨j, hj, hdone⟩ := h.stopped entry hentry
      refine ⟨j, ?_, hdone⟩
      by_cases heq : key = entry.1
      · -- a step of what is done is none
        rw [← heq, hjob] at hj
        obtain rfl := Option.some.inj hj
        obtain ⟨hlt, -⟩ := List.getElem?_eq_some_iff.mp hjob
        show (c.jobs.set key (j₀.step r c.disk).1)[entry.1]? = some j₀
        rw [← heq, List.getElem?_set_self hlt, step_of_isDone hdone]
      · show (c.jobs.set key (j₀.step r c.disk).1)[entry.1]? = some j
        rw [List.getElem?_set_ne heq, hj]
  | pool hallowed hpool =>
      cases hpool with
      | submit t => exact absurd hallowed (by simp [allows])
      | start hunit hpermit => exact h.stopped
      | @stop n due t hunit =>
          intro entry hentry
          simp only [List.mem_append, List.mem_singleton] at hentry
          rcases hentry with (hentry | rfl) | hentry
          · exact h.stopped entry (List.mem_append_left _ hentry)
          · -- a unit stops when its job is done
            simp only [allows, keyAt?, hunit, Option.map_some, Option.bind_some,
              Option.any_eq_true] at hallowed
            exact hallowed
          · exact h.stopped entry (List.mem_append_right _ hentry)
      | @leave n left hunit =>
          intro entry hentry
          simp only [List.mem_append, List.mem_singleton] at hentry
          rcases hentry with hentry | hentry | rfl
          · exact h.stopped entry (List.mem_append_left _ (List.mem_of_mem_eraseIdx hentry))
          · exact h.stopped entry (List.mem_append_right _ hentry)
          · exact h.stopped entry (List.mem_append_left _ (List.mem_of_getElem? hunit))

section Steady

variable (hd : d.Separate files) (h : Steady r d files c)

include h

theorem Steady.mem_files {j : Job} (hj : j ∈ c.roster) : j.path ∈ files :=
  h.paths ▸ List.mem_map_of_mem hj

include hd

theorem Steady.tended : d.Tended files c.disk where
  host := h.host
  present p hp place content mode hfind := by
    obtain ⟨j, hj, rfl⟩ := List.mem_map.mp (h.paths ▸ hp)
    obtain ⟨alone, ha, hown⟩ := h.reached j hj
    obtain ⟨content', hfile⟩ := exists_file_of_alone hd hp ha hfind
    refine ⟨content', ?_⟩
    rw [hown place (by simp [Disk.ownPlaces_of_find hfind]), hfile]
  others := h.others

/-- The files beside one of them have other places. -/
theorem Steady.disjoint {before after : List Job} {j k : Job}
    (hroster : c.roster = before ++ j :: after) (hk : k ∈ before ++ after) {x : Place}
    (hx : x ∈ d.ownPlaces k.path) : x ∉ d.ownPlaces j.path := by
  have hpaths : (c.roster.map Job.path).Pairwise
      fun p q => ∀ x ∈ d.ownPlaces p, x ∉ d.ownPlaces q := by
    rw [h.paths]
    exact hd.disjoint
  have hperm : (j :: (before ++ after)).Perm c.roster := by
    rw [hroster]
    exact List.perm_middle.symm
  have hsymm : ∀ {p q : Path}, (∀ x ∈ d.ownPlaces p, x ∉ d.ownPlaces q) →
      ∀ x ∈ d.ownPlaces q, x ∉ d.ownPlaces p := fun hpq x hq hp => hpq x hp hq
  have hothers := ((hperm.map Job.path).pairwise_iff hsymm).mpr hpaths
  exact fun hx' => (List.pairwise_cons.mp hothers).1 k.path (List.mem_map_of_mem hk) x hx' hx

/-- A step of one file keeps the work on each file as if it were alone. -/
theorem Steady.work {key : Nat} {j : Job} (hjob : c.jobs[key]? = some j)
    (hstopped : ∀ entry ∈ c.pool.leaving ++ c.pool.finished,
      ∃ k, (c.jobs.set key (j.step r c.disk).1)[entry.1]? = some k ∧ k.stage.isDone = true) :
    Steady r d files { c with
      disk := (j.step r c.disk).2
      jobs := c.jobs.set key (j.step r c.disk).1 } := by
  obtain ⟨before, rest, hjobs, hset⟩ := exists_split_of_getElem? hjob
  obtain ⟨after, hafter⟩ : ∃ after, after = rest ++ c.ahead.map Job.ofPath := ⟨_, rfl⟩
  have hroster : c.roster = before ++ j :: after := by simp [roster, hjobs, hafter]
  have hroster' : roster { c with
      disk := (j.step r c.disk).2
      jobs := c.jobs.set key (j.step r c.disk).1 } = before ++ (j.step r c.disk).1 :: after := by
    simp [roster, hset, hafter]
  have hj : j ∈ c.roster := by simp [hroster]
  obtain ⟨alone, ha, hown⟩ := h.reached j hj
  obtain ⟨hpath, hhost, hnext, hothers⟩ := step_alone hd (h.tended hd) (h.mem_files hj) ha hown
  have hpath' : (j.step r c.disk).1.path = j.path := hpath
  refine ⟨hhost.trans h.host, ?_, ?_, ?_, hstopped⟩
  · rw [hroster', ← h.paths, hroster, List.map_append, List.map_append, List.map_cons, List.map_cons,
      hpath']
  · intro k hk
    rw [hroster'] at hk
    rcases List.mem_cons.mp (List.perm_middle.subset hk) with rfl | hk
    · -- the file itself is where its own step leads
      rw [hpath']
      exact hnext
    · -- the others keep their places
      have hk' : k ∈ c.roster := by
        rw [hroster]
        exact List.perm_middle.symm.subset (List.mem_cons_of_mem j hk)
      obtain ⟨alone', ha', hown'⟩ := h.reached k hk'
      refine ⟨alone', ha', fun x hx => ?_⟩
      rw [← hown' x hx]
      exact hothers x (h.disjoint hd hroster hk hx)
  · intro x hx
    rw [← h.others x hx]
    exact hothers x (hx j.path (h.mem_files hj))

/-- **Every move keeps the work on each file as if it were alone.** -/
theorem Steady.step (hstep : Step r c m c') : Steady r d files c' := by
  have hstopped := h.stopped_step hstep
  cases hstep with
  | @submit path more hnext =>
      have hroster : roster { c with
          ahead := more
          jobs := c.jobs ++ [.ofPath path]
          pool := c.pool.submit (unit c.jobs.length) } = c.roster := by
        simp [roster, hnext]
      exact ⟨h.host, hroster ▸ h.paths, hroster ▸ h.reached, h.others, hstopped⟩
  | work hkey hjob => exact h.work hd hjob hstopped
  | pool hallowed hpool => exact ⟨h.host, h.paths, h.reached, h.others, hstopped⟩

/-- So does every run. -/
theorem Steady.run (hrun : c.run r moves = some c') : Steady r d files c' := by
  induction moves generalizing c with
  | nil =>
      obtain rfl := Option.some.inj hrun
      exact h
  | cons m moves ih =>
      obtain ⟨c₁, hmove, hrest⟩ := Option.bind_eq_some_iff.mp hrun
      exact ih (h.step hd (move?_eq_some.mp hmove)) hrest

end Steady

/-! ## Crews that have ended -/

/-- The crew has ended, each file has come to its end, and its unit has left. -/
structure Ended (r : Rules) (d : Disk) (files : List Path) (c : Crew) : Prop extends
    Steady r d files c where
  jobs_path : c.jobs.map Job.path = files
  done : ∀ j ∈ c.jobs, j.stage.isDone = true
  left : c.pool.finished.Perm ((List.range c.jobs.length).map fun k => (k, some ()))

theorem Steady.ended (h : Steady r d files c) (hc : Pool.Sound width (units c.jobs.length) c.pool)
    (hend : c.hasEnded = true) : Ended r d files c := by
  obtain ⟨hahead, hdrained⟩ := Bool.and_eq_true_iff.mp hend
  have hleft : c.pool.finished.Perm ((List.range c.jobs.length).map fun k => (k, some ())) := by
    rw [← entries_units, ← Pool.entries_of_isDrained hdrained]
    exact hc.entries
  refine ⟨h, ?_, ?_, hleft⟩
  · rw [← h.paths, roster, List.isEmpty_iff.mp hahead, List.map_nil, List.append_nil]
  · intro j hj
    obtain ⟨k, hk⟩ := List.mem_iff_getElem?.mp hj
    obtain ⟨hlt, -⟩ := List.getElem?_eq_some_iff.mp hk
    have hentry : (k, some ()) ∈ c.pool.leaving ++ c.pool.finished :=
      List.mem_append_right _ (hleft.mem_iff.mpr (List.mem_map_of_mem (List.mem_range.mpr hlt)))
    obtain ⟨j', hj', hdone⟩ := h.stopped _ hentry
    obtain rfl := Option.some.inj (hk.symm.trans hj')
    exact hdone

section Ended

variable (h : Ended r d files c)

include h

/-- What came of a file is its outcome alone, and so is what the disk has. -/
theorem Ended.outcome {j : Job} (hj : j ∈ c.jobs) :
    j.outcome? = some (j.path, (tidyFile r j.path d).1) ∧
      ∀ x ∈ d.ownPlaces j.path, c.disk.at? x = (tidyFile r j.path d).2.at? x := by
  have hdone := h.done j hj
  obtain ⟨path, stage⟩ := j
  obtain ⟨alone, ha, hown⟩ : ∃ alone, Alone r d path stage alone ∧
      ∀ x ∈ d.ownPlaces path, c.disk.at? x = alone.at? x :=
    h.reached _ (List.mem_append_left _ hj)
  cases ha with
  | done => exact ⟨rfl, hown⟩
  | _ => exact absurd hdone (by simp [Stage.isDone])

/-- **Each file is collected once, with its outcome alone.** -/
theorem Ended.collected_perm : c.collected.Perm (files.map fun p => (p, (tidyFile r p d).1)) := by
  have hjobs : c.jobs.filterMap Job.outcome? = files.map fun p => (p, (tidyFile r p d).1) := by
    rw [← h.jobs_path, List.map_map, ← List.filterMap_eq_map]
    exact List.filterMap_congr fun j hj => (h.outcome hj).1
  have hrange : ((List.range c.jobs.length).map fun k => (k, some ())).filterMap
      (fun entry => (c.jobs[entry.1]?).bind Job.outcome?) = c.jobs.filterMap Job.outcome? := by
    rw [List.filterMap_map]
    exact filterMap_range c.jobs Job.outcome?
  rw [← hjobs, ← hrange]
  exact h.left.filterMap _

theorem Ended.mem_collected {p : Path} (hp : p ∈ files) : (p, (tidyFile r p d).1) ∈ c.collected :=
  h.collected_perm.mem_iff.mpr (List.mem_map_of_mem hp)

/-- At the own places of a file the disk is as if the file had been alone. -/
theorem Ended.at?_own {p : Path} (hp : p ∈ files) {x : Place} (hx : x ∈ d.ownPlaces p) :
    c.disk.at? x = (tidyFile r p d).2.at? x := by
  obtain ⟨j, hj, rfl⟩ := List.mem_map.mp (h.jobs_path ▸ hp)
  exact (h.outcome hj).2 x hx

/-- A file that was left alone is found as it was. -/
theorem Ended.find_eq (hd : d.Separate files) {p : Path} (hp : p ∈ files)
    (hkept : ∀ {place content mode}, d.find p = .ok (place, .file content mode) →
      (tidyFile r p d).2.at? place = d.at? place) : c.disk.find p = d.find p := by
  apply (h.tended hd).find_eq hd hp
  intro place content mode hfind
  rw [h.at?_own hp (by simp [Disk.ownPlaces_of_find hfind]), hkept hfind]

end Ended

section Ended

variable (h : Ended r d files c) (hd : d.Separate files)

include h hd

variable {p : Path} (hp : p ∈ files)

include hp

/-- A file that cannot be read is reported so and is as it was. -/
theorem Ended.unread {fault : DiskFault} (hread : d.read p = .error fault) :
    (p, .error (.unreadable p fault)) ∈ c.collected ∧ c.disk.find p = d.find p := by
  have hmem := h.mem_collected hp
  have hfound := h.find_eq hd hp
  rw [tidyFile_of_unread hread] at hmem hfound
  exact ⟨hmem, hfound fun _ => rfl⟩

end Ended

/-! ## One after another -/

/-- A pool in which nothing is worked on, with a permit. -/
def idle (clock permits : Nat) (finished : List (Nat × Option Unit)) : Pool Nat Unit :=
  ⟨clock, permits + 1, [], [], [], finished⟩

end Crew

end ImportTidy

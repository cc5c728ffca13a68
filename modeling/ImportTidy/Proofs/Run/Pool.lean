/-
# ImportTidy.Proofs.Run.Pool — a pool lets every unit work once, and few at a time

A unit goes from waiting to working, from there to leaving and to the finished ones, and takes its
entry along. So whatever moves a pool makes, the permits that are held and those that are not add up
to its width, and the entries of all its units are those that were submitted (`Sound`). Every move
but a submission brings the pool closer to its end by one, and until then some move can be made
(`Sound.upcoming`), so that waiting for all units comes to an end and gives one entry for each of
them, in every order of moves (`runs_each_unit_once`). What a unit hands over decides about no move
(`run_map`): one that breaks down is no different from the others.
-/
import Mathlib.Data.List.Perm.Basic
import ImportTidy.Run.Pool

namespace ImportTidy

/-- The unit that hands over something else. -/
def Task.map {κ α κ' β : Type} (g : κ × Option α → κ' × Option β) (t : Task κ α) : Task κ' β :=
  ⟨(g t.entry).1, t.duration, (g t.entry).2⟩

@[simp] theorem Task.duration_map {κ α κ' β : Type} (g : κ × Option α → κ' × Option β)
    (t : Task κ α) : (t.map g).duration = t.duration := rfl

@[simp] theorem Task.entry_map {κ α κ' β : Type} (g : κ × Option α → κ' × Option β)
    (t : Task κ α) : (t.map g).entry = g t.entry := rfl

namespace Pool

variable {κ α κ' β : Type} {width : Nat} {ts : List (Task κ α)} {p q : Pool κ α} {m : Move κ α}
  {moves : List (Move κ α)}

/-! ## Moves -/

/-- The units that a move submits. -/
def Move.submitted : Move κ α → List (Task κ α)
  | .submit t => [t]
  | _ => []

/-- The units that some moves submit. -/
def submitted (moves : List (Move κ α)) : List (Task κ α) := moves.flatMap Move.submitted

/-- What a move does to a pool that can make it. -/
inductive Step (p : Pool κ α) : Move κ α → Pool κ α → Prop
  | submit (t : Task κ α) : Step p (.submit t) (p.submit t)
  | start {n permits : Nat} {t : Task κ α} (unit : p.waiting[n]? = some t)
      (permit : p.permits = permits + 1) :
      Step p (.start n) { p with
        permits := permits
        waiting := p.waiting.eraseIdx n
        running := p.running ++ [(p.clock + t.duration, t)] }
  | stop {n due : Nat} {t : Task κ α} (unit : p.running[n]? = some (due, t)) :
      Step p (.stop n) { p with
        clock := max p.clock due
        running := p.running.eraseIdx n
        leaving := p.leaving ++ [t.entry] }
  | leave {n : Nat} {entry : κ × Option α} (unit : p.leaving[n]? = some entry) :
      Step p (.leave n) { p with
        permits := p.permits + 1
        leaving := p.leaving.eraseIdx n
        finished := p.finished ++ [entry] }

theorem move?_eq_some : p.move? m = some q ↔ Step p m q := by
  constructor
  · intro h
    cases m with
    | submit t =>
        cases h
        exact .submit t
    | start n =>
        simp only [move?] at h
        split at h
        · rename_i t permits hunit hpermit
          cases h
          exact .start hunit hpermit
        · cases h
    | stop n =>
        simp only [move?] at h
        split at h
        · rename_i due t hunit
          cases h
          exact .stop hunit
        · cases h
    | leave n =>
        simp only [move?] at h
        split at h
        · rename_i entry hunit
          cases h
          exact .leave hunit
        · cases h
  · rintro (t | ⟨hunit, hpermit⟩ | hunit | hunit)
    · rfl
    · simp only [move?, hunit, hpermit]
    · simp only [move?, hunit]
    · simp only [move?, hunit]

/-! ## What every move keeps -/

/-- What the units of the pool hand over or will hand over. -/
def entries (p : Pool κ α) : List (κ × Option α) :=
  p.waiting.map Task.entry ++ (p.running.map (fun r => r.2.entry) ++ (p.leaving ++ p.finished))

/-- The permits add up to the width, and the entries to the units that were submitted. -/
structure Sound (width : Nat) (ts : List (Task κ α)) (p : Pool κ α) : Prop where
  permits : p.permits + (p.running.length + p.leaving.length) = max width 1
  entries : p.entries.Perm (ts.map Task.entry)

theorem sound_empty (width : Nat) : Sound width ([] : List (Task κ α)) (empty width) :=
  ⟨rfl, List.Perm.refl _⟩

/-- An element goes from one list to the end of the next. -/
theorem perm_eraseIdx_append {γ : Type} {l : List γ} {n : Nat} {a : γ} (h : l[n]? = some a)
    (next rest : List γ) : (l.eraseIdx n ++ (next ++ [a] ++ rest)).Perm (l ++ (next ++ rest)) := by
  obtain ⟨hn, ha⟩ := List.getElem?_eq_some_iff.mp h
  have hl : (a :: l.eraseIdx n).Perm l := by
    rw [← ha]
    exact List.getElem_cons_eraseIdx_perm hn
  calc l.eraseIdx n ++ (next ++ [a] ++ rest)
      = (l.eraseIdx n ++ next) ++ a :: rest := by simp
    _ |>.Perm (a :: (l.eraseIdx n ++ next ++ rest)) := List.perm_middle
    _ = (a :: l.eraseIdx n) ++ (next ++ rest) := by simp
    _ |>.Perm (l ++ (next ++ rest)) := hl.append_right _

theorem length_eraseIdx_of_getElem? {γ : Type} {l : List γ} {n : Nat} {a : γ} (h : l[n]? = some a) :
    (l.eraseIdx n).length + 1 = l.length := by
  obtain ⟨hn, -⟩ := List.getElem?_eq_some_iff.mp h
  rw [List.length_eraseIdx_of_lt hn]
  omega

/-- A move takes no entry from the pool and adds those that it submits. -/
theorem Step.entries (h : Step p m q) : q.entries.Perm (p.entries ++ m.submitted.map Task.entry) := by
  cases h with
  | submit t =>
      simp only [Pool.entries, Pool.submit, Move.submitted, List.map_append, List.append_assoc]
      refine List.Perm.append_left _ (List.perm_append_comm.trans ?_)
      rw [List.append_assoc, List.append_assoc]
  | @start n permits t hunit =>
      have hentry : (p.waiting.map Task.entry)[n]? = some t.entry := by
        rw [List.getElem?_map, hunit, Option.map_some]
      have hmoved := perm_eraseIdx_append hentry (p.running.map fun r => r.2.entry)
        (p.leaving ++ p.finished)
      simpa [Pool.entries, Move.submitted, List.eraseIdx_map] using hmoved
  | @stop n due t hunit =>
      have hentry : (p.running.map fun r => r.2.entry)[n]? = some t.entry := by
        rw [List.getElem?_map, hunit, Option.map_some]
      have hmoved := perm_eraseIdx_append hentry p.leaving p.finished
      simpa [Pool.entries, Move.submitted, List.eraseIdx_map] using hmoved.append_left _
  | @leave n entry hunit =>
      have hmoved := perm_eraseIdx_append hunit p.finished []
      rw [List.append_nil, List.append_nil] at hmoved
      simpa [Pool.entries, Move.submitted] using (hmoved.append_left _).append_left _

theorem Step.permits (h : Step p m q) :
    q.permits + (q.running.length + q.leaving.length) =
      p.permits + (p.running.length + p.leaving.length) := by
  cases h with
  | submit t => rfl
  | start hunit hpermit =>
      simp only [hpermit, List.length_append, List.length_singleton]
      omega
  | stop hunit =>
      have hlength := length_eraseIdx_of_getElem? hunit
      simp only [List.length_append, List.length_singleton]
      omega
  | leave hunit =>
      have hlength := length_eraseIdx_of_getElem? hunit
      simp only
      omega

theorem Sound.step (hp : Sound width ts p) (h : Step p m q) : Sound width (ts ++ m.submitted) q where
  permits := h.permits.trans hp.permits
  entries := by
    rw [List.map_append]
    exact h.entries.trans (hp.entries.append_right _)

theorem Sound.run (hp : Sound width ts p) (h : run moves p = some q) :
    Sound width (ts ++ submitted moves) q := by
  induction moves generalizing ts p with
  | nil =>
      cases h
      rwa [submitted, List.flatMap_nil, List.append_nil]
  | cons m moves ih =>
      obtain ⟨p', hmove, hrun⟩ := Option.bind_eq_some_iff.mp h
      have hnext := ih (hp.step (move?_eq_some.mp hmove)) hrun
      rwa [List.append_assoc] at hnext

/-- Every move but a submission is one less to make. -/
theorem Step.work (h : Step p m q) (hm : m.submitted = []) : q.work + 1 = p.work := by
  cases h with
  | submit t => exact absurd hm (List.cons_ne_nil t [])
  | start hunit hpermit =>
      have hlength := length_eraseIdx_of_getElem? hunit
      simp only [Pool.work, List.length_append, List.length_singleton]
      omega
  | stop hunit =>
      have hlength := length_eraseIdx_of_getElem? hunit
      simp only [Pool.work, List.length_append, List.length_singleton]
      omega
  | leave hunit =>
      have hlength := length_eraseIdx_of_getElem? hunit
      simp only [Pool.work]
      omega

theorem submitted_cons (m : Move κ α) (moves : List (Move κ α)) :
    submitted (m :: moves) = m.submitted ++ submitted moves :=
  List.flatMap_cons

theorem work_run (hmoves : submitted moves = []) (h : run moves p = some q) :
    q.work + moves.length = p.work := by
  induction moves generalizing p with
  | nil =>
      cases h
      rfl
  | cons m moves ih =>
      rw [submitted_cons, List.append_eq_nil_iff] at hmoves
      obtain ⟨p', hmove, hrun⟩ := Option.bind_eq_some_iff.mp h
      have hstep := (move?_eq_some.mp hmove).work hmoves.1
      have hrest := ih hmoves.2 hrun
      rw [List.length_cons]
      omega

theorem isDrained_iff : p.isDrained = true ↔ p.waiting = [] ∧ p.running = [] ∧ p.leaving = [] := by
  simp only [isDrained, Bool.and_eq_true, List.isEmpty_iff, and_assoc]

theorem isDrained_iff_work : p.isDrained = true ↔ p.work = 0 := by
  rw [isDrained_iff, work, ← List.length_eq_zero_iff, ← List.length_eq_zero_iff,
    ← List.length_eq_zero_iff]
  omega

theorem entries_of_isDrained (h : p.isDrained = true) : p.entries = p.finished := by
  obtain ⟨hwaiting, hrunning, hleaving⟩ := isDrained_iff.mp h
  simp [entries, hwaiting, hrunning, hleaving]

theorem earliest_lt (h : p.running ≠ []) : p.earliest < p.running.length := by
  unfold earliest
  split
  · rename_i due hdue
    obtain ⟨r, hr, rfl⟩ := List.mem_map.mp (List.min?_mem hdue)
    exact List.findIdx_lt_length_of_exists ⟨r, hr, beq_self_eq_true _⟩
  · rename_i hdue
    rw [List.min?_eq_none_iff, List.map_eq_nil_iff] at hdue
    exact absurd hdue h

/-- The units that can go on: each that works or leaves, and, while there are fewer of them than the
pool is wide, each that waits. -/
structure Unblocked (width : Nat) (p : Pool κ α) : Prop where
  start : p.running.length + p.leaving.length < max width 1 →
    ∀ n < p.waiting.length, (p.move? (.start n)).isSome
  stop : ∀ n < p.running.length, (p.move? (.stop n)).isSome
  leave : ∀ n < p.leaving.length, (p.move? (.leave n)).isSome

theorem Sound.unblocked (hp : Sound width ts p) : p.Unblocked width where
  start hroom n hn := by
    have hpermits := hp.permits
    obtain ⟨permits, hpermit⟩ := Nat.exists_eq_add_one_of_ne_zero (show p.permits ≠ 0 by omega)
    rw [move?_eq_some.mpr (.start (List.getElem?_eq_getElem hn) hpermit)]
    rfl
  stop n hn := by
    rw [move?_eq_some.mpr (.stop (List.getElem?_eq_getElem hn))]
    rfl
  leave n hn := by
    rw [move?_eq_some.mpr (.leave (List.getElem?_eq_getElem hn))]
    rfl

/-- Until all units have left, the upcoming move can be made. -/
theorem Sound.upcoming (hp : Sound width ts p) (h : p.isDrained = false) :
    p.upcoming.submitted = [] ∧ (p.move? p.upcoming).isSome := by
  have hopen := hp.unblocked
  have hpermits := hp.permits
  unfold Pool.upcoming
  split
  · rename_i hleaving
    have hne : p.leaving ≠ [] := by simpa using hleaving
    exact ⟨rfl, hopen.leave 0 (List.length_pos_iff.mpr hne)⟩
  · rename_i hleaving
    have hleaving : p.leaving = [] := by simpa using hleaving
    split
    · rename_i hstart
      have ⟨hwaiting, hpermit⟩ : p.waiting ≠ [] ∧ p.permits ≠ 0 := by simpa using hstart
      exact ⟨rfl, hopen.start (by omega) 0 (List.length_pos_iff.mpr hwaiting)⟩
    · rename_i hstart
      have hstart : p.waiting ≠ [] → p.permits = 0 := by simpa using hstart
      -- were no unit at work, all permits would be there for the ones that wait
      have hrunning : p.running ≠ [] := by
        intro hrunning
        have hwaiting : p.waiting ≠ [] := by
          intro hwaiting
          rw [isDrained_iff.mpr ⟨hwaiting, hrunning, hleaving⟩] at h
          cases h
        rw [hrunning, hleaving, hstart hwaiting] at hpermits
        simp only [List.length_nil] at hpermits
        omega
      exact ⟨rfl, hopen.stop _ (earliest_lt hrunning)⟩

/-- As time goes, the pool makes moves until all units have left. -/
theorem Sound.advance (hp : Sound width ts p) {n : Nat} (hn : p.work = n) :
    ∃ moves, submitted moves = [] ∧ Pool.run moves p = some (p.advance n) ∧
      (p.advance n).isDrained = true := by
  induction n generalizing p ts with
  | zero => exact ⟨[], rfl, rfl, isDrained_iff_work.mpr hn⟩
  | succ n ih =>
      have hdrained : p.isDrained = false := by
        rw [Bool.eq_false_iff, Ne, isDrained_iff_work]
        omega
      obtain ⟨hsubmitted, hsome⟩ := hp.upcoming hdrained
      obtain ⟨q, hmove⟩ := Option.isSome_iff_exists.mp hsome
      have hstep := move?_eq_some.mp hmove
      have hwork := hstep.work hsubmitted
      obtain ⟨moves, hmoves, hrun, hend⟩ := ih (hp.step hstep) (by omega)
      have hadvance : p.advance (n + 1) = q.advance n := by
        rw [Pool.advance, hmove]
      rw [hadvance]
      refine ⟨p.upcoming :: moves, ?_, ?_, hend⟩
      · rw [submitted_cons, hsubmitted, hmoves]
        rfl
      · rw [Pool.run, hmove]
        exact hrun

/-! ## What a unit hands over decides about no move -/

/-- The pool whose units hand over something else. -/
def map (g : κ × Option α → κ' × Option β) (p : Pool κ α) : Pool κ' β where
  clock := p.clock
  permits := p.permits
  waiting := p.waiting.map (Task.map g)
  running := p.running.map fun r => (r.1, r.2.map g)
  leaving := p.leaving.map g
  finished := p.finished.map g

/-- The move, in a pool whose units hand over something else. -/
def Move.map (g : κ × Option α → κ' × Option β) : Move κ α → Move κ' β
  | .submit t => .submit (t.map g)
  | .start n => .start n
  | .stop n => .stop n
  | .leave n => .leave n

theorem Step.map (g : κ × Option α → κ' × Option β) (h : Step p m q) :
    Step (p.map g) (m.map g) (q.map g) := by
  cases h with
  | submit t =>
      have hsubmit : (p.submit t).map g = (p.map g).submit (t.map g) := by
        simp [Pool.map, Pool.submit]
      rw [hsubmit]
      exact .submit (t.map g)
  | @start n permits t hunit hpermit =>
      have hunit' : (p.map g).waiting[n]? = some (t.map g) := by
        rw [Pool.map, List.getElem?_map, hunit, Option.map_some]
      have hstep := Step.start hunit' hpermit
      simpa [Pool.map, Move.map, List.eraseIdx_map] using hstep
  | @stop n due t hunit =>
      have hunit' : (p.map g).running[n]? = some (due, t.map g) := by
        rw [Pool.map, List.getElem?_map, hunit, Option.map_some]
      have hstep := Step.stop hunit'
      simpa [Pool.map, Move.map, List.eraseIdx_map] using hstep
  | @leave n entry hunit =>
      have hunit' : (p.map g).leaving[n]? = some (g entry) := by
        rw [Pool.map, List.getElem?_map, hunit, Option.map_some]
      have hstep := Step.leave hunit'
      simpa [Pool.map, Move.map, List.eraseIdx_map] using hstep

/-- The same moves can be made, and each unit comes as far, whatever the units hand over. -/
theorem run_map (g : κ × Option α → κ' × Option β) (h : run moves p = some q) :
    run (moves.map (Move.map g)) (p.map g) = some (q.map g) := by
  induction moves generalizing p with
  | nil =>
      cases h
      rfl
  | cons m moves ih =>
      obtain ⟨p', hmove, hrun⟩ := Option.bind_eq_some_iff.mp h
      have hmove' := move?_eq_some.mpr ((move?_eq_some.mp hmove).map g)
      rw [List.map_cons, run, hmove', Option.bind_some]
      exact ih hrun

/-! ## Every unit works once -/

/-- **A pool loses and doubles no unit and keeps to its width.** Whatever moves a pool has made, no
more units work than it is wide, and the units in it are those that were submitted. From there on,
without further submissions, every order of moves comes to an end: units are never blocked, some move
can be made until all have left, and then there is one entry for each unit, with its key and what
came of it, and all permits are back. Waiting for all units as time goes is one such order. The same
moves can be made whatever the units hand over, also where they break down, and nothing else depends
on it. -/
theorem runs_each_unit_once (h : run moves (empty width) = some p) :
    p.running.length + p.leaving.length ≤ max width 1 ∧
      p.entries.Perm ((submitted moves).map Task.entry) ∧
      (∀ more q, submitted more = [] → run more p = some q →
        more.length ≤ p.work ∧ q.Unblocked width ∧
          (q.isDrained = false → ∃ m, m.submitted = [] ∧ (q.move? m).isSome) ∧
          (q.isDrained = true → q.permits = max width 1 ∧
            q.finished.Perm ((submitted moves).map Task.entry))) ∧
      (∃ more, submitted more = [] ∧ run more p = some p.drain ∧ p.drain.isDrained = true) ∧
      ∀ {κ' β : Type} (g : κ × Option α → κ' × Option β),
        run (moves.map (Move.map g)) (empty width) = some (p.map g) := by
  have hp : Sound width (submitted moves) p := (sound_empty width).run h
  have hpermits := hp.permits
  refine ⟨by omega, hp.entries, ?_, hp.advance rfl, fun g => run_map g h⟩
  intro more q hmore hrun
  have hq : Sound width (submitted moves) q := by
    have hsound := hp.run hrun
    rwa [hmore, List.append_nil] at hsound
  have hwork := work_run hmore hrun
  refine ⟨by omega, hq.unblocked, fun hdrained => ⟨_, hq.upcoming hdrained⟩, ?_⟩
  intro hdrained
  obtain ⟨-, hrunning, hleaving⟩ := isDrained_iff.mp hdrained
  have hback := hq.permits
  rw [hrunning, hleaving] at hback
  exact ⟨hback, entries_of_isDrained hdrained ▸ hq.entries⟩

/-- Two units in a pool without width; the second one started before the first and has broken down. -/
def broken : List (Move String Nat) :=
  [.submit ⟨"a", 2, some 7⟩, .submit ⟨"b", 1, none⟩, .start 1, .stop 0]

/-- The unit that broke down has its entry, and the other one has its own. -/
theorem runs_each_unit_once_broken :
    ∃ p, run broken (empty 0) = some p ∧ p.leaving = [("b", none)] ∧
      p.drain.finished.Perm [("a", some 7), ("b", none)] := by
  refine ⟨_, rfl, rfl, ?_⟩
  have hbroken : run broken (empty 0) = some _ := rfl
  obtain ⟨-, -, hends, ⟨more, hmore, hrun, hdrained⟩, -⟩ := runs_each_unit_once hbroken
  exact ((hends more _ hmore hrun).2.2.2 hdrained).2

end Pool

end ImportTidy

/-
# ImportTidy.Proofs.Run.Wholeness — what the work on a module leaves

The files of a module have their turns one after another, at one console. Where writing succeeds, each
of them ends up with the content that it had or with the cleaned content of its own turn, whatever the
console does. A turn that fails is reported once; if it leaves the console ready, the next file follows,
and if not, nothing is written any more, neither to a file nor to the console
(`optimizeModule_leaves_files_whole`).
-/
import ImportTidy.Proofs.Run.Turn
import ImportTidy.Proofs.Wildcard.Frame

namespace ImportTidy

/-! ## What is reported -/

namespace Report

/-- The failures that are reported for a file. -/
def failuresOf (r : Report) (path : Path) : List FileFailure := r.failures.filter (·.path = path)

theorem failuresOf_addOptimizeFailure_self (r : Report) (path : Path) (error : Text) :
    (r.addOptimizeFailure path error).failuresOf path = r.failuresOf path ++ [⟨path, error⟩] := by
  simp [failuresOf, addOptimizeFailure]

theorem failuresOf_addOptimizeFailure_of_ne {path q : Path} (h : path ≠ q) (r : Report)
    (error : Text) : (r.addOptimizeFailure path error).failuresOf q = r.failuresOf q := by
  simp [failuresOf, addOptimizeFailure, h]

theorem foldl_kept {α β : Type} (part : Report → β) {step : Report → α → Report}
    (hstep : ∀ r a, part (step r a) = part r) (as : List α) (r : Report) :
    part (as.foldl step r) = part r := by
  induction as generalizing r with
  | nil => rfl
  | cons a as ih => rw [List.foldl_cons, ih, hstep]

/-- What became of the wildcards of a file is no failure of the file. -/
theorem failures_addReduction (r : Report) (path : Path) (done : Reduction) :
    (r.addReduction path done).failures = r.failures := by
  rw [addReduction, foldl_kept failures, foldl_kept failures]
  · exact fun _ _ => rfl
  · exact fun _ _ => rfl

/-- Nor is it one of the module. -/
theorem moduleFailures_addReduction (r : Report) (path : Path) (done : Reduction) :
    (r.addReduction path done).moduleFailures = r.moduleFailures := by
  rw [addReduction, foldl_kept moduleFailures, foldl_kept moduleFailures]
  · exact fun _ _ => rfl
  · exact fun _ _ => rfl

theorem failuresOf_addReduction (r : Report) (path q : Path) (done : Reduction) :
    (r.addReduction path done).failuresOf q = r.failuresOf q := by
  rw [failuresOf, failures_addReduction, failuresOf]

end Report

/-! ## Files that can be worked on -/

namespace Disk

variable {d d' : Disk} {paths more : List Path}

/-- The paths stand for different files, and each that can be read can be replaced. -/
structure Workable (d : Disk) (paths : List Path) : Prop where
  distinct : paths.Pairwise fun p q => d.target p ≠ d.target q
  replaceable : ∀ p ∈ paths, d.ReplaceableAt p

theorem Workable.left (h : d.Workable (paths ++ more)) : d.Workable paths :=
  ⟨(List.pairwise_append.mp h.distinct).1,
    fun p hp => h.replaceable p (List.mem_append_left _ hp)⟩

/-- What was done to some of the files is not in the way of the others. -/
theorem Workable.changed (h : d.Workable (paths ++ more)) (hd : d.ChangedBy paths d') :
    d'.Workable more := by
  obtain ⟨-, hmore, hacross⟩ := List.pairwise_append.mp h.distinct
  refine ⟨hmore.imp fun {p q} hne => ?_, fun q hq => ?_⟩
  · rwa [hd.refilled.target, hd.refilled.target]
  · exact (h.replaceable q (List.mem_append_right _ hq)).changed hd fun p hp => hacross p hp q hq

end Disk

/-! ## The turns of a module -/

section

variable {κ : Type} {proc : Process κ} {rules : Rules} {plan : SearchPlan} {module : Text}
  {w w' : Disk × Conversation κ} {report : Report} {path : Path} {files more : List Path}

theorem optimizeEach_of_ok {done : Reduction}
    (h : (Site.atConsole proc path).reduce rules plan w = (.ok done, w')) :
    optimizeEach proc rules plan module (path :: more) w report =
      optimizeEach proc rules plan module more w' (report.addReduction path done) := by
  rw [optimizeEach, ← Site.atConsole, h]

theorem optimizeEach_of_error {fault : OptimizeFault}
    (h : (Site.atConsole proc path).reduce rules plan w = (.error fault, w')) :
    optimizeEach proc rules plan module (path :: more) w report =
      if w'.2.session.phase = .ready then
        optimizeEach proc rules plan module more w' (report.addOptimizeFailure path fault.message)
      else
        (w', (report.addOptimizeFailure path fault.message).addModuleFailure module fault.message) := by
  rw [optimizeEach, ← Site.atConsole, h]

/-- The files behind others have their turns when these have left the console ready. -/
theorem optimizeEach_append (before rest : List Path) (hready : w.2.session.phase = .ready) :
    optimizeEach proc rules plan module (before ++ rest) w report =
      if (optimizeEach proc rules plan module before w report).1.2.session.phase = .ready then
        optimizeEach proc rules plan module rest (optimizeEach proc rules plan module before w report).1
          (optimizeEach proc rules plan module before w report).2
      else optimizeEach proc rules plan module before w report := by
  induction before generalizing w report with
  | nil => simp only [List.nil_append, optimizeEach, hready, if_true]
  | cons path more ih =>
      rw [List.cons_append]
      rcases hrun : (Site.atConsole proc path).reduce rules plan w with ⟨fault | done, w'⟩
      · rw [optimizeEach_of_error hrun, optimizeEach_of_error hrun]
        by_cases hready' : w'.2.session.phase = .ready
        · simp only [hready', if_true]
          exact ih hready'
        · simp only [hready', if_false]
      · rw [optimizeEach_of_ok hrun, optimizeEach_of_ok hrun]
        exact ih (phase_of_reduce hready hrun)

/-- **Only the files that are worked on change.** -/
theorem changedBy_optimizeEach (hready : w.2.session.phase = .ready) (hfiles : w.1.Workable files) :
    w.1.ChangedBy files (optimizeEach proc rules plan module files w report).1.1 := by
  induction files generalizing w report with
  | nil => exact .refl w.1
  | cons path more ih =>
      -- the invariant is about the disk that the next turn starts from
      have hmore : ∀ {d}, w.1.ChangedBy [path] d → d.Workable more := fun hd => hfiles.changed hd
      rcases turn_cases proc rules plan hready (hfiles.replaceable path List.mem_cons_self) with
        ⟨done, w', hrun, hd, -⟩ | ⟨fault, w', hrun, hd⟩
      · rw [optimizeEach_of_ok hrun]
        exact hd.trans (ih (phase_of_reduce hready hrun) (hmore hd))
      · have hd' := hd.mono (List.nil_subset [path])
        rw [optimizeEach_of_error hrun]
        split
        · rename_i hready'
          exact hd'.trans (ih hready' (hmore hd'))
        · exact hd.mono (List.nil_subset _)

/-- A file that has no turn is not reported. -/
theorem failuresOf_optimizeEach {q : Path} (hq : q ∉ files) :
    (optimizeEach proc rules plan module files w report).2.failuresOf q = report.failuresOf q := by
  induction files generalizing w report with
  | nil => rfl
  | cons path more ih =>
      rw [List.mem_cons, not_or] at hq
      obtain ⟨hne, hmore⟩ := hq
      rcases hrun : (Site.atConsole proc path).reduce rules plan w with ⟨fault | done, w'⟩
      · rw [optimizeEach_of_error hrun]
        have hsame := Report.failuresOf_addOptimizeFailure_of_ne (Ne.symm hne) report fault.message
        split
        · rw [ih hmore, hsame]
        · exact hsame
      · rw [optimizeEach_of_ok hrun, ih hmore, Report.failuresOf_addReduction]

/-- As long as the console is ready, the module is not reported. -/
theorem moduleFailures_optimizeEach
    (h : (optimizeEach proc rules plan module files w report).1.2.session.phase = .ready) :
    (optimizeEach proc rules plan module files w report).2.moduleFailures = report.moduleFailures := by
  induction files generalizing w report with
  | nil => rfl
  | cons path more ih =>
      rcases hrun : (Site.atConsole proc path).reduce rules plan w with ⟨fault | done, w'⟩
      · rw [optimizeEach_of_error hrun] at h ⊢
        split at h
        · rename_i hready
          rw [if_pos hready, ih h]
          rfl
        · exact absurd h ‹_›
      · rw [optimizeEach_of_ok hrun] at h ⊢
        rw [ih h, Report.moduleFailures_addReduction]

/-- The file has its turn in the state `w`, with the report `r`: the files before it have left the
console ready. -/
structure HasTurn (proc : Process κ) (rules : Rules) (plan : SearchPlan) (module : Text)
    (files : List Path) (start : Disk × Conversation κ) (report : Report) (before : List Path)
    (path : Path) (after : List Path) (w : Disk × Conversation κ) (r : Report) : Prop where
  files_eq : files = before ++ path :: after
  reached : optimizeEach proc rules plan module before start report = (w, r)
  ready : w.2.session.phase = .ready

variable {start : Disk × Conversation κ} {before after : List Path} {r : Report}

section

variable (h : HasTurn proc rules plan module files start report before path after w r)

include h

theorem HasTurn.optimizeEach_eq (hready : start.2.session.phase = .ready) :
    optimizeEach proc rules plan module files start report =
      optimizeEach proc rules plan module (path :: after) w r := by
  rw [h.files_eq, optimizeEach_append before _ hready, h.reached, if_pos h.ready]

/-- The files before it are the only ones that have changed. -/
theorem HasTurn.changedBy (hready : start.2.session.phase = .ready)
    (hfiles : start.1.Workable files) : start.1.ChangedBy before w.1 := by
  rw [h.files_eq] at hfiles
  have hd := @changedBy_optimizeEach _ proc rules plan module start report before hready hfiles.left
  rwa [h.reached] at hd

/-- The file and those behind it are as they were at the start. -/
theorem HasTurn.find_eq (hready : start.2.session.phase = .ready) (hfiles : start.1.Workable files)
    {q : Path} (hq : q ∈ path :: after) : w.1.find q = start.1.find q := by
  have hd := h.changedBy hready hfiles
  rw [h.files_eq] at hfiles
  exact hd.others q fun p hp => (List.pairwise_append.mp hfiles.distinct).2.2 p hp q hq

theorem HasTurn.failuresOf_eq {q : Path} (hq : q ∉ before) : r.failuresOf q = report.failuresOf q := by
  have hsame := @failuresOf_optimizeEach _ proc rules plan module start report before q hq
  rwa [h.reached] at hsame

theorem HasTurn.moduleFailures_eq : r.moduleFailures = report.moduleFailures := by
  have hsame := @moduleFailures_optimizeEach _ proc rules plan module start report before
  rw [h.reached] at hsame
  exact hsame h.ready

theorem HasTurn.workable (hready : start.2.session.phase = .ready)
    (hfiles : start.1.Workable files) : w.1.Workable (path :: after) := by
  have hd := h.changedBy hready hfiles
  rw [h.files_eq] at hfiles
  exact hfiles.changed hd

/-- The files behind it do not change the file again. -/
theorem HasTurn.find_settled (hready : start.2.session.phase = .ready)
    (hfiles : start.1.Workable files) (hd : w.1.ChangedBy [path] w'.1)
    (hready' : w'.2.session.phase = .ready) (r' : Report) :
    (optimizeEach proc rules plan module after w' r').1.1.find path = w'.1.find path := by
  have hrest := h.workable hready hfiles
  refine (changedBy_optimizeEach hready' (hrest.changed hd)).others path fun p hp => ?_
  rw [hd.refilled.target, hd.refilled.target]
  exact Ne.symm (List.rel_of_pairwise_cons hrest.distinct hp)

/-- A turn that fails changes nothing. -/
theorem HasTurn.changedBy_of_error (hready : start.2.session.phase = .ready)
    (hfiles : start.1.Workable files) {fault : OptimizeFault}
    (hrun : (Site.atConsole proc path).reduce rules plan w = (.error fault, w')) :
    w.1.ChangedBy [] w'.1 := by
  have hrest := h.workable hready hfiles
  rcases turn_cases proc rules plan h.ready (hrest.replaceable path List.mem_cons_self) with
    ⟨done, w₁, hok, -⟩ | ⟨fault', w₁, herror, hd⟩
  · rw [hrun] at hok
    exact absurd (Prod.mk.inj hok).1 (by simp)
  · rw [hrun] at herror
    obtain ⟨-, rfl⟩ := Prod.mk.inj herror
    exact hd

/-- The paths stand for different files, so none is listed twice. -/
theorem HasTurn.not_mem (hfiles : start.1.Workable files) :
    path ∉ before ∧ path ∉ after ∧ ∀ q ∈ after, q ∉ before := by
  have hdistinct := hfiles.distinct
  rw [h.files_eq] at hdistinct
  obtain ⟨-, hrest, hacross⟩ := List.pairwise_append.mp hdistinct
  refine ⟨fun hmem => ?_, fun hmem => ?_, fun q hq hmem => ?_⟩
  · exact hacross path hmem path List.mem_cons_self rfl
  · exact List.rel_of_pairwise_cons hrest hmem rfl
  · exact hacross q hmem q (List.mem_cons_of_mem _ hq) rfl

end

/-- **Each file is whole.** It has been cleaned in its own turn, or is what it was. -/
theorem find_optimizeEach (hready : start.2.session.phase = .ready) (hfiles : start.1.Workable files)
    (hpath : path ∈ files) :
    (optimizeEach proc rules plan module files start report).1.1.find path = start.1.find path ∨
    ∃ before after w r, HasTurn proc rules plan module files start report before path after w r ∧
      w.1.find path = start.1.find path ∧
      CleanedBy proc rules plan path w
        (optimizeEach proc rules plan module files start report).1.1 := by
  obtain ⟨before, after, hsplit⟩ := List.append_of_mem hpath
  rcases hbefore : optimizeEach proc rules plan module before start report with ⟨w, r⟩
  by_cases hw : w.2.session.phase = .ready
  · have hturn : HasTurn proc rules plan module files start report before path after w r :=
      ⟨hsplit, hbefore, hw⟩
    have hsame := hturn.find_eq hready hfiles List.mem_cons_self
    have hr := (hturn.workable hready hfiles).replaceable path List.mem_cons_self
    rcases turn_cases proc rules plan hw hr with
      ⟨done, w', hrun, hd, content, current, done', w₁, w₂, hread, hreplace, hrun', hcleaned⟩ |
      ⟨fault, w', hrun, hd⟩
    · refine Or.inr ⟨before, after, w, r, hturn, hsame, content, current, done', w₁, w₂, hread,
        hreplace, hrun', ?_⟩
      rw [hturn.optimizeEach_eq hready, optimizeEach_of_ok hrun, Disk.read_eq_of_find
        (hturn.find_settled hready hfiles hd (phase_of_reduce hw hrun) _), hcleaned]
    · have hd' := hd.mono (List.nil_subset [path])
      refine Or.inl ?_
      rw [hturn.optimizeEach_eq hready, optimizeEach_of_error hrun, ← hsame, ← hd.find_eq path]
      split
      · rename_i hready'
        exact hturn.find_settled hready hfiles hd' hready' _
      · rfl
  · -- the console was lost before the file had its turn
    refine Or.inl ?_
    rw [hsplit, optimizeEach_append before _ hready, hbefore, if_neg hw]
    rw [hsplit] at hfiles
    have hd := @changedBy_optimizeEach _ proc rules plan module start report before hready hfiles.left
    rw [hbefore] at hd
    exact hd.others path fun p hp =>
      (List.pairwise_append.mp hfiles.distinct).2.2 p hp path List.mem_cons_self

end

/-! ## The work on a module -/

section

variable {σ κ : Type}

/-- How the work on a module ends when the console was lost in the turn of a file. -/
structure EndsThere (l : Launcher σ κ) (module : Text) (d : Disk) (s : σ) (report : Report)
    (path : Path) (after : List Path) (fault : OptimizeFault) (w' : Disk × Conversation κ)
    (outcome : Disk × σ × Report) : Prop where
  /-- Nothing is written to the disk any more. -/
  disk : outcome.1 = w'.1
  /-- The file and those behind it are what they were. -/
  files : ∀ q ∈ path :: after, outcome.1.find q = d.find q
  /-- The console is taken back as the turn has left it: it has read no other line. -/
  console : outcome.2.1 = l.release w'.2.peer s
  failure : outcome.2.2.failuresOf path = report.failuresOf path ++ [⟨path, fault.message⟩]
  unreported : ∀ q ∈ after, outcome.2.2.failuresOf q = report.failuresOf q
  moduleFailure : outcome.2.2.moduleFailures = report.moduleFailures ++ [⟨module, fault.message⟩]

/-- How the work on a module goes on when the console is ready after the turn of a file that failed:
with the files behind it. -/
structure GoesOn (l : Launcher σ κ) (settings : ToolSettings) (plan : SearchPlan) (module : Text)
    (d : Disk) (s : σ) (report r : Report) (path : Path) (after : List Path) (fault : OptimizeFault)
    (w' : Disk × Conversation κ) (outcome : Disk × σ × Report) : Prop where
  file : outcome.1.find path = d.find path
  failure : outcome.2.2.failuresOf path = report.failuresOf path ++ [⟨path, fault.message⟩]
  rest : ∃ d' c' report', optimizeEach l.process settings.rules plan module after w'
      (r.addOptimizeFailure path fault.message) = ((d', c'), report') ∧
    outcome = (d', l.release (closeSession l.process c').peer s, report')

variable {l : Launcher σ κ} {settings : ToolSettings} {plan : SearchPlan} {root : Path}
  {module : Text} {files : List Path} {d : Disk} {s s₁ : σ} {c : Conversation κ} {report : Report}

/-- With a console, the work on a module is the turns of its files, after which the console is taken
back. -/
theorem optimizeModule_of_openSession (hplan : settings.search.plan = .ok plan)
    (hopen : l.openSession d (settings.consoleFor module root) s = (.ok c, s₁)) (hne : files ≠ [])
    {d' : Disk} {c' : Conversation κ} {report' : Report}
    (hrun : optimizeEach l.process settings.rules plan module files (d, c) report =
      ((d', c'), report')) :
    optimizeModule l settings root module files d s report =
      (d', l.release (closeSession l.process c').peer s₁, report') := by
  have hfiles : files.isEmpty = false := by simpa using hne
  simp only [optimizeModule, hfiles, hplan, hopen, hrun]
  rfl

section

variable {before after : List Path} {path : Path} {w w' : Disk × Conversation κ} {r : Report}
  {fault : OptimizeFault} (hplan : settings.search.plan = .ok plan)
  (hopen : l.openSession d (settings.consoleFor module root) s = (.ok c, s₁))
  (hfiles : d.Workable files)
  (h : HasTurn l.process settings.rules plan module files (d, c) report before path after w r)
  (hrun : (Site.atConsole l.process path).reduce settings.rules plan w = (.error fault, w'))

include hplan hopen hfiles h hrun

theorem endsThere_of_lost (hlost : w'.2.session.phase ≠ .ready) :
    EndsThere l module d s₁ report path after fault w'
      (optimizeModule l settings root module files d s report) := by
  have hready := Launcher.phase_of_openSession hopen
  have hne : files ≠ [] := by simp [h.files_eq]
  have hall : optimizeEach l.process settings.rules plan module files (d, c) report =
      (w', (r.addOptimizeFailure path fault.message).addModuleFailure module fault.message) := by
    rw [h.optimizeEach_eq hready, optimizeEach_of_error hrun, if_neg hlost]
  obtain ⟨hbefore, hafter, hothers⟩ := h.not_mem hfiles
  -- a console that is not ready is not even told to exit
  have hclosed : closeSession l.process w'.2 = w'.2 := if_neg hlost
  rw [optimizeModule_of_openSession hplan hopen hne hall, hclosed]
  refine ⟨rfl, fun q hq => ?_, rfl, ?_, fun q hq => ?_, ?_⟩
  · rw [(h.changedBy_of_error hready hfiles hrun).find_eq, h.find_eq hready hfiles hq]
  · show (r.addOptimizeFailure path fault.message).failuresOf path = _
    rw [Report.failuresOf_addOptimizeFailure_self, h.failuresOf_eq hbefore]
  · have hq' : path ≠ q := fun heq => hafter (heq ▸ hq)
    show (r.addOptimizeFailure path fault.message).failuresOf q = _
    rw [Report.failuresOf_addOptimizeFailure_of_ne hq', h.failuresOf_eq (hothers q hq)]
  · show r.moduleFailures ++ _ = _
    rw [h.moduleFailures_eq]

theorem goesOn_of_ready (hready' : w'.2.session.phase = .ready) :
    GoesOn l settings plan module d s₁ report r path after fault w'
      (optimizeModule l settings root module files d s report) := by
  have hready := Launcher.phase_of_openSession hopen
  have hne : files ≠ [] := by simp [h.files_eq]
  obtain ⟨hbefore, hafter, -⟩ := h.not_mem hfiles
  have hd := h.changedBy_of_error hready hfiles hrun
  -- the files behind it neither change the file nor report it
  have hfile := h.find_settled hready hfiles (hd.mono (List.nil_subset _)) hready'
    (r.addOptimizeFailure path fault.message)
  have hreport := @failuresOf_optimizeEach _ l.process settings.rules plan module w'
    (r.addOptimizeFailure path fault.message) after path hafter
  rcases hrest : optimizeEach l.process settings.rules plan module after w'
    (r.addOptimizeFailure path fault.message) with ⟨⟨d', c'⟩, report'⟩
  have hall : optimizeEach l.process settings.rules plan module files (d, c) report =
      ((d', c'), report') := by
    rw [h.optimizeEach_eq hready, optimizeEach_of_error hrun, if_pos hready', hrest]
  rw [hrest] at hfile hreport
  rw [optimizeModule_of_openSession hplan hopen hne hall]
  refine ⟨?_, ?_, d', c', report', hrest, rfl⟩
  · rw [hfile, hd.find_eq, h.find_eq hready hfiles List.mem_cons_self]
  · rw [hreport, Report.failuresOf_addOptimizeFailure_self, h.failuresOf_eq hbefore]

end

/-- **The work on a module leaves every file whole, and stops at a lost console.** Let the files stand
for different things, and let those that can be read be writable, with nothing where their new content
would wait. Whatever the console does once its session is open, each file ends up with what it was, or
with the cleaned content of its own turn. If a turn fails and the console is not ready then, the work
ends there; if it is ready, the work goes on with the next file. In both cases the failure is reported
once. -/
theorem optimizeModule_leaves_files_whole (report : Report)
    (hplan : settings.search.plan = .ok plan)
    (hopen : l.openSession d (settings.consoleFor module root) s = (.ok c, s₁))
    (hdistinct : files.Pairwise fun p q => d.target p ≠ d.target q) (hdisk : d.Sound)
    (hwrites : ∀ p ∈ files, (d.read p).isOk = true → d.Writable p)
    (hfree : ∀ p ∈ files, (d.read p).isOk = true → d.FreeBeside p) :
    (∀ path ∈ files,
      (optimizeModule l settings root module files d s report).1.find path = d.find path ∨
      ∃ before after w r,
        HasTurn l.process settings.rules plan module files (d, c) report before path after w r ∧
        w.1.find path = d.find path ∧
        CleanedBy l.process settings.rules plan path w
          (optimizeModule l settings root module files d s report).1) ∧
    ∀ before path after w r fault w',
      HasTurn l.process settings.rules plan module files (d, c) report before path after w r →
      (Site.atConsole l.process path).reduce settings.rules plan w = (.error fault, w') →
        (w'.2.session.phase ≠ .ready → EndsThere l module d s₁ report path after fault w'
          (optimizeModule l settings root module files d s report)) ∧
        (w'.2.session.phase = .ready → GoesOn l settings plan module d s₁ report r path after fault w'
          (optimizeModule l settings root module files d s report)) := by
  have hfiles : d.Workable files :=
    ⟨hdistinct, fun p hp => Disk.replaceableAt_of_writable hdisk (hwrites p hp) (hfree p hp)⟩
  refine ⟨fun path hpath => ?_, fun before path after w r fault w' hturn hrun => ⟨?_, ?_⟩⟩
  · have hwhole := @find_optimizeEach _ l.process settings.rules plan module report path files (d, c)
      (Launcher.phase_of_openSession hopen) hfiles hpath
    rcases hall : optimizeEach l.process settings.rules plan module files (d, c) report with
      ⟨⟨d', c'⟩, report'⟩
    rw [hall] at hwhole
    rw [optimizeModule_of_openSession hplan hopen (List.ne_nil_of_mem hpath) hall]
    exact hwhole
  · exact endsThere_of_lost hplan hopen hfiles hturn hrun
  · exact goesOn_of_ready hplan hopen hfiles hturn hrun

end

/-! ## A console that exits -/

/-- A folder with three files, the first of which holds the given text; the others have a wildcard. -/
def threeFiles (first : Text) : Disk where
  entries :=
    [(["work".toList, "A".toList], .file (Utf8.encode first) Entry.fileMode),
      (["work".toList, "B".toList], .file (Utf8.encode "\nimport b._\n".toList) Entry.fileMode),
      (["work".toList, "C".toList], .file (Utf8.encode "\nimport c._\n".toList) Entry.fileMode),
      (["work".toList], .folder Entry.folderMode)]
  home := ["work".toList]

/-- The paths of the files in the folder. -/
def threePaths : List Path := [⟨"A".toList⟩, ⟨"B".toList⟩, ⟨"C".toList⟩]

/-- Imports that a cleaning sets apart. -/
def uncleanText : Text := "\nimport a.X\nX".toList

/-- The same after it. -/
def cleanText : Text := "\n\nimport a.X\n\nX\n".toList

theorem find_threeFiles (first : Text) : ∀ p ∈ threePaths, ∃ bytes,
    (threeFiles first).find p = .ok (["work".toList, p.text], .file bytes Entry.fileMode) := by
  simp only [threePaths, List.forall_mem_cons]
  refine ⟨⟨Utf8.encode first, ?_⟩, ⟨Utf8.encode "\nimport b._\n".toList, ?_⟩,
    ⟨Utf8.encode "\nimport c._\n".toList, ?_⟩, by simp⟩
  · cbv
  · cbv
  · cbv

theorem target_threeFiles {first : Text} {p : Path} (hp : p ∈ threePaths) :
    (threeFiles first).target p = .ofPlace ["work".toList, p.text] := by
  obtain ⟨bytes, hfind⟩ := find_threeFiles first p hp
  rw [Disk.target, hfind]

theorem distinct_threePaths (first : Text) :
    threePaths.Pairwise fun p q => (threeFiles first).target p ≠ (threeFiles first).target q := by
  have hnames : threePaths.Pairwise fun p q =>
      Path.ofPlace ["work".toList, p.text] ≠ .ofPlace ["work".toList, q.text] := by
    decide +kernel
  refine hnames.imp_of_mem fun {p q} hp hq hne => ?_
  rwa [target_threeFiles hp, target_threeFiles hq]

theorem sound_threeFiles : (threeFiles uncleanText).Sound :=
  ⟨by decide +kernel, by decide +kernel, rfl⟩

theorem writable_threePaths : ∀ p ∈ threePaths, (threeFiles uncleanText).Writable p := by
  simp only [threePaths, List.forall_mem_cons]
  refine ⟨fun text => ?_, fun text => ?_, fun text => ?_, by simp⟩
  · cbv
  · cbv
  · cbv

theorem freeBeside_threePaths : ∀ p ∈ threePaths, (threeFiles uncleanText).FreeBeside p := by
  have hvacant : ∀ p ∈ threePaths, ((threeFiles uncleanText).at?
      ((threeFiles uncleanText).siblingPlace ["work".toList, p.text])).isNone = true := by
    decide +kernel
  intro p hp x hx
  obtain ⟨bytes, hfile⟩ := find_threeFiles uncleanText p hp
  rw [Disk.sibling?_of_find hfile] at hx
  rw [← Option.some.inj hx]
  exact Option.isNone_iff_eq_none.mp (hvacant p hp)

/-- The settings of the console for a project in the folder. -/
def commonSettings : ConsoleSettings :=
  ToolSettings.standard.consoleFor "common".toList ⟨"/work".toList⟩

/-- The console confirms the project and exits when it is to compile. -/
def fatalScripts : Scripts where
  sessions := [[.answer (Utf8.bytes "Set current project to common\n".toList), .last []]]
  exitCode := 0
  stubborn := false
  transcripts := []

/-- The console after it has confirmed the project. -/
def commonConsole : Conversation Script :=
  (Conversation.connect Script.process commonSettings
    (Script.start [.answer (Utf8.bytes "Set current project to common\n".toList), .last []]
      commonSettings.exitCommand 0 false)).2

theorem openSession_fatalScripts :
    Scripts.launcher.openSession (threeFiles uncleanText) commonSettings fatalScripts =
      (.ok commonConsole, { fatalScripts with sessions := [] }) := by
  refine Launcher.openSession_of_connect (by decide +kernel) ?_ rfl ?_
  · cbv
  · decide +kernel

/-- The first file is cleaned without the console. -/
theorem optimizeEach_uncleanText (c : Conversation Script) (r : Report) :
    optimizeEach Script.process .standard Site.standardPlan "common".toList [⟨"A".toList⟩]
      (threeFiles uncleanText, c) r = ((threeFiles cleanText, c), r) := by
  cbv

/-- In the turn of the second file the console exits. -/
theorem reduce_commonConsole :
    Prod.map id (fun w : Disk × Conversation Script => w.2.session.phase)
      ((Site.atConsole Script.process ⟨"B".toList⟩).reduce .standard Site.standardPlan
        (threeFiles cleanText, commonConsole)) =
      (.error (.console (.ended .result)), .awaitingResult) := by
  cbv

/-- The work ends in the turn of the second file. -/
theorem optimizeModule_leaves_files_whole_fatalScripts :
    (threeFiles uncleanText).Sound ∧ (∀ p ∈ threePaths, (threeFiles uncleanText).Writable p) ∧
    (∀ p ∈ threePaths, (threeFiles uncleanText).FreeBeside p) ∧ ∃ w',
      (Site.atConsole Script.process ⟨"B".toList⟩).reduce .standard Site.standardPlan
        (threeFiles cleanText, commonConsole) = (.error (.console (.ended .result)), w') ∧
      w'.2.session.phase ≠ .ready ∧
      EndsThere Scripts.launcher "common".toList (threeFiles uncleanText)
        { fatalScripts with sessions := [] } .empty ⟨"B".toList⟩ [⟨"C".toList⟩]
        (.console (.ended .result)) w'
        (optimizeModule Scripts.launcher .standard ⟨"/work".toList⟩ "common".toList threePaths
          (threeFiles uncleanText) fatalScripts .empty) := by
  have hturn : HasTurn Script.process .standard Site.standardPlan "common".toList threePaths
      (threeFiles uncleanText, commonConsole) .empty [⟨"A".toList⟩] ⟨"B".toList⟩ [⟨"C".toList⟩]
      (threeFiles cleanText, commonConsole) .empty :=
    ⟨rfl, optimizeEach_uncleanText _ _, Launcher.phase_of_openSession openSession_fatalScripts⟩
  rcases hrun : (Site.atConsole Script.process ⟨"B".toList⟩).reduce .standard Site.standardPlan
    (threeFiles cleanText, commonConsole) with ⟨result, w'⟩
  have hfails := reduce_commonConsole
  rw [hrun] at hfails
  obtain ⟨rfl, hphase⟩ := Prod.mk.inj hfails
  have hlost : w'.2.session.phase ≠ .ready := by
    rw [show w'.2.session.phase = .awaitingResult from hphase]
    decide
  have hwhole := optimizeModule_leaves_files_whole .empty Site.plan_standard openSession_fatalScripts
    (distinct_threePaths _) sound_threeFiles (fun p hp _ => writable_threePaths p hp)
    fun p hp _ => freeBeside_threePaths p hp
  exact ⟨sound_threeFiles, writable_threePaths, freeBeside_threePaths, w', rfl, hlost,
    (hwhole.2 _ _ _ _ _ _ _ hturn hrun).1 hlost⟩

/-- Two files with a wildcard each, and a link to the second where new content for the first waits. -/
def linkedFiles : Disk :=
  (threeFiles "\nimport a._\n".toList).put ["work".toList, ".A.tmp-0".toList] (.link ⟨"B".toList⟩)

/-- The paths of the two files. -/
def linkedPaths : List Path := [⟨"A".toList⟩, ⟨"B".toList⟩]

theorem openSession_linkedFiles :
    Scripts.launcher.openSession linkedFiles commonSettings fatalScripts =
      (.ok commonConsole, { fatalScripts with sessions := [] }) := by
  refine Launcher.openSession_of_connect (by decide +kernel) ?_ rfl ?_
  · cbv
  · decide +kernel

theorem distinct_linkedPaths :
    linkedPaths.Pairwise fun p q => linkedFiles.target p ≠ linkedFiles.target q := by
  have hfirst : linkedFiles.target ⟨"A".toList⟩ = ⟨"/work/A".toList⟩ := by cbv
  have hsecond : linkedFiles.target ⟨"B".toList⟩ = ⟨"/work/B".toList⟩ := by cbv
  refine List.pairwise_pair.mpr ?_
  rw [hfirst, hsecond]
  decide

/-- In the turn of the first file the console exits, and its content is put back through the link. -/
theorem reduce_linkedFiles :
    Prod.map id (fun w : Disk × Conversation Script => (w.1.read ⟨"B".toList⟩, w.2.session.phase))
      ((Site.atConsole Script.process ⟨"A".toList⟩).reduce .standard Site.standardPlan
        (linkedFiles, commonConsole)) =
      (.error (.console (.ended .result)), .ok "\nimport a._\n".toList, .awaitingResult) := by
  cbv

/-- The work ends in the turn of the first file, and then the second holds the content of the first:
what was written for the one went through the link into the other. -/
theorem optimizeModule_spoils_linkedFiles :
    linkedFiles.Sound ∧ (linkedPaths.Pairwise fun p q => linkedFiles.target p ≠ linkedFiles.target q) ∧
    (∀ p ∈ linkedPaths, linkedFiles.Writable p) ∧
    Scripts.launcher.openSession linkedFiles commonSettings fatalScripts =
      (.ok commonConsole, { fatalScripts with sessions := [] }) ∧
    (∃ w', (Site.atConsole Script.process ⟨"A".toList⟩).reduce .standard Site.standardPlan
      (linkedFiles, commonConsole) = (.error (.console (.ended .result)), w') ∧
      w'.2.session.phase ≠ .ready) ∧
    linkedFiles.read ⟨"B".toList⟩ = .ok "\nimport b._\n".toList ∧
    (optimizeModule Scripts.launcher .standard ⟨"/work".toList⟩ "common".toList linkedPaths
      linkedFiles fatalScripts .empty).1.read ⟨"B".toList⟩ = .ok "\nimport a._\n".toList := by
  rcases hrun : (Site.atConsole Script.process ⟨"A".toList⟩).reduce .standard Site.standardPlan
    (linkedFiles, commonConsole) with ⟨result, w'⟩
  have hfails := reduce_linkedFiles
  rw [hrun] at hfails
  obtain ⟨rfl, hrest⟩ := Prod.mk.inj hfails
  obtain ⟨hread, hphase⟩ := Prod.mk.inj hrest
  have hlost : w'.2.session.phase ≠ .ready := by
    rw [show w'.2.session.phase = .awaitingResult from hphase]
    decide
  refine ⟨⟨by decide +kernel, by decide +kernel, rfl⟩, distinct_linkedPaths, ?_,
    openSession_linkedFiles, ⟨w', rfl, hlost⟩, ?_, ?_⟩
  · simp only [linkedPaths, List.forall_mem_cons]
    refine ⟨fun text => ?_, fun text => ?_, by simp⟩
    · cbv
    · cbv
  · cbv
  · have hall : ∃ report', optimizeEach Script.process .standard Site.standardPlan "common".toList
        linkedPaths (linkedFiles, commonConsole) .empty = (w', report') := by
      rw [linkedPaths, optimizeEach_of_error hrun, if_neg hlost]
      exact ⟨_, rfl⟩
    obtain ⟨report', hall⟩ := hall
    rw [optimizeModule_of_openSession Site.plan_standard openSession_linkedFiles (by simp [linkedPaths])
      hall]
    exact hread

end ImportTidy

/-
# ImportTidy.Proofs.Run.Turn — the turn of one file at a console

When its wildcards are replaced, a file is written again and again, and the console is asked again and
again. Where writing succeeds, only two things can come of it (`turn_cases`): the file has been cleaned
and the console is ready, or there was a fault, and every path leads to what it led to before. In
between the disk is always as it was at the start, but for the content of this one file (`Holding`).
-/
import ImportTidy.Proofs.Console.History
import ImportTidy.Proofs.Disk.Replacement
import ImportTidy.Proofs.Wildcard.Restoration
import ImportTidy.Run.Optimize

namespace ImportTidy

/-! ## Consoles that have answered -/

theorem Session.phase_of_await {α : Type} {wanted : Listener.Event → Option α} {awaited : Awaited}
    {s s' : Session} {a : α} (h : s.await wanted awaited = (.ok a, s')) : s'.phase = .ready := by
  rcases await_cases wanted awaited s with ⟨b, -, hawait⟩ | ⟨-, fault, -, hawait⟩
  · rw [hawait] at h
    obtain ⟨-, rfl⟩ := Prod.mk.inj h
    rfl
  · rw [hawait] at h
    exact absurd (Prod.mk.inj h).1 (by simp)

section

variable {σ κ : Type} {proc : Process κ} {c c' : Conversation κ}

/-- What the session has heard from the console makes it ready. -/
theorem Conversation.phase_of_read {α : Type} {step : Session → Except ConsoleFault α × Session}
    {a : α} (hstep : ∀ {s s'}, step s = (.ok a, s') → s'.phase = .ready)
    (h : c.read step = (.ok a, c')) : c'.session.phase = .ready := by
  unfold read at h
  rcases hs : step c.session with ⟨result, s⟩
  rw [hs] at h
  obtain ⟨rfl, rfl⟩ := Prod.mk.inj h
  exact hstep hs

theorem Conversation.phase_of_compile {output : Text} (h : c.compile proc = (.ok output, c')) :
    c'.session.phase = .ready := by
  unfold compile request at h
  split at h
  · refine phase_of_read (fun {s s'} hreceive => ?_) h
    unfold Session.receive at hreceive
    split at hreceive
    · exact Session.phase_of_await hreceive
    · exact absurd (Prod.mk.inj hreceive).1 (by simp)
  · exact absurd (Prod.mk.inj h).1 (by simp)

theorem Conversation.phase_of_connect {settings : ConsoleSettings} {peer : κ}
    (h : connect proc settings peer = (.ok (), c)) : c.session.phase = .ready := by
  unfold connect at h
  dsimp only at h
  split at h
  · exact phase_of_read Session.phase_of_await h
  · rename_i hfailed
    exact absurd h (hfailed c)

theorem Launcher.phase_of_openSession {l : Launcher σ κ} {d : Disk} {settings : ConsoleSettings}
    {s s' : σ} (h : l.openSession d settings s = (.ok c, s')) : c.session.phase = .ready := by
  unfold openSession at h
  split at h
  · exact absurd (Prod.mk.inj h).1 (by simp)
  split at h
  · exact absurd (Prod.mk.inj h).1 (by simp)
  split at h
  · exact absurd (Prod.mk.inj h).1 (by simp)
  split at h
  · rename_i hconnect
    obtain ⟨hc, -⟩ := Prod.mk.inj h
    rw [← Except.ok.inj hc]
    exact Conversation.phase_of_connect hconnect
  · exact absurd (Prod.mk.inj h).1 (by simp)

theorem Launcher.openSession_of_connect {l : Launcher σ κ} {d : Disk} {settings : ConsoleSettings}
    {s s' : σ} {peer : κ} (hdefect : settings.defect? = none)
    (hfolder : checkFolder d settings = .ok ()) (hlaunch : l.launch settings s = (.ok peer, s'))
    (hconnect : (Conversation.connect l.process settings peer).1.isOk = true) :
    l.openSession d settings s = (.ok (Conversation.connect l.process settings peer).2, s') := by
  rcases hc : Conversation.connect l.process settings peer with ⟨fault | _, c⟩
  · rw [hc] at hconnect
    exact absurd hconnect (by simp [Except.isOk, Except.toBool])
  · simp only [openSession, hdefect, hfolder, hlaunch, hc]

end

/-! ## Disks that differ where some paths lead -/

namespace Disk

variable {d d' d'' : Disk} {p q : Path} {paths more : List Path} {place : Place}
  {content bytes : ByteArray} {mode : Nat}

/-- The second disk is the first with other contents in files that some of the paths lead to. -/
structure ChangedBy (d : Disk) (paths : List Path) (d' : Disk) : Prop where
  refilled : d.Refilled d'
  others : ∀ q, (∀ p ∈ paths, d.target p ≠ d.target q) → d'.find q = d.find q

theorem ChangedBy.refl (d : Disk) : d.ChangedBy [] d :=
  ⟨.refl d, fun _ _ => rfl⟩

theorem ChangedBy.trans (h : d.ChangedBy paths d') (h' : d'.ChangedBy more d'') :
    d.ChangedBy (paths ++ more) d'' where
  refilled := h.refilled.trans h'.refilled
  others q hq := by
    have hmore : ∀ p ∈ more, d'.target p ≠ d'.target q := by
      intro p hp
      rw [h.refilled.target, h.refilled.target]
      exact hq p (List.mem_append_right _ hp)
    rw [h'.others q hmore, h.others q fun p hp => hq p (List.mem_append_left _ hp)]

theorem ChangedBy.mono (h : d.ChangedBy paths d') (hsub : paths ⊆ more) : d.ChangedBy more d' where
  refilled := h.refilled
  others q hq := h.others q fun p hp => hq p (hsub hp)

theorem ChangedBy.find_eq (h : d.ChangedBy [] d') (q : Path) : d'.find q = d.find q :=
  h.others q fun _ hp => absurd hp List.not_mem_nil

section

variable (hfind : d.find p = .ok (place, .file content mode))

include hfind

theorem find_put : (d.put place (.file bytes mode)).find p = .ok (place, .file bytes mode) := by
  have hfile := at?_of_find hfind
  have hrefilled : d.Refilled (d.put place (.file bytes mode)) := refilled_put hfile
  rcases hrefilled.find p with
    ⟨place', e, e', hfound, hfound', hat⟩ | ⟨fault, hfound, -⟩
  · rw [hfind] at hfound
    obtain ⟨rfl, rfl⟩ := Prod.mk.inj (Except.ok.inj hfound)
    rw [at?_put_self (ne_nil_of_file hfile)] at hat
    rw [hfound', ← Option.some.inj hat]
  · rw [hfind] at hfound
    exact absurd hfound (by simp)

theorem changedBy_put : d.ChangedBy [p] (d.put place (.file bytes mode)) where
  refilled := refilled_put (at?_of_find hfind)
  others q hq := by
    refine (refilled_put (at?_of_find hfind)).find_eq fun place' e hfound => at?_put_of_ne ?_ _ d
    rintro rfl
    refine hq p List.mem_cons_self ?_
    rw [target, target, hfind, hfound]

/-- Putting the content back changes nothing. -/
theorem changedBy_put_same : d.ChangedBy [] (d.put place (.file content mode)) where
  refilled := refilled_put (at?_of_find hfind)
  others q _ := by
    have hfile := at?_of_find hfind
    refine (refilled_put hfile).find_eq fun place' e _ => ?_
    by_cases heq : place' = place
    · rw [heq, at?_put_self (ne_nil_of_file hfile), hfile]
    · exact at?_put_of_ne heq _ d

end

/-! ## Files that can be replaced -/

theorem exists_file_of_read {text : Text} (h : d.read p = .ok text) :
    ∃ place bytes mode, d.find p = .ok (place, .file bytes mode) ∧ mayRead mode = true ∧
      Utf8.encode text = bytes := by
  unfold read at h
  split at h
  · rename_i place bytes mode hfind
    split at h
    · exact absurd h (by simp)
    · rename_i hmode
      split at h
      · rename_i hdecode
        rw [← Except.ok.inj h]
        exact ⟨place, bytes, mode, hfind, by simpa using hmode, Utf8.encode_of_decode? hdecode⟩
      · exact absurd h (by simp)
  · split at h
    · exact absurd h (by simp)
    · exact absurd h (by simp)
  · exact absurd h (by simp)
  · exact absurd h (by simp)

theorem read_of_find {text : Text} (hfind : d.find p = .ok (place, .file (Utf8.encode text) mode))
    (hmode : mayRead mode = true) : d.read p = .ok text := by
  rw [read_file hfind, if_pos hmode]

theorem read_eq_of_find (h : d'.find p = d.find p) : d'.read p = d.read p := by
  rw [read, read, h]

/-- If the path leads to a file that can be read, the file can be replaced. -/
def ReplaceableAt (d : Disk) (p : Path) : Prop :=
  ∀ text place bytes mode, d.read p = .ok text → d.find p = .ok (place, .file bytes mode) →
    d.Replaceable place

theorem replaceableAt_of_writable (hd : d.Sound) (hwrites : (d.read p).isOk = true → d.Writable p)
    (hfree : (d.read p).isOk = true → d.FreeBeside p) : d.ReplaceableAt p := by
  intro text place bytes mode hread hfind
  have hok : (d.read p).isOk = true := by rw [hread]; rfl
  exact replaceable_of_replace hd hfind (hfree hok _ (sibling?_of_find hfind)) (hwrites hok)

theorem ReplaceableAt.changed (h : d.ReplaceableAt q) (hd : d.ChangedBy paths d')
    (hq : ∀ p ∈ paths, d.target p ≠ d.target q) : d'.ReplaceableAt q := by
  intro text place bytes mode hread hfind
  rw [read_eq_of_find (hd.others q hq)] at hread
  rw [hd.others q hq] at hfind
  exact (h text place bytes mode hread hfind).refilled hd.refilled

/-- The disk, or the disk with other content in the file at the place. -/
def Holding (d : Disk) (place : Place) (mode : Nat) (e : Disk) : Prop :=
  e = d ∨ ∃ bytes, e = d.put place (.file bytes mode)

theorem Holding.replace {e : Disk} (h : d.Holding place mode e) (hr : d.Replaceable place)
    (hfind : d.find p = .ok (place, .file content mode)) (text : Text) :
    e.replace text p = (.ok (), d.put place (.file (Utf8.encode text) mode)) := by
  rcases h with rfl | ⟨bytes, rfl⟩
  · exact hr.replace hfind text
  · rw [(hr.refilled (refilled_put (at?_of_find hfind))).replace (find_put hfind), put_put]

end Disk

/-! ## A turn -/

variable {κ : Type}

/-- The file at a path, beside the console of a session. -/
def Site.atConsole (proc : Process κ) (path : Path) : Site (Disk × Conversation κ) OptimizeFault :=
  .ofFile (fun _ c => c.compile proc) path

section

variable {proc : Process κ} {path : Path} {rules : Rules} {plan : SearchPlan}
  {w w' : Disk × Conversation κ}

theorem write_atConsole (text : Text) (w : Disk × Conversation κ) :
    (Site.atConsole proc path).write text w =
      ((w.1.replace text path).1.mapError .file, (w.1.replace text path).2, w.2) := rfl

theorem compile_atConsole (w : Disk × Conversation κ) :
    (Site.atConsole proc path).compile w =
      ((w.2.compile proc).1.mapError .console, w.1, (w.2.compile proc).2) := rfl

theorem persist_atConsole (f : SourceFile) (b : Block) (w : Disk × Conversation κ) :
    ((Site.atConsole proc path).bench f).persist b w =
      ((w.1.replace (f.renderWith b.lines) path).1.mapError .file,
        (w.1.replace (f.renderWith b.lines) path).2, w.2) := rfl

theorem read_atConsole {content : Text} :
    (Site.atConsole proc path).read w = .ok content ↔ w.1.read path = .ok content := by
  simp only [Site.atConsole, Site.ofFile, Disk.contentOf]
  cases w.1.read path with
  | ok text => simp [Except.mapError]
  | error fault => simp [Except.mapError]

/-- A compilation that gives an output leaves the console ready. -/
theorem phase_of_compile_atConsole {output : Text}
    (h : (Site.atConsole proc path).compile w = (.ok output, w')) :
    w'.2.session.phase = .ready := by
  rw [compile_atConsole] at h
  obtain ⟨hok, rfl⟩ := Prod.mk.inj h
  rcases hcompile : w.2.compile proc with ⟨fault | text, c⟩
  · rw [hcompile] at hok
    exact absurd hok (by simp [Except.mapError])
  · exact Conversation.phase_of_compile hcompile

/-- The console stays ready while it answers. -/
theorem keeps_ready (f : SourceFile) :
    (Site.atConsole proc path).Keeps f (fun _ => True) (fun w => w.2.session.phase = .ready)
      (fun _ => True) where
  compiled _ hcompile := phase_of_compile_atConsole hcompile
  uncompiled _ _ := trivial
  stored _ hready hpersist := by
    rw [persist_atConsole] at hpersist
    obtain ⟨-, rfl⟩ := Prod.mk.inj hpersist
    exact hready
  unstored _ _ _ := trivial

theorem phase_of_reduce {done : Reduction} (hready : w.2.session.phase = .ready)
    (h : (Site.atConsole proc path).reduce rules plan w = (.ok done, w')) :
    w'.2.session.phase = .ready := by
  cases hread : (Site.atConsole proc path).read w with
  | error cause =>
      simp only [Site.reduce, hread] at h
      exact absurd (Prod.mk.inj h).1 (by simp)
  | ok content =>
      obtain ⟨current, w₁, hreplace, hwrite⟩ := (Site.reduce_eq_ok hread).mp h
      have hready₁ : w₁.2.session.phase = .ready :=
        (keeps_ready _).replaceWildcards hready hreplace
      rw [write_atConsole] at hwrite
      obtain ⟨-, rfl⟩ := Prod.mk.inj hwrite
      exact hready₁

section

variable {d : Disk} {place : Place} {bytes : ByteArray} {mode : Nat}

/-- While wildcards are replaced, the disk differs from that of the start in the one file. -/
theorem keeps_holding (hr : d.Replaceable place)
    (hfind : d.find path = .ok (place, .file bytes mode)) (f : SourceFile) :
    (Site.atConsole proc path).Keeps f (fun _ => True)
      (fun w => w.2.session.phase = .ready ∧ d.Holding place mode w.1)
      (fun w => d.Holding place mode w.1) where
  compiled hw hcompile := by
    have hready := phase_of_compile_atConsole hcompile
    rw [compile_atConsole] at hcompile
    obtain ⟨-, rfl⟩ := Prod.mk.inj hcompile
    exact ⟨hready, hw.2⟩
  uncompiled hw hcompile := by
    rw [compile_atConsole] at hcompile
    obtain ⟨-, rfl⟩ := Prod.mk.inj hcompile
    exact hw.2
  stored _ hw hpersist := by
    rw [persist_atConsole, hw.2.replace hr hfind] at hpersist
    obtain ⟨-, rfl⟩ := Prod.mk.inj hpersist
    exact ⟨hw.1, Or.inr ⟨_, rfl⟩⟩
  unstored _ hw hpersist := by
    rw [persist_atConsole, hw.2.replace hr hfind] at hpersist
    exact absurd (Prod.mk.inj hpersist).1 (by simp [Except.mapError])

end

/-- The wildcards of the file could be replaced, and it has been left with the cleaned content. -/
def CleanedBy (proc : Process κ) (rules : Rules) (plan : SearchPlan) (path : Path)
    (w : Disk × Conversation κ) (d' : Disk) : Prop :=
  ∃ content current done w₁ w', w.1.read path = .ok content ∧
    (Site.atConsole proc path).replaceWildcards plan content w = (.ok (current, done), w₁) ∧
    (Site.atConsole proc path).reduce rules plan w = (.ok done, w') ∧
    d'.read path = .ok (((SourceFile.parse content).withImports current).normalize rules)

/-- **A turn cleans the file or leaves everything as it was.** -/
theorem turn_cases (proc : Process κ) (rules : Rules) (plan : SearchPlan)
    (hready : w.2.session.phase = .ready) (hr : w.1.ReplaceableAt path) :
    (∃ done w', (Site.atConsole proc path).reduce rules plan w = (.ok done, w') ∧
      w.1.ChangedBy [path] w'.1 ∧ CleanedBy proc rules plan path w w'.1) ∨
    ∃ fault w', (Site.atConsole proc path).reduce rules plan w = (.error fault, w') ∧
      w.1.ChangedBy [] w'.1 := by
  cases hread : (Site.atConsole proc path).read w with
  | error cause =>
      refine Or.inr ⟨cause, w, ?_, .refl w.1⟩
      simp only [Site.reduce, hread]
  | ok content =>
      have hcontent := read_atConsole.mp hread
      obtain ⟨place, bytes, mode, hfind, hmode, hbytes⟩ := Disk.exists_file_of_read hcontent
      have hplace := hr content place bytes mode hcontent hfind
      -- every write of the turn finds the disk of the start, but for the file itself
      have hwrites : ∀ text (w₁ : Disk × Conversation κ),
          w₁.2.session.phase = .ready ∧ w.1.Holding place mode w₁.1 →
            ((Site.atConsole proc path).write text w₁).1 = .ok () := by
        intro text w₁ hw₁
        rw [write_atConsole, hw₁.2.replace hplace hfind]
        rfl
      rcases (keeps_holding hplace hfind _).reduce_cases rules plan hwrites hread
        ⟨hready, Or.inl rfl⟩ with
        ⟨current, done, w₁, w', hreplace, hw₁, hwrite, hrun⟩ | ⟨fault, point, hpoint, hrun⟩
      · rw [write_atConsole, hw₁.2.replace hplace hfind] at hwrite
        obtain ⟨-, rfl⟩ := Prod.mk.inj hwrite
        exact Or.inl ⟨done, _, hrun, Disk.changedBy_put hfind, content, current, done, w₁, _, hcontent,
          hreplace, hrun, Disk.read_of_find (Disk.find_put hfind) hmode⟩
      · -- the content that was read is put back
        refine Or.inr ⟨fault, _, hrun, ?_⟩
        rw [Site.restore, write_atConsole, hpoint.replace hplace hfind, hbytes]
        exact Disk.changedBy_put_same hfind

end

end ImportTidy

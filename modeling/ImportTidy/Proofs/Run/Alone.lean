/-
# ImportTidy.Proofs.Run.Alone — a file is tidied as if nothing else were worked on

The work on a file changes the disk at two places, the file's own and that of the sibling where its
new content waits. When no two files share a place and nothing else is looked for where new content
waits, the work on one file cannot see the work on another: with other files at any point of theirs,
its next step has the outcome that it has when the file is alone, and changes the same places in the
same way (`step_alone`). On the way to a file, other work changes nothing but the contents of other
files, and a walk does not look into them.
-/
import ImportTidy.Proofs.Run.Turn
import ImportTidy.Run.Crew

namespace ImportTidy

namespace Disk

variable {d e : Disk} {p q : Path} {files : List Path} {place x : Place} {content : ByteArray}
  {mode : Nat}

/-! ## The places of a file -/

/-- The places that the work on a path may change: that of the file that it leads to, and that where
new content waits. -/
def ownPlaces (d : Disk) (p : Path) : List Place :=
  match d.find p with
  | .ok (place, .file _ _) => [place, d.siblingPlace place]
  | _ => []

theorem ownPlaces_of_find (h : d.find p = .ok (place, .file content mode)) :
    d.ownPlaces p = [place, d.siblingPlace place] := by
  rw [ownPlaces, h]

theorem mem_ownPlaces : x ∈ d.ownPlaces p ↔ ∃ place content mode,
    d.find p = .ok (place, .file content mode) ∧ (x = place ∨ x = d.siblingPlace place) := by
  constructor
  · intro hx
    unfold ownPlaces at hx
    split at hx
    · rename_i hfind
      exact ⟨_, _, _, hfind, by simpa using hx⟩
    · exact absurd hx List.not_mem_nil
  · rintro ⟨place, content, mode, hfind, hx⟩
    rw [ownPlaces_of_find hfind]
    simpa using hx

/-- New content of the two paths does not wait at the same place. -/
def Apart (d : Disk) (p q : Path) : Prop := ∀ x, d.sibling? p = some x → d.sibling? q ≠ some x

/-- The files can be worked on side by side: their paths stand for different things, their new content
waits at different places, where there is nothing, and no path looks there that leads to nothing. -/
structure Separate (d : Disk) (files : List Path) : Prop where
  sound : d.Sound
  distinct : files.Pairwise fun p q => d.target p ≠ d.target q
  apart : files.Pairwise d.Apart
  vacant : ∀ p ∈ files, d.FreeBeside p
  aside : ∀ p ∈ files, ∀ x, d.sibling? p = some x →
    ∀ q ∈ files, ∀ fault, d.find q = .error fault → x ∉ d.trail q

section Separate

variable (h : d.Separate files) (hp : p ∈ files) (hfind : d.find p = .ok (place, .file content mode))

include h hp hfind

theorem Separate.vacant_sibling : d.at? (d.siblingPlace place) = none :=
  h.vacant p hp _ (sibling?_of_find hfind)

/-- A file does not stand where its new content waits. -/
theorem Separate.ne_siblingPlace : place ≠ d.siblingPlace place :=
  ne_siblingPlace_of_vacant (h.vacant_sibling hp hfind) (at?_of_find hfind)

/-- No path looks where new content waits. -/
theorem Separate.not_mem_trail (hq : q ∈ files) : d.siblingPlace place ∉ d.trail q := by
  rcases hfound : d.find q with fault | ⟨place', entry⟩
  · exact h.aside p hp _ (sibling?_of_find hfind) q hq fault hfound
  · -- on the way to an entry there are entries
    intro hmem
    have hspot := spot_of_find hfound
    unfold spot at hspot
    split at hspot
    · exact absurd hspot (by simp)
    · have hsome := occupied_of_walk hspot _ hmem
      rw [h.vacant_sibling hp hfind] at hsome
      exact absurd hsome (by simp)

end Separate

/-- **The files have no place in common.** -/
theorem Separate.disjoint (h : d.Separate files) :
    files.Pairwise fun p q => ∀ x ∈ d.ownPlaces p, x ∉ d.ownPlaces q := by
  refine (h.distinct.and h.apart).imp_of_mem fun {p q} hp hq ⟨hne, hapart⟩ x hx hx' => ?_
  obtain ⟨place, content, mode, hfind, hx⟩ := mem_ownPlaces.mp hx
  obtain ⟨place', content', mode', hfind', hx'⟩ := mem_ownPlaces.mp hx'
  have hfile := at?_of_find hfind
  have hfile' := at?_of_find hfind'
  rcases hx with rfl | rfl
  · rcases hx' with rfl | rfl
    · exact hne (by rw [target, target, hfind, hfind'])
    · rw [h.vacant_sibling hq hfind'] at hfile
      exact absurd hfile (by simp)
  · rcases hx' with rfl | hx'
    · rw [h.vacant_sibling hp hfind] at hfile'
      exact absurd hfile' (by simp)
    · exact hapart _ (sibling?_of_find hfind) (by rw [sibling?_of_find hfind', hx'])

/-! ## A disk on which files are worked on -/

/-- The second disk is the first while some files are worked on: at their own places there is what
the work has left, which keeps the files and their modes, and at every other place there is what was
there. -/
structure Tended (d : Disk) (files : List Path) (e : Disk) : Prop where
  host : e.toHost = d.toHost
  present : ∀ p ∈ files, ∀ {place content mode}, d.find p = .ok (place, .file content mode) →
    ∃ content', e.at? place = some (.file content' mode)
  others : ∀ x, (∀ p ∈ files, x ∉ d.ownPlaces p) → e.at? x = d.at? x

section Tended

variable (hd : d.Separate files) (ht : d.Tended files e)

include ht

theorem Tended.alikeAt (hx : ∀ p ∈ files, d.sibling? p ≠ some x) : d.AlikeAt e x := by
  by_cases hown : ∃ p ∈ files, x ∈ d.ownPlaces p
  · obtain ⟨p, hp, hmem⟩ := hown
    obtain ⟨place, content, mode, hfind, rfl | rfl⟩ := mem_ownPlaces.mp hmem
    · have hfile := at?_of_find hfind
      refine ⟨fun hfile' => ?_, fun hno => absurd hfile (hno content mode)⟩
      obtain ⟨-, rfl⟩ := Entry.file.inj (Option.some.inj (hfile.symm.trans hfile'))
      exact ht.present p hp hfind
    · exact absurd (sibling?_of_find hfind) (hx p hp)
  · apply alikeAt_of_eq
    apply ht.others
    intro p hp hmem
    exact hown ⟨p, hp, hmem⟩

/-- A path is found where it was, if it does not look where new content waits. -/
theorem Tended.find_of_trail (htrail : ∀ x ∈ d.trail p, d.AlikeAt e x) :
    (∃ place entry entry', d.find p = .ok (place, entry) ∧ e.find p = .ok (place, entry') ∧
      e.at? place = some entry') ∨
    ∃ fault, d.find p = .error fault ∧ e.find p = .error fault := by
  apply Leads.find
  unfold spot
  split
  · exact .fault _
  · rw [ht.host]
    exact leads_of_trail htrail

include hd

/-- What was there before is there, but for the contents of files. -/
theorem Tended.alikeAt_of_some {entry : Entry} (hx : d.at? x = some entry) : d.AlikeAt e x := by
  apply ht.alikeAt
  intro p hp hsibling
  rw [hd.vacant p hp x hsibling] at hx
  exact absurd hx (by simp)

/-- **Every file is found where it was.** -/
theorem Tended.find (hp : p ∈ files) :
    (∃ place entry entry', d.find p = .ok (place, entry) ∧ e.find p = .ok (place, entry') ∧
      e.at? place = some entry') ∨
    ∃ fault, d.find p = .error fault ∧ e.find p = .error fault := by
  apply ht.find_of_trail
  intro x hx
  apply ht.alikeAt
  intro q hq hsibling
  obtain ⟨place, content, mode, hfind, rfl⟩ := sibling?_eq_some.mp hsibling
  exact hd.not_mem_trail hq hfind hp hx

/-- A file that is as it was is found as it was. -/
theorem Tended.find_eq (hp : p ∈ files) (hown : ∀ {place content mode},
    d.find p = .ok (place, .file content mode) → e.at? place = d.at? place) :
    e.find p = d.find p := by
  rcases ht.find hd hp with ⟨place, entry, entry', hfound, hfound', hat⟩ | ⟨fault, hfound, hfound'⟩
  · have hentry := at?_of_find hfound
    have hsame : e.at? place = d.at? place := by
      cases entry with
      | file content mode => exact hown hfound
      | folder mode => exact (ht.alikeAt_of_some hd hentry).other (by simp [hentry])
      | link target => exact (ht.alikeAt_of_some hd hentry).other (by simp [hentry])
    rw [hsame, hentry] at hat
    rw [hfound, hfound', Option.some.inj hat]
  · rw [hfound, hfound']

/-- The folders above a file are as they were. -/
theorem Tended.folder_above (hfile : d.at? place = some (.file content mode)) {above : Place}
    (habove : above <+: place.dropLast) :
    ∃ mode, d.at? above = some (.folder mode) ∧ e.at? above = some (.folder mode) := by
  obtain ⟨mode, hfolder⟩ := hd.sound.folder_of_prefix hfile habove
  exact ⟨mode, hfolder, (ht.alikeAt_of_some hd hfolder).folder hfolder⟩

/-- What is in the way of new content is what was in the way. -/
theorem Tended.obstacle?_eq (hfile : d.at? place = some (.file content mode)) :
    e.obstacle? place = d.obstacle? place := by
  have hsame : ∀ above, above <+: place.dropLast → e.at? above = d.at? above := by
    intro above habove
    obtain ⟨mode, hfolder, hfolder'⟩ := ht.folder_above hd hfile habove
    rw [hfolder, hfolder']
  obtain ⟨parent, n, rfl⟩ := exists_parent_of_file hfile
  refine obstacle?_congr ht.host (fun above hmem => hsame above ?_) (hsame _ (List.prefix_refl _))
  rw [List.dropLast_concat]
  exact mem_above_append.mp hmem

end Tended

end Disk

/-! ## Tidying a file that is alone -/

section TidyFile

variable {r : Rules} {d : Disk} {p : Path} {text : Text} {place : Place} {bytes : ByteArray}
  {mode : Nat}

theorem tidyFile_of_unread {fault : DiskFault} (hread : d.read p = .error fault) :
    tidyFile r p d = (.error (.unreadable p fault), d) := by
  simp only [tidyFile, Disk.contentOf, hread]

section

variable (hread : d.read p = .ok text)

include hread

theorem tidyFile_of_clean (hclean : (SourceFile.parse text).normalize r = text) :
    tidyFile r p d = (.ok .unchanged, d) := by
  simp only [tidyFile, Disk.contentOf, hread, hclean, if_true]

variable (hunclean : (SourceFile.parse text).normalize r ≠ text)
  (hfind : d.find p = .ok (place, .file bytes mode)) (hd : d.Sound)
  (hvacant : d.at? (d.siblingPlace place) = none)

include hunclean hfind hd hvacant

theorem tidyFile_of_obstacle {fault : DiskFault} (hobstacle : d.obstacle? place = some fault) :
    tidyFile r p d = (.error (.unwritable p fault), d) := by
  have hfile := Disk.at?_of_find hfind
  have hstage := Disk.stage_of_obstacle (hd.entryNames hfile) hfind hvacant
    (fun above => hd.folder_of_prefix hfile) hobstacle ((SourceFile.parse text).normalize r)
  simp only [tidyFile, Disk.contentOf, hread, hunclean, if_false, Disk.replace, hstage]

variable (hfree : d.obstacle? place = none)

include hfree

theorem tidyFile_of_spoiled {fault : DiskFault} {newBytes : ByteArray} {newMode : Nat}
    (hpour : d.pour (Utf8.encode ((SourceFile.parse text).normalize r)) (some mode)
      (d.siblingPlace place) Entry.fileMode = (some fault, .file newBytes newMode)) :
    tidyFile r p d = (.error (.unwritable p fault),
      if d.hazards.keeps (d.siblingPlace place) then
        d.put (d.siblingPlace place) (.file newBytes newMode)
      else d) := by
  have hstage := Disk.stage_of_spoiled (hd.entryNames (Disk.at?_of_find hfind)) hfind hvacant hfree
    hpour
  simp only [tidyFile, Disk.contentOf, hread, hunclean, if_false, Disk.replace, hstage]

variable (hpour : d.pour (Utf8.encode ((SourceFile.parse text).normalize r)) (some mode)
  (d.siblingPlace place) Entry.fileMode =
    (none, .file (Utf8.encode ((SourceFile.parse text).normalize r)) mode))

include hpour

theorem tidyFile_of_moved (hmove : d.hazards.move place = none) :
    tidyFile r p d = (.ok .rewritten,
      d.put place (.file (Utf8.encode ((SourceFile.parse text).normalize r)) mode)) := by
  have hfile := Disk.at?_of_find hfind
  have hnames := hd.entryNames hfile
  have hstage := Disk.stage_of_poured hnames hfind hvacant hfree hpour
  simp only [tidyFile, Disk.contentOf, hread, hunclean, if_false, Disk.replace, hstage,
    Disk.settle_put_of_moved hnames hfree hvacant hfile hmove]

theorem tidyFile_of_stuck {fault : DiskFault} (hmove : d.hazards.move place = some fault) :
    tidyFile r p d = (.error (.unwritable p fault),
      if d.hazards.keeps (d.siblingPlace place) then
        d.put (d.siblingPlace place)
          (.file (Utf8.encode ((SourceFile.parse text).normalize r)) mode)
      else d) := by
  have hfile := Disk.at?_of_find hfind
  have hnames := hd.entryNames hfile
  have hstage := Disk.stage_of_poured hnames hfind hvacant hfree hpour
  simp only [tidyFile, Disk.contentOf, hread, hunclean, if_false, Disk.replace, hstage,
    Disk.settle_put_of_stuck hnames hfree hvacant hfile hmove]

end

end TidyFile

/-- What can come of tidying a file: it cannot be read, it is clean already, it is rewritten, or it
cannot be written, and then the new content may be left where it waits. -/
inductive TidyCase (r : Rules) (d : Disk) (p : Path) :
    Except FileFault FileOutcome × Disk → Prop
  | unread {fault : DiskFault} : d.read p = .error fault →
      TidyCase r d p (.error (.unreadable p fault), d)
  | clean {text : Text} : d.read p = .ok text → (SourceFile.parse text).normalize r = text →
      TidyCase r d p (.ok .unchanged, d)
  | rewritten {text : Text} {place : Place} {bytes : ByteArray} {mode : Nat} :
      d.read p = .ok text → d.find p = .ok (place, .file bytes mode) → mayRead mode = true →
      TidyCase r d p (.ok .rewritten,
        d.put place (.file (Utf8.encode ((SourceFile.parse text).normalize r)) mode))
  | unwritten {text : Text} {fault : DiskFault} : d.read p = .ok text →
      TidyCase r d p (.error (.unwritable p fault), d)
  | leftBehind {text : Text} {fault : DiskFault} {x : Place} {file : Entry} : d.read p = .ok text →
      d.sibling? p = some x → d.hazards.keeps x = true →
      TidyCase r d p (.error (.unwritable p fault), d.put x file)

theorem tidyCase_of_kept {r : Rules} {d : Disk} {p : Path} {text : Text} {fault : DiskFault}
    {x : Place} (hread : d.read p = .ok text) (hx : d.sibling? p = some x) (file : Entry) :
    TidyCase r d p (.error (.unwritable p fault),
      if d.hazards.keeps x then d.put x file else d) := by
  split
  · exact .leftBehind hread hx ‹_›
  · exact .unwritten hread

theorem tidyFile_cases {r : Rules} {d : Disk} {p : Path} {files : List Path}
    (hd : d.Separate files) (hp : p ∈ files) : TidyCase r d p (tidyFile r p d) := by
  rcases hread : d.read p with fault | text
  · rw [tidyFile_of_unread hread]
    exact .unread hread
  by_cases hclean : (SourceFile.parse text).normalize r = text
  · rw [tidyFile_of_clean hread hclean]
    exact .clean hread hclean
  obtain ⟨place, bytes, mode, hfind, hmode, -⟩ := Disk.exists_file_of_read hread
  have hsibling := Disk.sibling?_of_find hfind
  have hvacant := hd.vacant_sibling hp hfind
  cases hfree : d.obstacle? place with
  | some fault =>
      rw [tidyFile_of_obstacle hread hclean hfind hd.sound hvacant hfree]
      exact .unwritten hread
  | none =>
      obtain ⟨fault?, newBytes, newMode, hpour⟩ := Disk.exists_pour
        (Utf8.encode ((SourceFile.parse text).normalize r)) (some mode) (d.siblingPlace place)
        Entry.fileMode d
      cases fault? with
      | some fault =>
          rw [tidyFile_of_spoiled hread hclean hfind hd.sound hvacant hfree hpour]
          exact tidyCase_of_kept hread hsibling _
      | none =>
          rw [Disk.eq_of_poured hpour] at hpour
          cases hmove : d.hazards.move place with
          | none =>
              rw [tidyFile_of_moved hread hclean hfind hd.sound hvacant hfree hpour hmove]
              exact .rewritten hread hfind hmode
          | some fault =>
              rw [tidyFile_of_stuck hread hclean hfind hd.sound hvacant hfree hpour hmove]
              exact tidyCase_of_kept hread hsibling _

/-! ## The steps of a file that is alone -/

/-- How far the work on a path can come on a disk where nothing else is worked on, with what the disk
is then. -/
inductive Alone (r : Rules) (d : Disk) (p : Path) : Stage → Disk → Prop
  | waiting : Alone r d p .waiting d
  | rendered {text : Text} : d.read p = .ok text → (SourceFile.parse text).normalize r ≠ text →
      Alone r d p (.rendered ((SourceFile.parse text).normalize r)) d
  | staged {text : Text} {place : Place} {bytes : ByteArray} {mode : Nat} :
      d.read p = .ok text → (SourceFile.parse text).normalize r ≠ text →
      d.find p = .ok (place, .file bytes mode) → d.obstacle? place = none →
      d.pour (Utf8.encode ((SourceFile.parse text).normalize r)) (some mode) (d.siblingPlace place)
        Entry.fileMode = (none, .file (Utf8.encode ((SourceFile.parse text).normalize r)) mode) →
      Alone r d p (.staged ⟨.ofPlace (d.siblingPlace place), .ofPlace place⟩)
        (d.put (d.siblingPlace place)
          (.file (Utf8.encode ((SourceFile.parse text).normalize r)) mode))
  | done : Alone r d p (.done (tidyFile r p d).1) (tidyFile r p d).2

/-- A step of a path's work on one disk: it comes to this stage, and at its own places the disk is
then like that of a path that is alone; all other places are left as they were. -/
structure StepsLike (r : Rules) (d : Disk) (p : Path) (e : Disk) (next : Job × Disk) : Prop where
  path : next.1.path = p
  host : next.2.toHost = e.toHost
  alone : ∃ alone, Alone r d p next.1.stage alone ∧
    ∀ x ∈ d.ownPlaces p, next.2.at? x = alone.at? x
  others : ∀ x, x ∉ d.ownPlaces p → next.2.at? x = e.at? x

theorem alone_of_tidyFile {r : Rules} {d alone : Disk} {p : Path}
    {result : Except FileFault FileOutcome} (h : tidyFile r p d = (result, alone)) :
    Alone r d p (.done result) alone := by
  have ha : Alone r d p _ _ := .done
  rwa [h] at ha

section Step

variable {r : Rules} {d e : Disk} {p : Path} {files : List Path}

/-- A step that changes nothing on the disk. -/
theorem StepsLike.still {stage : Stage} {alone : Disk} (ha : Alone r d p stage alone)
    (hown : ∀ x ∈ d.ownPlaces p, e.at? x = alone.at? x) : StepsLike r d p e (⟨p, stage⟩, e) :=
  ⟨rfl, rfl, ⟨alone, ha, hown⟩, fun _ _ => rfl⟩

/-- A step that puts something at a place of the path. -/
theorem StepsLike.put {stage : Stage} {x : Place} {entry : Entry} (hnil : x ≠ [])
    (hx : x ∈ d.ownPlaces p) (ha : Alone r d p stage (d.put x entry))
    (hown : ∀ y ∈ d.ownPlaces p, e.at? y = d.at? y) :
    StepsLike r d p e (⟨p, stage⟩, e.put x entry) := by
  refine ⟨rfl, rfl, ⟨_, ha, fun y hy => Disk.at?_put_congr hnil entry (hown y hy)⟩, ?_⟩
  intro y hy
  refine Disk.at?_put_of_ne ?_ entry e
  rintro rfl
  exact hy hx

/-- Without the new content that was waiting, the places of a path are as they were. -/
theorem at?_erase_of_waiting {x y : Place} {entry : Entry} (hnil : x ≠ []) (hvacant : d.at? x = none)
    (hy : e.at? y = (d.put x entry).at? y) : (e.erase x).at? y = d.at? y := by
  by_cases hne : y = x
  · rw [hne, Disk.at?_erase_self hnil, hvacant]
  · rw [Disk.at?_erase_of_ne hne, hy, Disk.at?_put_of_ne hne]

variable (hd : d.Separate files) (ht : d.Tended files e) (hp : p ∈ files)

include hd ht hp

/-- The file is read as if it were alone. -/
theorem stepsLike_waiting (hown : ∀ x ∈ d.ownPlaces p, e.at? x = d.at? x) :
    StepsLike r d p e (Job.step r ⟨p, .waiting⟩ e) := by
  have hfound : e.find p = d.find p :=
    ht.find_eq hd hp fun hfind => hown _ (by simp [Disk.ownPlaces_of_find hfind])
  have hcontent : e.contentOf p = d.contentOf p := by
    rw [Disk.contentOf, Disk.contentOf, Disk.read_eq_of_find hfound]
  rw [Job.step, hcontent]
  rcases hread : d.read p with fault | text
  · simp only [Disk.contentOf, hread]
    exact .still (alone_of_tidyFile (tidyFile_of_unread hread)) hown
  · simp only [Disk.contentOf, hread]
    by_cases hclean : (SourceFile.parse text).normalize r = text
    · simp only [hclean, if_true]
      exact .still (alone_of_tidyFile (tidyFile_of_clean hread hclean)) hown
    · simp only [hclean, if_false]
      exact .still (.rendered hread hclean) hown

/-- The new content is written beside the file as if it were alone, or there is the same fault. -/
theorem stepsLike_rendered {text : Text} (hread : d.read p = .ok text)
    (hunclean : (SourceFile.parse text).normalize r ≠ text)
    (hown : ∀ x ∈ d.ownPlaces p, e.at? x = d.at? x) :
    StepsLike r d p e (Job.step r ⟨p, .rendered ((SourceFile.parse text).normalize r)⟩ e) := by
  obtain ⟨place, bytes, mode, hfind, -, -⟩ := Disk.exists_file_of_read hread
  have hfile := Disk.at?_of_find hfind
  have hnames := hd.sound.entryNames hfile
  have hvacant := hd.vacant_sibling hp hfind
  have hplaces := Disk.ownPlaces_of_find hfind
  have hsibling := Disk.siblingPlace_congr ht.host place
  have hobstacle := ht.obstacle?_eq hd hfile
  have hnil := d.siblingPlace_ne_nil place
  have hwaits : d.siblingPlace place ∈ d.ownPlaces p := by simp [hplaces]
  have hfind' : e.find p = .ok (place, .file bytes mode) := by
    rw [ht.find_eq hd hp fun hfind => hown _ (by simp [Disk.ownPlaces_of_find hfind]), hfind]
  have hvacant' : e.at? (e.siblingPlace place) = none := by
    rw [hsibling, hown _ hwaits, hvacant]
  rw [Job.step]
  cases hfree : d.obstacle? place with
  | some fault =>
      have hstage := Disk.stage_of_obstacle hnames hfind' hvacant'
        (fun above habove => (ht.folder_above hd hfile habove).imp fun _ h => h.2)
        (hobstacle.trans hfree) ((SourceFile.parse text).normalize r)
      simp only [hstage]
      exact .still (alone_of_tidyFile
        (tidyFile_of_obstacle hread hunclean hfind hd.sound hvacant hfree)) hown
  | none =>
      obtain ⟨fault?, newBytes, newMode, hpour⟩ := Disk.exists_pour
        (Utf8.encode ((SourceFile.parse text).normalize r)) (some mode) (d.siblingPlace place)
        Entry.fileMode d
      have hfree' := hobstacle.trans hfree
      have hpour' : e.pour _ _ (e.siblingPlace place) _ = _ :=
        (Disk.pour_congr ht.host _ _ _ _).trans (hsibling ▸ hpour)
      cases fault? with
      | some fault =>
          have htidy := tidyFile_of_spoiled hread hunclean hfind hd.sound hvacant hfree hpour
          simp only [Disk.stage_of_spoiled hnames hfind' hvacant' hfree' hpour', hsibling, ht.host]
          cases hkeeps : d.hazards.keeps (d.siblingPlace place) with
          | false =>
              simp only [hkeeps, Bool.false_eq_true, if_false] at htidy ⊢
              exact .still (alone_of_tidyFile htidy) hown
          | true =>
              simp only [hkeeps, if_true] at htidy ⊢
              exact .put hnil hwaits (alone_of_tidyFile htidy) hown
      | none =>
          have hwhole := Disk.eq_of_poured hpour
          rw [hwhole] at hpour hpour'
          simp only [Disk.stage_of_poured hnames hfind' hvacant' hfree' hpour', hsibling]
          exact .put hnil hwaits (.staged hread hunclean hfind hfree hpour) hown

/-- The new content is moved over the file as if it were alone, or there is the same fault. -/
theorem stepsLike_staged {text : Text} {place : Place} {bytes : ByteArray} {mode : Nat}
    (hread : d.read p = .ok text) (hunclean : (SourceFile.parse text).normalize r ≠ text)
    (hfind : d.find p = .ok (place, .file bytes mode)) (hfree : d.obstacle? place = none)
    (hpour : d.pour (Utf8.encode ((SourceFile.parse text).normalize r)) (some mode)
      (d.siblingPlace place) Entry.fileMode =
        (none, .file (Utf8.encode ((SourceFile.parse text).normalize r)) mode))
    (hown : ∀ x ∈ d.ownPlaces p, e.at? x = (d.put (d.siblingPlace place)
      (.file (Utf8.encode ((SourceFile.parse text).normalize r)) mode)).at? x) :
    StepsLike r d p e
      (Job.step r ⟨p, .staged ⟨.ofPlace (d.siblingPlace place), .ofPlace place⟩⟩ e) := by
  have hfile := Disk.at?_of_find hfind
  have hnames := hd.sound.entryNames hfile
  have hvacant := hd.vacant_sibling hp hfind
  have hplaces := Disk.ownPlaces_of_find hfind
  have hne := hd.ne_siblingPlace hp hfind
  have hnil := d.siblingPlace_ne_nil place
  have hsibling := Disk.siblingPlace_congr ht.host place
  have hfree' := (ht.obstacle?_eq hd hfile).trans hfree
  have hwaits : e.at? (d.siblingPlace place) =
      some (.file (Utf8.encode ((SourceFile.parse text).normalize r)) mode) := by
    rw [hown _ (by simp [hplaces]), Disk.at?_put_self hnil]
  have hfile' : e.at? place = some (.file bytes mode) := by
    rw [hown place (by simp [hplaces]), Disk.at?_put_of_ne hne, hfile]
  have hgone : ∀ x ∈ d.ownPlaces p, (e.erase (d.siblingPlace place)).at? x = d.at? x :=
    fun x hx => at?_erase_of_waiting hnil hvacant (hown x hx)
  rw [← hsibling] at hwaits
  cases hmove : d.hazards.move place with
  | none =>
      have hsettle := Disk.settle_of_moved hnames hfree' hwaits hfile' (by rw [ht.host, hmove])
      have htidy := tidyFile_of_moved hread hunclean hfind hd.sound hvacant hfree hpour hmove
      rw [hsibling] at hsettle
      simp only [Job.step, hsettle]
      refine ⟨rfl, rfl, ⟨_, alone_of_tidyFile htidy, ?_⟩, ?_⟩
      · intro x hx
        exact Disk.at?_put_congr (Disk.ne_nil_of_file hfile) _ (hgone x hx)
      · intro x hx
        rw [hplaces] at hx
        rw [Disk.at?_put_of_ne (by simp_all), Disk.at?_erase_of_ne (by simp_all)]
  | some fault =>
      have hsettle := Disk.settle_of_stuck hnames hfree' hwaits hfile' (by rw [ht.host, hmove])
      have htidy := tidyFile_of_stuck hread hunclean hfind hd.sound hvacant hfree hpour hmove
      rw [hsibling, ht.host] at hsettle
      simp only [Job.step, hsettle]
      cases hkeeps : d.hazards.keeps (d.siblingPlace place) with
      | true =>
          simp only [hkeeps, if_true] at htidy ⊢
          exact .still (alone_of_tidyFile htidy) hown
      | false =>
          simp only [hkeeps, Bool.false_eq_true, if_false] at htidy ⊢
          refine ⟨rfl, rfl, ⟨_, alone_of_tidyFile htidy, hgone⟩, ?_⟩
          intro x hx
          rw [hplaces] at hx
          exact Disk.at?_erase_of_ne (by simp_all) e

/-- **The next step of a file is the one that it takes alone**, however far the work on other files
has come. -/
theorem step_alone {stage : Stage} {alone : Disk} (ha : Alone r d p stage alone)
    (hown : ∀ x ∈ d.ownPlaces p, e.at? x = alone.at? x) :
    StepsLike r d p e (Job.step r ⟨p, stage⟩ e) := by
  cases ha with
  | waiting => exact stepsLike_waiting hd ht hp hown
  | rendered hread hunclean => exact stepsLike_rendered hd ht hp hread hunclean hown
  | staged hread hunclean hfind hfree hpour =>
      exact stepsLike_staged hd ht hp hread hunclean hfind hfree hpour hown
  | done => exact .still .done hown

end Step

end ImportTidy

/-
# ImportTidy.Proofs.Disk.Walk — where paths lead when files get other contents

A walk looks at folders and links, and at whether something is a file, but not into files. So a path
leads to the same place on two disks that look alike at the places on its way, its *trail*
(`leads_of_trail`), and what stands there is what each disk has at that place. On a disk in which
only the contents of files have changed this is so for every path (`leads_walk`).
-/
import ImportTidy.Disk.Replace

namespace ImportTidy

namespace Disk

/-! ## Putting again -/

theorem erase_of_vacant {d : Disk} {place : Place} (hne : place ≠ []) (h : d.at? place = none) :
    d.erase place = d := by
  have hlookup : d.entries.lookup place = none := by
    cases place with
    | nil => exact absurd rfl hne
    | cons a rest => exact h
  have hentries : d.entries.filter (fun e => e.1 != place) = d.entries := by
    rw [List.filter_eq_self]
    intro e he
    have hkey := List.lookup_eq_none_iff.mp hlookup e he
    simpa [bne, Bool.beq_comm] using hkey
  show { d with entries := d.entries.filter fun e => e.1 != place } = d
  rw [hentries]

@[simp] theorem erase_put (d : Disk) (place : Place) (e : Entry) :
    (d.put place e).erase place = d.erase place := by
  simp [put, erase]

@[simp] theorem put_put (d : Disk) (place : Place) (e e' : Entry) :
    (d.put place e).put place e' = d.put place e' := by
  show { d with entries := (place, e') :: ((d.put place e).erase place).entries } = _
  rw [erase_put]
  rfl

/-- What is put at a place on both of two disks leaves them alike where they were. -/
theorem at?_put_congr {d d' : Disk} {place x : Place} (hne : place ≠ []) (e : Entry)
    (h : d'.at? x = d.at? x) : (d'.put place e).at? x = (d.put place e).at? x := by
  by_cases hx : x = place
  · rw [hx, at?_put_self hne, at?_put_self hne]
  · rw [at?_put_of_ne hx, at?_put_of_ne hx, h]

/-! ## Disks that differ in the contents of files -/

/-- The disks have the same at the place, but for the content of a file. -/
structure AlikeAt (d d' : Disk) (place : Place) : Prop where
  file : ∀ {content mode}, d.at? place = some (.file content mode) →
    ∃ content', d'.at? place = some (.file content' mode)
  other : (∀ content mode, d.at? place ≠ some (.file content mode)) → d'.at? place = d.at? place

variable {d d' d'' : Disk}

section AlikeAt

variable {place : Place} (h : d.AlikeAt d' place)

include h

theorem AlikeAt.folder {mode : Nat} (hfolder : d.at? place = some (.folder mode)) :
    d'.at? place = some (.folder mode) := by
  rw [h.other (by simp [hfolder]), hfolder]

theorem AlikeAt.link {target : Path} (hlink : d.at? place = some (.link target)) :
    d'.at? place = some (.link target) := by
  rw [h.other (by simp [hlink]), hlink]

theorem AlikeAt.vacant (hnone : d.at? place = none) : d'.at? place = none := by
  rw [h.other (by simp [hnone]), hnone]

/-- Where one disk has an entry the other has one, and a folder only where there is a folder. -/
theorem AlikeAt.entry {e : Entry} (he : d.at? place = some e) :
    ∃ e', d'.at? place = some e' ∧ ∀ mode, e' = .folder mode → e = .folder mode := by
  cases e with
  | file content mode =>
      obtain ⟨content', hfile⟩ := h.file he
      exact ⟨_, hfile, by simp⟩
  | folder mode => exact ⟨_, h.folder he, fun _ heq => heq⟩
  | link target => exact ⟨_, h.link he, by simp⟩

end AlikeAt

theorem alikeAt_of_eq {place : Place} (h : d'.at? place = d.at? place) : d.AlikeAt d' place :=
  ⟨fun hfile => ⟨_, by rw [h, hfile]⟩, fun _ => h⟩

/-- The second disk is the first with other contents in some of its files. -/
structure Refilled (d d' : Disk) : Prop where
  host : d'.toHost = d.toHost
  files : ∀ {place content mode}, d.at? place = some (.file content mode) →
    ∃ content', d'.at? place = some (.file content' mode)
  others : ∀ {place}, (∀ content mode, d.at? place ≠ some (.file content mode)) →
    d'.at? place = d.at? place

theorem Refilled.alikeAt (h : d.Refilled d') (place : Place) : d.AlikeAt d' place :=
  ⟨h.files, h.others⟩

theorem Refilled.refl (d : Disk) : d.Refilled d :=
  ⟨rfl, fun h => ⟨_, h⟩, fun _ => rfl⟩

theorem Refilled.trans (h : d.Refilled d') (h' : d'.Refilled d'') : d.Refilled d'' where
  host := h'.host.trans h.host
  files hfile := by
    obtain ⟨content, hfile'⟩ := h.files hfile
    exact h'.files hfile'
  others hno := by
    have heq := h.others hno
    rw [h'.others (by rwa [heq]), heq]

theorem Refilled.folder (h : d.Refilled d') {place : Place} {mode : Nat}
    (hfolder : d.at? place = some (.folder mode)) : d'.at? place = some (.folder mode) :=
  (h.alikeAt place).folder hfolder

theorem Refilled.vacant (h : d.Refilled d') {place : Place} (hnone : d.at? place = none) :
    d'.at? place = none :=
  (h.alikeAt place).vacant hnone

/-- The root is no file. -/
theorem ne_nil_of_file {place : Place} {content : ByteArray} {mode : Nat}
    (h : d.at? place = some (.file content mode)) : place ≠ [] := by
  rintro rfl
  exact absurd h (by simp [at?])

/-- A file that is put over another of the same mode refills it. -/
theorem refilled_put {place : Place} {content content' : ByteArray} {mode : Nat}
    (h : d.at? place = some (.file content mode)) : d.Refilled (d.put place (.file content' mode)) := by
  have hne := ne_nil_of_file h
  refine ⟨rfl, ?_, ?_⟩
  · intro other old oldMode hold
    by_cases heq : other = place
    · subst heq
      rw [at?_put_self hne]
      obtain ⟨-, rfl⟩ := Entry.file.inj (Option.some.inj (h.symm.trans hold))
      exact ⟨content', rfl⟩
    · exact ⟨old, by rwa [at?_put_of_ne heq]⟩
  · intro other hno
    refine at?_put_of_ne ?_ _ d
    rintro rfl
    exact hno content mode h

/-! ## Walks -/

/-- The places that a walk looks at, from the folder that it starts in. -/
def trailFrom (d : Disk) (follow : Bool) : (links : Nat) → Place → List Text → List Place
  | _, folder, [] => [folder]
  | links, folder, step :: rest =>
    folder ::
      match d.at? folder with
      | some (.folder mode) =>
        if !maySearch mode then []
        else if step = ['.'] then trailFrom d follow links folder rest
        else if step = ['.', '.'] then trailFrom d follow links folder.dropLast rest
        else if isTooLong step then []
        else
          let place := folder ++ [step]
          place ::
            match d.at? place with
            | some (.folder _) => trailFrom d follow links place rest
            | some (.link target) =>
              if rest.isEmpty && !follow then []
              else
                match links with
                | 0 => []
                | links + 1 =>
                  trailFrom d follow links (if target.isAbsolute then [] else folder)
                    (target.steps ++ rest)
            | _ => []
      | _ => []
termination_by links _ todo => (links, todo.length)

/-- The places that are looked at to find out where a path leads. -/
def trail (d : Disk) (p : Path) : List Place :=
  d.trailFrom true maxLinks (if p.isAbsolute then [] else d.home) p.steps

/-- Two outcomes of a walk on two disks: the same fault, the same free name, or the same place with
what each disk has there. -/
inductive Leads (d d' : Disk) : Except DiskFault Spot → Except DiskFault Spot → Prop
  | fault (f : DiskFault) : Leads d d' (.error f) (.error f)
  | free (folder : Place) (name : Text) : Leads d d' (.ok (.free folder name)) (.ok (.free folder name))
  | taken {place : Place} {e e' : Entry} : d.at? place = some e → d'.at? place = some e' →
      Leads d d' (.ok (.taken place e)) (.ok (.taken place e'))

theorem folder_mem_trailFrom (d : Disk) (follow : Bool) (links : Nat) (folder : Place)
    (steps : List Text) : folder ∈ d.trailFrom follow links folder steps := by
  cases steps with
  | nil =>
      rw [trailFrom]
      exact List.mem_cons_self
  | cons step rest =>
      rw [trailFrom]
      exact List.mem_cons_self

theorem name_mem_trailFrom {follow : Bool} {links mode : Nat} {folder : Place} {step : Text}
    {rest : List Text} (hfolder : d.at? folder = some (.folder mode))
    (hsearch : ¬ (!maySearch mode) = true) (hdot : step ≠ ['.']) (hup : step ≠ ['.', '.'])
    (hshort : ¬ isTooLong step = true) :
    folder ++ [step] ∈ d.trailFrom follow links folder (step :: rest) := by
  rw [trailFrom, hfolder]
  simp only [hsearch, hdot, hup, hshort, Bool.false_eq_true, if_false]
  exact List.mem_cons_of_mem _ List.mem_cons_self

/-- **Walks lead to the same place where the disks look alike on the trail.** -/
theorem leads_of_trail {follow : Bool} {links : Nat} {folder : Place} {steps : List Text}
    (h : ∀ place ∈ d.trailFrom follow links folder steps, d.AlikeAt d' place) :
    Leads d d' (d.walk follow links folder steps) (d'.walk follow links folder steps) := by
  have hhere := h folder (folder_mem_trailFrom d follow links folder steps)
  -- the trail branches as the walk does: each case looks only at the folder and at the next name,
  -- both on the trail, and hands the rest of the trail on
  fun_induction d.walk follow links folder steps with
  | case1 links folder entry hentry =>
      obtain ⟨entry', hentry', -⟩ := hhere.entry hentry
      rw [walk, hentry']
      exact .taken hentry hentry'
  | case2 links folder hnone =>
      rw [walk, hhere.vacant hnone]
      exact .fault _
  | case3 links folder step rest mode hfolder hsearch =>
      rw [walk, hhere.folder hfolder]
      simp only [hsearch, if_true]
      exact .fault _
  | case4 links folder rest mode hfolder hsearch ih =>
      simp only [trailFrom, hfolder, hsearch, Bool.false_eq_true, if_true, if_false,
        List.forall_mem_cons] at h
      rw [walk, hhere.folder hfolder]
      simp only [hsearch, Bool.false_eq_true, if_true, if_false]
      exact ih h.2 hhere
  | case5 links folder rest mode hfolder hsearch hstep ih =>
      simp only [trailFrom, hfolder, hsearch, hstep, Bool.false_eq_true, if_true, if_false,
        List.forall_mem_cons] at h
      rw [walk, hhere.folder hfolder]
      simp only [hsearch, hstep, Bool.false_eq_true, if_true, if_false]
      exact ih h.2 (h.2 _ (folder_mem_trailFrom _ _ _ _ _))
  | case6 links folder step rest mode hfolder hsearch hdot hup hlong =>
      rw [walk, hhere.folder hfolder]
      simp only [hsearch, hdot, hup, hlong, Bool.false_eq_true, if_true, if_false]
      exact .fault _
  | case7 links folder step rest mode hfolder hsearch hdot hup hshort place hnone hrest =>
      have hname := h _ (name_mem_trailFrom hfolder hsearch hdot hup hshort)
      rw [walk, hhere.folder hfolder]
      simp only [hsearch, hdot, hup, hshort, Bool.false_eq_true, if_false, hname.vacant hnone,
        hrest, if_true]
      exact .free _ _
  | case8 links folder step rest mode hfolder hsearch hdot hup hshort place hnone hrest =>
      have hname := h _ (name_mem_trailFrom hfolder hsearch hdot hup hshort)
      rw [walk, hhere.folder hfolder]
      simp only [hsearch, hdot, hup, hshort, Bool.false_eq_true, if_false, hname.vacant hnone, hrest]
      exact .fault _
  | case9 links folder step rest mode hfolder hsearch hdot hup hshort place mode' hnext ih =>
      simp only [trailFrom, hfolder, hsearch, hdot, hup, hshort, Bool.false_eq_true, if_false,
        List.forall_mem_cons, show d.at? (folder ++ [step]) = _ from hnext] at h
      rw [walk, hhere.folder hfolder]
      simp only [hsearch, hdot, hup, hshort, Bool.false_eq_true, if_false, h.2.1.folder hnext]
      exact ih h.2.2 h.2.1
  | case10 links folder step rest mode hfolder hsearch hdot hup hshort place content mode' hnext
      hrest =>
      have hname := h _ (name_mem_trailFrom hfolder hsearch hdot hup hshort)
      obtain ⟨content', hnext'⟩ := hname.file hnext
      rw [walk, hhere.folder hfolder]
      simp only [hsearch, hdot, hup, hshort, Bool.false_eq_true, if_false, hnext', hrest, if_true]
      exact .taken hnext hnext'
  | case11 links folder step rest mode hfolder hsearch hdot hup hshort place content mode' hnext
      hrest =>
      have hname := h _ (name_mem_trailFrom hfolder hsearch hdot hup hshort)
      obtain ⟨content', hnext'⟩ := hname.file hnext
      rw [walk, hhere.folder hfolder]
      simp only [hsearch, hdot, hup, hshort, Bool.false_eq_true, if_false, hnext', hrest]
      exact .fault _
  | case12 links folder step rest mode hfolder hsearch hdot hup hshort place target hnext hlast =>
      have hname := h _ (name_mem_trailFrom hfolder hsearch hdot hup hshort)
      rw [walk, hhere.folder hfolder]
      simp only [hsearch, hdot, hup, hshort, Bool.false_eq_true, if_false, hname.link hnext,
        hlast, if_true]
      exact .taken hnext (hname.link hnext)
  | case13 folder step rest mode hfolder hsearch hdot hup hshort place target hnext hlast =>
      have hname := h _ (name_mem_trailFrom hfolder hsearch hdot hup hshort)
      rw [walk, hhere.folder hfolder]
      simp only [hsearch, hdot, hup, hshort, Bool.false_eq_true, if_false, hname.link hnext, hlast]
      exact .fault _
  | case14 folder step rest mode hfolder hsearch hdot hup hshort place target hnext hlast links ih =>
      simp only [trailFrom, hfolder, hsearch, hdot, hup, hshort, Bool.false_eq_true, if_false,
        List.forall_mem_cons, show d.at? (folder ++ [step]) = _ from hnext, hlast] at h
      rw [walk, hhere.folder hfolder]
      simp only [hsearch, hdot, hup, hshort, Bool.false_eq_true, if_false, h.2.1.link hnext, hlast]
      exact ih h.2.2 (h.2.2 _ (folder_mem_trailFrom _ _ _ _ _))
  | case15 links folder step rest entry hno hentry =>
      obtain ⟨entry', hentry', hfolder⟩ := hhere.entry hentry
      rw [walk, hentry']
      cases entry' with
      | folder mode => exact absurd (hfolder mode rfl) (hno mode)
      | file content mode => exact .fault _
      | link target => exact .fault _
  | case16 links folder step rest hnone =>
      rw [walk, hhere.vacant hnone]
      exact .fault _

/-- A walk that comes to an entry has looked at nothing but entries. -/
theorem occupied_of_walk {follow : Bool} {links : Nat} {folder : Place} {steps : List Text}
    {place : Place} {e : Entry} (h : d.walk follow links folder steps = .ok (.taken place e)) :
    ∀ x ∈ d.trailFrom follow links folder steps, (d.at? x).isSome = true := by
  fun_induction d.walk follow links folder steps with
  | case1 links folder entry hentry =>
      simp [trailFrom, hentry]
  | case4 links folder rest mode hfolder hsearch ih =>
      simp only [trailFrom, hfolder, hsearch, Bool.false_eq_true, if_true, if_false,
        List.forall_mem_cons]
      exact ⟨rfl, ih h⟩
  | case5 links folder rest mode hfolder hsearch hstep ih =>
      simp only [trailFrom, hfolder, hsearch, hstep, Bool.false_eq_true, if_true, if_false,
        List.forall_mem_cons]
      exact ⟨rfl, ih h⟩
  | case9 links folder step rest mode hfolder hsearch hdot hup hshort place' mode' hnext ih =>
      simp only [trailFrom, hfolder, hsearch, hdot, hup, hshort, Bool.false_eq_true, if_false,
        List.forall_mem_cons, show d.at? (folder ++ [step]) = _ from hnext]
      exact ⟨rfl, rfl, ih h⟩
  | case10 links folder step rest mode hfolder hsearch hdot hup hshort place' content mode' hnext
      hrest =>
      simp only [trailFrom, hfolder, hsearch, hdot, hup, hshort, Bool.false_eq_true, if_false,
        List.forall_mem_cons, show d.at? (folder ++ [step]) = _ from hnext]
      exact ⟨rfl, rfl, by simp⟩
  | case12 links folder step rest mode hfolder hsearch hdot hup hshort place' target hnext hlast =>
      simp only [trailFrom, hfolder, hsearch, hdot, hup, hshort, Bool.false_eq_true, if_false,
        List.forall_mem_cons, show d.at? (folder ++ [step]) = _ from hnext, hlast, if_true]
      exact ⟨rfl, rfl, by simp⟩
  | case14 folder step rest mode hfolder hsearch hdot hup hshort place' target hnext hlast links ih =>
      simp only [trailFrom, hfolder, hsearch, hdot, hup, hshort, Bool.false_eq_true, if_false,
        List.forall_mem_cons, show d.at? (folder ++ [step]) = _ from hnext, hlast]
      exact ⟨rfl, rfl, ih h⟩
  | _ => exact absurd h (by simp)

/-- **On a refilled disk every walk leads to the same place.** -/
theorem leads_walk (h : d.Refilled d') (follow : Bool) (links : Nat) (folder : Place)
    (steps : List Text) :
    Leads d d' (d.walk follow links folder steps) (d'.walk follow links folder steps) :=
  leads_of_trail fun place _ => h.alikeAt place

theorem leads_spot (h : d.Refilled d') (follow : Bool) (p : Path) :
    Leads d d' (d.spot follow p) (d'.spot follow p) := by
  unfold spot
  split
  · exact .fault _
  · rw [h.host]
    exact leads_walk h follow maxLinks _ _

/-- What a path leads to is on the disk. -/
theorem at?_of_spot {follow : Bool} {p : Path} {place : Place} {e : Entry}
    (h : d.spot follow p = .ok (.taken place e)) : d.at? place = some e := by
  have hleads := leads_spot (.refl d) follow p
  rw [h] at hleads
  cases hleads with
  | taken he _ => exact he

theorem spot_of_find {p : Path} {place : Place} {e : Entry} (h : d.find p = .ok (place, e)) :
    d.spot true p = .ok (.taken place e) := by
  unfold find at h
  split at h
  · rename_i hspot
    obtain ⟨rfl, rfl⟩ := Prod.mk.inj (Except.ok.inj h)
    exact hspot
  · exact absurd h (by simp)
  · exact absurd h (by simp)

theorem at?_of_find {p : Path} {place : Place} {e : Entry} (h : d.find p = .ok (place, e)) :
    d.at? place = some e :=
  at?_of_spot (spot_of_find h)

/-- A file is read if its mode lets its owner. -/
theorem read_file {p : Path} {place : Place} {text : Text} {mode : Nat}
    (h : d.find p = .ok (place, .file (Utf8.encode text) mode)) :
    d.read p = if mayRead mode then .ok text else .error .permissionDenied := by
  simp only [read, h, Utf8.decode?_encode]
  cases mayRead mode <;> rfl

/-- A path that leads to the same place on both disks is found at that place on both, or on
neither. -/
theorem Leads.find {p : Path} (h : Leads d d' (d.spot true p) (d'.spot true p)) :
    (∃ place e e', d.find p = .ok (place, e) ∧ d'.find p = .ok (place, e') ∧
      d'.at? place = some e') ∨
    ∃ fault, d.find p = .error fault ∧ d'.find p = .error fault := by
  unfold Disk.find
  generalize d.spot true p = out, d'.spot true p = out' at h
  cases h with
  | fault f => exact Or.inr ⟨f, rfl, rfl⟩
  | free folder name => exact Or.inr ⟨.notFound, rfl, rfl⟩
  | taken he he' => exact Or.inl ⟨_, _, _, rfl, rfl, he'⟩

/-- A path leads to the same place on both disks, or to none on either. -/
theorem Refilled.find (h : d.Refilled d') (p : Path) :
    (∃ place e e', d.find p = .ok (place, e) ∧ d'.find p = .ok (place, e') ∧
      d'.at? place = some e') ∨
    ∃ fault, d.find p = .error fault ∧ d'.find p = .error fault :=
  (leads_spot h true p).find

/-- A path whose place is as it was leads to the same entry. -/
theorem Refilled.find_eq (h : d.Refilled d') {p : Path}
    (hsame : ∀ place e, d.find p = .ok (place, e) → d'.at? place = d.at? place) :
    d'.find p = d.find p := by
  rcases h.find p with ⟨place, e, e', hfind, hfind', hat⟩ | ⟨fault, hfind, hfind'⟩
  · have he := at?_of_find hfind
    rw [hsame place e hfind, he] at hat
    rw [hfind, hfind', Option.some.inj hat]
  · rw [hfind, hfind']

theorem Refilled.target (h : d.Refilled d') (p : Path) : d'.target p = d.target p := by
  unfold Disk.target
  rcases h.find p with ⟨place, e, e', hfind, hfind', -⟩ | ⟨fault, hfind, hfind'⟩
  · rw [hfind, hfind']
  · rw [hfind, hfind']

end Disk

end ImportTidy

/-
# ImportTidy.Proofs.Disk.Replacement — replacing the content of a file

New content for a file waits beside it, at its *sibling place*. When nothing is there, what comes of
writing it depends only on the folders above and on the host: it cannot be created (`obstacle?`), it is
spoiled on the way, or it waits (`stage_of_obstacle`, `stage_of_spoiled`, `stage_of_poured`). What waits
is moved over the file, or it is not (`settle_of_moved`, `settle_of_stuck`). So a replacement that can
be made goes on to succeed when the contents of files have changed: it puts the new content at the place
of the file, keeps the mode of the file and leaves the rest of the disk as it is
(`Replaceable.replace`, `Replaceable.refilled`).
-/
import ImportTidy.Proofs.Disk.Canonical

namespace ImportTidy

namespace Disk

variable {d d' : Disk} {p : Path} {place parent : Place} {n : Text} {content : ByteArray} {mode : Nat}

/-! ## Siblings -/

/-- The name of waiting content is a name, if what it is made of is one. -/
theorem isBareName_waitingName (d : Disk) {name? : Option Text}
    (h : ∀ n, name? = some n → isBareName n = true) : isBareName (d.waitingName name?) = true := by
  have hcore : Path.separator ∉ (name?.filter fun name => !d.isLabel name).getD "source".toList := by
    cases hname : name?.filter fun name => !d.isLabel name with
    | none => decide
    | some n =>
        obtain ⟨hn, -⟩ := Option.filter_eq_some_iff.mp hname
        exact separator_not_mem_of_isBareName (h n hn)
  have hnumber : Path.separator ∉ Text.ofNat d.process := by
    intro hmem
    have hdigit := Nat.isDigit_of_mem_toDigits (by decide) (by decide) hmem
    exact absurd hdigit (by decide)
  have hmem : Path.separator ∉ d.waitingName name? := by
    rw [waitingName, List.append_assoc, List.cons_append, List.mem_cons, List.mem_append,
      List.mem_append]
    rintro (hdot | hmem | hmem | hmem)
    · exact absurd hdot (by decide)
    · exact hcore hmem
    · exact absurd hmem (by decide)
    · exact hnumber hmem
  have hlong : ∀ t : Text, t.length < 3 → d.waitingName name? ≠ t := by
    rintro t ht rfl
    simp [waitingName] at ht
    omega
  simp only [isBareName, Bool.and_eq_true, bne_iff_ne, Bool.not_eq_true']
  refine ⟨⟨⟨rfl, ?_⟩, hlong _ (by decide)⟩, hlong _ (by decide)⟩
  simpa using hmem

/-- No file has the name under which its new content waits. -/
theorem Sound.ne_waitingName (hd : d.Sound) (n : Text) : n ≠ d.waitingName (some n) := by
  by_cases hlabel : d.isLabel n = true
  · -- the name that is made for a label is none
    have hname : d.waitingName (some n) = d.waitingName none := by
      simp [waitingName, Option.filter, hlabel]
    rw [hname]
    intro heq
    rw [heq, hd.made] at hlabel
    exact absurd hlabel (by simp)
  · intro heq
    have hlength := congrArg List.length heq
    simp [waitingName, Option.filter, hlabel] at hlength
    omega

/-- The place where new content for a place waits. -/
def siblingPlace (d : Disk) (place : Place) : Place :=
  place.dropLast ++ [d.siblingName (.ofPlace place)]

theorem siblingPlace_ne_nil (d : Disk) (place : Place) : d.siblingPlace place ≠ [] := by
  simp [siblingPlace]

theorem siblingPlace_congr (h : d'.toHost = d.toHost) (place : Place) :
    d'.siblingPlace place = d.siblingPlace place := by
  simp only [siblingPlace, siblingName, waitingName, h]

section

variable (hnames : ∀ x ∈ parent ++ [n], isBareName x = true)

include hnames

theorem siblingName_ofPlace (d : Disk) :
    d.siblingName (.ofPlace (parent ++ [n])) = d.waitingName (some n) := by
  rw [siblingName, Path.fileName?_ofPlace hnames]

theorem siblingPlace_append (d : Disk) :
    d.siblingPlace (parent ++ [n]) = parent ++ [d.waitingName (some n)] := by
  rw [siblingPlace, siblingName_ofPlace hnames, List.dropLast_concat]

theorem isBareName_sibling (d : Disk) : isBareName (d.waitingName (some n)) = true := by
  apply d.isBareName_waitingName
  intro m hm
  obtain rfl := Option.some.inj hm
  exact hnames n (by simp)

/-- The path of the sibling is that of its place. -/
theorem sibling_eq (d : Disk) :
    (Path.ofPlace (parent ++ [n])).sibling (d.siblingName (.ofPlace (parent ++ [n]))) =
      .ofPlace (d.siblingPlace (parent ++ [n])) := by
  rw [siblingName_ofPlace hnames, siblingPlace_append hnames,
    Path.sibling_ofPlace hnames (isBareName_sibling hnames d)]

end

/-! ## Folders above a place -/

/-- Names can be looked up at the place. -/
def isSearchable (d : Disk) (folder : Place) : Bool :=
  match d.at? folder with
  | some (.folder mode) => maySearch mode
  | _ => false

theorem isSearchable_iff {folder : Place} : d.isSearchable folder = true ↔ d.Searchable folder := by
  unfold isSearchable Searchable
  split
  · rename_i mode hfolder
    simp [hfolder]
  · rename_i hno
    simp only [Bool.false_eq_true, false_iff, not_exists, not_and]
    exact fun mode hfolder => absurd hfolder (hno mode)

theorem mem_above_append {above : Place} : above ∈ Disk.above (parent ++ [n]) ↔ above <+: parent := by
  simp only [Disk.above, List.mem_map, List.mem_range, List.length_append, List.length_singleton]
  constructor
  · rintro ⟨k, hk, rfl⟩
    rw [List.take_append_of_le_length (by omega)]
    exact List.take_prefix k parent
  · intro hprefix
    refine ⟨above.length, Nat.lt_succ_of_le hprefix.length_le, ?_⟩
    rw [List.take_append_of_le_length hprefix.length_le]
    exact (List.prefix_iff_eq_take.mp hprefix).symm

theorem searchable_above_iff :
    (Disk.above (parent ++ [n])).all d.isSearchable = true ↔
      ∀ above, above <+: parent → d.Searchable above := by
  simp only [List.all_eq_true, mem_above_append, isSearchable_iff]

/-- A file has a name in a folder. -/
theorem exists_parent_of_file (h : d.at? place = some (.file content mode)) :
    ∃ parent n, place = parent ++ [n] := by
  rcases List.eq_nil_or_concat place with rfl | ⟨parent, n, hplace⟩
  · exact absurd rfl (ne_nil_of_file h)
  · exact ⟨parent, n, by rw [hplace, List.concat_eq_append]⟩

theorem Sound.folder_of_prefix (hd : d.Sound) {above : Place}
    (h : d.at? place = some (.file content mode)) (habove : above <+: place.dropLast) :
    ∃ mode, d.at? above = some (.folder mode) := by
  obtain ⟨parent, n, rfl⟩ := exists_parent_of_file h
  rw [List.dropLast_concat] at habove
  obtain ⟨below, rfl⟩ := habove
  rw [List.append_assoc] at h
  exact hd.folder_above h (by simp)

/-- A new entry beside the folders leaves them as they are. -/
theorem at?_put_above {m : Text} {above : Place} (habove : above <+: parent) (e : Entry) :
    (d.put (parent ++ [m]) e).at? above = d.at? above := by
  apply at?_put_of_ne
  rintro rfl
  have hlength := habove.length_le
  rw [List.length_append, List.length_singleton] at hlength
  omega

theorem folder_of_mayChange {folder : Place} (h : d.mayChange folder = true) :
    ∃ mode, d.at? folder = some (.folder mode) ∧ mayWrite mode = true := by
  unfold mayChange at h
  split at h
  · exact ⟨_, ‹_›, (Bool.and_eq_true_iff.mp h).1⟩
  · exact absurd h (by simp)

/-! ## Creating the sibling -/

/-- Why new content for the place cannot be created beside it. -/
def obstacle? (d : Disk) (place : Place) : Option DiskFault :=
  if !(Disk.above place).all d.isSearchable then some .permissionDenied
  else if isTooLong (d.siblingName (.ofPlace place)) then some .nameTooLong
  else if !d.mayChange place.dropLast then some .permissionDenied
  else d.hazards.create (d.siblingPlace place)

theorem obstacle?_eq_none :
    d.obstacle? place = none ↔ (Disk.above place).all d.isSearchable = true ∧
      isTooLong (d.siblingName (.ofPlace place)) = false ∧ d.mayChange place.dropLast = true ∧
      d.hazards.create (d.siblingPlace place) = none := by
  unfold obstacle?
  cases (Disk.above place).all d.isSearchable <;>
    cases isTooLong (d.siblingName (.ofPlace place)) <;>
    cases d.mayChange place.dropLast <;> simp

/-- What is in the way depends on the folders above and on the host. -/
theorem obstacle?_congr (hhost : d'.toHost = d.toHost)
    (habove : ∀ above ∈ Disk.above place, d'.at? above = d.at? above)
    (hparent : d'.at? place.dropLast = d.at? place.dropLast) :
    d'.obstacle? place = d.obstacle? place := by
  have hsearch : (Disk.above place).all d'.isSearchable = (Disk.above place).all d.isSearchable := by
    rw [Bool.eq_iff_iff, List.all_eq_true, List.all_eq_true]
    refine forall₂_congr fun above hmem => ?_
    rw [isSearchable, isSearchable, habove above hmem]
  have hchange : d'.mayChange place.dropLast = d.mayChange place.dropLast := by
    rw [mayChange, mayChange, hparent]
  have hname : d'.siblingName (.ofPlace place) = d.siblingName (.ofPlace place) := by
    simp only [siblingName, waitingName, hhost]
  simp only [obstacle?, hsearch, hchange, hname, siblingPlace_congr hhost, hhost]

section Create

variable (hnames : ∀ x ∈ parent ++ [n], isEntryName x = true)
  (hfolders : ∀ above, above <+: parent → ∃ mode, d.at? above = some (.folder mode))
  (hvacant : d.at? (d.siblingPlace (parent ++ [n])) = none)

include hnames hfolders hvacant

/-- The way to the sibling ends at a free name or in a fault, and what is in the way tells which. -/
theorem spot_sibling_vacant (follow : Bool) :
    (∃ fault, d.spot follow (.ofPlace (d.siblingPlace (parent ++ [n]))) = .error fault ∧
      d.obstacle? (parent ++ [n]) = some fault) ∨
    d.spot follow (.ofPlace (d.siblingPlace (parent ++ [n]))) =
        .ok (.free parent (d.waitingName (some n))) ∧
      (∀ above, above <+: parent → d.Searchable above) ∧
      isTooLong (d.waitingName (some n)) = false := by
  have hbare := isBareName_of_entryNames hnames
  have hparent : ∀ x ∈ parent, isEntryName x = true := fun x hx =>
    hnames x (List.mem_append_left _ hx)
  have hsibling := isBareName_sibling hbare d
  rw [siblingPlace_append hbare] at hvacant ⊢
  by_cases hs : ∀ above, above <+: parent → d.Searchable above
  · have hall := searchable_above_iff (n := n).mpr hs
    cases hlong : isTooLong (d.waitingName (some n)) with
    | true =>
        refine Or.inl ⟨.nameTooLong, spot_ofPlace_tooLong hparent hsibling hs hlong follow, ?_⟩
        simp [obstacle?, hall, siblingName_ofPlace hbare, hlong]
    | false =>
        have hname : ∀ x ∈ parent ++ [d.waitingName (some n)], isEntryName x = true := by
          intro x hx
          rcases List.mem_append.mp hx with hx | hx
          · exact hparent x hx
          · rw [List.mem_singleton.mp hx, isEntryName, hsibling, hlong]
            rfl
        exact Or.inr ⟨spot_ofPlace_free hname hs hvacant follow, hs, rfl⟩
  · refine Or.inl ⟨.permissionDenied, ?_, ?_⟩
    · rw [spot_ofPlace_eq (isBareName_concat hparent hsibling)]
      exact walk_of_not_searchable hparent hfolders hs
    · rw [← searchable_above_iff (n := n), Bool.not_eq_true] at hs
      simp [obstacle?, hs]

theorem create_of_obstacle {fault : DiskFault} (h : d.obstacle? (parent ++ [n]) = some fault) :
    d.create (.ofPlace (d.siblingPlace (parent ++ [n]))) = .error fault := by
  rcases spot_sibling_vacant hnames hfolders hvacant true with
    ⟨fault', hspot, hobstacle⟩ | ⟨hspot, hs, hshort⟩
  · obtain rfl := Option.some.inj (h.symm.trans hobstacle)
    simp only [create, hspot]
  · have hbare := isBareName_of_entryNames hnames
    have hall := searchable_above_iff (n := n).mpr hs
    simp only [obstacle?, hall, siblingName_ofPlace hbare, hshort, List.dropLast_concat,
      Bool.not_true, Bool.false_eq_true, if_false] at h
    simp only [create, hspot]
    cases hchange : d.mayChange parent with
    | false =>
        simp only [hchange, Bool.not_false, if_true, Option.some.injEq] at h
        simp [h]
    | true =>
        simp only [hchange, Bool.not_true, Bool.false_eq_true, if_false,
          siblingPlace_append hbare] at h
        simp [h]

/-- What cannot be created is not there to be taken away. -/
theorem remove_sibling : d.remove (.ofPlace (d.siblingPlace (parent ++ [n]))) = d := by
  rcases spot_sibling_vacant hnames hfolders hvacant false with ⟨fault, hspot, -⟩ | ⟨hspot, -⟩
  · simp only [remove, hspot]
  · simp only [remove, hspot]

end Create

theorem searchable_of_unobstructed (hfree : d.obstacle? (parent ++ [n]) = none) :
    ∀ above, above <+: parent → d.Searchable above :=
  searchable_above_iff.mp (obstacle?_eq_none.mp hfree).1

section Unobstructed

variable (hnames : ∀ x ∈ parent ++ [n], isEntryName x = true)
  (hfree : d.obstacle? (parent ++ [n]) = none)

include hnames hfree

theorem isEntryName_of_unobstructed :
    ∀ x ∈ parent ++ [d.waitingName (some n)], isEntryName x = true := by
  have hbare := isBareName_of_entryNames hnames
  obtain ⟨-, hshort, -, -⟩ := obstacle?_eq_none.mp hfree
  rw [siblingName_ofPlace hbare] at hshort
  intro x hx
  rcases List.mem_append.mp hx with hx | hx
  · exact hnames x (List.mem_append_left _ hx)
  · rw [List.mem_singleton.mp hx, isEntryName, isBareName_sibling hbare, hshort]
    rfl

theorem create_of_unobstructed (hvacant : d.at? (d.siblingPlace (parent ++ [n])) = none) :
    d.create (.ofPlace (d.siblingPlace (parent ++ [n]))) =
      .ok (d.siblingPlace (parent ++ [n]), Entry.fileMode) := by
  obtain ⟨-, -, hchange, hcreate⟩ := obstacle?_eq_none.mp hfree
  have hbare := isBareName_of_entryNames hnames
  have hs := searchable_of_unobstructed hfree
  have hname := isEntryName_of_unobstructed hnames hfree
  rw [List.dropLast_concat] at hchange
  rw [siblingPlace_append hbare] at hvacant hcreate ⊢
  simp only [create, spot_ofPlace_free hname hs hvacant true, hchange, if_true, hcreate]

theorem modeOf?_of_unobstructed (hfile : d.at? (parent ++ [n]) = some (.file content mode)) :
    d.modeOf? (.ofPlace (parent ++ [n])) = some mode := by
  rw [modeOf?, find, spot_ofPlace_file hnames (searchable_of_unobstructed hfree) hfile]
  rfl

/-- What waits is found by its path. -/
theorem spot_waiting {bytes : ByteArray} {newMode : Nat}
    (hwaits : d.at? (d.siblingPlace (parent ++ [n])) = some (.file bytes newMode)) :
    d.spot false (.ofPlace (d.siblingPlace (parent ++ [n]))) =
      .ok (.taken (d.siblingPlace (parent ++ [n])) (.file bytes newMode)) := by
  have hbare := isBareName_of_entryNames hnames
  rw [siblingPlace_append hbare] at hwaits ⊢
  exact spot_ofPlace_file (isEntryName_of_unobstructed hnames hfree)
    (searchable_of_unobstructed hfree) hwaits false

/-- What waits is taken away, unless the system keeps it. -/
theorem remove_waiting {bytes : ByteArray} {newMode : Nat}
    (hwaits : d.at? (d.siblingPlace (parent ++ [n])) = some (.file bytes newMode)) :
    d.remove (.ofPlace (d.siblingPlace (parent ++ [n]))) =
      if d.hazards.keeps (d.siblingPlace (parent ++ [n])) then d
      else d.erase (d.siblingPlace (parent ++ [n])) := by
  obtain ⟨-, -, hchange, -⟩ := obstacle?_eq_none.mp hfree
  have hdrop : (d.siblingPlace (parent ++ [n])).dropLast = (parent ++ [n]).dropLast := by
    simp [siblingPlace]
  simp only [remove, spot_waiting hnames hfree hwaits, discard, hdrop, hchange, Bool.true_and]
  cases d.hazards.keeps (d.siblingPlace (parent ++ [n])) <;> simp

end Unobstructed

/-- The obstacles are those of the disk when new content waits. -/
theorem obstacle?_put (hnames : ∀ x ∈ parent ++ [n], isBareName x = true) (e : Entry) :
    (d.put (d.siblingPlace (parent ++ [n])) e).obstacle? (parent ++ [n]) =
      d.obstacle? (parent ++ [n]) := by
  rw [siblingPlace_append hnames]
  refine obstacle?_congr rfl (fun above hmem => at?_put_above (mem_above_append.mp hmem) e) ?_
  rw [List.dropLast_concat]
  exact at?_put_above (List.prefix_refl _) e

/-! ## Writing the sibling -/

section Stage

variable (hnames : ∀ x ∈ place, isEntryName x = true)
  (hfind : d.find p = .ok (place, .file content mode))
  (hvacant : d.at? (d.siblingPlace place) = none)

include hnames hfind hvacant

/-- Where the new content cannot be created, nothing has changed. -/
theorem stage_of_obstacle
    (hfolders : ∀ above, above <+: place.dropLast → ∃ mode, d.at? above = some (.folder mode))
    {fault : DiskFault} (h : d.obstacle? place = some fault) (text : Text) :
    d.stage text p = (.error fault, d) := by
  have htarget : d.target p = .ofPlace place := by rw [target, hfind]
  obtain ⟨parent, n, rfl⟩ := exists_parent_of_file (at?_of_find hfind)
  rw [List.dropLast_concat] at hfolders
  simp only [stage, htarget, sibling_eq (isBareName_of_entryNames hnames), write,
    create_of_obstacle hnames hfolders hvacant h, remove_sibling hnames hfolders hvacant]

variable (hfree : d.obstacle? place = none) {text : Text} {file : Entry}

include hfree

/-- What was written in full waits beside the file. -/
theorem stage_of_poured
    (hpour : d.pour (Utf8.encode text) (some mode) (d.siblingPlace place) Entry.fileMode =
      (none, file)) :
    d.stage text p = (.ok ⟨.ofPlace (d.siblingPlace place), .ofPlace place⟩,
      d.put (d.siblingPlace place) file) := by
  have htarget : d.target p = .ofPlace place := by rw [target, hfind]
  have hfile := at?_of_find hfind
  obtain ⟨parent, n, rfl⟩ := exists_parent_of_file hfile
  simp only [stage, htarget, sibling_eq (isBareName_of_entryNames hnames), write,
    create_of_unobstructed hnames hfree hvacant, modeOf?_of_unobstructed hnames hfree hfile, hpour]

/-- What was spoiled is taken away, unless the system keeps it. -/
theorem stage_of_spoiled {fault : DiskFault} {bytes : ByteArray} {newMode : Nat}
    (hpour : d.pour (Utf8.encode text) (some mode) (d.siblingPlace place) Entry.fileMode =
      (some fault, .file bytes newMode)) :
    d.stage text p = (.error fault,
      if d.hazards.keeps (d.siblingPlace place) then
        d.put (d.siblingPlace place) (.file bytes newMode)
      else d) := by
  have htarget : d.target p = .ofPlace place := by rw [target, hfind]
  have hfile := at?_of_find hfind
  have hnil := d.siblingPlace_ne_nil place
  obtain ⟨parent, n, rfl⟩ := exists_parent_of_file hfile
  have hbare := isBareName_of_entryNames hnames
  have hremove := remove_waiting (d := d.put (d.siblingPlace (parent ++ [n])) (.file bytes newMode))
    hnames (by rw [obstacle?_put hbare, hfree]) (at?_put_self hnil (.file bytes newMode) d)
  rw [siblingPlace_congr (toHost_put _ _ d), toHost_put, erase_put, erase_of_vacant hnil hvacant]
    at hremove
  simp only [stage, htarget, sibling_eq hbare, write, create_of_unobstructed hnames hfree hvacant,
    modeOf?_of_unobstructed hnames hfree hfile, hpour, hremove]

end Stage

/-- What is poured is a file. -/
theorem exists_pour (content : ByteArray) (mode? : Option Nat) (place : Place) (mode : Nat)
    (d : Disk) : ∃ fault? bytes newMode,
      d.pour content mode? place mode = (fault?, .file bytes newMode) := by
  unfold pour
  split
  · exact ⟨_, _, _, rfl⟩
  split
  · exact ⟨_, _, _, rfl⟩
  · exact ⟨_, _, _, rfl⟩

/-- When nothing went wrong it has the content and the mode. -/
theorem eq_of_poured {mode? : Option Nat} {file : Entry}
    (h : d.pour content mode? place mode = (none, file)) :
    file = .file content (mode?.getD mode) := by
  unfold pour at h
  split at h
  · exact absurd (Prod.mk.inj h).1 (by simp)
  split at h
  · exact absurd (Prod.mk.inj h).1 (by simp)
  · exact (Prod.mk.inj h).2.symm

/-- What goes wrong does not depend on the mode. -/
theorem pour_fault (content : ByteArray) (mode mode' : Nat) (place : Place) (newMode : Nat) (d : Disk) :
    (d.pour content (some mode) place newMode).1 = (d.pour content (some mode') place newMode).1 := by
  unfold pour
  split
  · rfl
  · simp only [Option.bind_some]
    split <;> rfl

theorem pour_congr (h : d'.toHost = d.toHost) (content : ByteArray) (mode? : Option Nat)
    (place : Place) (mode : Nat) :
    d'.pour content mode? place mode = d.pour content mode? place mode := by
  simp only [pour, h]

/-! ## Moving it over the file -/

/-- A path without a separator at its end is bare. -/
theorem bare_of_getLast? (hp : p.text.getLast? ≠ some Path.separator) :
    (p.text.reverse.dropWhile (· == Path.separator)).reverse = p.text := by
  rw [List.getLast?_eq_head?_reverse] at hp
  cases hrev : p.text.reverse with
  | nil => rw [List.reverse_eq_nil_iff.mp hrev]; rfl
  | cons c rest =>
      rw [hrev, List.head?_cons] at hp
      have hc : (c == Path.separator) = false := by simpa using hp
      rw [List.dropWhile_cons_of_neg (by simp [hc]), ← hrev, List.reverse_reverse]

theorem landing_of_spot (hp : p.text.getLast? ≠ some Path.separator)
    (hspot : d.spot false p = .ok (.taken place (.file content mode)))
    (hchange : d.mayChange place.dropLast = true) : d.landing p = .ok place := by
  unfold landing
  simp only [bare_of_getLast? hp, hspot, ne_eq, not_true_eq_false, if_false, hchange, if_true]

section Settle

variable {bytes : ByteArray} {newMode : Nat} (hnames : ∀ x ∈ place, isEntryName x = true)
  (hfree : d.obstacle? place = none)
  (hwaits : d.at? (d.siblingPlace place) = some (.file bytes newMode))
  (hfile : d.at? place = some (.file content mode))

include hnames hfree hwaits hfile

/-- What waits is moved over the file, ... -/
theorem settle_of_moved (hmove : d.hazards.move place = none) :
    d.settle ⟨.ofPlace (d.siblingPlace place), .ofPlace place⟩ =
      (.ok (), (d.erase (d.siblingPlace place)).put place (.file bytes newMode)) := by
  obtain ⟨parent, n, rfl⟩ := exists_parent_of_file hfile
  obtain ⟨-, -, hchange, -⟩ := obstacle?_eq_none.mp hfree
  have htarget := spot_ofPlace_file hnames (searchable_of_unobstructed hfree) hfile false
  have hlanding := landing_of_spot (Path.getLast?_ofPlace (isBareName_of_entryNames hnames)) htarget
    hchange
  simp only [settle, move, spot_waiting hnames hfree hwaits, hlanding, hmove]

/-- ... or it is taken away, unless the system keeps it. -/
theorem settle_of_stuck {fault : DiskFault} (hmove : d.hazards.move place = some fault) :
    d.settle ⟨.ofPlace (d.siblingPlace place), .ofPlace place⟩ =
      (.error fault, if d.hazards.keeps (d.siblingPlace place) then d
        else d.erase (d.siblingPlace place)) := by
  obtain ⟨parent, n, rfl⟩ := exists_parent_of_file hfile
  obtain ⟨-, -, hchange, -⟩ := obstacle?_eq_none.mp hfree
  have htarget := spot_ofPlace_file hnames (searchable_of_unobstructed hfree) hfile false
  have hlanding := landing_of_spot (Path.getLast?_ofPlace (isBareName_of_entryNames hnames)) htarget
    hchange
  simp only [settle, move, spot_waiting hnames hfree hwaits, hlanding, hmove,
    remove_waiting hnames hfree hwaits]

end Settle

section SettlePut

variable {bytes : ByteArray} {newMode : Nat} (hnames : ∀ x ∈ place, isEntryName x = true)
  (hfree : d.obstacle? place = none) (hvacant : d.at? (d.siblingPlace place) = none)
  (hfile : d.at? place = some (.file content mode))

include hvacant hfile in
theorem ne_siblingPlace_of_vacant : place ≠ d.siblingPlace place := by
  intro heq
  rw [← heq, hfile] at hvacant
  exact absurd hvacant (by simp)

include hnames hfile hfree in
theorem unobstructed_put (e : Entry) :
    (d.put (d.siblingPlace place) e).obstacle? place = none := by
  obtain ⟨parent, n, rfl⟩ := exists_parent_of_file hfile
  rw [obstacle?_put (isBareName_of_entryNames hnames), hfree]

include hnames hfree hvacant hfile

/-- What was just written is moved over the file, ... -/
theorem settle_put_of_moved (hmove : d.hazards.move place = none) :
    (d.put (d.siblingPlace place) (.file bytes newMode)).settle
        ⟨.ofPlace (d.siblingPlace place), .ofPlace place⟩ =
      (.ok (), d.put place (.file bytes newMode)) := by
  have hnil := d.siblingPlace_ne_nil place
  have hne := ne_siblingPlace_of_vacant hvacant hfile
  have hsettle := settle_of_moved (d := d.put (d.siblingPlace place) (.file bytes newMode)) hnames
    (unobstructed_put hnames hfree hfile _) (at?_put_self hnil _ d) (by rwa [at?_put_of_ne hne]) hmove
  rwa [siblingPlace_congr (toHost_put _ _ d), erase_put, erase_of_vacant hnil hvacant] at hsettle

/-- ... or it is taken away again. -/
theorem settle_put_of_stuck {fault : DiskFault} (hmove : d.hazards.move place = some fault) :
    (d.put (d.siblingPlace place) (.file bytes newMode)).settle
        ⟨.ofPlace (d.siblingPlace place), .ofPlace place⟩ =
      (.error fault, if d.hazards.keeps (d.siblingPlace place) then
        d.put (d.siblingPlace place) (.file bytes newMode) else d) := by
  have hnil := d.siblingPlace_ne_nil place
  have hne := ne_siblingPlace_of_vacant hvacant hfile
  have hsettle := settle_of_stuck (d := d.put (d.siblingPlace place) (.file bytes newMode)) hnames
    (unobstructed_put hnames hfree hfile _) (at?_put_self hnil _ d) (by rwa [at?_put_of_ne hne]) hmove
  rwa [siblingPlace_congr (toHost_put _ _ d), erase_put, erase_of_vacant hnil hvacant] at hsettle

end SettlePut

/-! ## Replacing a file -/

/-- New content for the place can be written and moved, and nothing is where it would wait. -/
structure Replaceable (d : Disk) (place : Place) : Prop where
  names : ∀ x ∈ place, isEntryName x = true
  unobstructed : d.obstacle? place = none
  vacant : d.at? (d.siblingPlace place) = none
  poured : ∀ text mode, (d.pour (Utf8.encode text) (some mode) (d.siblingPlace place)
    Entry.fileMode).1 = none
  moved : d.hazards.move place = none

/-- Whether a file can be replaced depends on the folders above it and on the host. -/
theorem Replaceable.refilled (hr : d.Replaceable place) (h : d.Refilled d') :
    d'.Replaceable place := by
  obtain ⟨hsearch, -, hchange, -⟩ := obstacle?_eq_none.mp hr.unobstructed
  refine ⟨hr.names, ?_, ?_, fun text mode => ?_, ?_⟩
  · rw [obstacle?_congr h.host ?_ ?_, hr.unobstructed]
    · intro above hmem
      obtain ⟨mode, hfolder, -⟩ := isSearchable_iff.mp (List.all_eq_true.mp hsearch above hmem)
      rw [hfolder, h.folder hfolder]
    · obtain ⟨mode, hfolder, -⟩ := folder_of_mayChange hchange
      rw [hfolder, h.folder hfolder]
  · rw [siblingPlace_congr h.host]
    exact h.vacant hr.vacant
  · rw [siblingPlace_congr h.host, pour_congr h.host]
    exact hr.poured text mode
  · rw [h.host]
    exact hr.moved

/-- The new content waits with the mode of the file. -/
theorem Replaceable.pour (hr : d.Replaceable place) (text : Text) (mode : Nat) :
    d.pour (Utf8.encode text) (some mode) (d.siblingPlace place) Entry.fileMode =
      (none, .file (Utf8.encode text) mode) := by
  have hnone := hr.poured text mode
  generalize hpour : d.pour _ _ _ _ = poured at hnone ⊢
  obtain ⟨_, file⟩ := poured
  obtain rfl : _ = none := hnone
  rw [eq_of_poured hpour, Option.getD_some]

/-- **A replacement puts the content at the place, and nothing else changes.** -/
theorem Replaceable.replace (hr : d.Replaceable place)
    (hfind : d.find p = .ok (place, .file content mode)) (text : Text) :
    d.replace text p = (.ok (), d.put place (.file (Utf8.encode text) mode)) := by
  have hfile := at?_of_find hfind
  have hstage := stage_of_poured hr.names hfind hr.vacant hr.unobstructed (hr.pour text mode)
  simp only [Disk.replace, hstage,
    settle_put_of_moved hr.names hr.unobstructed hr.vacant hfile hr.moved]

/-! ## Where a replacement succeeds -/

/-- **A replacement that succeeds with every content can be made.** On a sound disk, the way to the
sibling is the way to the file. -/
theorem replaceable_of_replace (hd : d.Sound) (hfind : d.find p = .ok (place, .file content mode))
    (hvacant : d.at? (d.siblingPlace place) = none)
    (hok : ∀ text, (d.replace text p).1 = .ok ()) : d.Replaceable place := by
  have hfile := at?_of_find hfind
  have hnames := hd.entryNames hfile
  have hfree : d.obstacle? place = none := by
    cases hobstacle : d.obstacle? place with
    | none => rfl
    | some fault =>
        have hfailed := hok []
        simp [replace, stage_of_obstacle hnames hfind hvacant (fun above => hd.folder_of_prefix hfile)
          hobstacle] at hfailed
  have hpoured : ∀ text, (d.pour (Utf8.encode text) (some mode) (d.siblingPlace place)
      Entry.fileMode).1 = none := by
    intro text
    obtain ⟨fault?, bytes, newMode, hpour⟩ := exists_pour (Utf8.encode text) (some mode)
      (d.siblingPlace place) Entry.fileMode d
    rw [hpour]
    cases fault? with
    | none => rfl
    | some fault =>
        have hfailed := hok text
        simp [replace, stage_of_spoiled hnames hfind hvacant hfree hpour] at hfailed
  refine ⟨hnames, hfree, hvacant, ?_, ?_⟩
  · intro text newMode
    rw [← hpoured text]
    exact pour_fault _ _ _ _ _ d
  · cases hmove : d.hazards.move place with
    | none => rfl
    | some fault =>
        have hfailed := hok []
        obtain ⟨fault?, bytes, newMode, hpour⟩ := exists_pour (Utf8.encode []) (some mode)
          (d.siblingPlace place) Entry.fileMode d
        obtain rfl : fault? = none := by rw [← hpoured [], hpour]
        have hstage := stage_of_poured hnames hfind hvacant hfree hpour
        simp [replace, hstage, settle_put_of_stuck hnames hfree hvacant hfile hmove] at hfailed

/-- What the path leads to can be written, whatever the content is. -/
def Writable (d : Disk) (p : Path) : Prop := ∀ text, (d.replace text p).1 = .ok ()

/-- Where new content waits for the file that the path leads to. -/
def sibling? (d : Disk) (p : Path) : Option Place :=
  match d.find p with
  | .ok (place, .file _ _) => some (d.siblingPlace place)
  | _ => none

theorem sibling?_of_find (h : d.find p = .ok (place, .file content mode)) :
    d.sibling? p = some (d.siblingPlace place) := by
  rw [sibling?, h]

theorem sibling?_eq_some {x : Place} : d.sibling? p = some x ↔
    ∃ place content mode, d.find p = .ok (place, .file content mode) ∧ x = d.siblingPlace place := by
  constructor
  · intro h
    unfold sibling? at h
    split at h
    · exact ⟨_, _, _, ‹_›, (Option.some.inj h).symm⟩
    · exact absurd h (by simp)
  · rintro ⟨place, content, mode, hfind, rfl⟩
    exact sibling?_of_find hfind

/-- Nothing is where new content for the file that the path leads to would wait. -/
def FreeBeside (d : Disk) (p : Path) : Prop := ∀ x, d.sibling? p = some x → d.at? x = none

end Disk

end ImportTidy

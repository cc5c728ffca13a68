/-
# ImportTidy.Proofs.Disk.Routes — walks that arrive

A walk that arrives somewhere is a *route*: it enters folders, goes up, follows links and ends at
an entry or at a free name (`route_iff`). Routes show how a change at one place bears on a path. If
the place is a *dead end*, through which nothing is reached, then every route ends after the change
where it ended before, and finds there what is there now (`Route.seenOn`). Files and free names are
dead ends; a link is one if what it points to leads nowhere (`Route.deadEnd`).
-/
import ImportTidy.Proofs.Disk.Canonical

namespace ImportTidy

namespace Spot

/-- The place that is spoken of, whether it is taken or free. -/
def place : Spot → Place
  | taken place _ => place
  | free folder name => folder ++ [name]

/-- What stands at the spot. -/
def occupant? : Spot → Option Entry
  | taken _ e => some e
  | free _ _ => none

/-- There is something at the spot. -/
def IsTaken (r : Spot) : Prop := r.occupant?.isSome = true

end Spot

namespace Disk

variable {d d' : Disk} {follow : Bool} {links : Nat} {folder goal : Place} {steps rest : List Text}
  {step : Text} {p target : Path} {r : Spot}

/-! ## Single steps -/

/-- The step goes to a name in the folder. -/
structure Names (d : Disk) (folder : Place) (step : Text) : Prop where
  searchable : d.Searchable folder
  ne_here : step ≠ ['.']
  ne_up : step ≠ ['.', '.']
  short : isTooLong step = false

/-- The step of a walk that has passed its checks. -/
theorem names_of_checks {mode : Nat} (hfolder : d.at? folder = some (.folder mode))
    (hsearch : ¬ (!maySearch mode) = true) (hhere : ¬ step = ['.']) (hup : ¬ step = ['.', '.'])
    (hshort : ¬ isTooLong step = true) : d.Names folder step :=
  ⟨⟨mode, hfolder, by simpa using hsearch⟩, hhere, hup, by simpa using hshort⟩

/-- Where the path in a link starts. -/
def linkStart (folder : Place) (target : Path) : Place :=
  if target.isAbsolute then [] else folder

theorem walk_here (hs : d.Searchable folder) :
    d.walk follow links folder (['.'] :: rest) = d.walk follow links folder rest := by
  obtain ⟨mode, hfolder, hmode⟩ := hs
  rw [walk, hfolder]
  simp only [hmode, Bool.not_true, Bool.false_eq_true, if_false, if_true]

theorem walk_up (hs : d.Searchable folder) :
    d.walk follow links folder (['.', '.'] :: rest) = d.walk follow links folder.dropLast rest := by
  obtain ⟨mode, hfolder, hmode⟩ := hs
  have hne : ['.', '.'] ≠ ['.'] := by decide
  rw [walk, hfolder]
  simp only [hmode, Bool.not_true, Bool.false_eq_true, if_false, hne, if_true]

/-- A link is followed in the last step if asked for, and in any other step. -/
theorem isEmpty_and_not (hrest : rest = [] → follow = true) : (rest.isEmpty && !follow) = false := by
  cases rest with
  | nil => rw [hrest rfl]; rfl
  | cons _ _ => rfl

section Names

variable (hn : d.Names folder step)

include hn

theorem walk_folder {mode : Nat} (hnext : d.at? (folder ++ [step]) = some (.folder mode)) :
    d.walk follow links folder (step :: rest) = d.walk follow links (folder ++ [step]) rest := by
  obtain ⟨⟨mode', hfolder, hmode⟩, hhere, hup, hshort⟩ := hn
  rw [walk, hfolder]
  simp only [hmode, Bool.not_true, Bool.false_eq_true, if_false, hhere, hup, hshort, hnext]

theorem walk_free (hnext : d.at? (folder ++ [step]) = none) :
    d.walk follow links folder [step] = .ok (.free folder step) := by
  obtain ⟨⟨mode', hfolder, hmode⟩, hhere, hup, hshort⟩ := hn
  rw [walk, hfolder]
  simp only [hmode, Bool.not_true, Bool.false_eq_true, if_false, hhere, hup, hshort, hnext,
    List.isEmpty_nil, if_true]

theorem walk_file {content : ByteArray} {mode : Nat}
    (hnext : d.at? (folder ++ [step]) = some (.file content mode)) :
    d.walk follow links folder [step] = .ok (.taken (folder ++ [step]) (.file content mode)) := by
  obtain ⟨⟨mode', hfolder, hmode⟩, hhere, hup, hshort⟩ := hn
  rw [walk, hfolder]
  simp only [hmode, Bool.not_true, Bool.false_eq_true, if_false, hhere, hup, hshort, hnext,
    List.isEmpty_nil, if_true]

theorem walk_link (hnext : d.at? (folder ++ [step]) = some (.link target)) :
    d.walk false links folder [step] = .ok (.taken (folder ++ [step]) (.link target)) := by
  obtain ⟨⟨mode', hfolder, hmode⟩, hhere, hup, hshort⟩ := hn
  rw [walk, hfolder]
  simp only [hmode, Bool.not_true, Bool.false_eq_true, if_false, hhere, hup, hshort, hnext,
    List.isEmpty_nil, Bool.not_false, Bool.and_self, if_true]

variable (hnext : d.at? (folder ++ [step]) = some (.link target)) (hrest : rest = [] → follow = true)

include hnext hrest

theorem walk_through :
    d.walk follow (links + 1) folder (step :: rest) =
      d.walk follow links (linkStart folder target) (target.steps ++ rest) := by
  obtain ⟨⟨mode', hfolder, hmode⟩, hhere, hup, hshort⟩ := hn
  rw [walk, hfolder]
  simp only [hmode, Bool.not_true, Bool.false_eq_true, if_false, hhere, hup, hshort, hnext,
    isEmpty_and_not hrest]
  rfl

theorem walk_exhausted :
    d.walk follow 0 folder (step :: rest) = .error .tooManyLinks := by
  obtain ⟨⟨mode', hfolder, hmode⟩, hhere, hup, hshort⟩ := hn
  rw [walk, hfolder]
  simp only [hmode, Bool.not_true, Bool.false_eq_true, if_false, hhere, hup, hshort, hnext,
    isEmpty_and_not hrest]

end Names

/-! ## Routes -/

/-- The walks that arrive at a spot. -/
inductive Route (d : Disk) (follow : Bool) : Nat → Place → List Text → Spot → Prop
  | stop {links : Nat} {folder : Place} {e : Entry} : d.at? folder = some e →
      Route d follow links folder [] (.taken folder e)
  | here {links : Nat} {folder : Place} {rest : List Text} {r : Spot} : d.Searchable folder →
      Route d follow links folder rest r → Route d follow links folder (['.'] :: rest) r
  | up {links : Nat} {folder : Place} {rest : List Text} {r : Spot} : d.Searchable folder →
      Route d follow links folder.dropLast rest r →
        Route d follow links folder (['.', '.'] :: rest) r
  | enter {links mode : Nat} {folder : Place} {step : Text} {rest : List Text} {r : Spot} :
      d.Names folder step → d.at? (folder ++ [step]) = some (.folder mode) →
        Route d follow links (folder ++ [step]) rest r → Route d follow links folder (step :: rest) r
  | free {links : Nat} {folder : Place} {step : Text} : d.Names folder step →
      d.at? (folder ++ [step]) = none → Route d follow links folder [step] (.free folder step)
  | file {links mode : Nat} {folder : Place} {step : Text} {content : ByteArray} :
      d.Names folder step → d.at? (folder ++ [step]) = some (.file content mode) →
        Route d follow links folder [step] (.taken (folder ++ [step]) (.file content mode))
  | link {links : Nat} {folder : Place} {step : Text} {target : Path} : d.Names folder step →
      d.at? (folder ++ [step]) = some (.link target) → follow = false →
        Route d follow links folder [step] (.taken (folder ++ [step]) (.link target))
  | through {links : Nat} {folder : Place} {step : Text} {rest : List Text} {target : Path}
      {r : Spot} : d.Names folder step → d.at? (folder ++ [step]) = some (.link target) →
      (rest = [] → follow = true) →
        Route d follow links (linkStart folder target) (target.steps ++ rest) r →
          Route d follow (links + 1) folder (step :: rest) r

theorem Route.walk (h : Route d follow links folder steps r) :
    d.walk follow links folder steps = .ok r := by
  induction h with
  | stop hentry => rw [Disk.walk, hentry]
  | here hs _ ih => rw [walk_here hs, ih]
  | up hs _ ih => rw [walk_up hs, ih]
  | enter hn hnext _ ih => rw [walk_folder hn hnext, ih]
  | free hn hnext => exact walk_free hn hnext
  | file hn hnext => exact walk_file hn hnext
  | link hn hnext hfollow =>
      subst hfollow
      exact walk_link hn hnext
  | through hn hnext hrest _ ih => rw [walk_through hn hnext hrest, ih]

theorem route_of_walk (h : d.walk follow links folder steps = .ok r) :
    Route d follow links folder steps r := by
  -- the cases that are left out are those in which the walk fails
  fun_induction d.walk follow links folder steps with
  | case1 links folder entry hentry =>
      cases h
      exact .stop hentry
  | case4 links folder rest mode hfolder hsearch ih =>
      exact .here ⟨mode, hfolder, by simpa using hsearch⟩ (ih h)
  | case5 links folder rest mode hfolder hsearch hstep ih =>
      exact .up ⟨mode, hfolder, by simpa using hsearch⟩ (ih h)
  | case7 links folder step rest mode hfolder hsearch hdot hup hshort place hnone hrest =>
      cases h
      rw [List.isEmpty_iff.mp hrest]
      exact .free (names_of_checks hfolder hsearch hdot hup hshort) hnone
  | case9 links folder step rest mode hfolder hsearch hdot hup hshort place mode' hnext ih =>
      exact .enter (names_of_checks hfolder hsearch hdot hup hshort) hnext (ih h)
  | case10 links folder step rest mode hfolder hsearch hdot hup hshort place content mode' hnext
      hrest =>
      cases h
      rw [List.isEmpty_iff.mp hrest]
      exact .file (names_of_checks hfolder hsearch hdot hup hshort) hnext
  | case12 links folder step rest mode hfolder hsearch hdot hup hshort place target hnext hlast =>
      cases h
      obtain ⟨hrest, hfollow⟩ := Bool.and_eq_true_iff.mp hlast
      rw [List.isEmpty_iff.mp hrest]
      exact .link (names_of_checks hfolder hsearch hdot hup hshort) hnext (by simpa using hfollow)
  | case14 folder step rest mode hfolder hsearch hdot hup hshort place target hnext hlast links ih =>
      refine .through (names_of_checks hfolder hsearch hdot hup hshort) hnext ?_ (ih h)
      rintro rfl
      simpa using hlast
  | _ => exact absurd h (by simp)

/-- **Routes are the walks that arrive.** -/
theorem route_iff : Route d follow links folder steps r ↔ d.walk follow links folder steps = .ok r :=
  ⟨Route.walk, route_of_walk⟩

/-! ## Where routes start and end -/

/-- A step to a name in a folder ends at what is there. -/
theorem Names.route {e : Entry} (hn : d.Names folder step)
    (hat : d.at? (folder ++ [step]) = some e) :
    Route d false links folder [step] (.taken (folder ++ [step]) e) := by
  cases e with
  | file content mode => exact .file hn hat
  | folder mode => exact .enter hn hat (.stop hat)
  | link target => exact .link hn hat rfl

theorem Searchable.exists_entry (hs : d.Searchable folder) : ∃ e, d.at? folder = some e := by
  obtain ⟨mode, hfolder, -⟩ := hs
  exact ⟨_, hfolder⟩

theorem Route.stop_start (h : Route d follow links folder steps r) :
    ∃ place e, Route d true links folder [] (.taken place e) := by
  have hstart : ∃ e, d.at? folder = some e := by
    cases h with
    | stop hentry => exact ⟨_, hentry⟩
    | here hs | up hs => exact hs.exists_entry
    | enter hn | free hn | file hn | link hn | through hn => exact hn.searchable.exists_entry
  obtain ⟨e, he⟩ := hstart
  exact ⟨folder, e, .stop he⟩

/-- A route tells what is at its end. -/
theorem Route.at?_place (h : Route d follow links folder steps r) : d.at? r.place = r.occupant? := by
  induction h with
  | stop hentry => exact hentry
  | here _ _ ih | up _ _ ih | enter _ _ _ ih | through _ _ _ _ ih => exact ih
  | free _ hnext | file _ hnext | link _ hnext => exact hnext

/-- A route that goes on behind some steps, or that follows a link in their last one to an entry,
comes through an entry. -/
theorem Route.front {a b : List Text} (h : Route d follow links folder (a ++ b) r)
    (hb : b = [] → follow = true ∧ r.IsTaken) :
    ∃ place e, Route d true links folder a (.taken place e) := by
  generalize hsteps : a ++ b = steps at h
  have hstart := h.stop_start
  induction h generalizing a with
  | stop hentry =>
      rw [(List.append_eq_nil_iff.mp hsteps).1]
      exact hstart
  | here hs hroute ih =>
      match a with
      | [] => exact hstart
      | x :: a =>
          obtain ⟨rfl, hrest⟩ := List.cons.inj hsteps
          obtain ⟨place, e, hfront⟩ := ih hb hrest hroute.stop_start
          exact ⟨place, e, .here hs hfront⟩
  | up hs hroute ih =>
      match a with
      | [] => exact hstart
      | x :: a =>
          obtain ⟨rfl, hrest⟩ := List.cons.inj hsteps
          obtain ⟨place, e, hfront⟩ := ih hb hrest hroute.stop_start
          exact ⟨place, e, .up hs hfront⟩
  | enter hn hnext hroute ih =>
      match a with
      | [] => exact hstart
      | x :: a =>
          obtain ⟨rfl, hrest⟩ := List.cons.inj hsteps
          obtain ⟨place, e, hfront⟩ := ih hb hrest hroute.stop_start
          exact ⟨place, e, .enter hn hnext hfront⟩
  | free hn hnext =>
      match a with
      | [] => exact hstart
      | x :: a =>
          have hnil := (List.append_eq_nil_iff.mp (List.cons.inj hsteps).2).2
          exact absurd (hb hnil).2 (by simp [Spot.IsTaken, Spot.occupant?])
  | file hn hnext =>
      match a with
      | [] => exact hstart
      | x :: a =>
          obtain ⟨rfl, hrest⟩ := List.cons.inj hsteps
          rw [(List.append_eq_nil_iff.mp hrest).1]
          exact ⟨_, _, .file hn hnext⟩
  | link hn hnext hfollow =>
      match a with
      | [] => exact hstart
      | x :: a =>
          have hnil := (List.append_eq_nil_iff.mp (List.cons.inj hsteps).2).2
          exact absurd (hfollow.symm.trans (hb hnil).1) (by decide)
  | @through links folder step rest target r hn hnext hrest hroute ih =>
      match a with
      | [] => exact hstart
      | x :: a =>
          obtain ⟨rfl, rfl⟩ := List.cons.inj hsteps
          -- what comes behind the steps comes behind those of the link as well
          obtain ⟨place, e, hfront⟩ := ih hb (List.append_assoc target.steps a b) hroute.stop_start
          exact ⟨place, e, .through hn hnext (fun _ => rfl) hfront⟩

/-! ## Following the last link -/

/-- A route that ends at no link ends there also when a link would be followed. -/
theorem Route.followed (h : Route d false links folder steps r)
    (hr : ∀ target, r.occupant? ≠ some (.link target)) : Route d true links folder steps r := by
  induction h with
  | stop hentry => exact .stop hentry
  | here hs _ ih => exact .here hs (ih hr)
  | up hs _ ih => exact .up hs (ih hr)
  | enter hn hnext _ ih => exact .enter hn hnext (ih hr)
  | free hn hnext => exact .free hn hnext
  | file hn hnext => exact .file hn hnext
  | link => exact absurd rfl (hr _)
  | through hn hnext _ _ ih => exact .through hn hnext (fun _ => rfl) (ih hr)

/-- Where no link is followed in the last step, a route ends at that link or where it ended. -/
theorem Route.unfollowed (h : Route d true links folder steps r) :
    Route d false links folder steps r ∨
      ∃ place target, Route d false links folder steps (.taken place (.link target)) := by
  induction h with
  | stop hentry => exact Or.inl (.stop hentry)
  | here hs _ ih => exact ih.imp (.here hs) fun ⟨place, target, h⟩ => ⟨place, target, .here hs h⟩
  | up hs _ ih => exact ih.imp (.up hs) fun ⟨place, target, h⟩ => ⟨place, target, .up hs h⟩
  | enter hn hnext _ ih =>
      exact ih.imp (.enter hn hnext) fun ⟨place, target, h⟩ => ⟨place, target, .enter hn hnext h⟩
  | free hn hnext => exact Or.inl (.free hn hnext)
  | file hn hnext => exact Or.inl (.file hn hnext)
  | link _ _ hfollow => exact absurd hfollow (by decide)
  | @through links folder step rest target r hn hnext hrest _ ih =>
      by_cases hlast : rest = []
      · subst hlast
        exact Or.inr ⟨_, target, .link hn hnext rfl⟩
      · have hrest' : rest = [] → false = true := fun hnil => absurd hnil hlast
        exact ih.imp (.through hn hnext hrest') fun ⟨place, target, h⟩ =>
          ⟨place, target, .through hn hnext hrest' h⟩

/-! ## The number of links -/

/-- With another number of links to follow the walk ends at the same spot, or it is given up because
the number is smaller. -/
theorem Route.budget (h : Route d follow links folder steps r) (k : Nat) :
    Route d follow k folder steps r ∨ d.walk follow k folder steps = .error .tooManyLinks := by
  induction h generalizing k with
  | stop hentry => exact Or.inl (.stop hentry)
  | here hs _ ih => exact (ih k).imp (.here hs) fun h => by rw [walk_here hs, h]
  | up hs _ ih => exact (ih k).imp (.up hs) fun h => by rw [walk_up hs, h]
  | enter hn hnext _ ih =>
      exact (ih k).imp (.enter hn hnext) fun h => by rw [walk_folder hn hnext, h]
  | free hn hnext => exact Or.inl (.free hn hnext)
  | file hn hnext => exact Or.inl (.file hn hnext)
  | link hn hnext hfollow => exact Or.inl (.link hn hnext hfollow)
  | through hn hnext hrest _ ih =>
      match k with
      | 0 => exact Or.inr (walk_exhausted hn hnext hrest)
      | k + 1 =>
          exact (ih k).imp (.through hn hnext hrest) fun h => by rw [walk_through hn hnext hrest, h]

/-! ## Dead ends -/

/-- Nothing is reached through the place: there is no folder, and if there is a link, then what it
points to leads to no entry, however many links may be followed. -/
structure DeadEnd (d : Disk) (goal : Place) : Prop where
  folder : ∀ mode, d.at? goal ≠ some (.folder mode)
  link : ∀ target, d.at? goal = some (.link target) → ∀ links place e,
    ¬ Route d true links (linkStart goal.dropLast target) target.steps (.taken place e)

theorem deadEnd_of_vacant (h : d.at? goal = none) : d.DeadEnd goal :=
  ⟨by simp [h], by simp [h]⟩

theorem deadEnd_of_file {content : ByteArray} {mode : Nat}
    (h : d.at? goal = some (.file content mode)) : d.DeadEnd goal :=
  ⟨by simp [h], by simp [h]⟩

/-- **A link is a dead end if a path that ends in it fails**, unless it fails for the number of
links. -/
theorem Route.deadEnd (h : Route d false links folder steps (.taken goal (.link target)))
    (hno : ∀ place e, d.walk true links folder steps ≠ .ok (.taken place e))
    (hlinks : d.walk true links folder steps ≠ .error .tooManyLinks) : d.DeadEnd goal := by
  have hat : d.at? goal = some (.link target) := h.at?_place
  refine ⟨by simp [hat], ?_⟩
  intro target' htarget' k place e hroute
  obtain rfl : target = target' := by simpa [hat] using htarget'
  generalize hr : Spot.taken goal (.link target) = r at h
  induction h with
  | stop hentry => exact hno _ _ (Route.stop hentry).walk
  | here hs _ ih =>
      rw [walk_here hs] at hno hlinks
      exact ih hno hlinks hr
  | up hs _ ih =>
      rw [walk_up hs] at hno hlinks
      exact ih hno hlinks hr
  | enter hn hnext _ ih =>
      rw [walk_folder hn hnext] at hno hlinks
      exact ih hno hlinks hr
  | free => exact absurd hr (by simp)
  | file => exact absurd hr (by simp)
  | @link links folder step _ hn hnext =>
      obtain ⟨rfl, htarget⟩ := Spot.taken.inj hr
      obtain rfl := Entry.link.inj htarget
      rw [List.dropLast_concat] at hroute
      match links with
      | 0 => exact hlinks (walk_exhausted hn hnext fun _ => rfl)
      | links + 1 =>
          -- a way on with `k` links is one with those that are left, or they are too few
          rw [walk_through hn hnext fun _ => rfl, List.append_nil] at hno hlinks
          rcases hroute.budget links with hroute | hgiven
          · exact hno place e hroute.walk
          · exact hlinks hgiven
  | @through links folder step rest _ _ hn hnext hrest _ ih =>
      rw [walk_through hn hnext fun _ => rfl] at hno hlinks
      exact ih hno hlinks hr

/-! ## A change at one place -/

/-- The disks differ at most at the place. -/
structure AgreeOff (goal : Place) (d d' : Disk) : Prop where
  host : d'.toHost = d.toHost
  same : ∀ place, place ≠ goal → d'.at? place = d.at? place

theorem AgreeOff.symm (h : AgreeOff goal d d') : AgreeOff goal d' d :=
  ⟨h.host.symm, fun place hne => (h.same place hne).symm⟩

theorem agreeOff_put (goal : Place) (e : Entry) (d : Disk) : AgreeOff goal d (d.put goal e) :=
  ⟨rfl, fun _ hne => at?_put_of_ne hne e d⟩

/-- The spot as it is on the disk: taken by what stands there, if anything does. -/
def seenOn (d : Disk) (r : Spot) : Spot :=
  match d.at? r.place with
  | some e => .taken r.place e
  | none => r

theorem seenOn_of_taken {e : Entry} (h : d.at? r.place = some e) :
    d.seenOn r = .taken r.place e := by
  rw [seenOn, h]

/-- Where nothing changes the spot stays the same. -/
theorem seenOn_of_same (h : d.at? r.place = r.occupant?) : d.seenOn r = r := by
  cases r with
  | taken place e => exact seenOn_of_taken h
  | free folder name => rw [seenOn, h]; rfl

section Change

variable (hdead : d.DeadEnd goal) (hoff : AgreeOff goal d d')

include hdead hoff

theorem Searchable.elsewhere (hs : d.Searchable folder) : d'.Searchable folder := by
  obtain ⟨mode, hfolder, hmode⟩ := hs
  have hne : folder ≠ goal := by
    rintro rfl
    exact hdead.folder mode hfolder
  exact ⟨mode, (hoff.same folder hne).trans hfolder, hmode⟩

theorem Names.elsewhere (hn : d.Names folder step) : d'.Names folder step :=
  ⟨hn.searchable.elsewhere hdead hoff, hn.ne_here, hn.ne_up, hn.short⟩

/-- A route whose last step goes to a name leads there still. -/
theorem Names.seenOn (hn : d.Names folder step) (hplace : r.place = folder ++ [step])
    (hat : d.at? (folder ++ [step]) = r.occupant?)
    (hfile : r.place = goal → ∃ content mode, d'.at? goal = some (.file content mode))
    (hstill : d'.at? (folder ++ [step]) = r.occupant? → Route d' follow links folder [step] r) :
    Route d' follow links folder [step] (d'.seenOn r) := by
  rw [← hplace] at hat hstill
  by_cases hgoal : r.place = goal
  · obtain ⟨content, mode, hat'⟩ := hfile hgoal
    rw [← hgoal] at hat'
    rw [seenOn_of_taken hat', hplace]
    exact .file (hn.elsewhere hdead hoff) (hplace ▸ hat')
  · have hat' := (hoff.same _ hgoal).trans hat
    rw [seenOn_of_same hat']
    exact hstill hat'

/-- **A change at a dead end moves no route.** If a file comes to stand where the route ends, the
route leads to it; if the change is elsewhere, the route finds what it found. -/
theorem Route.seenOn (h : Route d follow links folder steps r)
    (hfile : r.place = goal → ∃ content mode, d'.at? goal = some (.file content mode))
    (hfollow : follow = true → r.IsTaken) :
    Route d' follow links folder steps (d'.seenOn r) := by
  induction h with
  | @stop links folder e hentry =>
      have hstill : ∃ e', d'.at? folder = some e' := by
        by_cases hgoal : folder = goal
        · obtain ⟨content, mode, hat⟩ := hfile hgoal
          exact ⟨_, hgoal ▸ hat⟩
        · exact ⟨e, (hoff.same folder hgoal).trans hentry⟩
      obtain ⟨e', he'⟩ := hstill
      rw [seenOn_of_taken (r := .taken folder e) he']
      exact .stop he'
  | here hs _ ih => exact .here (hs.elsewhere hdead hoff) (ih hfile hfollow)
  | up hs _ ih => exact .up (hs.elsewhere hdead hoff) (ih hfile hfollow)
  | @enter links mode folder step rest r hn hnext _ ih =>
      have hne : folder ++ [step] ≠ goal := by
        rintro rfl
        exact hdead.folder mode hnext
      exact .enter (hn.elsewhere hdead hoff) ((hoff.same _ hne).trans hnext) (ih hfile hfollow)
  | free hn hnext =>
      exact hn.seenOn hdead hoff rfl hnext hfile (.free (hn.elsewhere hdead hoff))
  | file hn hnext =>
      exact hn.seenOn hdead hoff rfl hnext hfile (.file (hn.elsewhere hdead hoff))
  | link hn hnext hlast =>
      exact hn.seenOn hdead hoff rfl hnext hfile fun hat =>
        .link (hn.elsewhere hdead hoff) hat hlast
  | @through links folder step rest target r hn hnext hrest hroute ih =>
      have hne : folder ++ [step] ≠ goal := by
        -- the route would go on through a link that leads nowhere
        rintro rfl
        have hb : rest = [] → follow = true ∧ r.IsTaken := fun hnil =>
          ⟨hrest hnil, hfollow (hrest hnil)⟩
        obtain ⟨place, e, hfront⟩ := hroute.front hb
        apply hdead.link target hnext links place e
        rwa [List.dropLast_concat]
      exact .through (hn.elsewhere hdead hoff) ((hoff.same _ hne).trans hnext) hrest
        (ih hfile hfollow)

/-- A route that ends elsewhere stays the same. -/
theorem Route.elsewhere (h : Route d follow links folder steps r) (hr : r.place ≠ goal)
    (hfollow : follow = true → r.IsTaken) : Route d' follow links folder steps r := by
  have hroute := h.seenOn hdead hoff (fun hgoal => absurd hgoal hr) hfollow
  rwa [seenOn_of_same ((hoff.same _ hr).trans h.at?_place)] at hroute

/-- A route that ends at the place leads to the file that has come to stand there. -/
theorem Route.arrives {content : ByteArray} {mode : Nat}
    (hfile : d'.at? goal = some (.file content mode)) (h : Route d follow links folder steps r)
    (hr : r.place = goal) (hfollow : follow = true → r.IsTaken) :
    Route d' follow links folder steps (.taken goal (.file content mode)) := by
  subst hr
  have hroute := h.seenOn hdead hoff (fun _ => ⟨content, mode, hfile⟩) hfollow
  rwa [seenOn_of_taken hfile] at hroute

end Change

/-! ## Paths and routes -/

/-- Where a walk along the path starts. -/
def start (d : Disk) (p : Path) : Place := if p.isAbsolute then [] else d.home

theorem spot_iff :
    d.spot follow p = .ok r ↔ p.text ≠ [] ∧ Route d follow maxLinks (d.start p) p.steps r := by
  unfold spot
  split
  · rename_i hempty
    simp [List.isEmpty_iff.mp hempty]
  · rename_i hne
    rw [route_iff, start]
    simpa using fun _ => hne

theorem at?_place_of_spot (h : d.spot follow p = .ok r) : d.at? r.place = r.occupant? :=
  (spot_iff.mp h).2.at?_place

theorem find_iff {place : Place} {e : Entry} :
    d.find p = .ok (place, e) ↔ d.spot true p = .ok (.taken place e) := by
  refine ⟨spot_of_find, ?_⟩
  intro h
  rw [find, h]

/-- A path that does not end at a link leads there also when links are followed. -/
theorem spot_followed (h : d.spot false p = .ok r)
    (hr : ∀ target, r.occupant? ≠ some (.link target)) : d.spot true p = .ok r := by
  obtain ⟨hne, hroute⟩ := spot_iff.mp h
  exact spot_iff.mpr ⟨hne, hroute.followed hr⟩

section Change

variable (hdead : d.DeadEnd goal) (hoff : AgreeOff goal d d')

include hdead hoff

/-- A path that leads elsewhere leads there still. -/
theorem spot_elsewhere (h : d.spot follow p = .ok r) (hr : r.place ≠ goal)
    (hfollow : follow = true → r.IsTaken) : d'.spot follow p = .ok r := by
  obtain ⟨hne, hroute⟩ := spot_iff.mp h
  rw [spot_iff, start, hoff.host]
  exact ⟨hne, hroute.elsewhere hdead hoff hr hfollow⟩

/-- A path that leads to the place leads to the file that is there now. -/
theorem spot_arrives {bytes : ByteArray} {mode : Nat}
    (hfile : d'.at? goal = some (.file bytes mode)) (h : d.spot follow p = .ok r)
    (hr : r.place = goal) (hfollow : follow = true → r.IsTaken) :
    d'.spot follow p = .ok (.taken goal (.file bytes mode)) := by
  obtain ⟨hne, hroute⟩ := spot_iff.mp h
  rw [spot_iff, start, hoff.host]
  exact ⟨hne, hroute.arrives hdead hoff hfile hr hfollow⟩

end Change

end Disk

end ImportTidy

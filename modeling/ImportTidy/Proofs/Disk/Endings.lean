/-
# ImportTidy.Proofs.Disk.Endings — the last step of a path

What follows the last separator of a path is the last step of the walk along it, and its file name
if it is a name (`EndsIn.steps`, `EndsIn.fileName?`); a sibling of a path ends in the name that it was
made with (`endsIn_sibling`). On a sound disk a route that does not follow a link in its last step
ends at a folder or at a place with the name of that step (`Route.last`).
-/
import Mathlib.Data.List.Basic
import ImportTidy.Proofs.Disk.Replacement
import ImportTidy.Proofs.Disk.Routes

namespace ImportTidy

namespace Path

variable {p : Path} {last m : Text}

/-! ## What follows the last separator -/

/-- The text is what follows the last separator of the path, and there is something. -/
structure EndsIn (p : Path) (last : Text) : Prop where
  ne_nil : last ≠ []
  bare : separator ∉ last
  text : ∃ before, p.text = before ++ last ∧ (before = [] ∨ ∃ b, before = b ++ [separator])

theorem EndsIn.pieces (h : p.EndsIn last) : ∃ front, p.pieces = front ++ [last] := by
  obtain ⟨-, hbare, before, htext, rfl | ⟨b, rfl⟩⟩ := h
  · exact ⟨[], by rw [Path.pieces, htext, List.nil_append, List.splitOn_eq_singleton hbare]; rfl⟩
  · refine ⟨b.splitOn separator, ?_⟩
    rw [Path.pieces, htext, List.append_assoc, List.singleton_append, List.splitOn_append_cons_self,
      List.splitOn_eq_singleton hbare]

theorem EndsIn.getLast? (h : p.EndsIn last) : p.text.getLast? ≠ some separator := by
  obtain ⟨hne, hbare, before, htext, -⟩ := h
  rw [htext, List.getLast?_append_of_ne_nil before hne]
  intro hlast
  exact hbare (List.mem_of_getLast? hlast)

theorem EndsIn.text_ne_nil (h : p.EndsIn last) : p.text ≠ [] := by
  obtain ⟨hne, -, before, htext, -⟩ := h
  rw [htext]
  exact fun hnil => hne (List.append_eq_nil_iff.mp hnil).2

theorem EndsIn.steps_eq (h : p.EndsIn last) :
    p.steps = p.pieces.filter fun piece => !piece.isEmpty := by
  rw [Path.steps, if_neg (by simpa using h.getLast?)]

/-- It is the last step of a walk. -/
theorem EndsIn.steps (h : p.EndsIn last) : ∃ init, p.steps = init ++ [last] := by
  obtain ⟨front, hpieces⟩ := h.pieces
  refine ⟨front.filter fun piece => !piece.isEmpty, ?_⟩
  rw [h.steps_eq, hpieces, List.filter_append, List.filter_cons_of_pos (by simpa using h.ne_nil),
    List.filter_nil]

theorem filterMap_component?_concat (front : List Text) (hlast : isBareName last = true) :
    (front ++ [last]).filterMap component? = front.filterMap component? ++ [.name last] := by
  rw [List.filterMap_append, List.filterMap_cons_some (component?_of_isBareName hlast),
    List.filterMap_nil]

/-- It is the file name, if it can be one. -/
theorem EndsIn.fileName? (h : p.EndsIn last) (hlast : isBareName last = true) :
    p.fileName? = some last := by
  obtain ⟨front, hpieces⟩ := h.pieces
  have hcomponents : p.components.getLast? = some (.name last) := by
    unfold components
    simp only [hpieces, filterMap_component?_concat front hlast]
    split
    · rw [← List.cons_append, List.getLast?_concat]
    · rw [← List.cons_append, List.getLast?_concat]
    · rw [List.getLast?_concat]
  rw [Path.fileName?, hcomponents]

/-- A path without a separator at its end has something behind the last one. -/
theorem exists_endsIn (hne : p.text ≠ []) (hlast : p.text.getLast? ≠ some separator) :
    ∃ last, p.EndsIn last := by
  cases hcut : Text.cutLast? separator p.text with
  | none =>
      exact ⟨p.text, hne, Text.cutLast?_eq_none.mp hcut, [], rfl, Or.inl rfl⟩
  | some cut =>
      obtain ⟨before, behind⟩ := cut
      obtain ⟨htext, hbare⟩ := Text.cutLast?_eq_some.mp hcut
      refine ⟨behind, ?_, hbare, before ++ [separator], by simpa using htext, Or.inr ⟨before, rfl⟩⟩
      rintro rfl
      rw [htext, List.getLast?_concat] at hlast
      exact hlast rfl

theorem steps_ne_nil (h : p.text ≠ []) : p.steps ≠ [] := by
  by_cases hlast : p.text.getLast? = some separator
  · rw [steps, if_pos (by simpa using hlast)]
    simp
  · obtain ⟨last, hends⟩ := exists_endsIn h hlast
    obtain ⟨init, hsteps⟩ := hends.steps
    simp [hsteps]

/-! ## Siblings -/

/-- A name is joined to a path behind a separator, if there is something to separate it from. -/
theorem text_join (q : Path) (hm : isBareName m = true) :
    (q.text = [] ∧ q.join ⟨m⟩ = ⟨m⟩) ∨
      (∃ b, q.text = b ++ [separator] ∧ q.join ⟨m⟩ = ⟨b ++ separator :: m⟩) ∨
      (q.text ≠ [] ∧ q.join ⟨m⟩ = ⟨q.text ++ separator :: m⟩) := by
  rw [join, isAbsolute_of_isBareName hm, if_neg (by simp)]
  by_cases hempty : q.text = []
  · exact Or.inl ⟨hempty, by simp [hempty]⟩
  by_cases hlast : q.text.getLast? = some separator
  · obtain ⟨b, hb⟩ := List.getLast?_eq_some_iff.mp hlast
    exact Or.inr (Or.inl ⟨b, hb, by simp [hb]⟩)
  · refine Or.inr (Or.inr ⟨hempty, ?_⟩)
    rw [if_neg (by simpa using ⟨hempty, hlast⟩)]

theorem endsIn_join (q : Path) (hm : isBareName m = true) : (q.join ⟨m⟩).EndsIn m := by
  refine ⟨ne_nil_of_isBareName hm, separator_not_mem_of_isBareName hm, ?_⟩
  rcases text_join q hm with ⟨-, hjoin⟩ | ⟨b, -, hjoin⟩ | ⟨-, hjoin⟩
  · exact ⟨[], by rw [hjoin]; rfl, Or.inl rfl⟩
  · exact ⟨b ++ [separator], by simp [hjoin], Or.inr ⟨b, rfl⟩⟩
  · exact ⟨q.text ++ [separator], by simp [hjoin], Or.inr ⟨q.text, rfl⟩⟩

theorem endsIn_sibling (p : Path) (hm : isBareName m = true) : (p.sibling m).EndsIn m := by
  unfold sibling
  split
  · exact endsIn_join _ hm
  · exact endsIn_join _ hm

theorem not_mem_of_mem_splitOn {c : Char} {t x : Text} (hx : x ∈ t.splitOn c) : c ∉ x := by
  induction t generalizing x with
  | nil =>
      rw [List.splitOn_nil, List.mem_singleton] at hx
      simp [hx]
  | cons a t ih =>
      rw [List.splitOn_cons_eq_if_modifyHead] at hx
      split at hx
      · rcases List.mem_cons.mp hx with rfl | hx
        · exact List.not_mem_nil
        · exact ih hx
      · rename_i ha
        obtain ⟨first, more, hsplit⟩ := List.exists_cons_of_ne_nil (List.splitOn_ne_nil c t)
        rw [hsplit] at hx ih
        rcases List.mem_cons.mp hx with rfl | hx
        · have hfirst := ih (x := first) List.mem_cons_self
          simp only [beq_iff_eq] at ha
          simpa [Ne.symm ha] using hfirst
        · exact ih (List.mem_cons_of_mem _ hx)

theorem mem_named_of_mem_components {n : Text} (h : Component.name n ∈ p.components) :
    Component.name n ∈ p.pieces.filterMap component? := by
  unfold components at h
  simp only at h
  split at h
  · simpa using h
  · simpa using h
  · exact h

theorem isBareName_of_component? {piece n : Text} (hbare : separator ∉ piece)
    (h : component? piece = some (.name n)) : isBareName n = true := by
  unfold component? at h
  split at h
  · exact absurd h (by simp)
  split at h
  · exact absurd h (by simp)
  · obtain rfl : piece = n := by simpa using h
    simp_all [isBareName]

theorem isBareName_of_fileName? {n : Text} (h : p.fileName? = some n) : isBareName n = true := by
  have hmem : Component.name n ∈ p.components := by
    unfold fileName? at h
    split at h
    · rename_i hlast
      obtain rfl := Option.some.inj h
      exact List.mem_of_getLast? hlast
    · exact absurd h (by simp)
  obtain ⟨piece, hpiece, hcomponent⟩ := List.mem_filterMap.mp (mem_named_of_mem_components hmem)
  exact isBareName_of_component? (not_mem_of_mem_splitOn hpiece) hcomponent

end Path

namespace Disk

theorem isBareName_siblingName (d : Disk) (p : Path) : isBareName (d.siblingName p) = true :=
  d.isBareName_waitingName fun _ => Path.isBareName_of_fileName?

/-! ## Sound disks -/

variable {d : Disk} {follow : Bool} {links : Nat} {folder : Place} {steps : List Text} {r : Spot}

/-- Above a folder there is a folder. -/
theorem Sound.folder_dropLast (hd : d.Sound) (h : d.Searchable folder) :
    ∃ mode, d.at? folder.dropLast = some (.folder mode) := by
  obtain ⟨mode, hfolder, -⟩ := h
  rcases List.eq_nil_or_concat folder with rfl | ⟨above, n, hconcat⟩
  · exact ⟨mode, hfolder⟩
  · rw [List.concat_eq_append] at hconcat
    subst hconcat
    rw [List.dropLast_concat]
    exact hd.folder_above hfolder (by simp)

/-- A disk stays sound when a file is put into a folder, where no folder is. -/
theorem Sound.put_file (hd : d.Sound) {n : Text} (hs : d.Searchable folder)
    (hn : isEntryName n = true) (hno : ∀ mode, d.at? (folder ++ [n]) ≠ some (.folder mode))
    (content : ByteArray) (mode : Nat) : (d.put (folder ++ [n]) (.file content mode)).Sound := by
  obtain ⟨folderMode, hfolder, -⟩ := hs
  have hfolders : ∀ place, d.hasFolder place = true →
      (d.put (folder ++ [n]) (.file content mode)).hasFolder place = true := by
    intro place hplace
    obtain ⟨mode', hat⟩ := exists_folder_of_hasFolder hplace
    have hne : place ≠ folder ++ [n] := by
      rintro rfl
      exact hno mode' hat
    rw [hasFolder, at?_put_of_ne hne, hat]
  have hnames := hd.entryNames hfolder
  refine ⟨?_, ?_, hd.made⟩
  · intro e he x hx
    rcases List.mem_cons.mp he with rfl | he
    · rcases List.mem_append.mp hx with hx | hx
      · exact hnames x hx
      · exact List.mem_singleton.mp hx ▸ hn
    · exact hd.names e (List.mem_of_mem_filter he) x hx
  · intro e he
    apply hfolders
    rcases List.mem_cons.mp he with rfl | he
    · rw [List.dropLast_concat, hasFolder, hfolder]
    · exact hd.parents e (List.mem_of_mem_filter he)

/-- The steps lead to the place: what can be walked from it can be walked behind them. -/
def Reaches (d : Disk) (links : Nat) (folder : Place) (steps : List Text) (place : Place) : Prop :=
  ∀ follow rest r, rest ≠ [] → (∀ k, Route d follow k place rest r) →
    Route d follow links folder (steps ++ rest) r

/-- **A route that follows no link in its last step ends at a folder or at a name** in the folder
that the steps before lead to. -/
theorem Route.last (hd : d.Sound) {init : List Text} {last : Text}
    (h : Route d false links folder (init ++ [last]) r) :
    (∃ mode, r.occupant? = some (.folder mode)) ∨
      ∃ parent, d.Names parent last ∧ r.place = parent ++ [last] ∧
        d.Reaches links folder init parent := by
  generalize hsteps : init ++ [last] = steps at h
  -- the steps before the last are used up along the route; where none are left, it is at its end
  induction h generalizing init with
  | stop => exact absurd hsteps (by simp)
  | here hs hroute ih =>
      match init with
      | [] =>
          obtain ⟨-, rfl⟩ := List.cons.inj hsteps
          obtain ⟨mode, hfolder, -⟩ := hs
          cases hroute with
          | stop he => exact Or.inl ⟨mode, he.symm.trans hfolder⟩
      | x :: init =>
          obtain ⟨rfl, hinit⟩ := List.cons.inj hsteps
          refine (ih hinit).imp_right fun ⟨parent, hn, hplace, hreach⟩ => ⟨parent, hn, hplace, ?_⟩
          exact fun follow rest r hrest hgo => .here hs (hreach follow rest r hrest hgo)
  | up hs hroute ih =>
      match init with
      | [] =>
          obtain ⟨-, rfl⟩ := List.cons.inj hsteps
          obtain ⟨mode, hfolder⟩ := hd.folder_dropLast hs
          cases hroute with
          | stop he => exact Or.inl ⟨mode, he.symm.trans hfolder⟩
      | x :: init =>
          obtain ⟨rfl, hinit⟩ := List.cons.inj hsteps
          refine (ih hinit).imp_right fun ⟨parent, hn, hplace, hreach⟩ => ⟨parent, hn, hplace, ?_⟩
          exact fun follow rest r hrest hgo => .up hs (hreach follow rest r hrest hgo)
  | enter hn hnext hroute ih =>
      match init with
      | [] =>
          obtain ⟨-, rfl⟩ := List.cons.inj hsteps
          cases hroute with
          | stop he => exact Or.inl ⟨_, he.symm.trans hnext⟩
      | x :: init =>
          obtain ⟨rfl, hinit⟩ := List.cons.inj hsteps
          refine (ih hinit).imp_right fun ⟨parent, hn', hplace, hreach⟩ => ⟨parent, hn', hplace, ?_⟩
          exact fun follow rest r hrest hgo => .enter hn hnext (hreach follow rest r hrest hgo)
  | free hn | file hn | link hn =>
      match init with
      | [] =>
          obtain ⟨rfl, -⟩ := List.cons.inj hsteps
          exact Or.inr ⟨_, hn, rfl, fun follow rest r _ hgo => hgo _⟩
      | x :: init => exact absurd (List.cons.inj hsteps).2 (by simp)
  | @through links folder step rest target r hn hnext hrest hroute ih =>
      match init with
      | [] => exact absurd (hrest (List.cons.inj hsteps).2.symm) (by decide)
      | x :: init =>
          obtain ⟨rfl, rfl⟩ := List.cons.inj hsteps
          -- the steps of the link come first, so they belong to those before the last
          refine (ih (List.append_assoc target.steps init [last])).imp_right
            fun ⟨parent, hn', hplace, hreach⟩ => ⟨parent, hn', hplace, ?_⟩
          intro follow rest r hrest hgo
          have hbehind := hreach follow rest r hrest hgo
          rw [List.append_assoc] at hbehind
          exact .through hn hnext (fun hnil => absurd (List.append_eq_nil_iff.mp hnil).2 hrest) hbehind

/-- A path ends at a folder, or at the name in which it ends, in the folder that the steps before
lead to. -/
theorem spot_last (hd : d.Sound) {p : Path} {last : Text} (hp : p.EndsIn last)
    (h : d.spot false p = .ok r) :
    (∃ mode, r.occupant? = some (.folder mode)) ∨
      ∃ parent, d.Names parent last ∧ isEntryName last = true ∧ r.place = parent ++ [last] ∧
        ∀ init, p.steps = init ++ [last] → d.Reaches maxLinks (d.start p) init parent := by
  obtain ⟨init, hsteps⟩ := hp.steps
  have hroute := (spot_iff.mp h).2
  rw [hsteps] at hroute ⊢
  refine (hroute.last hd).imp_right fun ⟨parent, hn, hplace, hreach⟩ => ⟨parent, hn, ?_, hplace, ?_⟩
  · simp [isEntryName, isBareName, hp.ne_nil, hp.bare, hn.ne_here, hn.ne_up, hn.short]
  · intro init' heq
    rwa [← (List.append_inj' heq rfl).1]

/-- The canonical path of an entry, where it leads anywhere, leads to the entry. -/
theorem spot_ofPlace (hd : d.Sound) {place : Place} {e : Entry} (hat : d.at? place = some e)
    (h : d.spot false (.ofPlace place) = .ok r) : r = .taken place e := by
  rcases List.eq_nil_or_concat place with rfl | ⟨parent, n, hconcat⟩
  · have hroot : d.spot false (.ofPlace []) = .ok (.taken [] e) := by
      have hs : d.Searchable [] := ⟨rootMode, rfl, by decide⟩
      exact spot_iff.mpr ⟨by decide, .here hs (.stop hat)⟩
    exact Except.ok.inj (h.symm.trans hroot)
  rw [List.concat_eq_append] at hconcat
  subst hconcat
  have hnames := hd.entryNames hat
  have hparent : ∀ x ∈ parent, isEntryName x = true := fun x hx =>
    hnames x (List.mem_append_left _ hx)
  have hfolders : ∀ above, above <+: parent → ∃ mode, d.at? ([] ++ above) = some (.folder mode) := by
    rintro above ⟨below, rfl⟩
    rw [List.append_assoc] at hat
    exact hd.folder_above hat (by simp)
  have hs : ∀ above, above <+: parent → d.Searchable ([] ++ above) := by
    by_contra hno
    rw [spot_ofPlace_eq (isBareName_of_entryNames hnames),
      walk_of_not_searchable hparent hfolders hno] at h
    exact absurd h (by simp)
  have hn := hnames n (by simp)
  have hbare := isBareName_of_isEntryName hn
  have hlast : d.Names parent n :=
    ⟨hs parent (List.prefix_refl _), ne_here_of_isBareName hbare, ne_up_of_isBareName hbare,
      isTooLong_of_isEntryName hn⟩
  rw [spot_ofPlace_last hparent hbare hs, (hlast.route hat).walk] at h
  exact (Except.ok.inj h).symm

/-- A route that follows links does not end at one. -/
theorem Route.not_link (hd : d.Sound) (h : Route d true links folder steps r)
    (hstart : steps = [] → ∀ target, d.at? folder ≠ some (.link target)) (target : Path) :
    r.occupant? ≠ some (.link target) := by
  induction h with
  | stop he => exact fun hr => hstart rfl target (he.trans hr)
  | here hs _ ih =>
      obtain ⟨mode, hfolder, -⟩ := hs
      exact ih fun _ target => by simp [hfolder]
  | up hs _ ih =>
      obtain ⟨mode, hfolder⟩ := hd.folder_dropLast hs
      exact ih fun _ target => by simp [hfolder]
  | enter hn hnext _ ih => exact ih fun _ target => by simp [hnext]
  | free => simp [Spot.occupant?]
  | file => simp [Spot.occupant?]
  | link _ _ hfollow => exact absurd hfollow (by decide)
  | @through links folder step rest link r hn hnext _ _ ih =>
      apply ih
      intro _ target
      obtain ⟨mode, hfolder, -⟩ := hn.searchable
      unfold linkStart
      split
      · simp [at?]
      · simp [hfolder]

end Disk

end ImportTidy

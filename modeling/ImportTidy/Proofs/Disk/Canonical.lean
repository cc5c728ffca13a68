/-
# ImportTidy.Proofs.Disk.Canonical — the path of a place

The absolute path that is made of the names of a place leads back to that place, when the folders
above it are there and can be searched (`spot_ofPlace_file`). If they are there and one of them cannot
be searched, the walk is refused (`walk_of_not_searchable`).
-/
import Mathlib.Data.List.Induction
import ImportTidy.Proofs.Disk.Walk

namespace ImportTidy

/-! ## Names -/

/-- The text is a single name, and goes to an entry of the folder that it is looked up in. -/
def isBareName (n : Text) : Bool :=
  !n.isEmpty && !n.contains Path.separator && n != ['.'] && n != ['.', '.']

/-- The text can be the name of an entry. -/
def isEntryName (n : Text) : Bool := isBareName n && !Disk.isTooLong n

section Names

variable {n : Text} (h : isBareName n = true)

include h

theorem ne_nil_of_isBareName : n ≠ [] := by
  rintro rfl
  exact absurd h (by decide)

theorem separator_not_mem_of_isBareName : Path.separator ∉ n := by
  simp only [isBareName, Bool.and_eq_true, Bool.not_eq_true'] at h
  simpa using h.1.1.2

theorem ne_here_of_isBareName : n ≠ ['.'] := by
  rintro rfl
  exact absurd h (by decide)

theorem ne_up_of_isBareName : n ≠ ['.', '.'] := by
  rintro rfl
  exact absurd h (by decide)

theorem component?_of_isBareName : Path.component? n = some (.name n) := by
  rw [Path.component?, if_neg, if_neg (ne_up_of_isBareName h)]
  rintro (hn | hn)
  · exact ne_nil_of_isBareName h hn
  · exact ne_here_of_isBareName h hn

theorem isAbsolute_of_isBareName : (Path.mk n).isAbsolute = false := by
  cases n with
  | nil => rfl
  | cons c n =>
      have hc := separator_not_mem_of_isBareName h
      simp only [Path.isAbsolute, List.head?_cons, beq_eq_false_iff_ne, ne_eq, Option.some.injEq]
      rintro rfl
      exact hc List.mem_cons_self

end Names

theorem isBareName_of_isEntryName {n : Text} (h : isEntryName n = true) : isBareName n = true :=
  (Bool.and_eq_true_iff.mp h).1

theorem isTooLong_of_isEntryName {n : Text} (h : isEntryName n = true) :
    Disk.isTooLong n = false := by
  simpa using (Bool.and_eq_true_iff.mp h).2

theorem isBareName_of_entryNames {names : List Text} (h : ∀ x ∈ names, isEntryName x = true) :
    ∀ x ∈ names, isBareName x = true :=
  fun x hx => isBareName_of_isEntryName (h x hx)

namespace Path

/-! ## The text of a canonical path -/

theorem join_separators (names : List Text) :
    Text.join [separator] ([] :: names) = names.flatMap fun n => separator :: n := by
  induction names with
  | nil => rfl
  | cons n names ih =>
      rw [Text.join, List.intercalate_cons_cons, List.flatMap_cons, ← ih]
      cases names with
      | nil => simp [Text.join]
      | cons m names => simp [Text.join]

theorem text_ofPlace {place : Place} (h : place ≠ []) :
    (ofPlace place).text = place.flatMap fun n => separator :: n := by
  rw [← join_separators]
  cases place with
  | nil => exact absurd rfl h
  | cons n place =>
      have htexts : (place.map Component.name).map Component.text = place := by
        rw [List.map_map]
        exact List.map_id place
      show Text.join [separator] ([] :: n :: (place.map Component.name).map Component.text) = _
      rw [htexts]

theorem filterMap_component? {names : List Text} (h : ∀ x ∈ names, isBareName x = true) :
    names.filterMap component? = names.map .name := by
  induction names with
  | nil => rfl
  | cons n names ih =>
      rw [List.filterMap_cons_some (component?_of_isBareName (h n List.mem_cons_self)),
        ih fun x hx => h x (List.mem_cons_of_mem _ hx), List.map_cons]

section

variable {parent : Place} {n m : Text} (h : ∀ x ∈ parent ++ [n], isBareName x = true)

include h

theorem pieces_ofPlace : (ofPlace (parent ++ [n])).pieces = [] :: (parent ++ [n]) := by
  rw [pieces, text_ofPlace (by simp), ← join_separators]
  refine List.splitOn_intercalate separator ?_ (by simp)
  intro x hx
  rcases List.mem_cons.mp hx with rfl | hx
  · exact List.not_mem_nil
  · exact separator_not_mem_of_isBareName (h x hx)

theorem getLast?_ofPlace : (ofPlace (parent ++ [n])).text.getLast? ≠ some separator := by
  have hn := h n (by simp)
  rw [text_ofPlace (by simp), List.flatMap_append]
  intro hlast
  have hmem : separator ∈ n := by
    cases n with
    | nil => exact absurd rfl (ne_nil_of_isBareName hn)
    | cons c n =>
        refine List.mem_of_getLast? (a := separator) ?_
        simpa using hlast
  exact separator_not_mem_of_isBareName hn hmem

/-- A walk along a canonical path takes its names. -/
theorem steps_ofPlace : (ofPlace (parent ++ [n])).steps = parent ++ [n] := by
  have hnames : ([] :: (parent ++ [n])).filter (fun piece => !piece.isEmpty) = parent ++ [n] := by
    rw [List.filter_cons_of_neg (by simp), List.filter_eq_self]
    intro x hx
    simpa using ne_nil_of_isBareName (h x hx)
  rw [steps, pieces_ofPlace h]
  simp only [hnames]
  rw [if_neg]
  simpa using getLast?_ofPlace h

theorem components_ofPlace :
    (ofPlace (parent ++ [n])).components = .root :: (parent ++ [n]).map .name := by
  have hnamed : ([] :: (parent ++ [n])).filterMap component? = (parent ++ [n]).map .name := by
    rw [List.filterMap_cons_none (by rfl), filterMap_component? h]
  have hpieces := pieces_ofPlace h
  rw [components, hpieces]
  simp only [hnamed]
  cases parent with
  | nil => rfl
  | cons a parent => rfl

theorem fileName?_ofPlace : (ofPlace (parent ++ [n])).fileName? = some n := by
  rw [fileName?, components_ofPlace h, List.map_append, ← List.cons_append, List.map_singleton,
    List.getLast?_concat]

/-- The sibling of a canonical path is the canonical path beside it. -/
theorem sibling_ofPlace (hm : isBareName m = true) :
    (ofPlace (parent ++ [n])).sibling m = ofPlace (parent ++ [m]) := by
  have hcomponents : (ofPlace (parent ++ [n])).components.dropLast = .root :: parent.map .name := by
    rw [components_ofPlace h]
    simp [List.dropLast]
  rw [sibling, fileName?_ofPlace h, hcomponents]
  show join (ofPlace parent) ⟨m⟩ = _
  rw [join, isAbsolute_of_isBareName hm]
  rw [if_neg (by simp)]
  rcases List.eq_nil_or_concat parent with rfl | ⟨above, k, hparent⟩
  · -- behind the root there is no separator to add
    have hroot : (ofPlace []).text = [separator] := rfl
    have heq : (ofPlace ([] ++ [m])).text = separator :: m := by
      rw [text_ofPlace (by simp)]
      simp
    rw [if_pos (by rw [hroot]; rfl), hroot]
    exact congrArg Path.mk heq.symm
  · rw [List.concat_eq_append] at hparent
    subst hparent
    have habove : ∀ x ∈ above ++ [k], isBareName x = true :=
      fun x hx => h x (List.mem_append_left _ hx)
    have hlast := getLast?_ofPlace habove
    have htext : (ofPlace (above ++ [k])).text ≠ [] := by
      rw [text_ofPlace (by simp), List.flatMap_append]
      simp
    rw [if_neg (by simpa using ⟨htext, hlast⟩)]
    have heq : (ofPlace (above ++ [k] ++ [m])).text =
        (ofPlace (above ++ [k])).text ++ separator :: m := by
      rw [text_ofPlace (by simp), text_ofPlace (by simp), List.flatMap_append, List.flatMap_singleton]
    exact congrArg Path.mk heq.symm

end

end Path

namespace Disk

/-! ## Walks along canonical paths -/

/-- There is a folder at the place in which names can be looked up. -/
def Searchable (d : Disk) (folder : Place) : Prop :=
  ∃ mode, d.at? folder = some (.folder mode) ∧ maySearch mode = true

variable {d d' : Disk}

theorem walk_into {follow : Bool} {links mode : Nat} {folder : Place} {step : Text}
    {rest : List Text} (hs : d.Searchable folder) (hstep : isEntryName step = true)
    (hnext : d.at? (folder ++ [step]) = some (.folder mode)) :
    d.walk follow links folder (step :: rest) = d.walk follow links (folder ++ [step]) rest := by
  obtain ⟨mode', hfolder, hmode⟩ := hs
  rw [walk, hfolder]
  simp only [hmode, Bool.not_true, Bool.false_eq_true, if_false,
    ne_here_of_isBareName (isBareName_of_isEntryName hstep),
    ne_up_of_isBareName (isBareName_of_isEntryName hstep), isTooLong_of_isEntryName hstep, hnext]

/-- A walk through folders that can be searched comes to the last name. -/
theorem walk_names {follow : Bool} {links : Nat} {names : List Text} {last : Text} {folder : Place}
    (hnames : ∀ x ∈ names, isEntryName x = true)
    (hs : ∀ above, above <+: names → d.Searchable (folder ++ above)) :
    d.walk follow links folder (names ++ [last]) = d.walk follow links (folder ++ names) [last] := by
  induction names generalizing folder with
  | nil => rw [List.nil_append, List.append_nil]
  | cons n names ih =>
      have hfolder : d.Searchable folder := by
        have h := hs [] (List.nil_prefix)
        rwa [List.append_nil] at h
      obtain ⟨mode, hnext, -⟩ := hs [n] (by simp)
      rw [List.cons_append, walk_into hfolder (hnames n List.mem_cons_self) hnext,
        ih (fun x hx => hnames x (List.mem_cons_of_mem _ hx)), List.append_assoc,
        List.singleton_append]
      intro above habove
      rw [List.append_assoc, List.singleton_append]
      exact hs _ (List.cons_prefix_cons.mpr ⟨rfl, habove⟩)

variable {parent : Place} {n : Text}

theorem spot_ofPlace_eq (hnames : ∀ x ∈ parent ++ [n], isBareName x = true) (follow : Bool) :
    d.spot follow (.ofPlace (parent ++ [n])) = d.walk follow maxLinks [] (parent ++ [n]) := by
  have hhead : (Path.ofPlace (parent ++ [n])).text.head? = some Path.separator := by
    rw [Path.text_ofPlace (by simp)]
    cases parent with
    | nil => rfl
    | cons a parent => rfl
  have htext : (Path.ofPlace (parent ++ [n])).text.isEmpty = false := by
    rw [List.isEmpty_eq_false_iff]
    intro hnil
    rw [hnil] at hhead
    exact absurd hhead (by simp)
  rw [spot, htext, if_neg (by simp), Path.steps_ofPlace hnames, Path.isAbsolute, hhead]
  rfl

theorem isBareName_concat (hparent : ∀ x ∈ parent, isEntryName x = true) (hn : isBareName n = true) :
    ∀ x ∈ parent ++ [n], isBareName x = true := by
  intro x hx
  rcases List.mem_append.mp hx with hx | hx
  · exact isBareName_of_isEntryName (hparent x hx)
  · rwa [List.mem_singleton.mp hx]

section

variable (hparent : ∀ x ∈ parent, isEntryName x = true) (hn : isBareName n = true)
  (hs : ∀ above, above <+: parent → d.Searchable above)

include hparent hn hs

theorem spot_ofPlace_last (follow : Bool) :
    d.spot follow (.ofPlace (parent ++ [n])) = d.walk follow maxLinks parent [n] := by
  rw [spot_ofPlace_eq (isBareName_concat hparent hn), walk_names hparent hs]
  rfl

/-- A name with too many bytes is not looked up. -/
theorem spot_ofPlace_tooLong (hlong : isTooLong n = true) (follow : Bool) :
    d.spot follow (.ofPlace (parent ++ [n])) = .error .nameTooLong := by
  obtain ⟨mode, hfolder, hmode⟩ := hs parent (List.prefix_refl _)
  rw [spot_ofPlace_last hparent hn hs, walk, hfolder]
  simp only [hmode, Bool.not_true, Bool.false_eq_true, if_false, ne_here_of_isBareName hn,
    ne_up_of_isBareName hn, hlong, if_true]

end

section

variable (hnames : ∀ x ∈ parent ++ [n], isEntryName x = true)
  (hs : ∀ above, above <+: parent → d.Searchable above)

include hnames hs

/-- **A canonical path leads to its place**: to the file there, ... -/
theorem spot_ofPlace_file {content : ByteArray} {mode : Nat}
    (hfile : d.at? (parent ++ [n]) = some (.file content mode)) (follow : Bool) :
    d.spot follow (.ofPlace (parent ++ [n])) =
      .ok (.taken (parent ++ [n]) (.file content mode)) := by
  obtain ⟨mode', hfolder, hmode⟩ := hs parent (List.prefix_refl _)
  have hn := hnames n (by simp)
  rw [spot_ofPlace_last (fun x hx => hnames x (List.mem_append_left _ hx))
    (isBareName_of_isEntryName hn) hs, walk, hfolder]
  simp only [hmode, Bool.not_true, Bool.false_eq_true, if_false,
    ne_here_of_isBareName (isBareName_of_isEntryName hn),
    ne_up_of_isBareName (isBareName_of_isEntryName hn), isTooLong_of_isEntryName hn, hfile,
    List.isEmpty_nil, if_true]

/-- ... or to the free name. -/
theorem spot_ofPlace_free (hvacant : d.at? (parent ++ [n]) = none) (follow : Bool) :
    d.spot follow (.ofPlace (parent ++ [n])) = .ok (.free parent n) := by
  obtain ⟨mode, hfolder, hmode⟩ := hs parent (List.prefix_refl _)
  have hn := hnames n (by simp)
  rw [spot_ofPlace_last (fun x hx => hnames x (List.mem_append_left _ hx))
    (isBareName_of_isEntryName hn) hs, walk, hfolder]
  simp only [hmode, Bool.not_true, Bool.false_eq_true, if_false,
    ne_here_of_isBareName (isBareName_of_isEntryName hn),
    ne_up_of_isBareName (isBareName_of_isEntryName hn), isTooLong_of_isEntryName hn, hvacant,
    List.isEmpty_nil, if_true]

end

/-! ## Sound disks -/

/-- There is a folder at the place. -/
def hasFolder (d : Disk) (place : Place) : Bool :=
  match d.at? place with
  | some (.folder _) => true
  | _ => false

/-- Every entry has a name and stands in a folder, and the name that is made where a name is no text is
one itself. -/
structure Sound (d : Disk) : Prop where
  names : ∀ e ∈ d.entries, ∀ n ∈ e.1, isEntryName n = true
  parents : ∀ e ∈ d.entries, d.hasFolder e.1.dropLast = true
  made : d.isLabel (d.waitingName none) = false

theorem exists_folder_of_hasFolder {place : Place} (h : d.hasFolder place = true) :
    ∃ mode, d.at? place = some (.folder mode) := by
  unfold hasFolder at h
  split at h
  · exact ⟨_, ‹_›⟩
  · exact absurd h (by simp)

theorem mem_entries_of_at? {place : Place} {e : Entry} (hne : place ≠ [])
    (h : d.at? place = some e) : (place, e) ∈ d.entries := by
  have hlookup : d.entries.lookup place = some e := by
    cases place with
    | nil => exact absurd rfl hne
    | cons a rest => exact h
  obtain ⟨before, after, hentries, -⟩ := List.lookup_eq_some_iff.mp hlookup
  rw [hentries]
  simp

theorem Sound.entryNames (hd : d.Sound) {place : Place} {e : Entry} (h : d.at? place = some e) :
    ∀ n ∈ place, isEntryName n = true := by
  intro n hn
  have hne : place ≠ [] := by
    rintro rfl
    exact absurd hn List.not_mem_nil
  exact hd.names _ (mem_entries_of_at? hne h) n hn

/-- Above an entry there are folders. -/
theorem Sound.folder_above (hd : d.Sound) {above below : Place} {e : Entry}
    (h : d.at? (above ++ below) = some e) (hne : below ≠ []) :
    ∃ mode, d.at? above = some (.folder mode) := by
  induction below using List.reverseRecOn generalizing e with
  | nil => exact absurd rfl hne
  | append_singleton below n ih =>
      have hparent := hd.parents _ (mem_entries_of_at? (by simp) h)
      rw [← List.append_assoc, List.dropLast_concat] at hparent
      obtain ⟨mode, hfolder⟩ := exists_folder_of_hasFolder hparent
      by_cases hbelow : below = []
      · subst hbelow
        rw [List.append_nil] at hfolder
        exact ⟨mode, hfolder⟩
      · exact ih hfolder hbelow

/-- A folder that cannot be searched is not even entered. -/
theorem walk_refused {follow : Bool} {links mode : Nat} {folder : Place} {step : Text}
    {rest : List Text} (hfolder : d.at? folder = some (.folder mode))
    (hno : ¬ d.Searchable folder) :
    d.walk follow links folder (step :: rest) = .error .permissionDenied := by
  have hmode : maySearch mode = false := by
    rw [← Bool.not_eq_true]
    exact fun hmode => hno ⟨mode, hfolder, hmode⟩
  rw [walk, hfolder]
  simp only [hmode, Bool.not_false, if_true]

/-- A walk through folders is refused where one of them cannot be searched. -/
theorem walk_of_not_searchable {follow : Bool} {links : Nat} {names : List Text} {last : Text}
    {folder : Place} (hnames : ∀ x ∈ names, isEntryName x = true)
    (hfolders : ∀ above, above <+: names → ∃ mode, d.at? (folder ++ above) = some (.folder mode))
    (hno : ¬ ∀ above, above <+: names → d.Searchable (folder ++ above)) :
    d.walk follow links folder (names ++ [last]) = .error .permissionDenied := by
  obtain ⟨mode, hhere⟩ := hfolders [] List.nil_prefix
  rw [List.append_nil] at hhere
  induction names generalizing folder mode with
  | nil =>
      apply walk_refused hhere
      intro hs
      apply hno
      intro above habove
      rw [List.prefix_nil.mp habove, List.append_nil]
      exact hs
  | cons n names ih =>
      by_cases hs : d.Searchable folder
      · obtain ⟨mode, hnext⟩ := hfolders [n] (by simp)
        rw [List.cons_append, walk_into hs (hnames n List.mem_cons_self) hnext]
        refine ih (fun x hx => hnames x (List.mem_cons_of_mem _ hx)) ?_ ?_ mode hnext
        · intro above habove
          rw [List.append_assoc, List.singleton_append]
          exact hfolders _ (List.cons_prefix_cons.mpr ⟨rfl, habove⟩)
        · intro hrest
          apply hno
          intro above habove
          cases above with
          | nil => rwa [List.append_nil]
          | cons m above =>
              obtain ⟨rfl, hprefix⟩ := List.cons_prefix_cons.mp habove
              have hbelow := hrest above hprefix
              rwa [List.append_assoc, List.singleton_append] at hbelow
      · exact walk_refused hhere hs

end Disk

end ImportTidy

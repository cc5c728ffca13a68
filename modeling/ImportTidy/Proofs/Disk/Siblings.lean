/-
# ImportTidy.Proofs.Disk.Siblings — the way to a sibling

The sibling of a path is written with the components of the path, in which separators and inner `.`
do not count. So the walk to it takes the steps of the path but for some that stay where they are
(`steps_sibling`), and it comes to the folder in which the path ends (`spot_sibling`).
-/
import ImportTidy.Proofs.Disk.Endings

namespace ImportTidy

namespace Path

variable {p q : Path} {last m : Text}

/-! ## The steps of a sibling -/

theorem isAbsolute_join (q : Path) (hm : isBareName m = true) :
    (q.join ⟨m⟩).isAbsolute = q.isAbsolute := by
  rcases text_join q hm with ⟨hempty, hjoin⟩ | ⟨b, hb, hjoin⟩ | ⟨hne, hjoin⟩
  · rw [hjoin, isAbsolute_of_isBareName hm, isAbsolute, hempty]
    rfl
  · rw [hjoin, isAbsolute, isAbsolute, hb]
    cases b <;> rfl
  · rw [hjoin, isAbsolute, isAbsolute, List.head?_append_of_ne_nil _ hne]

/-- Behind the names of a path a walk takes the name that is joined to it. -/
theorem steps_join (q : Path) (hm : isBareName m = true) :
    (q.join ⟨m⟩).steps = (q.pieces.filter fun piece => !piece.isEmpty) ++ [m] := by
  have hm' : [m].filter (fun piece => !piece.isEmpty) = [m] := by
    simpa using ne_nil_of_isBareName hm
  have hbare := List.splitOn_eq_singleton (separator_not_mem_of_isBareName hm)
  rw [(endsIn_join q hm).steps_eq]
  rcases text_join q hm with ⟨hempty, hjoin⟩ | ⟨b, hb, hjoin⟩ | ⟨-, hjoin⟩
  · rw [hjoin, pieces, pieces, hempty, List.splitOn_nil, hbare, hm']
    rfl
  · rw [hjoin, pieces, pieces, hb, List.splitOn_append_cons_self, List.splitOn_append_cons_self, hbare,
      List.splitOn_nil, List.filter_append, List.filter_append, hm']
    simp
  · rw [hjoin, pieces, pieces, List.splitOn_append_cons_self, hbare, List.filter_append, hm']

/-- No component has a separator in its text. -/
theorem separator_not_mem_text {c : Component} (h : c ∈ p.components) : separator ∉ c.text := by
  cases c with
  | root | here | up => decide
  | name n =>
      obtain ⟨piece, hpiece, hcomponent⟩ := List.mem_filterMap.mp (mem_named_of_mem_components h)
      have hname := isBareName_of_component? (not_mem_of_mem_splitOn hpiece) hcomponent
      exact separator_not_mem_of_isBareName hname

/-- An absolute path has an empty piece in front of its first separator. -/
theorem isAbsolute_iff : p.isAbsolute = true ↔ ∃ x more, p.pieces = [] :: x :: more := by
  unfold isAbsolute pieces
  cases p.text with
  | nil => simp [List.splitOn_nil]
  | cons c t =>
      obtain ⟨x, more, hsplit⟩ := List.exists_cons_of_ne_nil (List.splitOn_ne_nil separator t)
      rw [List.splitOn_cons_eq_if_modifyHead, hsplit]
      by_cases hc : c = separator <;> simp [hc]

section OfComponents

variable {cs : List Component} (h : ∀ c ∈ cs, separator ∉ c.text)

include h

theorem pieces_ofComponents (hne : cs ≠ []) (hroot : cs ≠ [.root]) :
    (ofComponents cs).pieces = cs.map Component.text := by
  unfold ofComponents
  split
  · exact absurd rfl hroot
  · rw [pieces, Text.join, List.splitOn_intercalate separator (by simpa using h) (by simpa using hne)]

theorem filter_pieces_ofComponents :
    (ofComponents cs).pieces.filter (fun piece => !piece.isEmpty) =
      (cs.map Component.text).filter fun piece => !piece.isEmpty := by
  by_cases hne : cs = []
  · rw [hne]
    rfl
  by_cases hroot : cs = [.root]
  · rw [hroot]
    rfl
  · rw [pieces_ofComponents h hne hroot]

theorem isAbsolute_ofComponents (hcs : ∀ c, cs.head? = some c → c.text ≠ []) :
    (ofComponents cs).isAbsolute = false := by
  cases cs with
  | nil => rfl
  | cons c cs =>
      have hc := hcs c rfl
      have hroot : c :: cs ≠ [.root] := by
        rintro hroot
        rw [(List.cons.inj hroot).1] at hc
        exact hc rfl
      rw [← Bool.not_eq_true, isAbsolute_iff, pieces_ofComponents h (by simp) hroot]
      rintro ⟨x, more, heq⟩
      exact hc (List.cons.inj heq).1

end OfComponents

theorem isAbsolute_ofComponents_root {cs : List Component}
    (h : ∀ c ∈ Component.root :: cs, separator ∉ c.text) :
    (ofComponents (.root :: cs)).isAbsolute = true := by
  cases cs with
  | nil => rfl
  | cons c cs =>
      rw [isAbsolute_iff, pieces_ofComponents h (by simp) (by simp)]
      exact ⟨_, _, rfl⟩

/-- The texts of the components of pieces are the pieces that say something. -/
theorem map_text_filterMap (front : List Text) :
    (front.filterMap component?).map Component.text =
      front.filter fun piece => !piece.isEmpty && piece != ['.'] := by
  induction front with
  | nil => rfl
  | cons x front ih =>
      by_cases hx : x = [] ∨ x = ['.']
      · have hnone : component? x = none := by rw [component?, if_pos hx]
        rw [List.filterMap_cons_none hnone, ih, List.filter_cons_of_neg]
        rcases hx with rfl | rfl <;> simp
      · have hsome : ∃ c, component? x = some c ∧ c.text = x := by
          by_cases hup : x = ['.', '.']
          · exact ⟨.up, by rw [component?, if_neg hx, if_pos hup], hup.symm⟩
          · exact ⟨.name x, by rw [component?, if_neg hx, if_neg hup], rfl⟩
        obtain ⟨c, hc, htext⟩ := hsome
        rw [List.filterMap_cons_some hc, List.map_cons, htext, ih, List.filter_cons_of_pos]
        simpa using not_or.mp hx

/-- The components of a path that ends in a name, and whether it is absolute. -/
theorem components_of_endsIn (h : p.EndsIn last) (hlast : isBareName last = true) :
    ∃ front lead, p.pieces = front ++ [last] ∧
      p.components = lead ++ (front.filterMap component? ++ [.name last]) ∧
      (p.isAbsolute = false ∧ lead = [] ∨ p.isAbsolute = true ∧ lead = [.root] ∨
        p.isAbsolute = false ∧ lead = [.here] ∧ front.head? = some ['.']) := by
  obtain ⟨front, hpieces⟩ := h.pieces
  have habsolute : p.isAbsolute = true ↔ ∃ x more, front ++ [last] = [] :: x :: more := by
    rw [isAbsolute_iff, hpieces]
  unfold components
  simp only [hpieces, filterMap_component?_concat front hlast]
  refine ⟨front, ?_⟩
  match front with
  | [] =>
      refine ⟨[], rfl, ?_, Or.inl ⟨?_, rfl⟩⟩
      · split
        · exact absurd ‹_› (by simp)
        · rename_i heq
          exact absurd (List.cons.inj heq).1 (ne_here_of_isBareName hlast)
        · rfl
      · simpa using habsolute
  | [] :: front =>
      refine ⟨[.root], rfl, ?_, Or.inr (Or.inl ⟨?_, rfl⟩)⟩
      · cases front <;> rfl
      · cases front <;> simp [habsolute]
  | (c :: x) :: front =>
      have hrelative : p.isAbsolute = false := by simpa using habsolute
      by_cases hhere : c :: x = ['.']
      · rw [hhere]
        exact ⟨[.here], rfl, rfl, Or.inr (Or.inr ⟨hrelative, rfl, rfl⟩)⟩
      · refine ⟨[], rfl, ?_, Or.inl ⟨hrelative, rfl⟩⟩
        split
        · exact absurd ‹_› (by simp)
        · rename_i heq
          exact absurd (List.cons.inj heq).1 hhere
        · rfl

/-- Of the steps none is left out but dots. -/
theorem filter_dots (front : List Text) :
    (front.filter fun piece => !piece.isEmpty && piece != ['.']).filter (fun piece => !piece.isEmpty) =
      (front.filter fun piece => !piece.isEmpty).filter (· != ['.']) := by
  simp only [List.filter_filter]
  congr 1
  funext piece
  cases piece <;> simp

theorem text_ne_nil_of_component? {piece : Text} {c : Component} (h : component? piece = some c) :
    c.text ≠ [] := by
  unfold component? at h
  split at h
  · exact absurd h (by simp)
  split at h
  · obtain rfl := Option.some.inj h
    decide
  · obtain rfl := Option.some.inj h
    rename_i hne _
    exact fun hnil => hne (Or.inl hnil)

/-- **The steps to a sibling** are those to the path but for some that stay where they are, up to
the last one. -/
theorem steps_sibling (h : p.EndsIn last) (hlast : isBareName last = true)
    (hm : isBareName m = true) :
    (p.sibling m).isAbsolute = p.isAbsolute ∧
      ∃ a b, p.steps = a ++ b ++ [last] ∧
        (p.sibling m).steps = a ++ b.filter (· != ['.']) ++ [m] := by
  obtain ⟨front, lead, hpieces, hcomponents, hlead⟩ := components_of_endsIn h hlast
  have hsibling : p.sibling m = (ofComponents (lead ++ front.filterMap component?)).join ⟨m⟩ := by
    rw [sibling, h.fileName? hlast, hcomponents, ← List.append_assoc, List.dropLast_concat]
    rfl
  have hbare : ∀ c ∈ lead ++ front.filterMap component?, separator ∉ c.text := by
    intro c hc
    apply separator_not_mem_text (p := p)
    rw [hcomponents, ← List.append_assoc]
    exact List.mem_append_left _ hc
  have hsteps : p.steps = front.filter (fun piece => !piece.isEmpty) ++ [last] := by
    rw [h.steps_eq, hpieces, List.filter_append, List.filter_cons_of_pos (by simpa using h.ne_nil),
      List.filter_nil]
  rw [hsibling, isAbsolute_join _ hm, steps_join _ hm, filter_pieces_ofComponents hbare, hsteps,
    List.map_append, map_text_filterMap, List.filter_append]
  -- only a first `.` of a relative path is a component, and so is kept
  rcases hlead with ⟨habsolute, rfl⟩ | ⟨habsolute, rfl⟩ | ⟨habsolute, rfl, hhead⟩
  · refine ⟨?_, [], _, rfl, by rw [filter_dots]; rfl⟩
    rw [habsolute]
    apply isAbsolute_ofComponents hbare
    intro c hc
    obtain ⟨piece, -, hpiece⟩ := List.mem_filterMap.mp (List.mem_of_head? hc)
    exact text_ne_nil_of_component? hpiece
  · refine ⟨?_, [], _, rfl, by rw [filter_dots]; rfl⟩
    rw [habsolute]
    exact isAbsolute_ofComponents_root hbare
  · obtain ⟨front', rfl⟩ := List.head?_eq_some_iff.mp hhead
    refine ⟨?_, [['.']], front'.filter fun piece => !piece.isEmpty, rfl, ?_⟩
    · rw [habsolute]
      apply isAbsolute_ofComponents hbare
      intro c hc
      obtain rfl := Option.some.inj hc
      decide
    · rw [List.filter_cons_of_neg (a := ['.']) (by decide), filter_dots]
      rfl

end Path

namespace Disk

variable {d : Disk} {p : Path} {follow : Bool} {links : Nat} {folder : Place} {rest : List Text}
  {last m : Text} {r : Spot}

/-! ## The walk to a sibling -/

/-- A step that stays where it is can be left out, if others follow. -/
theorem Route.omit_here {a : List Text} (h : Route d follow links folder (a ++ ['.'] :: rest) r)
    (hrest : rest ≠ []) : Route d follow links folder (a ++ rest) r := by
  generalize hsteps : a ++ ['.'] :: rest = steps at h
  induction h generalizing a with
  | stop => exact absurd hsteps (by simp)
  | here hs hroute ih =>
      match a with
      | [] =>
          obtain ⟨-, rfl⟩ := List.cons.inj hsteps
          exact hroute
      | x :: a =>
          obtain ⟨rfl, hmore⟩ := List.cons.inj hsteps
          exact .here hs (ih hmore)
  | up hs hroute ih =>
      match a with
      | [] => exact absurd (List.cons.inj hsteps).1 (by decide)
      | x :: a =>
          obtain ⟨rfl, hmore⟩ := List.cons.inj hsteps
          exact .up hs (ih hmore)
  | enter hn hnext hroute ih =>
      match a with
      | [] => exact absurd (List.cons.inj hsteps).1.symm hn.ne_here
      | x :: a =>
          obtain ⟨rfl, hmore⟩ := List.cons.inj hsteps
          exact .enter hn hnext (ih hmore)
  | free hn | file hn | link hn =>
      match a with
      | [] => exact absurd (List.cons.inj hsteps).1.symm hn.ne_here
      | x :: a => exact absurd (List.cons.inj hsteps).2 (by simp)
  | @through links folder step more target r hn hnext hmore hroute ih =>
      match a with
      | [] => exact absurd (List.cons.inj hsteps).1.symm hn.ne_here
      | x :: a =>
          obtain ⟨rfl, rfl⟩ := List.cons.inj hsteps
          have hbehind := ih (List.append_assoc target.steps a _)
          rw [List.append_assoc] at hbehind
          exact .through hn hnext (fun hnil => absurd (List.append_eq_nil_iff.mp hnil).2 hrest) hbehind

theorem Route.filter_here {a b : List Text} (h : Route d follow links folder (a ++ (b ++ rest)) r)
    (hrest : rest ≠ []) :
    Route d follow links folder (a ++ (b.filter (· != ['.']) ++ rest)) r := by
  induction b generalizing a with
  | nil => exact h
  | cons x b ih =>
      by_cases hx : x = ['.']
      · subst hx
        rw [List.filter_cons_of_neg (by decide)]
        exact ih (h.omit_here (by simp [hrest]))
      · rw [List.filter_cons_of_pos (by simpa using hx)]
        have hmore := ih (a := a ++ [x]) (by simpa using h)
        simpa using hmore

/-- **A sibling is looked for in the folder in which the path ends.** -/
theorem spot_sibling (hd : d.Sound) (hp : p.EndsIn last) (hm : isBareName m = true)
    (h : d.spot false p = .ok r) (hno : ∀ mode, r.occupant? ≠ some (.folder mode)) :
    ∃ parent, d.Names parent last ∧ isEntryName last = true ∧ r.place = parent ++ [last] ∧
      ∀ follow r', (∀ k, Route d follow k parent [m] r') → d.spot follow (p.sibling m) = .ok r' := by
  obtain ⟨parent, hn, hlast, hplace, hreach⟩ :=
    (spot_last hd hp h).resolve_left fun ⟨mode, hmode⟩ => hno mode hmode
  refine ⟨parent, hn, hlast, hplace, ?_⟩
  intro follow r' hgo
  obtain ⟨habsolute, a, b, hsteps, hsibling⟩ :=
    Path.steps_sibling hp (isBareName_of_isEntryName hlast) hm
  have hroute := hreach (a ++ b) hsteps follow [m] r' (by simp) hgo
  rw [List.append_assoc] at hroute
  rw [spot_iff, hsibling, start, habsolute, List.append_assoc]
  exact ⟨(Path.endsIn_sibling p hm).text_ne_nil, hroute.filter_here (by simp)⟩

end Disk

end ImportTidy

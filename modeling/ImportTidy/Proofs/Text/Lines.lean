/-
# ImportTidy.Proofs.Text.Lines — cutting a text into lines undoes ending lines

A line followed by its end is cut off as it was, with one exception: a carriage return at the end
of a line is taken for part of the line's end when a line feed follows. The lemmas below keep that
exception as a hypothesis, and say when a text has no such line.
-/
import ImportTidy.Text.Basic

namespace ImportTidy

namespace Text

/-! ## One line -/

theorem lines_lineFeed (t : Text) : lines ('\n' :: t) = [] :: lines t := by rw [lines]

theorem lines_return (t : Text) : lines ('\r' :: '\n' :: t) = [] :: lines t := by rw [lines]

/-- A character that starts no line end belongs to the first line. -/
theorem lines_cons {c : Char} {t : Text} (hn : c ≠ '\n')
    (hr : ¬ (c = '\r' ∧ t.head? = some '\n')) :
    lines (c :: t) = (c :: (lines t).headD []) :: (lines t).tail := by
  -- the first three equations are for the empty text and for the two line ends
  rw [lines.eq_def]
  split
  · rename_i heq
    exact absurd heq (List.cons_ne_nil c t)
  · rename_i heq
    exact absurd (List.cons.inj heq).1 hn
  · rename_i heq
    obtain ⟨hc, ht⟩ := List.cons.inj heq
    exact absurd ⟨hc, by rw [ht]; rfl⟩ hr
  · rename_i heq
    obtain ⟨rfl, rfl⟩ := List.cons.inj heq
    cases lines t <;> rfl

/-- A line that does not end in a carriage return is cut off at a line feed. -/
theorem lines_append_lineFeed {l : Text} (hn : '\n' ∉ l) (hr : l.getLast? ≠ some '\r') (t : Text) :
    lines (l ++ '\n' :: t) = l :: lines t := by
  induction l with
  | nil => exact lines_lineFeed t
  | cons c l ih =>
      rw [List.mem_cons, not_or] at hn
      have htail : l.getLast? ≠ some '\r' := by
        cases l with
        | nil => simp
        | cons d l => simpa using hr
      -- a line end at `c` would make `c` the carriage return that the line ends in
      have hhead : ¬ (c = '\r' ∧ (l ++ '\n' :: t).head? = some '\n') := by
        rintro ⟨hc, hd⟩
        cases l with
        | nil => exact hr (by simp [hc])
        | cons d l => exact hn.2 (by simp at hd; simp [hd])
      rw [List.cons_append, lines_cons (Ne.symm hn.1) hhead, ih hn.2 htail]
      rfl

/-- A carriage return and a line feed end any line. -/
theorem lines_append_return {l : Text} (hn : '\n' ∉ l) (t : Text) :
    lines (l ++ '\r' :: '\n' :: t) = l :: lines t := by
  induction l with
  | nil => exact lines_return t
  | cons c l ih =>
      rw [List.mem_cons, not_or] at hn
      have hhead : ¬ (c = '\r' ∧ (l ++ '\r' :: '\n' :: t).head? = some '\n') := by
        rintro ⟨-, hd⟩
        cases l with
        | nil => exact absurd hd (by simp)
        | cons d l => exact hn.2 (by simp at hd; simp [hd])
      rw [List.cons_append, lines_cons (Ne.symm hn.1) hhead, ih hn.2]
      rfl

/-- The line without the carriage return that it may end in. -/
def dropReturn (l : Text) : Text := if l.getLast? = some '\r' then l.dropLast else l

/-- A line feed cuts any line off, with the carriage return before it. -/
theorem lines_append_lineFeed_dropReturn {l : Text} (hn : '\n' ∉ l) (t : Text) :
    lines (l ++ '\n' :: t) = dropReturn l :: lines t := by
  unfold dropReturn
  split
  · rename_i hlast
    obtain ⟨front, rfl⟩ := List.getLast?_eq_some_iff.mp hlast
    have hfront : '\n' ∉ front := fun h => hn (List.mem_append_left _ h)
    rw [List.append_assoc, List.singleton_append, lines_append_return hfront,
      List.dropLast_concat]
  · rename_i hlast
    exact lines_append_lineFeed hn hlast t

/-! ## All lines -/

theorem lines_ne_nil {t : Text} (h : t ≠ []) : lines t ≠ [] := by
  fun_cases lines t <;> simp_all

/-- No line has a line feed in it. -/
theorem lineFeed_not_mem_of_mem_lines {t l : Text} (h : l ∈ lines t) : '\n' ∉ l := by
  fun_induction lines t generalizing l with
  | case1 => exact absurd h List.not_mem_nil
  | case2 t ih =>
      rcases List.mem_cons.mp h with rfl | h
      · exact List.not_mem_nil
      · exact ih h
  | case3 t ih =>
      rcases List.mem_cons.mp h with rfl | h
      · exact List.not_mem_nil
      · exact ih h
  | case4 c t hn hr hnil ih =>
      obtain rfl := List.mem_singleton.mp h
      simpa using Ne.symm hn
  | case5 c t hn hr line more hlines ih =>
      rw [hlines] at ih
      rcases List.mem_cons.mp h with rfl | h
      · rw [List.mem_cons, not_or]
        exact ⟨Ne.symm hn, ih List.mem_cons_self⟩
      · exact ih (List.mem_cons_of_mem line h)

theorem lines_of_not_mem {row : Text} (hne : row ≠ []) (hn : '\n' ∉ row) :
    lines row = [row] := by
  induction row with
  | nil => exact absurd rfl hne
  | cons c row ih =>
      rw [List.mem_cons, not_or] at hn
      have hhead : ¬ (c = '\r' ∧ row.head? = some '\n') := by
        rintro ⟨-, hd⟩
        exact hn.2 (List.mem_of_mem_head? hd)
      rw [lines_cons (Ne.symm hn.1) hhead]
      cases row with
      | nil => rfl
      | cons d row =>
          rw [ih (List.cons_ne_nil d row) hn.2]
          rfl

/-! ## Texts, row by row -/

/-- A text is empty, or a last row without a line feed, or a line that a line feed ends and a text
behind it. -/
inductive Rowed : Text → Prop
  | nil : Rowed []
  | last {row : Text} : row ≠ [] → '\n' ∉ row → Rowed row
  | cons {line t : Text} : '\n' ∉ line → Rowed t → Rowed (line ++ '\n' :: t)

/-- Every text can be taken row by row. -/
theorem rowed (t : Text) : Rowed t := by
  induction t with
  | nil => exact .nil
  | cons c t ih =>
      by_cases hc : c = '\n'
      · subst hc
        show Rowed ([] ++ '\n' :: t)
        exact .cons List.not_mem_nil ih
      · cases ih with
        | nil => exact .last (List.cons_ne_nil c []) (by simpa using Ne.symm hc)
        | last hne hn => exact .last (List.cons_ne_nil c t) (by simp [Ne.symm hc, hn])
        | @cons line t hn ht =>
            show Rowed ((c :: line) ++ '\n' :: t)
            exact .cons (by simp [Ne.symm hc, hn]) ht

/-- Where line feeds alone end the lines, only a carriage return at the end of the text ends a line,
and that line is the last one. -/
theorem last_of_return {t l : Text} (hrn : ¬ ['\r', '\n'] <:+: t) (h : l ∈ lines t)
    (hr : l.getLast? = some '\r') : (lines t).getLast? = some l ∧ t.getLast? = some '\r' := by
  induction rowed t with
  | nil => exact absurd h List.not_mem_nil
  | last hne hn =>
      rw [lines_of_not_mem hne hn] at h ⊢
      obtain rfl := List.mem_singleton.mp h
      exact ⟨rfl, hr⟩
  | @cons line t hn ht ih =>
      -- a carriage return at the end of this line would stand before its line feed
      have hline : line.getLast? ≠ some '\r' := by
        intro hlast
        obtain ⟨front, rfl⟩ := List.getLast?_eq_some_iff.mp hlast
        exact hrn ⟨front, t, by simp⟩
      rw [lines_append_lineFeed hn hline] at h ⊢
      rcases List.mem_cons.mp h with rfl | h
      · exact absurd hr hline
      · have hrn' : ¬ ['\r', '\n'] <:+: t := fun hi =>
          hrn (hi.trans ⟨line ++ ['\n'], [], by simp⟩)
        obtain ⟨hlast, hend⟩ := ih hrn' h
        have hne : t ≠ [] := by
          rintro rfl
          exact absurd hend (by simp)
        refine ⟨?_, ?_⟩
        · rw [List.getLast?_cons_of_ne_nil (lines_ne_nil hne), hlast]
        · rw [List.getLast?_append, List.getLast?_cons_of_ne_nil hne, hend]
          rfl

/-- The carriage return at the end of a text belongs to the last line. -/
theorem getLast?_of_getLast?_lines {t l : Text} (ht : t.getLast? = some '\r')
    (hl : (lines t).getLast? = some l) : l.getLast? = some '\r' := by
  induction rowed t with
  | nil => exact absurd ht (by simp)
  | last hne hn =>
      rw [lines_of_not_mem hne hn] at hl
      obtain rfl : _ = l := by simpa using hl
      exact ht
  | @cons line t hn _ ih =>
      have hne : t ≠ [] := by
        rintro rfl
        rw [List.getLast?_concat] at ht
        exact absurd ht (by decide)
      rw [lines_append_lineFeed_dropReturn hn, List.getLast?_cons_of_ne_nil (lines_ne_nil hne)] at hl
      refine ih ?_ hl
      rw [List.getLast?_append, List.getLast?_cons_of_ne_nil hne] at ht
      obtain ⟨c, hc⟩ := Option.isSome_iff_exists.mp (List.getLast?_isSome.mpr hne)
      rw [hc] at ht ⊢
      exact ht

end Text

end ImportTidy

/-
# ImportTidy.Proofs.Console.Rows — output as rows

A row is a line of output together with the line feed that ends it; only the last row may lack one.
Output arrives in pieces that may end in the middle of a row, and even of a character. An inbox
keeps the rows apart all the same (`cut_spec`), because no character but the line feed has the byte
of a line feed in it, and for the same reason the rows of a text's bytes spell the lines of the text
(`spoken_rows_bytes`).
-/
import ImportTidy.Console.Inbox
import ImportTidy.Proofs.Text.Bytes
import ImportTidy.Proofs.Text.Lines

namespace ImportTidy

namespace Inbox

theorem dropLineEnd_of_not_mem {t : Text} (h : '\n' ∉ t) : dropLineEnd t = t := by
  have hhead : t.reverse.head? ≠ some '\n' := by
    intro he
    exact h (List.mem_reverse.mp (List.mem_of_mem_head? he))
  unfold dropLineEnd
  split
  · rename_i heq
    exact absurd (by rw [heq]; rfl) hhead
  · rename_i heq
    exact absurd (by rw [heq]; rfl) hhead
  · rfl

theorem dropLineEnd_return (line : Text) : dropLineEnd (line ++ ['\r', '\n']) = line := by
  simp [dropLineEnd]

theorem dropLineEnd_lineFeed {line : Text} (h : line.getLast? ≠ some '\r') :
    dropLineEnd (line ++ ['\n']) = line := by
  have hhead : line.reverse.head? ≠ some '\r' := by rwa [List.head?_reverse]
  have hreverse : (line ++ ['\n']).reverse = '\n' :: line.reverse := by simp
  unfold dropLineEnd
  rw [hreverse]
  split
  · rename_i heq
    exact absurd (by rw [(List.cons.inj heq).2]; rfl) hhead
  · rename_i heq
    rw [← (List.cons.inj heq).2, List.reverse_reverse]
  · rename_i hno
    exact absurd rfl (hno line.reverse)

/-- The first line of a text is its first row without the line's end. -/
theorem lines_append_row {line : Text} (hn : '\n' ∉ line) (t : Text) :
    Text.lines (line ++ '\n' :: t) = dropLineEnd (line ++ ['\n']) :: Text.lines t := by
  by_cases hr : line.getLast? = some '\r'
  · -- the carriage return belongs to the line's end
    obtain ⟨l, rfl⟩ := List.getLast?_eq_some_iff.mp hr
    have hrow : l ++ ['\r'] ++ ['\n'] = l ++ ['\r', '\n'] := by simp
    rw [hrow, dropLineEnd_return, List.append_assoc]
    exact Text.lines_append_return (fun h => hn (List.mem_append_left _ h)) t
  · rw [dropLineEnd_lineFeed hr]
    exact Text.lines_append_lineFeed hn hr t

end Inbox

namespace Inbox

open Utf8 (bytes)

/-! ## The rows of some output -/

/-- Some output, cut behind each line feed. -/
def rows : List UInt8 → List (List UInt8)
  | [] => []
  | b :: x =>
    if b = 10 then [b] :: rows x
    else
      match rows x with
      | [] => [[b]]
      | row :: more => (b :: row) :: more

theorem flatten_rows (x : List UInt8) : (rows x).flatten = x := by
  fun_induction rows x <;> simp_all

theorem rows_of_not_mem {x : List UInt8} (hne : x ≠ []) (h : 10 ∉ x) : rows x = [x] := by
  induction x with
  | nil => exact absurd rfl hne
  | cons b x ih =>
      rw [List.mem_cons, not_or] at h
      cases x with
      | nil => simp [rows, Ne.symm h.1]
      | cons c x => rw [rows, if_neg (Ne.symm h.1), ih (List.cons_ne_nil c x) h.2]

theorem rows_append_lineFeed {line : List UInt8} (h : 10 ∉ line) (x : List UInt8) :
    rows (line ++ 10 :: x) = (line ++ [10]) :: rows x := by
  induction line with
  | nil => simp [rows]
  | cons b line ih =>
      rw [List.mem_cons, not_or] at h
      rw [List.cons_append, rows, if_neg (Ne.symm h.1), ih h.2]
      rfl

/-- Rows that have been ended are cut off as they are. -/
theorem rows_append {lines : List (List UInt8)} (h : ∀ line ∈ lines, 10 ∉ line) (x : List UInt8) :
    rows ((lines.map (· ++ [10])).flatten ++ x) = lines.map (· ++ [10]) ++ rows x := by
  induction lines with
  | nil => rfl
  | cons line lines ih =>
      rw [List.forall_mem_cons] at h
      have hfront : ((line :: lines).map (· ++ [10])).flatten ++ x =
          line ++ 10 :: ((lines.map (· ++ [10])).flatten ++ x) := by simp
      rw [hfront, rows_append_lineFeed h.1, ih h.2]
      rfl

/-- **Cutting loses nothing**: the lines with their line feeds and what stands behind them are the
bytes that were cut, and there is no other line feed in them. -/
theorem cut_spec (x : List UInt8) :
    ((cut x).1.map (· ++ [10])).flatten ++ (cut x).2 = x ∧ (∀ line ∈ (cut x).1, 10 ∉ line) ∧
      10 ∉ (cut x).2 := by
  induction x with
  | nil => simp [cut]
  | cons b x ih =>
      rw [cut]
      revert ih
      rcases cut x with ⟨lines, fragment⟩
      rintro ⟨hjoin, hlines, hfragment⟩
      by_cases hb : b = 10
      · subst hb
        refine ⟨by simpa using hjoin, ?_, hfragment⟩
        exact List.forall_mem_cons.mpr ⟨List.not_mem_nil, hlines⟩
      · dsimp only
        rw [if_neg hb]
        cases lines with
        | nil => exact ⟨by simpa using hjoin, hlines, by simpa [Ne.symm hb] using hfragment⟩
        | cons line more =>
            rw [List.forall_mem_cons] at hlines
            refine ⟨by simpa using hjoin, List.forall_mem_cons.mpr ⟨?_, hlines.2⟩, hfragment⟩
            simpa [Ne.symm hb] using hlines.1

/-! ## What rows spell -/

theorem decode_eq_ok_iff {x : List UInt8} {t : Text} : decode x = .ok t ↔ x = bytes t := by
  have hencode : ∀ t, (⟨(bytes t).toArray⟩ : ByteArray) = Utf8.encode t := by
    intro t
    rw [Utf8.encode, ← List.data_toByteArray]
  constructor
  · intro h
    unfold decode at h
    split at h
    · rename_i text hdecode
      obtain rfl := Except.ok.inj h
      have hback := (hencode text).trans (Utf8.encode_of_decode? hdecode)
      have hlist := congrArg (fun b : ByteArray => b.data.toList) hback
      simpa using hlist.symm
    · exact absurd h (by simp)
  · rintro rfl
    rw [decode, hencode, Utf8.decode?_encode]

/-- The line that a row spells; none when the row is no text. -/
def lineOf? (row : List UInt8) : Option Text :=
  match decode row with
  | .ok text => some (dropLineEnd text)
  | .error _ => none

/-- The lines that rows spell. A row that is no text counts for nothing. -/
def spoken (rows : List (List UInt8)) : List Text := rows.filterMap lineOf?

@[simp] theorem spoken_nil : spoken [] = [] := rfl

@[simp] theorem spoken_append (a b : List (List UInt8)) : spoken (a ++ b) = spoken a ++ spoken b :=
  List.filterMap_append

theorem spoken_cons_of_some {row : List UInt8} {line : Text} (h : lineOf? row = some line)
    (more : List (List UInt8)) : spoken (row :: more) = line :: spoken more :=
  List.filterMap_cons_some h

theorem spoken_cons_of_none {row : List UInt8} (h : lineOf? row = none)
    (more : List (List UInt8)) : spoken (row :: more) = spoken more :=
  List.filterMap_cons_none h

theorem lineOf?_bytes (t : Text) : lineOf? (bytes t) = some (dropLineEnd t) := by
  rw [lineOf?, decode_eq_ok_iff.mpr rfl]

/-- The rows of a text's bytes are the bytes of rows of the text. -/
theorem rows_bytes (t : Text) :
    ∃ texts : List Text, rows (bytes t) = texts.map bytes ∧
      texts.map dropLineEnd = Text.lines t := by
  induction Text.rowed t with
  | nil => exact ⟨[], rfl, rfl⟩
  | @last row hne hn =>
      have hbytes : 10 ∉ bytes row := fun h => hn (Utf8.lineFeed_mem_bytes.mp h)
      refine ⟨[row], rows_of_not_mem (Utf8.bytes_ne_nil hne) hbytes, ?_⟩
      rw [Text.lines_of_not_mem hne hn, List.map_singleton, dropLineEnd_of_not_mem hn]
  | @cons line t hn _ ih =>
      obtain ⟨texts, hrows, hlines⟩ := ih
      have hbytes : 10 ∉ bytes line := fun h => hn (Utf8.lineFeed_mem_bytes.mp h)
      refine ⟨(line ++ ['\n']) :: texts, ?_, ?_⟩
      · rw [Utf8.bytes_append, Utf8.bytes_lineFeed, rows_append_lineFeed hbytes, hrows,
          List.map_cons, Utf8.bytes_append, Utf8.bytes_lineFeed]
        rfl
      · rw [lines_append_row hn, List.map_cons, hlines]

/-- **The output of a text spells the lines of the text.** -/
theorem spoken_rows_bytes (t : Text) : spoken (rows (bytes t)) = Text.lines t := by
  obtain ⟨texts, hrows, hlines⟩ := rows_bytes t
  have hspoken : (lineOf? ∘ bytes) = some ∘ dropLineEnd := funext lineOf?_bytes
  rw [hrows, spoken, List.filterMap_map, hspoken, List.filterMap_eq_map, hlines]

/-- Every row of a text's output is text. -/
theorem lineOf?_ne_none {t : Text} {row : List UInt8} (h : row ∈ rows (bytes t)) :
    lineOf? row ≠ none := by
  obtain ⟨texts, hrows, -⟩ := rows_bytes t
  rw [hrows] at h
  obtain ⟨text, -, rfl⟩ := List.mem_map.mp h
  rw [lineOf?_bytes]
  exact Option.some_ne_none _

end Inbox

end ImportTidy

/-
# ImportTidy.Proofs.Text.Bytes — the bytes of a text

A text is written as the bytes of its characters. Only the line feed has the byte of a line feed in
it, so that the bytes of a text are cut into lines where the text is.
-/
import ImportTidy.Text.Utf8

namespace ImportTidy

namespace Utf8

theorem bytes_append (s t : Text) : bytes (s ++ t) = bytes s ++ bytes t :=
  List.flatMap_append

theorem bytes_lineFeed (t : Text) : bytes ('\n' :: t) = 10 :: bytes t := by
  have hone : String.utf8EncodeChar '\n' = [10] := by decide
  rw [bytes, List.flatMap_cons, hone]
  rfl

/-- Only the line feed has the byte of a line feed in it: every byte of a longer character is at
least 128. -/
theorem lineFeed_mem_utf8EncodeChar {c : Char} (h : 10 ∈ String.utf8EncodeChar c) : c = '\n' := by
  have hbyte : ∀ n : Nat, (10 : UInt8) = UInt8.ofNat n → n % 256 = 10 := by
    intro n he
    have := congrArg UInt8.toNat he
    simpa using this.symm
  simp only [String.utf8EncodeChar] at h
  split at h
  · have hn := hbyte _ (List.mem_singleton.mp h)
    have hc : c.toNat = 10 := by
      show c.val.toNat = 10
      omega
    exact Char.toNat_inj.mp hc
  · exfalso
    split at h
    · simp only [List.mem_cons, List.not_mem_nil, or_false] at h
      rcases h with h | h <;> have := hbyte _ h <;> omega
    · split at h <;> simp only [List.mem_cons, List.not_mem_nil, or_false] at h
      · rcases h with h | h | h <;> have := hbyte _ h <;> omega
      · rcases h with h | h | h | h <;> have := hbyte _ h <;> omega

theorem lineFeed_mem_bytes {t : Text} : 10 ∈ bytes t ↔ '\n' ∈ t := by
  constructor
  · intro h
    obtain ⟨c, hc, hmem⟩ := List.mem_flatMap.mp h
    exact lineFeed_mem_utf8EncodeChar hmem ▸ hc
  · intro h
    exact List.mem_flatMap.mpr ⟨'\n', h, by decide⟩

theorem bytes_ne_nil {t : Text} (h : t ≠ []) : bytes t ≠ [] := by
  cases t with
  | nil => exact absurd rfl h
  | cons c t =>
      rw [bytes, List.flatMap_cons]
      simp

end Utf8

end ImportTidy

/-
# ImportTidy.Proofs.Text.ByteOrder — texts are ordered as their bytes are

A character is written in digits to the base 64, the more significant ones first, and its first byte
grows with their number. So the bytes of two characters tell in their first difference which of the
two comes first, and texts are ordered by their code points as they are by their bytes
(`compare_eq_compareBytes`).
-/
import Mathlib
import ImportTidy.Proofs.Text.Bytes

namespace ImportTidy

namespace Utf8

/-- The order of texts by their bytes; of two texts of which one starts the other, the shorter
comes first. -/
def compareBytes (a b : Text) : Ordering :=
  List.compareLex (compareOn UInt8.toNat) (bytes a) (bytes b)

theorem compareLex_ofNat_cons {m n : Nat} (hm : m < 256) (hn : n < 256) (x y : List UInt8) :
    List.compareLex (compareOn UInt8.toNat) (UInt8.ofNat m :: x) (UInt8.ofNat n :: y) = .lt ↔
      m < n ∨ m = n ∧ List.compareLex (compareOn UInt8.toNat) x y = .lt := by
  have hm' : (UInt8.ofNat m).toNat = m := by
    rw [UInt8.toNat_ofNat']
    omega
  have hn' : (UInt8.ofNat n).toNat = n := by
    rw [UInt8.toNat_ofNat']
    omega
  rw [List.compareLex_cons_cons, compareOn, hm', hn', Ordering.then_eq_lt, Nat.compare_eq_lt,
    Nat.compare_eq_eq]

/-! ## One character -/

/-- How many bytes follow the first one of a character. -/
def span (n : Nat) : Nat :=
  if n ≤ 127 then 0 else if n ≤ 2047 then 1 else if n ≤ 65535 then 2 else 3

/-- The first byte of a character: what tells the length, and the leading digit to the base 64. -/
def lead (n : Nat) : Nat :=
  (if n ≤ 127 then 0 else if n ≤ 2047 then 192 else if n ≤ 65535 then 224 else 240) +
    n / 64 ^ span n

/-- The last `k` digits of a number to the base 64, as bytes that follow another. -/
def trail : Nat → Nat → List UInt8
  | 0, _ => []
  | k + 1, n => UInt8.ofNat (n / 64 ^ k % 64 + 128) :: trail k n

theorem lead_cases (n : Nat) :
    n ≤ 127 ∧ span n = 0 ∧ lead n = n ∨
      127 < n ∧ n ≤ 2047 ∧ span n = 1 ∧ lead n = 192 + n / 64 ∨
        2047 < n ∧ n ≤ 65535 ∧ span n = 2 ∧ lead n = 224 + n / 4096 ∨
          65535 < n ∧ span n = 3 ∧ lead n = 240 + n / 262144 := by
  unfold lead span
  split
  · exact Or.inl (by simp [*])
  · split
    · exact Or.inr (Or.inl (by simp; omega))
    · split
      · exact Or.inr (Or.inr (Or.inl (by simp; omega)))
      · exact Or.inr (Or.inr (Or.inr (by simp; omega)))

theorem char_lt (c : Char) : c.toNat < 0x110000 := by
  rcases c.valid with h | h
  · exact Nat.lt_trans h (by decide)
  · exact h.2

theorem lead_lt (c : Char) : lead c.toNat < 256 := by
  have hc := char_lt c
  rcases lead_cases c.toNat with h | h | h | h <;> omega

theorem utf8EncodeChar_eq (c : Char) :
    String.utf8EncodeChar c = UInt8.ofNat (lead c.toNat) :: trail (span c.toNat) c.toNat := by
  have hc := char_lt c
  have hdigit : ∀ k n, n < k → n % k = n := fun k n => Nat.mod_eq_of_lt
  simp only [String.utf8EncodeChar, Char.toNat_val]
  rcases lead_cases c.toNat with ⟨h, hs, hl⟩ | ⟨h, h', hs, hl⟩ | ⟨h, h', hs, hl⟩ | ⟨h, hs, hl⟩
  · rw [if_pos h, hs, hl, trail]
  · rw [if_neg (by omega), if_pos h', hs, hl, hdigit 32 _ (by omega), Nat.add_comm]
    simp [trail]
  · rw [if_neg (by omega), if_neg (by omega), if_pos h', hs, hl, hdigit 16 _ (by omega),
      Nat.add_comm]
    simp [trail]
  · rw [if_neg (by omega), if_neg (by omega), if_neg (by omega), hs, hl, hdigit 8 _ (by omega),
      Nat.add_comm]
    simp [trail]

/-- Of two rows of digits the one with the smaller number comes first. -/
theorem compareLex_trail {k m n : Nat} (h : m % 64 ^ k < n % 64 ^ k) (x y : List UInt8) :
    List.compareLex (compareOn UInt8.toNat) (trail k m ++ x) (trail k n ++ y) = .lt := by
  induction k with
  | zero => exact absurd h (by simp [Nat.mod_one])
  | succ k ih =>
      rw [Nat.pow_succ, Nat.mod_mul, Nat.mod_mul] at h
      rw [trail, trail, List.cons_append, List.cons_append,
        compareLex_ofNat_cons (by omega) (by omega)]
      have hm := Nat.mod_lt m (Nat.pow_pos (n := k) (show 0 < 64 by decide))
      have hn := Nat.mod_lt n (Nat.pow_pos (n := k) (show 0 < 64 by decide))
      rcases Nat.lt_trichotomy (m / 64 ^ k % 64) (n / 64 ^ k % 64) with hlt | heq | hgt
      · exact Or.inl (by omega)
      · rw [heq] at h
        exact Or.inr ⟨by omega, ih (by omega)⟩
      · have := Nat.mul_le_mul_left (64 ^ k) (Nat.succ_le_of_lt hgt)
        rw [Nat.mul_succ] at this
        omega

/-- The first byte tells a smaller number from a larger one, unless the two have the same length and
the same leading digit. -/
theorem lead_lt_or {m n : Nat} (h : m < n) :
    lead m < lead n ∨
      lead m = lead n ∧ span m = span n ∧ m % 64 ^ span n < n % 64 ^ span n := by
  have hm := lead_cases m
  rcases lead_cases n with ⟨hn, hs, hl⟩ | ⟨hn, hn', hs, hl⟩ | ⟨hn, hn', hs, hl⟩ | ⟨hn, hs, hl⟩ <;>
    rw [hs, hl] <;> omega

/-- The bytes of a smaller character come first, whatever follows the two. -/
theorem compareLex_utf8EncodeChar {c d : Char} (h : c.toNat < d.toNat) (x y : List UInt8) :
    List.compareLex (compareOn UInt8.toNat) (String.utf8EncodeChar c ++ x)
      (String.utf8EncodeChar d ++ y) = .lt := by
  rw [utf8EncodeChar_eq, utf8EncodeChar_eq, List.cons_append, List.cons_append,
    compareLex_ofNat_cons (lead_lt c) (lead_lt d)]
  rcases lead_lt_or h with hlead | ⟨hlead, hspan, hrest⟩
  · exact Or.inl hlead
  · rw [hspan]
    exact Or.inr ⟨hlead, compareLex_trail hrest x y⟩

/-! ## A whole text -/

theorem compareLex_append (z x y : List UInt8) :
    List.compareLex (compareOn UInt8.toNat) (z ++ x) (z ++ y) =
      List.compareLex (compareOn UInt8.toNat) x y := by
  induction z with
  | nil => rfl
  | cons c z ih =>
      have hc : compareOn UInt8.toNat c c = .eq := Std.ReflOrd.compare_self
      rw [List.cons_append, List.cons_append, List.compareLex_cons_cons, hc, Ordering.eq_then, ih]

/-- **Texts are ordered as their bytes are.** -/
theorem compare_eq_compareBytes (a b : Text) : Text.compare a b = compareBytes a b := by
  induction a generalizing b with
  | nil =>
      cases b with
      | nil => rfl
      | cons d b =>
          have hne : bytes (d :: b) ≠ [] := bytes_ne_nil (List.cons_ne_nil d b)
          obtain ⟨x, xs, hx⟩ := List.exists_cons_of_ne_nil hne
          rw [compareBytes, hx]
          rfl
  | cons c a ih =>
      cases b with
      | nil =>
          have hne : bytes (c :: a) ≠ [] := bytes_ne_nil (List.cons_ne_nil c a)
          obtain ⟨x, xs, hx⟩ := List.exists_cons_of_ne_nil hne
          rw [compareBytes, hx]
          rfl
      | cons d b =>
          have hc : bytes (c :: a) = String.utf8EncodeChar c ++ bytes a := rfl
          have hd : bytes (d :: b) = String.utf8EncodeChar d ++ bytes b := rfl
          rw [Text.compare, compareBytes, hc, hd]
          rcases Nat.lt_trichotomy c.toNat d.toNat with h | h | h
          · rw [if_pos h, compareLex_utf8EncodeChar h]
          · rw [if_neg (by omega), if_neg (by omega), ih, Char.toNat_inj.mp h,
              compareLex_append, compareBytes]
          · rw [if_neg (by omega), if_pos h]
            exact (Std.OrientedCmp.gt_iff_lt.mpr (compareLex_utf8EncodeChar h _ _)).symm

end Utf8

end ImportTidy

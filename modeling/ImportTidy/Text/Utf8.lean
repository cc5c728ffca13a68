/-
# ImportTidy.Text.Utf8 — text as bytes

Files and consoles hold bytes. `encode` and `decode?` go to and fro, and `decode?_encode` says that
nothing is lost on the way. For bytes that are no text, `flaw` tells where the first bad sequence
starts and how long it is.
-/
import ImportTidy.Text.Basic

namespace ImportTidy

namespace Utf8

/-- The bytes of a text, one after another. -/
def bytes (t : Text) : List UInt8 := t.flatMap String.utf8EncodeChar

/-- The bytes of a text, as a file has them. -/
def encode (t : Text) : ByteArray := (bytes t).toByteArray

/-- The text that the bytes encode, if they encode one. -/
def decode? (bytes : ByteArray) : Option Text := bytes.utf8Decode?.map Array.toList

@[simp] theorem decode?_encode (t : Text) : decode? (encode t) = some t := by
  have h : encode t = t.utf8Encode := rfl
  simp [decode?, h]

theorem encode_of_decode? {bytes : ByteArray} {t : Text} (h : decode? bytes = some t) :
    encode t = bytes := by
  obtain ⟨chars, hchars, rfl⟩ := Option.map_eq_some_iff.mp h
  have hback := @ByteArray.utf8Encode_get_utf8Decode? bytes (by rw [hchars]; rfl)
  simp only [hchars, Option.get_some] at hback
  exact hback

/-- A byte sequence that is no character: where it starts, and how many bytes it spans. There is no
length when the bytes end before the character does. -/
structure Flaw where
  index : Nat
  length : Option Nat
  deriving DecidableEq, Repr

/-- The bounds that the second byte of a character must keep, and the number of bytes after the
first; nothing when no character starts with `first`. -/
def tailBounds? (first : UInt8) : Option (UInt8 × UInt8 × Nat) :=
  if 0xC2 ≤ first && first ≤ 0xDF then some (0x80, 0xBF, 1)
  else if first = 0xE0 then some (0xA0, 0xBF, 2)
  else if first = 0xED then some (0x80, 0x9F, 2)
  else if 0xE1 ≤ first && first ≤ 0xEF then some (0x80, 0xBF, 2)
  else if first = 0xF0 then some (0x90, 0xBF, 3)
  else if 0xF1 ≤ first && first ≤ 0xF3 then some (0x80, 0xBF, 3)
  else if first = 0xF4 then some (0x80, 0x8F, 3)
  else none

/-- Checks the bytes after the first of a character, of which `owed` are still to come and `seen`
are done: the bytes behind the character, or the length of the bad sequence. -/
def tail (low high : UInt8) : (owed seen : Nat) → List UInt8 → Except (Option Nat) (List UInt8)
  | 0, _, rest => .ok rest
  | _ + 1, _, [] => .error none
  | owed + 1, seen, b :: rest =>
    if low ≤ b && b ≤ high then tail 0x80 0xBF owed (seen + 1) rest else .error (some seen)

/-- The first flaw of the bytes from position `index` on. The number bounds the characters left. -/
def flawFrom : Nat → Nat → List UInt8 → Option Flaw
  | 0, _, _ => none
  | _ + 1, _, [] => none
  | n + 1, index, b :: rest =>
    if b < 0x80 then flawFrom n (index + 1) rest
    else
      match tailBounds? b with
      | none => some ⟨index, some 1⟩
      | some (low, high, owed) =>
        match tail low high owed 1 rest with
        | .ok rest => flawFrom n (index + owed + 1) rest
        | .error length => some ⟨index, length⟩

/-- The first flaw of the bytes. -/
def flaw? (bytes : List UInt8) : Option Flaw := flawFrom bytes.length 0 bytes

/-- The flaw in words. -/
def Flaw.message (f : Flaw) : Text :=
  match f.length with
  | some length =>
    "invalid utf-8 sequence of ".toList ++ Text.ofNat length ++ " bytes from index ".toList
      ++ Text.ofNat f.index
  | none => "incomplete utf-8 byte sequence from index ".toList ++ Text.ofNat f.index

end Utf8

end ImportTidy

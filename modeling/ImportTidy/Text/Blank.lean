/-
# ImportTidy.Text.Blank — text as a sequence of code points, and its blank characters

Every rule of this library that looks into a text is a recursion over its code points, so a text
is a `List Char`. A character is blank when it has the Unicode property White_Space; the table
below is that property, all of it.
-/

namespace ImportTidy

/-- Text is a sequence of code points. Its byte order in UTF-8 is the order of code points. -/
abbrev Text := List Char

namespace Text

/-- The ranges of code points with the property White_Space, in ascending order. -/
def blankRanges : List (Nat × Nat) :=
  [(0x09, 0x0D), (0x20, 0x20), (0x85, 0x85), (0xA0, 0xA0), (0x1680, 0x1680), (0x2000, 0x200A),
   (0x2028, 0x2029), (0x202F, 0x202F), (0x205F, 0x205F), (0x3000, 0x3000)]

/-- A code point lies in one of the ranges, ends included. -/
def inRanges (ranges : List (Nat × Nat)) (c : Char) : Bool :=
  ranges.any fun r => r.1 ≤ c.toNat && c.toNat ≤ r.2

/-- The character is white space. -/
def isBlank (c : Char) : Bool := inRanges blankRanges c

/-- The property has 25 code points. -/
example : (blankRanges.map fun r => r.2 - r.1 + 1).sum = 25 := by decide

end Text

end ImportTidy

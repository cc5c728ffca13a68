/-
# ImportTidy.Discovery.Glob — patterns for names below a folder

A glob is matched against the names that lead from a folder to an entry. A part of it matches one
name, in which `*` stands for any characters and `?` for one; a part `**` matches any number of
names. A backslash takes the meaning from the character behind it.
-/
import ImportTidy.Text.Basic

namespace ImportTidy

namespace Glob

/-- What stands in the part of a glob. -/
inductive Item where
  | char (c : Char)
  /-- Any one character. -/
  | one
  /-- Any characters, or none. -/
  | run
  deriving DecidableEq, Repr

/-- A part of a glob. -/
inductive Part where
  | name (items : List Item)
  /-- Any names, or none. -/
  | deep
  deriving DecidableEq, Repr

/-- The items of a part; none when it ends in a backslash. -/
def items? : Text → Option (List Item)
  | [] => some []
  | '\\' :: c :: t => (items? t).map (.char c :: ·)
  | ['\\'] => none
  | '*' :: t => (items? t).map (.run :: ·)
  | '?' :: t => (items? t).map (.one :: ·)
  | c :: t => (items? t).map (.char c :: ·)

/-- The part that a text between separators writes. -/
def part? (t : Text) : Option Part :=
  if t = ['*', '*'] then some .deep else (items? t).map .name

/-- The items match the whole name. -/
def matchesName : List Item → Text → Bool
  | [], t => t.isEmpty
  | .run :: items, [] => matchesName items []
  | .run :: items, c :: t => matchesName items (c :: t) || matchesName (.run :: items) t
  | .one :: items, _ :: t => matchesName items t
  | .char c :: items, d :: t => c == d && matchesName items t
  | _ :: _, [] => false
termination_by items t => items.length + t.length

/-- The parts match the names, all of them. -/
def matchesNames : List Part → List Text → Bool
  | [], names => names.isEmpty
  | .deep :: parts, [] => matchesNames parts []
  | .deep :: parts, n :: names =>
    matchesNames parts (n :: names) || matchesNames (.deep :: parts) names
  | .name items :: parts, n :: names => matchesName items n && matchesNames parts names
  | .name _ :: _, [] => false
termination_by parts names => parts.length + names.length

end Glob

/-- A glob, in its parts. -/
structure Glob where
  parts : List Glob.Part
  deriving DecidableEq, Repr

namespace Glob

/-- The glob that a text writes. -/
def read? (t : Text) : Option Glob := ((t.splitOn '/').mapM part?).map Glob.mk

/-- The glob matches the names. -/
def admits (g : Glob) (names : List Text) : Bool := matchesNames g.parts names

end Glob

end ImportTidy

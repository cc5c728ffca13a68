/-
# ImportTidy.Settings.Value — settings before their meaning is known

Settings are written in formats with values of a few kinds. A value is what such a text says, and
the readers here give it meaning: a text, a count, a list, a table with named entries. Each reader
answers nothing for a value of another kind.
-/
import ImportTidy.Text.Basic

namespace ImportTidy

/-- A value as it is written in settings. -/
inductive Value where
  | null
  | flag (b : Bool)
  | whole (n : Int)
  /-- A number with a fraction or an exponent; no setting is one. -/
  | real
  | text (t : Text)
  | list (items : List Value)
  | table (entries : List (Text × Value))
  deriving Inhabited

namespace Value

/-- The largest count that a setting may have. -/
def maxCount : Nat := 0xFFFFFFFFFFFFFFFF

/-- A text. -/
def text? : Value → Option Text
  | text t => some t
  | _ => none

/-- A text that may be left out. -/
def optionalText? : Value → Option (Option Text)
  | null => some none
  | text t => some (some t)
  | _ => none

/-- A whole number that is not negative and not too large. -/
def count? : Value → Option Nat
  | whole (.ofNat n) => if n ≤ maxCount then some n else none
  | _ => none

/-- A list whose items can all be read. -/
def listOf? {α : Type} (item? : Value → Option α) : Value → Option (List α)
  | list items => items.mapM item?
  | _ => none

/-- The entries of a table. A list stands for the table that has its items, in order, under the
given names. -/
def entries? (names : List Text) : Value → Option (List (Text × Value))
  | table entries => some entries
  | list items => some (names.zip items)
  | _ => none

/-- The entry of that name; no answer when there is none. -/
def required? {α : Type} (read? : Value → Option α) (name : String)
    (entries : List (Text × Value)) : Option α :=
  (entries.lookup name.toList).bind read?

/-- The entry of that name, or the standard when there is none. An entry that cannot be read is not
replaced by the standard. -/
def setting? {α : Type} (read? : Value → Option α) (name : String) (standard : α)
    (entries : List (Text × Value)) : Option α :=
  match entries.lookup name.toList with
  | some v => read? v
  | none => some standard

end Value

end ImportTidy

/-
# ImportTidy.Import.Compaction — statements with a common qualifier become one

Compaction keeps the qualifiers in the order of their first statements and gives each of them its
members in order: one statement for the plain members, in braces when there are several and as a
wildcard when there are too many, and after it one statement for each rename. A statement without
a dot is a qualifier with no member of its own.
-/
import ImportTidy.Import.Block

namespace ImportTidy

namespace Statement

/-- The text before the last dot, or the whole text of a statement without a dot. -/
def qualifier (s : Statement) : Text :=
  match s.split? with
  | some (qualifier, _) => qualifier
  | none => s.text

/-- The text behind the last dot. -/
def member? (s : Statement) : Option Text := s.split?.map Prod.snd

/-- The statement that imports one selector from a qualifier. -/
def ofMember (qualifier selector : Text) : Statement := ⟨qualifier ++ '.' :: selector⟩

/-- The statement that imports several selectors from a qualifier. -/
def ofGroup (qualifier : Text) (selectors : List Text) : Statement :=
  ofMember qualifier ('\x7b' :: Text.join ", ".toList selectors ++ ['\x7d'])

end Statement

namespace Block

/-- The qualifiers of the block in the order of their first statements. -/
def qualifiers (b : Block) : List Text := (b.map Statement.qualifier).eraseDups

/-- The members that the block imports from a qualifier, in order. -/
def members (b : Block) (qualifier : Text) : List Text :=
  (b.filter fun s => s.qualifier == qualifier).filterMap Statement.member?

/-- A member that gives itself another name. -/
def isRenaming (member : Text) : Bool := Text.occurs Statement.renameArrow member

/-- The members with one wildcard, if there is any, moved to the end. -/
def wildcardLast (members : List Text) : List Text :=
  if members.contains Statement.wildcardSelector then
    members.filter (fun m => m != Statement.wildcardSelector) ++ [Statement.wildcardSelector]
  else members

/-- One statement for the plain members of a qualifier; none when there are no members. -/
def plainStatement (threshold : Nat) (qualifier : Text) : List Text → List Statement
  | [] => []
  | [member] => [.ofMember qualifier member]
  | members =>
    if members.length < threshold then [.ofGroup qualifier members]
    else [.ofMember qualifier Statement.wildcardSelector]

/-- The statements for all members of a qualifier. -/
def gathered (threshold : Nat) (qualifier : Text) : List Text → List Statement
  | [] => [⟨qualifier⟩]
  | [member] => [.ofMember qualifier member]
  | members =>
    let renames := members.filter isRenaming
    let items := wildcardLast (members.filter fun m => !isRenaming m)
    plainStatement threshold qualifier items ++ renames.map (Statement.ofMember qualifier)

/-- The block with the members of each qualifier gathered. -/
def compact (threshold : Nat) (b : Block) : Block :=
  b.qualifiers.flatMap fun q => gathered threshold q (b.members q)

end Block

end ImportTidy

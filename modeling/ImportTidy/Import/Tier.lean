/-
# ImportTidy.Import.Tier — the order of import statements

Statements fall into three tiers by their path: those of the project, those of other libraries,
those of the language. They are ordered by three criteria in turn: a path of the language comes
after one that is not, a path of another library after one that is not, and then the paths decide.
-/
import ImportTidy.Import.Rules
import ImportTidy.Import.Statement

namespace ImportTidy

/-- Where an imported path belongs, in the order of the import block. -/
inductive Tier where
  | projectLocal
  | externalLibrary
  | languageCore
  deriving DecidableEq, Repr

/-- A criterion by which two paths are compared. -/
inductive Criterion where
  | languageCore
  | externalLibrary
  | lexicographic
  deriving DecidableEq, Repr

/-- The criteria in the order in which they decide. -/
def Criterion.chain : List Criterion := [.languageCore, .externalLibrary, .lexicographic]

/-- The path is one of the given ones or lies below one of them. -/
def belongsTo (paths : List Text) (path : Text) : Bool :=
  paths.any fun top =>
    match Text.after? top path with
    | some [] => true
    | some (c :: _) => c == '.'
    | none => false

/-- What does not belong to the paths comes before what does. -/
def compareBelonging (paths : List Text) (a b : Text) : Ordering :=
  match belongsTo paths a, belongsTo paths b with
  | false, true => .lt
  | true, false => .gt
  | _, _ => .eq

namespace Rules

/-- The tier of a path. A path of the language is not looked up among the libraries. -/
def pathTier (r : Rules) (path : Text) : Tier :=
  if belongsTo r.languagePaths path then .languageCore
  else if belongsTo r.externalPaths path then .externalLibrary
  else .projectLocal

/-- The tier of a statement. -/
def tier (r : Rules) (s : Statement) : Tier := r.pathTier s.path

/-- Two paths by one criterion. -/
def compareBy (r : Rules) (criterion : Criterion) (a b : Text) : Ordering :=
  match criterion with
  | .languageCore => compareBelonging r.languagePaths a b
  | .externalLibrary => compareBelonging r.externalPaths a b
  | .lexicographic => Text.compare a b

/-- Two statements: the first criterion that tells their paths apart decides. -/
def compare (r : Rules) (a b : Statement) : Ordering :=
  Criterion.chain.foldr (fun criterion rest => (r.compareBy criterion a.path b.path).then rest) .eq

/-- One statement may stand before the other. -/
def mayPrecede (r : Rules) (a b : Statement) : Bool := r.compare a b != .gt

end Rules

end ImportTidy

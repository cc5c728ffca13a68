/-
# ImportTidy.Import.Rules — the tables that steer the cleaning of an import block

The rules say how statements are rewritten, which are removed, which count as used whatever the
code says, which paths belong to the language and which to other libraries, and how many members
of one qualifier collapse into a wildcard. `Rules.defect?` is the check that a table is usable;
its answer names the first thing wrong, in a fixed order.
-/
import ImportTidy.Text.Basic
import ImportTidy.Text.Quoted

namespace ImportTidy

/-- In every statement, the first `source` becomes `target`. -/
structure Rewrite where
  source : Text
  target : Text
  deriving DecidableEq, Repr

/-- The tables of a cleaning. -/
structure Rules where
  /-- Applied to every statement, one after another. -/
  rewrites : List Rewrite
  /-- Statements that are dropped, by their exact text. -/
  removes : List Text
  /-- A statement that contains one of these texts is used for its effect. -/
  sideEffects : List Text
  /-- Paths that belong to the language, by their first names. -/
  languagePaths : List Text
  /-- Paths that belong to other libraries, by their first names. -/
  externalPaths : List Text
  /-- So many members of one qualifier become a wildcard. -/
  groupThreshold : Nat
  deriving DecidableEq, Repr

namespace Rules

/-- The built-in tables. -/
def standard : Rules where
  rewrites :=
    [⟨" _root_.util".toList, " util".toList⟩,
     ⟨" Tap._".toList, " util.Tap._".toList⟩,
     ⟨" DataPoint.DataType".toList, " models.DataPoint.DataType".toList⟩,
     ⟨" action.".toList, " controllers.action.".toList⟩,
     ⟨" helpers.".toList, " controllers.helpers.".toList⟩,
     ⟨" concurrent.".toList, " scala.concurrent.".toList⟩,
     ⟨" collection.".toList, " scala.collection.".toList⟩]
  removes := ["import scala.Some".toList]
  sideEffects :=
    ["scala.collection.JavaConversions".toList,
     "scala.concurrent.ExecutionContext.Implicits".toList,
     "scala.language.implicitConversions".toList,
     "scala.sys.process".toList,
     "play.api.Play.current".toList]
  languagePaths := ["scala".toList, "scalaz".toList, "java".toList, "javax".toList]
  externalPaths := ["play".toList, "org".toList, "com".toList, "net".toList]
  groupThreshold := 8

/-- What makes a table of rules unusable. -/
inductive Defect where
  /-- A single member would already collapse. -/
  | smallThreshold (threshold : Nat)
  /-- A rewrite to `target` that would fit every statement. -/
  | emptySource (target : Text)
  /-- A tier is given by a blank path. -/
  | blankPath
  deriving DecidableEq, Repr

/-- The first defect of the rules: the threshold is looked at first, then the rewrites in their
order, then the paths of the tiers. -/
def defect? (r : Rules) : Option Defect :=
  if r.groupThreshold < 2 then some (.smallThreshold r.groupThreshold)
  else
    match r.rewrites.find? fun rule => rule.source.isEmpty with
    | some rule => some (.emptySource rule.target)
    | none =>
      if (r.languagePaths ++ r.externalPaths).any Text.isBlankText then some .blankPath
      else none

/-- The defect in words. -/
def Defect.message : Defect → Text
  | .smallThreshold n => "group_threshold (".toList ++ Text.ofNat n ++ ") must be at least 2".toList
  | .emptySource target =>
    "rewrite rule to ".toList ++ Text.quoted target ++ " has an empty `from` pattern".toList
  | .blankPath => "tier prefixes must not be blank".toList

/-- The refusal of rules with the defect. -/
def Defect.refusal (d : Defect) : Text := "Invalid configuration: ".toList ++ d.message

end Rules

end ImportTidy

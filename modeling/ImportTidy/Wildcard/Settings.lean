/-
# ImportTidy.Wildcard.Settings — bounds and marks of the wildcard search

The settings say how often the compiler is asked about one wildcard, by which mark a failed
compilation is recognised, and how missing symbols are read off its output. A plan is a setting
that has been checked, with its pattern read.
-/
import ImportTidy.Diagnostic

namespace ImportTidy

/-- Settings of the wildcard search. -/
structure SearchSettings where
  /-- Compilations for one wildcard before it is given up. -/
  attempts : Nat
  /-- Output with this mark is that of a failed compilation. -/
  errorMark : Text
  /-- How a missing symbol is read off a line of output. -/
  pattern : Text
  deriving DecidableEq, Repr

/-- A search that is ready to run. -/
structure SearchPlan where
  attempts : Nat
  errorMark : Text
  pattern : DiagnosticPattern
  deriving DecidableEq, Repr

namespace SearchSettings

/-- The built-in settings. -/
def standard : SearchSettings where
  attempts := 5
  errorMark := "error".toList
  pattern := "not found: (?P<kind>value|type) (?P<symbol>[A-Z][A-Za-z0-9_]*)".toList

/-- What makes the settings unusable, their pattern aside. -/
inductive Defect where
  | noAttempts
  | noErrorMark
  deriving DecidableEq, Repr

/-- The first defect of the settings. -/
def defect? (s : SearchSettings) : Option Defect :=
  if s.attempts = 0 then some .noAttempts
  else if s.errorMark.isEmpty then some .noErrorMark
  else none

/-- The defect in words. -/
def Defect.message : Defect → Text
  | .noAttempts => "max_attempts must be > 0".toList
  | .noErrorMark => "error_marker must not be empty".toList

/-- Why there is no plan for some settings. -/
inductive Obstacle where
  | defect (d : Defect)
  | pattern (d : DiagnosticPattern.Defect)
  deriving DecidableEq, Repr

/-- The obstacle in words. -/
def Obstacle.message : Obstacle → Text
  | .defect d => "Invalid configuration: ".toList ++ d.message
  | .pattern .malformed => "invalid diagnostic pattern".toList
  | .pattern .noSymbol =>
    "Invalid configuration: diagnostic_pattern must define a `symbol` capture group".toList

/-- The plan for some settings. The settings are checked before their pattern is read. -/
def plan (s : SearchSettings) : Except Obstacle SearchPlan :=
  match s.defect? with
  | some d => .error (.defect d)
  | none =>
    match DiagnosticPattern.read s.pattern with
    | .error d => .error (.pattern d)
    | .ok pattern => .ok ⟨s.attempts, s.errorMark, pattern⟩

end SearchSettings

end ImportTidy

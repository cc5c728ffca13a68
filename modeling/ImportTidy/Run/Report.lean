/-
# ImportTidy.Run.Report — what a run did

A report counts the files that were looked at and lists what went wrong and what became of
wildcards. A run is a success when nothing went wrong; a wildcard that was kept is not a failure.
-/
import ImportTidy.Disk.Path
import ImportTidy.Text.Json

namespace ImportTidy

/-- What tidying did to a file. -/
inductive FileOutcome where
  | rewritten
  | unchanged
  deriving DecidableEq, Repr

/-- A file that could not be worked on. -/
structure FileFailure where
  path : Path
  error : Text
  deriving DecidableEq, Repr

/-- A wildcard import of a file. -/
structure WildcardRecord where
  path : Path
  wildcard : Text
  deriving DecidableEq, Repr

/-- A module whose console failed. -/
structure ModuleFailure where
  module : Text
  error : Text
  deriving DecidableEq, Repr

/-- The report of a run. -/
structure Report where
  processed : Nat
  rewritten : Nat
  unchanged : Nat
  failures : List FileFailure
  optimized : List WildcardRecord
  unresolved : List WildcardRecord
  moduleFailures : List ModuleFailure
  deriving DecidableEq, Repr

namespace Report

/-- The report before anything was done. -/
def empty : Report := ⟨0, 0, 0, [], [], [], []⟩

/-- A file was tidied. -/
def addOutcome (r : Report) : FileOutcome → Report
  | .rewritten => { r with processed := r.processed + 1, rewritten := r.rewritten + 1 }
  | .unchanged => { r with processed := r.processed + 1, unchanged := r.unchanged + 1 }

/-- A file could not be optimized; it has been counted when it was tidied. -/
def addOptimizeFailure (r : Report) (path : Path) (error : Text) : Report :=
  { r with failures := r.failures ++ [⟨path, error⟩] }

/-- A file could not be tidied. -/
def addFailure (r : Report) (path : Path) (error : Text) : Report :=
  { r.addOptimizeFailure path error with processed := r.processed + 1 }

/-- A wildcard was replaced. -/
def addOptimized (r : Report) (path : Path) (wildcard : Text) : Report :=
  { r with optimized := r.optimized ++ [⟨path, wildcard⟩] }

/-- A wildcard was kept. -/
def addUnresolved (r : Report) (path : Path) (wildcard : Text) : Report :=
  { r with unresolved := r.unresolved ++ [⟨path, wildcard⟩] }

/-- The console of a module failed. -/
def addModuleFailure (r : Report) (module error : Text) : Report :=
  { r with moduleFailures := r.moduleFailures ++ [⟨module, error⟩] }

/-- Nothing went wrong. -/
def isSuccess (r : Report) : Bool := r.failures.isEmpty && r.moduleFailures.isEmpty

/-- The report with its failures in the order of their paths. -/
def sorted (r : Report) : Report :=
  { r with failures := r.failures.mergeSort fun a b => a.path.mayPrecede b.path }

/-! ## In words -/

/-- How many files were looked at. -/
def filesLine (r : Report) : Text :=
  Text.ofNat r.processed ++ " files processed: ".toList ++ Text.ofNat r.rewritten
    ++ " rewritten, ".toList ++ Text.ofNat r.unchanged ++ " unchanged, ".toList
    ++ Text.ofNat r.failures.length ++ " failed".toList

/-- What became of wildcards, if there were any. -/
def wildcardLines (r : Report) : List Text :=
  if r.optimized.isEmpty && r.unresolved.isEmpty then []
  else
    ["wildcards: ".toList ++ Text.ofNat r.optimized.length ++ " optimized, ".toList
      ++ Text.ofNat r.unresolved.length ++ " unresolved".toList]

/-- The report in words. -/
def summary (r : Report) : Text :=
  Text.join ['\n'] <|
    [r.filesLine] ++ r.wildcardLines
    ++ (r.failures.map fun f => "  failed ".toList ++ f.path.text ++ ": ".toList ++ f.error)
    ++ (r.unresolved.map fun w => "  kept ".toList ++ w.wildcard ++ " in ".toList ++ w.path.text)
    ++ (r.moduleFailures.map fun f =>
      "  session for ".toList ++ f.module ++ " failed: ".toList ++ f.error)

/-- The failures in one line. -/
def failureLine (r : Report) : Text :=
  Text.ofNat r.failures.length ++ " file failures, ".toList
    ++ Text.ofNat r.moduleFailures.length ++ " session failures".toList

/-! ## As JSON -/

/-- A failure as JSON. -/
def failureJson (f : FileFailure) : Json :=
  .object [("path".toList, .text f.path.text), ("error".toList, .text f.error)]

/-- A wildcard as JSON. -/
def wildcardJson (w : WildcardRecord) : Json :=
  .object [("path".toList, .text w.path.text), ("import".toList, .text w.wildcard)]

/-- The failure of a module as JSON. -/
def moduleFailureJson (f : ModuleFailure) : Json :=
  .object [("module".toList, .text f.module), ("error".toList, .text f.error)]

/-- The report as JSON. -/
def toJson (r : Report) : Json :=
  .object [
    ("files_processed".toList, .number r.processed),
    ("files_rewritten".toList, .number r.rewritten),
    ("files_unchanged".toList, .number r.unchanged),
    ("failures".toList, .list (r.failures.map failureJson)),
    ("wildcards_optimized".toList, .list (r.optimized.map wildcardJson)),
    ("wildcards_unresolved".toList, .list (r.unresolved.map wildcardJson)),
    ("session_failures".toList, .list (r.moduleFailures.map moduleFailureJson))]

end Report

end ImportTidy

/-
# ImportTidy.Run.Tidy — tidying files

A file is tidied in three steps: it is read and its imports are cleaned, the new content is written
beside it, and that is moved over it. A file whose content is already clean is left after the
first. The steps of several files may mix; each file's own come in order.
-/
import ImportTidy.Disk.Replace
import ImportTidy.Run.Report
import ImportTidy.Source

namespace ImportTidy

/-- How far the work on a file has come. -/
inductive Stage where
  | waiting
  /-- The file has been read, and this is to be its content. -/
  | rendered (content : Text)
  /-- The new content waits beside the file. -/
  | staged (s : Staged)
  | done (result : Except FileFault FileOutcome)

/-- The work on one file. -/
structure Job where
  path : Path
  stage : Stage

namespace Job

/-- The work before its first step. -/
def ofPath (path : Path) : Job := ⟨path, .waiting⟩

/-- The next step. Work that is done stays as it is. -/
def step (r : Rules) (j : Job) (d : Disk) : Job × Disk :=
  match j.stage with
  | .waiting =>
    match d.contentOf j.path with
    | .error fault => ({ j with stage := .done (.error fault) }, d)
    | .ok content =>
      let tidy := (SourceFile.parse content).normalize r
      if tidy = content then ({ j with stage := .done (.ok .unchanged) }, d)
      else ({ j with stage := .rendered tidy }, d)
  | .rendered content =>
    match d.stage content j.path with
    | (.error fault, d) => ({ j with stage := .done (.error (.unwritable j.path fault)) }, d)
    | (.ok staged, d) => ({ j with stage := .staged staged }, d)
  | .staged staged =>
    match d.settle staged with
    | (.error fault, d) => ({ j with stage := .done (.error (.unwritable j.path fault)) }, d)
    | (.ok (), d) => ({ j with stage := .done (.ok .rewritten) }, d)
  | .done _ => (j, d)

end Job

/-- Tidies one file. -/
def tidyFile (r : Rules) (path : Path) (d : Disk) : Except FileFault FileOutcome × Disk :=
  match d.contentOf path with
  | .error fault => (.error fault, d)
  | .ok content =>
    let tidy := (SourceFile.parse content).normalize r
    if tidy = content then (.ok .unchanged, d)
    else
      match d.replace tidy path with
      | (.error fault, d) => (.error fault, d)
      | (.ok (), d) => (.ok .rewritten, d)

/-- The report with what came of tidying a file. -/
def Report.addTidied (report : Report) (path : Path) : Except FileFault FileOutcome → Report
  | .ok outcome => report.addOutcome outcome
  | .error fault => report.addFailure path fault.message

/-- Tidies files, one after another. -/
def tidyFiles (r : Rules) : List Path → Disk → Report → Disk × Report
  | [], d, report => (d, report)
  | path :: more, d, report =>
    match tidyFile r path d with
    | (result, d) => tidyFiles r more d (report.addTidied path result)

end ImportTidy

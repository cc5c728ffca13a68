/-
# ImportTidy.Run.Optimize — replacing wildcards in the files of a module

The files of a module share one console. They are worked on one after another; when a file fails
and the console is still ready, the next one follows, and when it is not, the module's work ends
there. At the end the console is told to exit.
-/
import ImportTidy.Console.Launch
import ImportTidy.Disk.Replace
import ImportTidy.Run.Report
import ImportTidy.Settings.Tool
import ImportTidy.Wildcard.Reduction

namespace ImportTidy

/-- Why the wildcards of a file could not be replaced. -/
inductive OptimizeFault where
  | file (f : FileFault)
  | console (f : ConsoleFault)
  deriving DecidableEq, Repr

/-- The fault in words. -/
def OptimizeFault.message : OptimizeFault → Text
  | .file f => f.message
  | .console f => f.message

/-- A file on a disk, beside a compiler with states in `σ` that can see the disk. -/
def Site.ofFile {σ : Type} (compile : Disk → σ → Except ConsoleFault Text × σ) (path : Path) :
    Site (Disk × σ) OptimizeFault where
  read w := (w.1.contentOf path).mapError .file
  write content w :=
    match w.1.replace content path with
    | (result, d) => (result.mapError .file, (d, w.2))
  compile w :=
    match compile w.1 w.2 with
    | (result, s) => (result.mapError .console, (w.1, s))

/-- The report with what became of the wildcards of a file. -/
def Report.addReduction (report : Report) (path : Path) (done : Reduction) : Report :=
  let report := done.resolved.foldl (fun r (wildcard, _) => r.addOptimized path wildcard.text) report
  done.unresolved.foldl (fun r wildcard => r.addUnresolved path wildcard.text) report

section

variable {σ κ : Type}

/-- Replaces the wildcards of the files, as long as the console is ready. -/
def optimizeEach (p : Process κ) (rules : Rules) (plan : SearchPlan) (module : Text) :
    List Path → Disk × Conversation κ → Report → (Disk × Conversation κ) × Report
  | [], w, report => (w, report)
  | path :: more, w, report =>
    match (Site.ofFile (fun _ c => c.compile p) path).reduce rules plan w with
    | (.ok done, w) => optimizeEach p rules plan module more w (report.addReduction path done)
    | (.error fault, w) =>
      let report := report.addOptimizeFailure path fault.message
      if w.2.session.phase = .ready then optimizeEach p rules plan module more w report
      else (w, report.addModuleFailure module fault.message)

/-- Ends the session. A console that is in the middle of a command is not told to exit, and one that
does not exit when told is left alone. -/
def closeSession (p : Process κ) (c : Conversation κ) : Conversation κ :=
  if c.session.phase = .ready then (c.terminate p).2 else c

/-- Replaces the wildcards in files of a module, with a console of its own. -/
def optimizeModule (l : Launcher σ κ) (settings : ToolSettings) (root : Path) (module : Text)
    (files : List Path) (d : Disk) (s : σ) (report : Report) : Disk × σ × Report :=
  if files.isEmpty then (d, s, report)
  else
    match settings.search.plan with
    | .error obstacle => (d, s, report.addModuleFailure module obstacle.message)
    | .ok plan =>
      match l.openSession d (settings.consoleFor module root) s with
      | (.error fault, s) => (d, s, report.addModuleFailure module fault.message)
      | (.ok c, s) =>
        match optimizeEach l.process settings.rules plan module files (d, c) report with
        | ((d, c), report) => (d, l.release (closeSession l.process c).peer s, report)

end

end ImportTidy

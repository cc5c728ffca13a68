/-
# ImportTidy.Run.Pass — a run over a project

A run tidies files and, if asked to, replaces their wildcards. It covers the source folders of
every module, or the files that are modified in the work tree.
-/
import ImportTidy.Discovery.Index
import ImportTidy.Discovery.Module
import ImportTidy.Discovery.Walk
import ImportTidy.Run.Optimize
import ImportTidy.Run.Tidy

namespace ImportTidy

/-- What a run covers. -/
structure RunOptions where
  root : Path
  /-- Every source folder of every module, not only the modified files. -/
  all : Bool
  /-- Wildcards are replaced. -/
  optimize : Bool
  deriving DecidableEq, Repr

/-- What a run works on: a disk, perhaps with a work tree, and the state of a launcher. -/
structure Workspace (σ : Type) where
  disk : Disk
  index : Option Index
  consoles : σ

namespace Workspace

variable {σ κ : Type}

/-- The files that are modified in the work tree. -/
def modifiedFiles (w : Workspace σ) (e : Eligibility) (root : Path) : List Path :=
  match w.index with
  | some index => index.modified w.disk e root
  | none => []

/-- Tidies files. -/
def tidy (w : Workspace σ) (r : Rules) (files : List Path) (report : Report) :
    Workspace σ × Report :=
  match tidyFiles r files w.disk report with
  | (d, report) => ({ w with disk := d }, report)

/-- Replaces the wildcards in files of a module. -/
def optimize (l : Launcher σ κ) (settings : ToolSettings) (root : Path) (w : Workspace σ)
    (module : Text) (files : List Path) (report : Report) : Workspace σ × Report :=
  match optimizeModule l settings root module files w.disk w.consoles report with
  | (d, s, report) => ({ w with disk := d, consoles := s }, report)

/-- Works on one source folder. -/
def runFolder (l : Launcher σ κ) (o : RunOptions) (settings : ToolSettings)
    (w : Workspace σ) (report : Report) (module folder : Text) : Workspace σ × Report :=
  let path := (o.root.join ⟨module⟩).join ⟨folder⟩
  let files := w.disk.discover (.ofSettings settings) path
  match w.tidy settings.rules files report with
  | (w, report) =>
    if o.optimize then w.optimize l settings o.root module files report else (w, report)

/-- Works on every source folder of every module. -/
def runAll (l : Launcher σ κ) (o : RunOptions) (settings : ToolSettings) (w : Workspace σ) :
    Workspace σ × Report :=
  let folders := settings.modules.flatMap fun m => settings.sourceFolders.map fun f => (m, f)
  folders.foldl (fun (w, report) (m, f) => w.runFolder l o settings report m f) (w, Report.empty)

/-- Works on the modified files; the wildcards are replaced module by module. -/
def runModified (l : Launcher σ κ) (o : RunOptions) (settings : ToolSettings) (w : Workspace σ) :
    Workspace σ × Report :=
  let files := w.modifiedFiles (.ofSettings settings) o.root
  match w.tidy settings.rules files Report.empty with
  | (w, report) =>
    if o.optimize then
      (filesByModule o.root files settings.modules).foldl
        (fun (w, report) (m, files) => w.optimize l settings o.root m files report) (w, report)
    else (w, report)

/-- Runs over a project. -/
def run (l : Launcher σ κ) (o : RunOptions) (settings : ToolSettings) (w : Workspace σ) :
    Workspace σ × Report :=
  if o.all then w.runAll l o settings else w.runModified l o settings

end Workspace

end ImportTidy

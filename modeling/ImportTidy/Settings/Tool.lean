/-
# ImportTidy.Settings.Tool — everything that a run needs to know

The settings of the tool come from a file, from the environment and from built-in values, in this
order of weakness: a number of workers in the environment wins over the file, and what neither says
is built in. Settings that have been loaded have passed their check.
-/
import ImportTidy.Disk.Resolve
import ImportTidy.Settings.Tables
import ImportTidy.Settings.Toml.Reader

namespace ImportTidy

/-- The settings of the tool. -/
structure ToolSettings where
  /-- The modules of the project, each a folder and a project of the build console. -/
  modules : List Text
  /-- The folders with source files inside every module. -/
  sourceFolders : List Text
  /-- The extension of source files. -/
  extension : Text
  /-- Names of files that are never touched. -/
  excludedNames : List Text
  /-- How many files are worked on at a time. -/
  workers : Nat
  rules : Rules
  console : ConsoleSettings
  search : SearchSettings
  deriving DecidableEq, Repr

namespace ToolSettings

/-- The built-in settings. -/
def standard : ToolSettings where
  modules := ["common".toList, "processor".toList, "ess".toList]
  sourceFolders := ["app".toList, "test".toList]
  extension := "scala".toList
  excludedNames := ["package.scala".toList]
  workers := 8
  rules := .standard
  console := .standard
  search := .standard

/-- The settings that a table writes. -/
def ofValue? (v : Value) : Option ToolSettings := do
  let texts := Value.listOf? Value.text?
  let entries ← v.entries?
    ["modules".toList, "source_dirs".toList, "extension".toList, "excluded_file_names".toList,
     "workers".toList, "engine".toList, "session".toList, "optimizer".toList]
  return {
    modules := ← Value.setting? texts "modules" standard.modules entries
    sourceFolders := ← Value.setting? texts "source_dirs" standard.sourceFolders entries
    extension := ← Value.setting? Value.text? "extension" standard.extension entries
    excludedNames := ← Value.setting? texts "excluded_file_names" standard.excludedNames entries
    workers := ← Value.setting? Value.count? "workers" standard.workers entries
    rules := ← Value.setting? Rules.ofValue? "engine" standard.rules entries
    console := ← Value.setting? ConsoleSettings.ofValue? "session" standard.console entries
    search := ← Value.setting? SearchSettings.ofValue? "optimizer" standard.search entries }

/-! ## Workers -/

/-- The largest number of workers. -/
def maxWorkers : Nat := 64

/-- The number of workers that a variable of the environment asks for, if it holds a number. -/
def workersIn? (wish : Option Text) : Option Nat :=
  match (wish.map Text.trim).bind Text.toNat? with
  | some n => if n ≤ Value.maxCount then some n else none
  | none => none

/-- The settings with the number of workers that the environment asks for, within its bounds. -/
def withWorkers (wish : Option Text) (s : ToolSettings) : ToolSettings :=
  { s with workers := max 1 (min maxWorkers ((workersIn? wish).getD s.workers)) }

/-! ## The check -/

/-- What makes the settings unusable. -/
inductive Defect where
  | noExtension
  | noWorkers
  | blankModule
  | rules (d : Rules.Defect)
  | search (d : SearchSettings.Defect)
  deriving DecidableEq, Repr

/-- The first defect of the settings. Those of the console are looked at when it is started. -/
def defect? (s : ToolSettings) : Option Defect :=
  if Text.isBlankText s.extension then some .noExtension
  else if s.workers = 0 then some .noWorkers
  else if s.modules.any Text.isBlankText then some .blankModule
  else
    match s.rules.defect? with
    | some d => some (.rules d)
    | none => s.search.defect?.map .search

/-- The defect in words. -/
def Defect.message : Defect → Text
  | .noExtension => "extension must not be empty".toList
  | .noWorkers => "workers must be > 0".toList
  | .blankModule => "module names must not be blank".toList
  | .rules d => d.message
  | .search d => d.message

/-! ## Loading -/

/-- Why settings cannot be loaded. -/
inductive LoadFault where
  | unreadable (file : Path)
  | malformed (file : Path)
  | defect (d : Defect)
  deriving DecidableEq, Repr

/-- The fault in words. -/
def LoadFault.message : LoadFault → Text
  | .unreadable file => "Failed to read config ".toList ++ file.text
  | .malformed file => "Invalid config ".toList ++ file.text
  | .defect d => d.message

/-- The name of the settings file in the root of a project. -/
def fileName : Path := ⟨"importfix.toml".toList⟩

/-- The settings that a file holds. -/
def ofFile (d : Disk) (file : Path) : Except LoadFault ToolSettings :=
  match d.read file with
  | .error _ => .error (.unreadable file)
  | .ok t =>
    match (Toml.read? t).bind ofValue? with
    | some s => .ok s
    | none => .error (.malformed file)

/-- The file that the settings are read from: the one that is asked for, or that of the project if
it has one. -/
def source? (d : Disk) (root : Path) (asked : Option Path) : Option Path :=
  match asked with
  | some file => some file
  | none =>
    let file := root.join fileName
    if d.isFile file then some file else none

/-- Loads the settings for a project. -/
def load (d : Disk) (root : Path) (asked : Option Path) (workers : Option Text) :
    Except LoadFault ToolSettings :=
  let written := match source? d root asked with
    | some file => ofFile d file
    | none => .ok standard
  match written with
  | .error fault => .error fault
  | .ok s =>
    let s := s.withWorkers workers
    match s.defect? with
    | some defect => .error (.defect defect)
    | none => .ok s

/-- The settings of the console for a module. It starts in the root of the project unless the
settings say where. -/
def consoleFor (s : ToolSettings) (module : Text) (root : Path) : ConsoleSettings :=
  let console := s.console.forProject module
  { console with workingDirectory := some (console.workingDirectory.getD root.text) }

end ToolSettings

end ImportTidy

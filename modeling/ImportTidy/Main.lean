/-
# ImportTidy.Main — the program

Reads the part of the disk that a run can see, lets the library do the work, and writes back what
has changed. Build consoles and indexes of work trees are other programs; none is started here, so
wildcards stay as they are and no file counts as modified.
-/
import ImportTidy.Command.Outcome

namespace ImportTidy

/-- The place of an absolute path. -/
def placeOfText (t : String) : Place :=
  (Path.mk t.toList).components.filterMap fun
    | .name n => some n
    | _ => none

/-- The text of a place, for the operating system. -/
def textOfPlace (place : Place) : String := String.ofList (Path.ofPlace place).text

/-- Adds a file; one that cannot be read is there all the same. -/
def loadFile (place : Place) (d : Disk) : IO Disk := do
  try
    let content ← IO.FS.readBinFile (textOfPlace place)
    return d.plant place (.file content Entry.fileMode)
  catch _ => return d.plant place (.file ByteArray.empty 0)

/-- Adds what is in a folder. What belongs to a work tree's own records is not looked into. -/
partial def loadEntries (found : Array IO.FS.DirEntry) (folder : Place) (d : Disk) : IO Disk := do
  let mut d := d
  for e in found do
    let place := folder ++ [e.fileName.toList]
    try
      match (← e.path.symlinkMetadata).type with
      | .dir =>
        d := d.plant place (.folder Entry.folderMode)
        if e.fileName != ".git" then
          d ← loadEntries (← e.path.readDir) place d
      | .file => d ← loadFile place d
      | .symlink =>
        let target := (← IO.FS.realPath e.path).toString
        d := d.plant place (.link ⟨target.toList⟩)
      | .other => pure ()
    catch _ => pure ()
  return d

/-- Adds the files above a folder that say what is left out. -/
def loadAbove (folder : Place) (d : Disk) : IO Disk := do
  let mut d := d
  for place in Disk.above folder do
    try
      let found ← (← IO.FS.realPath (textOfPlace place)).readDir
      let told := found.filter fun e => [".ignore", ".gitignore", ".git"].contains e.fileName
      let known := told.filter fun e => (d.at? (place ++ [e.fileName.toList])).isNone
      d ← loadEntries known place d
    catch _ => pure ()
  return d

/-- Adds a folder, everything below it, and what is said about it above. -/
def loadFolder (path : String) (d : Disk) : IO Disk := do
  try
    let folder ← IO.FS.realPath path
    let place := placeOfText folder.toString
    let d ← loadEntries (← folder.readDir) place (d.plant place (.folder Entry.folderMode))
    loadAbove place d
  catch _ => return d

/-- Adds the files that a command line names. -/
def loadFor (c : Command) (d : Disk) : IO Disk := do
  match c with
  | .run a =>
    let d ← match a.root with
      | some root => loadFolder (String.ofList root.text) d
      | none => pure d
    match a.config with
    | some file =>
      try
        let place := placeOfText (← IO.FS.realPath (String.ofList file.text)).toString
        if (d.at? place).isNone then loadFile place d else pure d
      catch _ => pure d
    | none => pure d
  | _ => return d

/-- Writes the files whose content has changed. -/
def store (before after : Disk) : IO Unit := do
  for (place, entry) in after.entries do
    match entry, before.at? place with
    | .file content _, some (.file old _) =>
      if content.toList != old.toList then IO.FS.writeBinFile (textOfPlace place) content
    | .file content _, some (.link _) =>
      IO.FS.removeFile (textOfPlace place)
      IO.FS.writeBinFile (textOfPlace place) content
    | .file content _, none => IO.FS.writeBinFile (textOfPlace place) content
    | _, _ => pure ()

/-- Says how it went. -/
def announce (c : Command) (o : Outcome) : IO Unit := do
  IO.print (String.ofList o.output)
  if c == .misuse then IO.eprint (String.ofList Outcome.usage)
  if let some (level, summary) := o.summary then
    IO.eprintln ("[" ++ String.ofList level.name ++ "] " ++ String.ofList summary)
  if let some error := o.error then IO.eprintln (String.ofList error)

end ImportTidy

open ImportTidy in
/-- Runs the program. -/
def main (arguments : List String) : IO UInt32 := do
  let command := Command.ofArguments (arguments.map String.toList)
  let here := (← IO.currentDir).toString
  let start : Disk := { home := placeOfText here, entries := [] }
  let before ← loadFor command (← loadFolder here start)
  let workers := (← IO.getEnv "IMPORTFIX_WORKERS").map String.toList
  let (outcome, w) := command.execute Launcher.absent workers ⟨before, none, ()⟩
  store before w.disk
  announce command outcome
  return UInt32.ofNat outcome.exitCode

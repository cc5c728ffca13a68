/-
# ImportTidy.Disk.Replace — replacing a file's content in one step

New content is first written to a sibling of the file, which is then moved over it. Whoever reads
the file sees the content from before or the new one, never a part. Links to the file survive,
because the sibling is moved to where they lead, and the file keeps its mode. When something fails,
be it after the sibling was created, the sibling is taken away again, if the system lets it.

Writing the sibling (`stage`) and moving it (`settle`) are separate steps, so that other steps may
come between them.
-/
import ImportTidy.Disk.Resolve

namespace ImportTidy

/-- What went wrong with a file. -/
inductive FileFault where
  | unreadable (path : Path) (cause : DiskFault)
  | unwritable (path : Path) (cause : DiskFault)
  deriving DecidableEq, Repr

/-- The fault in words. -/
def FileFault.message : FileFault → Text
  | .unreadable path cause =>
    "failed to read ".toList ++ path.text ++ ": ".toList ++ cause.message
  | .unwritable path cause =>
    "failed to write ".toList ++ path.text ++ ": ".toList ++ cause.message

/-- Content that waits beside the file that it will replace. -/
structure Staged where
  sibling : Path
  target : Path
  deriving DecidableEq, Repr

namespace Disk

/-- The name under which new content for a file of this name waits. It has the number of the process in
it, so that no other process makes the same. A name that is no text is left out of it. -/
def waitingName (d : Disk) (name? : Option Text) : Text :=
  '.' :: (name?.filter fun name => !d.isLabel name).getD "source".toList ++ ".tmp-".toList ++
    Text.ofNat d.process

/-- The name of the sibling. -/
def siblingName (d : Disk) (p : Path) : Text := d.waitingName p.fileName?

/-- What a path stands for, with all links followed; the path itself if it leads to nothing. -/
def target (d : Disk) (p : Path) : Path :=
  match d.find p with
  | .ok (place, _) => .ofPlace place
  | .error _ => p

/-- The mode of a folder allows to change what is in it. -/
def mayChange (d : Disk) (folder : Place) : Bool :=
  match d.at? folder with
  | some (.folder mode) => mayWrite mode && maySearch mode
  | _ => false

/-- Opens a file for writing, which is created if need be: its place, and its mode. -/
def create (p : Path) (d : Disk) : Except DiskFault (Place × Nat) :=
  let opened (place : Place) (mode : Nat) : Except DiskFault (Place × Nat) :=
    match d.hazards.create place with
    | some fault => .error fault
    | none => .ok (place, mode)
  match d.spot true p with
  | .ok (.free folder name) =>
    if d.mayChange folder then opened (folder ++ [name]) Entry.fileMode
    else .error .permissionDenied
  | .ok (.taken place (.file _ mode)) =>
    if mayWrite mode then opened place mode else .error .permissionDenied
  | .ok (.taken _ _) => .error .isDirectory
  | .error fault => .error fault

/-- Writes the content to an open file, gives it the mode, if there is one, and brings it to the disk.
The file is what has come of it, also when one of these steps fails. -/
def pour (content : ByteArray) (mode? : Option Nat) (place : Place) (mode : Nat) (d : Disk) :
    Option DiskFault × Entry :=
  match (d.hazards.fill place).filter fun limit => limit.1 < content.size with
  | some (size, fault) => (some fault, .file (content.extract 0 size) mode)
  | none =>
    match mode?.bind fun _ => d.hazards.setMode place with
    | some fault => (some fault, .file content mode)
    | none => (d.hazards.sync place, .file content (mode?.getD mode))

/-- Writes a file, which is created if need be, and gives it the mode, if there is one. -/
def write (content : ByteArray) (mode? : Option Nat) (p : Path) (d : Disk) :
    Except DiskFault Unit × Disk :=
  match d.create p with
  | .error fault => (.error fault, d)
  | .ok (place, mode) =>
    match d.pour content mode? place mode with
    | (none, file) => (.ok (), d.put place file)
    | (some fault, file) => (.error fault, d.put place file)

/-- Gives the entry that a path leads to another mode. -/
def setMode (mode : Nat) (p : Path) (d : Disk) : Except DiskFault Disk :=
  match d.find p with
  | .ok (place, .file content _) => .ok (d.put place (.file content mode))
  | .ok (place, .folder _) => .ok (d.put place (.folder mode))
  | .ok (_, .link _) => .error .notFound
  | .error fault => .error fault

/-- The mode of what a path leads to. -/
def modeOf? (d : Disk) (p : Path) : Option Nat :=
  match d.find p with
  | .ok (_, entry) => entry.mode?
  | .error _ => none

/-- Takes what is at a place away, if that is allowed. -/
def discard (place : Place) (d : Disk) : Disk :=
  if d.mayChange place.dropLast && !d.hazards.keeps place then d.erase place else d

/-- Takes a file or a link away; what is not there is left alone. -/
def remove (p : Path) (d : Disk) : Disk :=
  match d.spot false p with
  | .ok (.taken place (.file _ _)) => d.discard place
  | .ok (.taken place (.link _)) => d.discard place
  | _ => d

/-- The place that something moved to the path comes to stand at. A file cannot be moved over a
folder, nor to a path that ends like that of a folder. -/
def landing (d : Disk) (p : Path) : Except DiskFault Place :=
  let bare : Path := ⟨(p.text.reverse.dropWhile (· == Path.separator)).reverse⟩
  match d.spot false bare with
  | .ok (.free folder name) =>
    if bare ≠ p then .error .notDirectory
    else if d.mayChange folder then .ok (folder ++ [name])
    else .error .permissionDenied
  | .ok (.taken _ (.folder _)) => .error .isDirectory
  | .ok (.taken place _) =>
    if bare ≠ p then .error .notDirectory
    else if d.mayChange place.dropLast then .ok place
    else .error .permissionDenied
  | .error fault => .error fault

/-- Moves a file to the path, over the file or link that stands there. -/
def move (file p : Path) (d : Disk) : Except DiskFault Disk :=
  match d.spot false file with
  | .ok (.taken place entry) =>
    match d.landing p with
    | .ok goal =>
      match d.hazards.move goal with
      | some fault => .error fault
      | none => .ok ((d.erase place).put goal entry)
    | .error fault => .error fault
  | .ok (.free _ _) => .error .notFound
  | .error fault => .error fault

/-- Writes the content to a sibling of what the path stands for, with the mode of the file that is
there. -/
def stage (content : Text) (p : Path) (d : Disk) : Except DiskFault Staged × Disk :=
  let target := d.target p
  let sibling := target.sibling (d.siblingName target)
  match d.write (Utf8.encode content) (d.modeOf? target) sibling with
  | (.ok (), d) => (.ok ⟨sibling, target⟩, d)
  | (.error fault, d) => (.error fault, d.remove sibling)

/-- Moves the sibling to its target. -/
def settle (s : Staged) (d : Disk) : Except DiskFault Unit × Disk :=
  match d.move s.sibling s.target with
  | .ok d' => (.ok (), d')
  | .error fault => (.error fault, d.remove s.sibling)

/-- Replaces what the path stands for by a file with the given content. -/
def replace (content : Text) (p : Path) (d : Disk) : Except FileFault Unit × Disk :=
  match d.stage content p with
  | (.error fault, d) => (.error (.unwritable p fault), d)
  | (.ok staged, d) =>
    match d.settle staged with
    | (.error fault, d) => (.error (.unwritable p fault), d)
    | (.ok (), d) => (.ok (), d)

/-- Reads a file. -/
def contentOf (p : Path) (d : Disk) : Except FileFault Text :=
  match d.read p with
  | .ok t => .ok t
  | .error fault => .error (.unreadable p fault)

end Disk

end ImportTidy

/-
# ImportTidy.Disk.Resolve — from a path to a place

A path is walked step by step from the home or the root. Every folder on the way must be there and
must be searchable, no name may have too many bytes, and links are followed, at most forty of them.
The walk ends at an entry, or at a free name in a folder; `spot` answers which. Only names have a
limit; a path may have any length.
-/
import ImportTidy.Disk.Basic
import ImportTidy.Text.Utf8

namespace ImportTidy

/-- Where a path leads. -/
inductive Spot where
  | taken (place : Place) (entry : Entry)
  /-- There is no such name in the folder. -/
  | free (folder : Place) (name : Text)

namespace Path

/-- The steps of a walk. A separator at the end is a step into the folder that it follows. -/
def steps (p : Path) : List Text :=
  let names := p.pieces.filter fun piece => !piece.isEmpty
  if p.text.getLast? == some separator then names ++ [['.']] else names

/-- The absolute path of a place. -/
def ofPlace (place : Place) : Path := ofComponents (.root :: place.map .name)

end Path

namespace Disk

/-- How many links are followed for one path. -/
def maxLinks : Nat := 40

/-- How many bytes a name may have. -/
def maxName : Nat := 255

/-- The name has more bytes than a name may have. -/
def isTooLong (name : Text) : Bool := maxName < name.foldl (fun n c => n + c.utf8Size) 0

/-- Walks on from a folder, with so many links left to follow. A link in the last step is followed
only if asked for. -/
def walk (d : Disk) (follow : Bool) : (links : Nat) → Place → List Text → Except DiskFault Spot
  | _, folder, [] =>
    match d.at? folder with
    | some entry => .ok (.taken folder entry)
    | none => .error .notFound
  | links, folder, step :: rest =>
    match d.at? folder with
    | some (.folder mode) =>
      if !maySearch mode then .error .permissionDenied
      else if step = ['.'] then walk d follow links folder rest
      else if step = ['.', '.'] then walk d follow links folder.dropLast rest
      else if isTooLong step then .error .nameTooLong
      else
        let place := folder ++ [step]
        match d.at? place with
        | none => if rest.isEmpty then .ok (.free folder step) else .error .notFound
        | some (.folder _) => walk d follow links place rest
        | some (.file content mode) =>
          if rest.isEmpty then .ok (.taken place (.file content mode)) else .error .notDirectory
        | some (.link target) =>
          if rest.isEmpty && !follow then .ok (.taken place (.link target))
          else
            match links with
            | 0 => .error .tooManyLinks
            | links + 1 =>
              walk d follow links (if target.isAbsolute then [] else folder) (target.steps ++ rest)
    | some _ => .error .notDirectory
    | none => .error .notFound
termination_by links _ todo => (links, todo.length)

/-- Where a path leads. The empty path leads nowhere. -/
def spot (d : Disk) (follow : Bool) (p : Path) : Except DiskFault Spot :=
  if p.text.isEmpty then .error .notFound
  else d.walk follow maxLinks (if p.isAbsolute then [] else d.home) p.steps

/-- The place and the entry that a path leads to, links followed. -/
def find (d : Disk) (p : Path) : Except DiskFault (Place × Entry) :=
  match d.spot true p with
  | .ok (.taken place entry) => .ok (place, entry)
  | .ok (.free _ _) => .error .notFound
  | .error fault => .error fault

/-- The path leads to a file. -/
def isFile (d : Disk) (p : Path) : Bool :=
  match d.find p with
  | .ok (_, .file _ _) => true
  | _ => false

/-- The path leads to a folder. -/
def isFolder (d : Disk) (p : Path) : Bool :=
  match d.find p with
  | .ok (_, .folder _) => true
  | _ => false

/-- The text of a file. -/
def read (d : Disk) (p : Path) : Except DiskFault Text :=
  match d.find p with
  | .ok (_, .file content mode) =>
    if !mayRead mode then .error .permissionDenied
    else
      match Utf8.decode? content with
      | some t => .ok t
      | none => .error .notText
  | .ok (_, .folder mode) => if mayRead mode then .error .isDirectory else .error .permissionDenied
  | .ok (_, .link _) => .error .notFound
  | .error fault => .error fault

end Disk

end ImportTidy

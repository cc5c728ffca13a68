/-
# ImportTidy.Discovery.Index — files that differ from a recorded state

An index records the content of the files of a work tree. A file is modified when its content is
not the recorded one; one that is gone is modified too, but there is nothing to work on. Modified
files are listed relative to a folder of the work tree, in the order of their names. A name that
could not be written plainly in such a list is not usable and is left out.
-/
import ImportTidy.Discovery.Eligibility
import ImportTidy.Disk.Resolve

namespace ImportTidy

/-- The recorded state of a work tree. -/
structure Index where
  /-- The root of the work tree. -/
  root : Place
  /-- The recorded files, by the names that lead to them from the root. -/
  files : List (List Text × ByteArray)

namespace Index

/-- The character is written plainly in lists of names. -/
def isPlain (c : Char) : Bool := 0x20 ≤ c.toNat && c.toNat < 0x7F && c != '"' && c != '\\'

/-- The file at a place has the recorded content. -/
def isSame (d : Disk) (place : Place) (content : ByteArray) : Bool :=
  match d.at? place with
  | some (.file bytes _) => bytes.toList == content.toList
  | _ => false

/-- The names of the modified files below a folder, as seen from it. -/
def modifiedNames (i : Index) (d : Disk) (folder : Place) : List Text :=
  let changed := i.files.filterMap fun (names, content) =>
    let place := i.root ++ names
    if folder.isPrefixOf place && !isSame d place content then
      some (Text.join ['/'] (place.drop folder.length))
    else none
  changed.mergeSort fun a b => Text.compare a b != .gt

/-- The folder that a root means; an empty one means the home. -/
def folder? (d : Disk) (root : Path) : Option Place :=
  if root.text.isEmpty then some d.home
  else
    match d.find root with
    | .ok (place, .folder _) => some place
    | _ => none

/-- The eligible files below a root that are modified and still there. Outside of the work tree
there are none. -/
def modified (i : Index) (d : Disk) (e : Eligibility) (root : Path) : List Path :=
  match folder? d root with
  | some folder =>
    if i.root.isPrefixOf folder then
      let names := ((i.modifiedNames d folder).filter fun name => name.all isPlain).map Text.trim
      let paths := (names.filter fun name => !name.isEmpty).map fun name => root.join ⟨name⟩
      paths.filter fun p => e.admits p && d.isFile p
    else []
  | none => []

end Index

end ImportTidy

/-
# ImportTidy.Discovery.Walk — the eligible files below a folder

A file is found below a folder when it is eligible and when it, and every folder on the way to it,
is visible. Links are neither followed nor found. The folder itself is looked into in any case.
-/
import ImportTidy.Discovery.Eligibility
import ImportTidy.Discovery.Ignore

namespace ImportTidy

namespace Disk

/-- Every entry on the way from the folder to the place below it is visible. -/
def isReached (d : Disk) (folder place : Place) : Bool :=
  (List.range (place.length - folder.length)).all fun n =>
    let length := folder.length + n + 1
    d.isVisible (length < place.length) (place.take length)

/-- The path of an entry below a folder, which itself is reached by `root`. -/
def pathBelow (root : Path) (names : List Text) : Path :=
  names.foldl (fun p name => p.join ⟨name⟩) root

/-- The file at a place, if it is one that is found below the folder. -/
def foundFile? (d : Disk) (e : Eligibility) (root : Path) (folder : Place) :
    Place × Entry → Option Path
  | (place, .file _ _) =>
    if folder.isPrefixOf place && d.isReached folder place then
      let path := pathBelow root (place.drop folder.length)
      if e.admits path then some path else none
    else none
  | _ => none

/-- The eligible files below a folder, in the order of their paths. -/
def discover (d : Disk) (e : Eligibility) (root : Path) : List Path :=
  match d.find root with
  | .ok (folder, .folder _) =>
    (d.entries.filterMap (d.foundFile? e root folder)).mergeSort Path.mayPrecede
  | _ => []

end Disk

end ImportTidy

/-
# ImportTidy.Discovery.Module — the modules that files belong to

A file belongs to the module whose name is the first component of its path, as seen from the root
of the project. Files of no module are left out.
-/
import ImportTidy.Disk.Path

namespace ImportTidy

namespace Path

/-- The first component of the path as seen from the root, if it is a name. -/
def topName? (root p : Path) : Option Text :=
  match from? root p with
  | some (.name n :: _) => some n
  | _ => none

/-- The module that a file belongs to. -/
def module? (root : Path) (modules : List Text) (file : Path) : Option Text :=
  (topName? root file).bind fun name => if modules.contains name then some name else none

end Path

/-- The modules that have files among the given ones, each once and in order, with their files. -/
def filesByModule (root : Path) (files : List Path) (modules : List Text) :
    List (Text × List Path) :=
  let named := (files.filterMap (Path.module? root modules)).eraseDups
  let ordered := named.mergeSort fun a b => Text.compare a b != .gt
  ordered.map fun m => (m, files.filter fun file => Path.module? root modules file == some m)

end ImportTidy

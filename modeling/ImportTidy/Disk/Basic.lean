/-
# ImportTidy.Disk.Basic — what is on a disk

A disk holds entries at places: files with their bytes and mode, folders, and links to other paths.
A place is the list of names that lead to an entry from the root. What a disk means is the function
`at?`; `put` and `erase` change it at one place and nowhere else. What is around the disk stays the same
all the time: who works on it, and which steps the system will refuse there.
-/
import ImportTidy.Disk.Fault
import ImportTidy.Disk.Path

namespace ImportTidy

/-- The names that lead from the root of a disk to an entry. -/
abbrev Place := List Text

/-- What stands at a place. -/
inductive Entry where
  | file (content : ByteArray) (mode : Nat)
  | folder (mode : Nat)
  | link (target : Path)

namespace Entry

/-- The mode of a new file. -/
def fileMode : Nat := 0o644

/-- The mode of a new folder. -/
def folderMode : Nat := 0o755

/-- The mode of an entry; a link has none of its own. -/
def mode? : Entry → Option Nat
  | file _ mode => some mode
  | folder mode => some mode
  | link _ => none

end Entry

/-- The owner may read. -/
def mayRead (mode : Nat) : Bool := mode / 0o400 % 2 == 1

/-- The owner may write. -/
def mayWrite (mode : Nat) : Bool := mode / 0o200 % 2 == 1

/-- The owner may look up names in a folder of this mode. -/
def maySearch (mode : Nat) : Bool := mode / 0o100 % 2 == 1

/-- What goes wrong on a disk for reasons that its entries do not show. Each step of writing a file can
be refused, at any place. -/
structure Hazards where
  create : Place → Option DiskFault := fun _ => none
  /-- How many bytes a file takes, and what the system says when there are more. -/
  fill : Place → Option (Nat × DiskFault) := fun _ => none
  setMode : Place → Option DiskFault := fun _ => none
  sync : Place → Option DiskFault := fun _ => none
  /-- The refusal to move something to the place. -/
  move : Place → Option DiskFault := fun _ => none
  /-- What is at the place cannot be taken away. -/
  keeps : Place → Bool := fun _ => false

/-- What a disk is used with. No change of its entries bears on that. -/
structure Host where
  /-- The place that relative paths start from. -/
  home : Place
  /-- The number of the process that works on the disk. -/
  process : Nat := 0
  /-- The names that are no texts. Such a name is written as a label that stands for its bytes. -/
  isLabel : Text → Bool := fun _ => false
  hazards : Hazards := {}

/-- A disk and its host. -/
structure Disk extends Host where
  entries : List (Place × Entry)

namespace Disk

/-- The mode of the root, in which nothing can be created. -/
def rootMode : Nat := 0o555

/-- The entry at a place. The root is always a folder. -/
def at? (d : Disk) : Place → Option Entry
  | [] => some (.folder rootMode)
  | place => d.entries.lookup place

/-- The disk with nothing at the place. -/
def erase (place : Place) (d : Disk) : Disk :=
  { d with entries := d.entries.filter fun e => e.1 != place }

/-- The disk with the entry at the place, instead of what was there. -/
def put (place : Place) (entry : Entry) (d : Disk) : Disk :=
  { d with entries := (place, entry) :: (d.erase place).entries }

@[simp] theorem toHost_put (place : Place) (e : Entry) (d : Disk) :
    (d.put place e).toHost = d.toHost := rfl

theorem lookup_filter_self (place : Place) (entries : List (Place × Entry)) :
    (entries.filter fun e => e.1 != place).lookup place = none := by
  rw [List.lookup_eq_none_iff]
  rintro ⟨p, x⟩ h
  have hp : p ≠ place := by simpa using (List.mem_filter.1 h).2
  simpa using hp.symm

theorem lookup_filter_of_ne {place other : Place} (h : other ≠ place)
    (entries : List (Place × Entry)) :
    (entries.filter fun e => e.1 != place).lookup other = entries.lookup other := by
  induction entries with
  | nil => rfl
  | cons e entries ih =>
    obtain ⟨p, x⟩ := e
    by_cases hp : p = place
    · subst hp
      simp [ih, List.lookup_cons, beq_eq_false_iff_ne.2 h]
    · simp [hp, List.lookup_cons, ih]

/-- Nothing is left at an erased place. -/
theorem at?_erase_self {place : Place} (h : place ≠ []) (d : Disk) :
    (d.erase place).at? place = none := by
  cases place with
  | nil => exact absurd rfl h
  | cons a rest => exact lookup_filter_self _ _

/-- Erasing leaves the other places alone. -/
theorem at?_erase_of_ne {place other : Place} (h : other ≠ place) (d : Disk) :
    (d.erase place).at? other = d.at? other := by
  cases other with
  | nil => rfl
  | cons a rest => exact lookup_filter_of_ne h _

/-- What is put at a place is there. -/
theorem at?_put_self {place : Place} (h : place ≠ []) (e : Entry) (d : Disk) :
    (d.put place e).at? place = some e := by
  cases place with
  | nil => exact absurd rfl h
  | cons a rest => simp [put, at?]

/-- Putting leaves the other places alone. -/
theorem at?_put_of_ne {place other : Place} (h : other ≠ place) (e : Entry) (d : Disk) :
    (d.put place e).at? other = d.at? other := by
  cases other with
  | nil => rfl
  | cons a rest =>
    simp only [put, at?, List.lookup_cons, beq_eq_false_iff_ne.2 h]
    exact lookup_filter_of_ne h _

/-- The disk with a folder at every one of the places that has no entry. -/
def putFolders : List Place → Disk → Disk
  | [], d => d
  | place :: more, d =>
    putFolders more (if (d.at? place).isSome then d else d.put place (.folder Entry.folderMode))

/-- The places above a place, the highest first. -/
def above (place : Place) : List Place :=
  (List.range place.length).map fun n => place.take n

/-- The disk with an entry at a place and folders above it. -/
def plant (place : Place) (e : Entry) (d : Disk) : Disk :=
  (d.putFolders (above place)).put place e

/-- A disk with nothing but an empty home. -/
def empty : Disk :=
  plant ["tmp".toList, "work".toList] (.folder Entry.folderMode)
    { home := ["tmp".toList, "work".toList], entries := [(["tmp".toList], .folder 0o777)] }

end Disk

end ImportTidy

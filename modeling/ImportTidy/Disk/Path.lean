/-
# ImportTidy.Disk.Path — paths as they are written

A path is the text that was given for it; that text is what messages show and what joining extends.
What it means is its list of components, in which repeated and trailing separators and inner `.`
components do not count. File name, extension, order and relative position are read off the
components.
-/
import ImportTidy.Text.Basic

namespace ImportTidy

/-- A path, as the text that was given for it. -/
structure Path where
  text : Text
  deriving DecidableEq, Repr

namespace Path

/-- The character between components. -/
def separator : Char := '/'

/-! ## Components -/

/-- A component of a path. -/
inductive Component where
  /-- The separator at the start of an absolute path. -/
  | root
  /-- The `.` at the start of a relative path. -/
  | here
  | up
  | name (n : Text)
  deriving DecidableEq, Repr

/-- The component that stands between two separators. There is none in an empty piece or a `.`. -/
def component? (piece : Text) : Option Component :=
  if piece = [] ∨ piece = ['.'] then none
  else if piece = ['.', '.'] then some .up
  else some (.name piece)

/-- The pieces between separators, empty ones included. -/
def pieces (p : Path) : List Text := p.text.splitOn separator

/-- The components of the path. -/
def components (p : Path) : List Component :=
  let named := p.pieces.filterMap component?
  match p.pieces with
  | [] :: _ :: _ => .root :: named
  | ['.'] :: _ => .here :: named
  | _ => named

/-- How a component is written. -/
def Component.text : Component → Text
  | root => []
  | here => ['.']
  | up => ['.', '.']
  | name n => n

/-- The path with these components. -/
def ofComponents : List Component → Path
  | [.root] => ⟨[separator]⟩
  | components => ⟨Text.join [separator] (components.map Component.text)⟩

/-! ## Names -/

/-- The last component, if it is a name. -/
def fileName? (p : Path) : Option Text :=
  match p.components.getLast? with
  | some (.name n) => some n
  | _ => none

/-- What follows the last dot of the file name, unless that dot starts the name. -/
def extension? (p : Path) : Option Text :=
  match p.fileName?.bind (Text.cutLast? '.') with
  | some (_ :: _, behind) => some behind
  | _ => none

/-- The path starts at the root. -/
def isAbsolute (p : Path) : Bool := p.text.head? == some separator

/-! ## Joining and position -/

/-- The path `q` as seen from `p`: an absolute one replaces `p`, any other is added behind a
separator. -/
def join (p q : Path) : Path :=
  if q.isAbsolute then q
  else if p.text.isEmpty || p.text.getLast? == some separator then ⟨p.text ++ q.text⟩
  else ⟨p.text ++ separator :: q.text⟩

/-- The path with its file name replaced, or with a name added when it has none. -/
def sibling (p : Path) (name : Text) : Path :=
  if p.fileName?.isSome then (ofComponents p.components.dropLast).join ⟨name⟩ else p.join ⟨name⟩

/-- The components behind a common start. -/
def behind? : List Component → List Component → Option (List Component)
  | [], components => some components
  | a :: start, b :: components => if a = b then behind? start components else none
  | _ :: _, [] => none

/-- The components of the path as seen from `base`, if the path starts with those of `base`. -/
def from? (base p : Path) : Option (List Component) := behind? base.components p.components

/-! ## Order -/

/-- The kinds of components in their order. -/
def Component.rank : Component → Nat
  | root => 0
  | here => 1
  | up => 2
  | name _ => 3

/-- Components by their kind, names by their text. -/
def Component.compare : Component → Component → Ordering
  | name a, name b => Text.compare a b
  | a, b => if a.rank < b.rank then .lt else if b.rank < a.rank then .gt else .eq

/-- The order of lists of components: the first difference decides. -/
def compareComponents : List Component → List Component → Ordering
  | [], [] => .eq
  | [], _ :: _ => .lt
  | _ :: _, [] => .gt
  | a :: p, b :: q => (a.compare b).then (compareComponents p q)

/-- The order of paths, component by component. -/
def compare (p q : Path) : Ordering := compareComponents p.components q.components

/-- One path may stand before the other. -/
def mayPrecede (p q : Path) : Bool := p.compare q != .gt

end Path

end ImportTidy

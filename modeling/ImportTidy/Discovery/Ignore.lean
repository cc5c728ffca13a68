/-
# ImportTidy.Discovery.Ignore — entries that are left out

A folder may hold files whose lines say which entries below it are left out and which are not.
`.ignore` files always count; `.gitignore` files count only inside of a work tree, and only up to
its root. The nearest file with a matching line decides, in it the last such line, and every
`.ignore` file comes before every `.gitignore` file. What no line decides is left out if its name
starts with a dot.
-/
import ImportTidy.Discovery.Glob
import ImportTidy.Disk.Resolve

namespace ImportTidy

/-- What a line says about the entries that it matches. -/
inductive Verdict where
  | leaveOut
  | keep
  deriving DecidableEq, Repr

/-- A line of an ignore file. -/
structure IgnoreRule where
  verdict : Verdict
  /-- The line is about folders only. -/
  foldersOnly : Bool
  glob : Glob
  deriving DecidableEq, Repr

namespace IgnoreRule

/-- The text without blanks at its end, unless the last of them is escaped. -/
def trimLine (line : Text) : Text :=
  if [' ', '\\'].isPrefixOf line.reverse then line else Text.trimEnd line

/-- The mark at the start of a line: whether it keeps entries, whether it is bound to the folder of
its file, and the rest of it. -/
def splitMark : Text → Verdict × Bool × Text
  | '\\' :: '!' :: t => (.leaveOut, false, '!' :: t)
  | '\\' :: '#' :: t => (.leaveOut, false, '#' :: t)
  | '!' :: '/' :: t => (.keep, true, t)
  | '!' :: t => (.keep, false, t)
  | '/' :: t => (.leaveOut, true, t)
  | t => (.leaveOut, false, t)

/-- The mark at the end of a line: whether it is about folders only, and the rest of it. -/
def splitFolderMark (t : Text) : Bool × Text :=
  match t.reverse with
  | '/' :: '\\' :: rest => (true, rest.reverse)
  | '/' :: rest => (true, rest.reverse)
  | _ => (false, t)

/-- The glob of a line. A line without a separator matches at any depth, and one that ends in `/**`
matches what is inside of a folder and not the folder. -/
def globText (bound : Bool) (t : Text) : Text :=
  let t := if bound || t.contains '/' || t = ['*', '*'] then t else "**/".toList ++ t
  if "**/".toList.isPrefixOf t.reverse then t ++ "/*".toList else t

/-- The rule that a line writes. Empty lines and comments are none. -/
def ofLine? (line : Text) : Option IgnoreRule :=
  match trimLine line with
  | [] => none
  | '#' :: _ => none
  | t =>
    let (verdict, bound, t) := splitMark t
    let (foldersOnly, t) := splitFolderMark t
    (Glob.read? (globText bound t)).map fun glob => ⟨verdict, foldersOnly, glob⟩

/-- The rules of an ignore file. -/
def ofText (t : Text) : List IgnoreRule := (Text.lines t).filterMap ofLine?

/-- What the rules say about the entry that the names lead to: the last rule that matches decides. -/
def verdict? (rules : List IgnoreRule) (names : List Text) (isFolder : Bool) : Option Verdict :=
  (rules.reverse.find? fun r => (!r.foldersOnly || isFolder) && r.glob.admits names).map
    IgnoreRule.verdict

end IgnoreRule

namespace Disk

/-- The rules in a folder's file of that name; none when there is no such file. -/
def rulesIn (d : Disk) (name : Text) (folder : Place) : List IgnoreRule :=
  match d.read (.ofPlace (folder ++ [name])) with
  | .ok t => IgnoreRule.ofText t
  | .error _ => []

/-- What the files of that name in some folders above an entry say about it. The folders are given
with the nearest first, and the first that says something decides. -/
def verdictIn? (d : Disk) (name : Text) (isFolder : Bool) (place : Place) (folders : List Place) :
    Option Verdict :=
  folders.findSome? fun folder =>
    IgnoreRule.verdict? (d.rulesIn name folder) (place.drop folder.length) isFolder

/-- The folder is the root of a work tree. -/
def isWorkTree (d : Disk) (folder : Place) : Bool := (d.at? (folder ++ [".git".toList])).isSome

/-- The folders up to the first that is the root of a work tree; none when there is no such. -/
def insideWorkTree (d : Disk) : List Place → List Place
  | [] => []
  | folder :: higher =>
    if d.isWorkTree folder then [folder]
    else
      match d.insideWorkTree higher with
      | [] => []
      | rest => folder :: rest

/-- An entry below the start of a walk is looked at. -/
def isVisible (d : Disk) (isFolder : Bool) (place : Place) : Bool :=
  let folders := (above place).reverse
  let verdict :=
    match d.verdictIn? ".ignore".toList isFolder place folders with
    | some v => some v
    | none => d.verdictIn? ".gitignore".toList isFolder place (d.insideWorkTree folders)
  match verdict with
  | some .keep => true
  | some .leaveOut => false
  | none => (place.getLast?.bind List.head?) != some '.'

end Disk

end ImportTidy

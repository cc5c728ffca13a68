/-
# ImportTidy.Import.Statement — one import statement

A statement is kept as the text of its line. What it means is read off that text: the path behind
the keyword, the qualifier and the selector on either side of the last dot, and from the selector
whether it is a wildcard or a group in braces. Nothing is checked, so every text is a statement,
and each reading below is total.
-/
import ImportTidy.Text.Basic

namespace ImportTidy

/-- An import statement, as the text of its line. -/
structure Statement where
  text : Text
  deriving DecidableEq, Repr

namespace Statement

/-- The word that opens an import. -/
def keyword : Text := "import".toList

/-- The selector that imports every member. -/
def wildcardSelector : Text := ['_']

/-- The arrow between a member and the name it is imported under. -/
def renameArrow : Text := ['=', '>']

/-- A line is an import when the keyword stands alone in it or a blank follows the keyword. -/
def isImportLine (line : Text) : Bool :=
  match Text.after? keyword line with
  | some [] => true
  | some (c :: _) => Text.isBlank c
  | none => false

/-- What the statement imports: the text behind the keyword and the blanks after it. -/
def path (s : Statement) : Text :=
  match Text.after? keyword s.text with
  | some rest => Text.trimStart rest
  | none => s.text

/-- The text before and after the last dot: the qualifier, keyword included, and the selector. -/
def split? (s : Statement) : Option (Text × Text) := Text.cutLast? '.' s.text

/-- The selector, or the whole path of a statement without a dot. -/
def trailing (s : Statement) : Text :=
  match s.split? with
  | some (_, selector) => selector
  | none => s.path

/-- The statement imports every member. -/
def isWildcard (s : Statement) : Bool := s.trailing == wildcardSelector

/-- The statement imports a member under another name. -/
def isRename (s : Statement) : Bool := Text.occurs renameArrow s.text

/-- The selector is a group in braces. -/
def isGroup (s : Statement) : Bool := s.trailing.head? == some '\x7b'

/-- The names between the first opening and the last closing brace, and the text before them. -/
def braces? (s : Statement) : Option (Text × List Text) :=
  match Text.cutFirst? '\x7b' s.text with
  | none => none
  | some (before, behind) =>
    match Text.cutLast? '\x7d' behind with
    | none => none
    | some (inside, _) =>
      some (before, ((inside.splitOn ',').map Text.trim).filter fun name => !name.isEmpty)

/-- One statement for each name of a group. A statement that renames, or without a pair of braces,
does not expand. -/
def expand? (s : Statement) : Option (List Statement) :=
  if s.isRename then none
  else s.braces?.map fun (before, names) => names.map fun name => ⟨before ++ name⟩

/-- The statement that imports `member` in place of the selector. -/
def withMember? (s : Statement) (member : Text) : Option Statement :=
  s.split?.map fun (qualifier, _) => ⟨qualifier ++ '.' :: member⟩

/-- The statement with the first occurrence of `source` replaced. -/
def rewrite (source target : Text) (s : Statement) : Statement :=
  ⟨Text.replaceFirst source target s.text⟩

/-- A rewrite by this rule finds something to replace. -/
def isRewritten (source : Text) (s : Statement) : Bool := Text.occurs source s.text

end Statement

end ImportTidy

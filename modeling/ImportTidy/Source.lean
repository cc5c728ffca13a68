/-
# ImportTidy.Source — a source file split into header, imports and code

The header is the first line, the imports are the import lines below it wherever they stand, and
the code is every other line from the first that is not blank. Written back, the three parts are
set off by an empty line and every line has the ending that the file uses.
-/
import ImportTidy.Import.Cleaning

namespace ImportTidy

/-- How the lines of a file end. -/
inductive LineEnding where
  | lineFeed
  | returnAndLineFeed
  deriving DecidableEq, Repr

namespace LineEnding

/-- The characters of the ending. -/
def text : LineEnding → Text
  | .lineFeed => ['\n']
  | .returnAndLineFeed => ['\r', '\n']

/-- A single line that ends in both characters makes it the ending of the file. -/
def detect (content : Text) : LineEnding :=
  if Text.occurs ['\r', '\n'] content then .returnAndLineFeed else .lineFeed

end LineEnding

/-- A source file in its parts. -/
structure SourceFile where
  header : Text
  imports : Block
  code : List Text
  ending : LineEnding
  deriving DecidableEq, Repr

namespace SourceFile

/-- The import statements among the lines, without blanks at their ends. -/
def importsOf (lines : List Text) : Block :=
  (lines.filter Statement.isImportLine).map fun line => ⟨Text.trimEnd line⟩

/-- The lines that are no imports, from the first that is not blank. -/
def codeOf (lines : List Text) : List Text :=
  (lines.filter fun line => !Statement.isImportLine line).dropWhile Text.isBlankText

/-- The parts of a file's content. -/
def parse (content : Text) : SourceFile :=
  let lines := Text.lines content
  { header := lines.head?.getD []
    imports := importsOf lines.tail
    code := codeOf lines.tail
    ending := LineEnding.detect content }

/-- The code as one text, with line feeds between its lines. -/
def codeText (f : SourceFile) : Text := Text.join ['\n'] f.code

/-- The file's content with the given lines in place of its imports. -/
def renderWith (f : SourceFile) (importLines : List Text) : Text :=
  let eol := f.ending.text
  let imports := if importLines.isEmpty then [] else Text.join eol importLines ++ eol ++ eol
  f.header ++ eol ++ eol ++ imports ++ Text.join eol f.code ++ eol

/-- The file's content. -/
def render (f : SourceFile) : Text := f.renderWith f.imports.lines

/-- The file with another block of imports. -/
def withImports (f : SourceFile) (b : Block) : SourceFile := { f with imports := b }

/-- The file with its imports cleaned. -/
def cleaned (r : Rules) (f : SourceFile) : SourceFile :=
  f.withImports (r.clean f.codeText f.imports)

/-- The content of the file with its imports cleaned and laid out. -/
def normalize (r : Rules) (f : SourceFile) : Text :=
  f.renderWith (r.cleanLines f.codeText f.imports)

end SourceFile

end ImportTidy

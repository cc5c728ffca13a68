/-
# ImportTidy.Discovery.Eligibility — which files are touched

A file is eligible by its name alone: it has the extension of source files and is not one of the
names that are left out.
-/
import ImportTidy.Disk.Path
import ImportTidy.Settings.Tool

namespace ImportTidy

/-- Says which files are touched. -/
structure Eligibility where
  /-- The extension, without a dot before it. -/
  extension : Text
  excludedNames : List Text
  deriving DecidableEq, Repr

namespace Eligibility

/-- Files with the extension, which may be given with dots before it, and none of the names. -/
def ofNames (extension : Text) (excludedNames : List Text) : Eligibility :=
  ⟨extension.dropWhile (· == '.'), excludedNames⟩

/-- The files that the settings mean. -/
def ofSettings (s : ToolSettings) : Eligibility := ofNames s.extension s.excludedNames

/-- The file is touched. -/
def admits (e : Eligibility) (p : Path) : Bool :=
  p.extension? == some e.extension
    && !(p.fileName?.any fun name => e.excludedNames.contains name)

end Eligibility

end ImportTidy

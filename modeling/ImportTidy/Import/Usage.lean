/-
# ImportTidy.Import.Usage — which statements the code needs

A statement is used when it cannot be judged by its name (a wildcard, a rename), when its trailing
name stands somewhere in the code, or when it is imported for its effect.
-/
import ImportTidy.Import.Rules
import ImportTidy.Import.Statement

namespace ImportTidy

namespace Rules

/-- The statement is imported for its effect. -/
def isSideEffecting (r : Rules) (s : Statement) : Bool :=
  r.sideEffects.any fun mark => Text.occurs mark s.text

/-- The code needs the statement. -/
def isUsed (r : Rules) (code : Text) (s : Statement) : Bool :=
  s.isWildcard || s.isRename || Text.occurs s.trailing code || r.isSideEffecting s

end Rules

end ImportTidy

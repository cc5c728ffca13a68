/-
# ImportTidy.Diagnostic — the symbols that a compiler misses

A pattern reads compiler output line by line. Its group `symbol` is the name that is missing, its
group `kind` says as what it was looked for. Each finding is reported once, in the order in which
it first appears.
-/
import ImportTidy.Pattern.Reader
import ImportTidy.Pattern.Match

namespace ImportTidy

/-- What a missing symbol was looked for as. -/
inductive SymbolKind where
  | value
  | type
  /-- The output says neither. -/
  | unknown
  deriving DecidableEq, Repr

/-- The kind that a word of the output names. -/
def SymbolKind.ofWord (word : Option Text) : SymbolKind :=
  if word = some "value".toList then .value
  else if word = some "type".toList then .type
  else .unknown

/-- A symbol that the compiler did not find. -/
structure Diagnostic where
  kind : SymbolKind
  symbol : Text
  deriving DecidableEq, Repr

/-- A pattern that finds diagnostics: one with a group for the symbol. -/
structure DiagnosticPattern where
  pattern : Pattern
  /-- The number of the group `symbol`. -/
  symbol : Nat
  /-- The number of the group `kind`, if the pattern has one. -/
  kind : Option Nat
  deriving DecidableEq, Repr

namespace DiagnosticPattern

/-- Why a text gives no pattern for diagnostics. -/
inductive Defect where
  /-- It is no pattern. -/
  | malformed
  /-- It is a pattern without a group for the symbol. -/
  | noSymbol
  deriving DecidableEq, Repr

/-- The pattern that a text writes. -/
def read (t : Text) : Except Defect DiagnosticPattern :=
  match Pattern.read? t with
  | none => .error .malformed
  | some named =>
    match named.names.lookup "symbol".toList with
    | none => .error .noSymbol
    | some symbol => .ok ⟨named.body, symbol, named.names.lookup "kind".toList⟩

/-- The diagnostic of one match; none when the match has no symbol. -/
def diagnostic? (p : DiagnosticPattern) (line : Text) (f : Pattern.Found) : Option Diagnostic :=
  (f.group? p.symbol line).map fun symbol =>
    ⟨SymbolKind.ofWord (p.kind.bind fun kind => f.group? kind line), symbol⟩

/-- The diagnostics of one line, repetitions included. -/
def scanLine (p : DiagnosticPattern) (line : Text) : List Diagnostic :=
  (p.pattern.find line).filterMap (p.diagnostic? line)

/-- The diagnostics of the compiler's output, each once, in the order of their first appearance. -/
def scan (p : DiagnosticPattern) (output : Text) : List Diagnostic :=
  ((Text.lines output).flatMap p.scanLine).eraseDups

end DiagnosticPattern

end ImportTidy

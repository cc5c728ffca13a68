/-
# ImportTidy.Wildcard.Search — the explicit imports that a wildcard stands for

The search takes a wildcard out of a block and compiles. As long as the compiler misses symbols,
each of them is imported from the wildcard's qualifier and the compiler is asked again. The imports
that were needed until the first clean compilation replace the wildcard.

The search is stated over any surroundings: a way to compile and a way to store a block for the
compiler to see, either of which may fail. Before every compilation a block is stored, and the
compilation judges that block. That a wildcard is unresolved is for the search alone to say: no fault
of the surroundings means it.
-/
import ImportTidy.Import.Block
import ImportTidy.Wildcard.Settings

namespace ImportTidy

/-- Surroundings with states in `σ` and faults in `ε`, in which blocks can be tried. -/
structure Bench (σ ε : Type) where
  /-- Compiles, and gives the compiler's output. -/
  compile : σ → Except ε Text × σ
  /-- Stores a block for the next compilation. -/
  persist : Block → σ → Except ε Unit × σ

/-- Why a search gives no replacement. -/
inductive SearchFault (ε : Type) where
  /-- No compilation was clean in so many attempts. -/
  | unresolved (wildcard : Statement) (attempts : Nat)
  /-- The surroundings failed, whatever their fault is. -/
  | failed (cause : ε)
  deriving DecidableEq, Repr

/-- The fault in words, given those for a fault of the surroundings. -/
def SearchFault.message {ε : Type} (describe : ε → Text) : SearchFault ε → Text
  | .unresolved wildcard attempts =>
    "could not resolve ".toList ++ wildcard.text ++ " after ".toList ++ Text.ofNat attempts
      ++ " attempts".toList
  | .failed cause => describe cause

namespace SearchPlan

variable {σ ε : Type}

/-- The compilation did not fail. -/
def isClean (p : SearchPlan) (output : Text) : Bool := !Text.occurs p.errorMark output

/-- The explicit imports for the symbols that the compiler misses. -/
def candidates (p : SearchPlan) (wildcard : Statement) (output : Text) : List Statement :=
  (p.pattern.scan output).filterMap fun d => wildcard.withMember? d.symbol

/-- Compiles up to so many times. `working` is the block that is stored, `needed` are the explicit
imports found so far. -/
def searchFrom (p : SearchPlan) (bench : Bench σ ε) (wildcard : Statement) :
    Nat → Block → List Statement → σ → Except (SearchFault ε) (List Statement) × σ
  | 0, _, _, s => (.error (.unresolved wildcard p.attempts), s)
  | left + 1, working, needed, s =>
    match bench.compile s with
    | (.error cause, s) => (.error (.failed cause), s)
    | (.ok output, s) =>
      if p.isClean output then (.ok needed, s)
      else
        let needed := Block.merge needed (p.candidates wildcard output)
        let working := Block.merge working needed
        match bench.persist working s with
        | (.error cause, s) => (.error (.failed cause), s)
        | (.ok (), s) => searchFrom p bench wildcard left working needed s

/-- The imports that replace a wildcard of a block. -/
def search (p : SearchPlan) (bench : Bench σ ε) (wildcard : Statement) (imports : Block) (s : σ) :
    Except (SearchFault ε) (List Statement) × σ :=
  let working := Block.without wildcard imports
  match bench.persist working s with
  | (.error cause, s) => (.error (.failed cause), s)
  | (.ok (), s) => searchFrom p bench wildcard p.attempts working [] s

end SearchPlan

end ImportTidy

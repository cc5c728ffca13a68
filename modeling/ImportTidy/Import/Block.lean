/-
# ImportTidy.Import.Block — the imports of a file, in order

A block is a list of statements; repetitions are allowed until they are removed. The operations
here are the steps of a cleaning and of a wildcard search, each a plain list function.
-/
import ImportTidy.Import.Tier
import ImportTidy.Import.Usage

namespace ImportTidy

/-- The import statements of a file, from top to bottom. -/
abbrev Block := List Statement

namespace Block

/-- The lines of the block. -/
def lines (b : Block) : List Text := b.map Statement.text

/-- The block followed by the statement, unless it is there already. -/
def add (b : Block) (s : Statement) : Block := if s ∈ b then b else b ++ [s]

/-- The block followed by the statements that it does not have yet, each once. -/
def merge (b : Block) (more : List Statement) : Block := more.foldl add b

/-- The wildcard statements, in order, one for each occurrence. -/
def wildcards (b : Block) : List Statement := b.filter Statement.isWildcard

/-- Every group replaced by its members. -/
def expand (b : Block) : Block :=
  b.flatMap fun s => s.expand?.getD [s]

/-- Every statement rewritten by one rule. -/
def rewrite (source target : Text) (b : Block) : Block := b.map (Statement.rewrite source target)

/-- The block without the statements of exactly this text. -/
def remove (text : Text) (b : Block) : Block := b.filter fun s => s.text != text

/-- The block without any copy of the statement. -/
def without (s : Statement) (b : Block) : Block := b.filter fun x => x != s

/-- The first `target` of the block, with what stands before and after it. -/
def cutAt? (target : Statement) : Block → Option (Block × Block)
  | [] => none
  | s :: b =>
    if s = target then some ([], b)
    else (cutAt? target b).map fun p => (s :: p.1, p.2)

/-- The block with the first `target` replaced by those of the statements that the rest of the
block does not have; no block when there is no `target`. -/
def replace? (b : Block) (target : Statement) (statements : List Statement) : Option Block :=
  (b.cutAt? target).map fun (before, behind) =>
    before ++ statements.filter (fun s => !(before ++ behind).contains s) ++ behind

/-- The block with the first `target` replaced, or unchanged when there is none. -/
def replace (b : Block) (target : Statement) (statements : List Statement) : Block :=
  (b.replace? target statements).getD b

/-- The first copy of every statement. -/
def dedup (b : Block) : Block := b.eraseDups

/-- The statements in the order of the rules; equal ones keep their order. -/
def sort (r : Rules) (b : Block) : Block := b.mergeSort r.mayPrecede

/-- The statements that the code needs. -/
def removeUnused (r : Rules) (code : Text) (b : Block) : Block := b.filter (r.isUsed code)

/-- The lines of the block below a statement of the given tier, an empty one at each change of
tier. -/
def layoutAfter (r : Rules) : Option Tier → Block → List Text
  | _, [] => []
  | above, s :: b =>
    let tier := r.tier s
    let line := s.text :: layoutAfter r (some tier) b
    if above.isSome && above != some tier then [] :: line else line

/-- The lines of the block, with an empty line at each change of tier. -/
def layout (r : Rules) (b : Block) : List Text := layoutAfter r none b

end Block

end ImportTidy

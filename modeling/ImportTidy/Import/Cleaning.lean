/-
# ImportTidy.Import.Cleaning — the canonical form of an import block

A cleaning expands groups, applies the rewrites and the removals, sorts, drops repetitions and
unused statements, and gathers what has a common qualifier. The lines of the result carry an empty
line between tiers.
-/
import ImportTidy.Import.Compaction

namespace ImportTidy

namespace Rules

/-- The statements that the rules see: groups expanded, rewrites applied, removals left out. -/
def prepare (r : Rules) (b : Block) : Block :=
  let rewritten := r.rewrites.foldl (fun b rule => Block.rewrite rule.source rule.target b) b.expand
  r.removes.foldl (fun b text => Block.remove text b) rewritten

/-- The statements that are kept, in order and each once. -/
def select (r : Rules) (code : Text) (b : Block) : Block :=
  (((r.prepare b).sort r).dedup).removeUnused r code

/-- The cleaned block. -/
def clean (r : Rules) (code : Text) (b : Block) : Block :=
  (r.select code b).compact r.groupThreshold

/-- The lines of the cleaned block. -/
def cleanLines (r : Rules) (code : Text) (b : Block) : List Text := (r.clean code b).layout r

end Rules

end ImportTidy

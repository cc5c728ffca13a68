/-
# ImportTidy.Wildcard.Reduction — every wildcard of a file, one after the other

The wildcards of a file are searched for in their order, each against the imports that the
searches before it have left. A wildcard that could not be resolved is put back before the next
one is tried; any other failure puts the file back as it was and ends the reduction. At the end
the imports are cleaned and written. Every fault of a compilation counts as such a failure, for none
says that a wildcard is unresolved (see `SearchFault`).
-/
import ImportTidy.Source
import ImportTidy.Wildcard.Search

namespace ImportTidy

/-- One file in its surroundings: it can be read and written, and compiled with everything else. -/
structure Site (σ ε : Type) where
  read : σ → Except ε Text
  write : Text → σ → Except ε Unit × σ
  compile : σ → Except ε Text × σ

/-- What a reduction did. -/
structure Reduction where
  /-- The wildcards that were replaced, and by what. -/
  resolved : List (Statement × List Statement)
  /-- The wildcards that were kept. -/
  unresolved : List Statement
  deriving DecidableEq, Repr

namespace Site

variable {σ ε : Type}

/-- The file as a place to try blocks in: a block is stored by writing the file with it. -/
def bench (site : Site σ ε) (f : SourceFile) : Bench σ ε where
  compile := site.compile
  persist b := site.write (f.renderWith b.lines)

/-- Puts the content back that the file had; a failure to do so is not reported. -/
def restore (site : Site σ ε) (content : Text) (s : σ) : σ := (site.write content s).2

/-- Searches for the given wildcards. `current` are the imports that the searches so far have
left. -/
def reduceFrom (site : Site σ ε) (plan : SearchPlan) (f : SourceFile) (content : Text) :
    List Statement → Block → Reduction → σ → Except ε (Block × Reduction) × σ
  | [], current, done, s => (.ok (current, done), s)
  | wildcard :: more, current, done, s =>
    match plan.search (site.bench f) wildcard current s with
    | (.ok replacements, s) =>
      reduceFrom site plan f content more (current.replace wildcard replacements)
        { done with resolved := done.resolved ++ [(wildcard, replacements)] } s
    | (.error (.unresolved _ _), s) =>
      match (site.bench f).persist current s with
      | (.error cause, s) => (.error cause, s)
      | (.ok (), s) =>
        reduceFrom site plan f content more current
          { done with unresolved := done.unresolved ++ [wildcard] } s
    | (.error (.failed cause), s) => (.error cause, site.restore content s)

/-- Replaces the wildcards of the file, cleans its imports and writes it. -/
def reduce (site : Site σ ε) (rules : Rules) (plan : SearchPlan) (s : σ) : Except ε Reduction × σ :=
  match site.read s with
  | .error cause => (.error cause, s)
  | .ok content =>
    let f := SourceFile.parse content
    let imports := f.imports.expand
    match reduceFrom site plan f content imports.wildcards imports ⟨[], []⟩ s with
    | (.error cause, s) => (.error cause, s)
    | (.ok (current, done), s) =>
      match site.write ((f.withImports current).normalize rules) s with
      | (.error cause, s) => (.error cause, s)
      | (.ok (), s) => (.ok done, s)

end Site

end ImportTidy

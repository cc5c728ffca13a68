/-
# ImportTidy.Run.Crew — tidying files side by side

A crew works on several files at once. The work on each file is a unit of a pool: it is submitted,
waits for a permit, and leaves when it is done. In between it takes its steps, which come in order,
and all files take them on one disk. Which file is next to start, to take a step or to leave is not
fixed, and files may start before all are submitted: a crew makes the moves of a list, and every list
of moves is a way in which the work can go.
-/
import ImportTidy.Run.Pool
import ImportTidy.Run.Tidy

namespace ImportTidy

/-- The work on a file has come to its end. -/
def Stage.isDone : Stage → Bool
  | .done _ => true
  | _ => false

/-- What came of the work on a file, once it is done. -/
def Job.outcome? : Job → Option (Path × Except FileFault FileOutcome)
  | ⟨path, .done result⟩ => some (path, result)
  | _ => none

/-- Files that are worked on side by side. -/
structure Crew where
  disk : Disk
  /-- The files that have not been submitted yet. -/
  ahead : List Path
  /-- The work on the others, in the order in which they were submitted. -/
  jobs : List Job
  /-- The pool of this work. The key of a unit is the position of its job. -/
  pool : Pool Nat Unit

namespace Crew

/-- Something that a crew can do next. -/
inductive Move where
  /-- The next file is submitted. -/
  | submit
  /-- The unit at a position of those at work goes on by a step. -/
  | work (n : Nat)
  /-- A unit moves in the pool. -/
  | pool (m : Pool.Move Nat Unit)
  deriving DecidableEq, Repr

/-- The unit for the job at a position. It hands over no more than that. -/
def unit (key : Nat) : Task Nat Unit := ⟨key, 0, some ()⟩

/-- The position of the job of a unit, which is at a position of those at work. -/
def keyAt? (c : Crew) (n : Nat) : Option Nat := (c.pool.running[n]?).map fun unit => unit.2.key

/-- The pool may make the move: a unit stops when its job is done, and the only units are those of
files. -/
def allows (c : Crew) : Pool.Move Nat Unit → Bool
  | .submit _ => false
  | .start _ => true
  | .stop n => ((c.keyAt? n).bind fun key => c.jobs[key]?).any fun j => j.stage.isDone
  | .leave _ => true

/-- The crew after a move, if it can make it. -/
def move? (r : Rules) (c : Crew) : Move → Option Crew
  | .submit =>
    match c.ahead with
    | path :: more =>
      some { c with
        ahead := more
        jobs := c.jobs ++ [.ofPath path]
        pool := c.pool.submit (unit c.jobs.length) }
    | [] => none
  | .work n =>
    (c.keyAt? n).bind fun key => (c.jobs[key]?).map fun j =>
      { c with
        disk := (j.step r c.disk).2
        jobs := c.jobs.set key (j.step r c.disk).1 }
  | .pool m =>
    if c.allows m then (c.pool.move? m).map fun pool => { c with pool := pool } else none

/-- The crew after several moves, if it can make them all. -/
def run (r : Rules) : List Move → Crew → Option Crew
  | [], c => some c
  | m :: more, c => (c.move? r m).bind (run r more)

/-- All files have been submitted, and their units have left. -/
def hasEnded (c : Crew) : Bool := c.ahead.isEmpty && c.pool.isDrained

/-- What came of the files whose units have left, in the order in which they did. -/
def collected (c : Crew) : List (Path × Except FileFault FileOutcome) :=
  c.pool.finished.filterMap fun entry => (c.jobs[entry.1]?).bind Job.outcome?

/-- The report with what the crew has collected. -/
def report (c : Crew) (report : Report) : Report :=
  c.collected.foldl (fun report x => report.addTidied x.1 x.2) report

end Crew

end ImportTidy

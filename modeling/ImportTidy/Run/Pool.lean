/-
# ImportTidy.Run.Pool — units of work, a few at a time

A pool holds units of work, each with a key, and permits for some of them to work at once. A unit
waits for a permit, works, and gives its permit back when it hands over what came of the work, under
its key. A unit that breaks down hands over nothing but its key, and the others go on. There are as
many permits as the pool is wide, and at least one.

Which unit starts next, whose work is over next and which unit leaves next is not fixed: a pool makes
the moves of a list, and every list of moves is a way in which the work can go. In one of them time
is counted: a unit is due when it has worked for its duration. `drain` lets units start in the order
in which they were submitted and come to their end when they are due.
-/

namespace ImportTidy

/-- A unit of work. -/
structure Task (κ α : Type) where
  key : κ
  /-- How long the work takes. -/
  duration : Nat
  /-- What the work gives; nothing when it breaks down. -/
  result : Option α
  deriving DecidableEq, Repr

/-- What a unit hands over: its key and what came of its work. -/
def Task.entry {κ α : Type} (t : Task κ α) : κ × Option α := (t.key, t.result)

/-- A pool of units of work. -/
structure Pool (κ α : Type) where
  clock : Nat
  /-- How many permits no unit holds. -/
  permits : Nat
  waiting : List (Task κ α)
  /-- The units at work, each with the time when it is due. -/
  running : List (Nat × Task κ α)
  /-- What came of the units whose work is over and that have not given back their permits. -/
  leaving : List (κ × Option α)
  /-- What came of the others, in the order in which it was handed over. -/
  finished : List (κ × Option α)
  deriving DecidableEq, Repr

namespace Pool

variable {κ α : Type}

/-- Something that can happen in a pool, with the position of the unit that it happens to. -/
inductive Move (κ α : Type) where
  /-- One more unit waits. -/
  | submit (t : Task κ α)
  /-- A waiting unit takes a permit and starts to work. -/
  | start (n : Nat)
  /-- The work of a unit is over, or breaks down. -/
  | stop (n : Nat)
  /-- A unit hands over what came of its work and gives back its permit. -/
  | leave (n : Nat)
  deriving DecidableEq, Repr

/-- A pool without work. -/
def empty (width : Nat) : Pool κ α := ⟨0, max width 1, [], [], [], []⟩

/-- The pool with one more unit, which waits. -/
def submit (p : Pool κ α) (t : Task κ α) : Pool κ α := { p with waiting := p.waiting ++ [t] }

/-- How many units have been submitted. -/
def size (p : Pool κ α) : Nat :=
  p.waiting.length + p.running.length + p.leaving.length + p.finished.length

/-- The pool after a move, if it can make it. -/
def move? (p : Pool κ α) : Move κ α → Option (Pool κ α)
  | .submit t => some (p.submit t)
  | .start n =>
    match p.waiting[n]?, p.permits with
    | some t, permits + 1 =>
      some { p with
        permits := permits
        waiting := p.waiting.eraseIdx n
        running := p.running ++ [(p.clock + t.duration, t)] }
    | _, _ => none
  | .stop n =>
    match p.running[n]? with
    | some (due, t) =>
      some { p with
        clock := max p.clock due
        running := p.running.eraseIdx n
        leaving := p.leaving ++ [t.entry] }
    | none => none
  | .leave n =>
    match p.leaving[n]? with
    | some entry =>
      some { p with
        permits := p.permits + 1
        leaving := p.leaving.eraseIdx n
        finished := p.finished ++ [entry] }
    | none => none

/-- The pool after several moves, if it can make them all. -/
def run : List (Move κ α) → Pool κ α → Option (Pool κ α)
  | [], p => some p
  | m :: more, p => (p.move? m).bind (run more)

/-- All units have handed over what came of them. -/
def isDrained (p : Pool κ α) : Bool :=
  p.waiting.isEmpty && p.running.isEmpty && p.leaving.isEmpty

/-- The running unit that is due first. -/
def earliest (p : Pool κ α) : Nat :=
  match (p.running.map Prod.fst).min? with
  | some due => p.running.findIdx fun r => r.1 == due
  | none => 0

/-- The next move as time goes: a unit whose work is over leaves, else the first waiting unit starts
if there is a permit, else the work that is due first is over. -/
def upcoming (p : Pool κ α) : Move κ α :=
  if !p.leaving.isEmpty then .leave 0
  else if !p.waiting.isEmpty && p.permits != 0 then .start 0
  else .stop p.earliest

/-- Makes so many moves, or fewer when there is nothing left to do. -/
def advance : Nat → Pool κ α → Pool κ α
  | 0, p => p
  | n + 1, p =>
    match p.move? p.upcoming with
    | some q => advance n q
    | none => p

/-- How many moves are left until all units have left. -/
def work (p : Pool κ α) : Nat := 3 * p.waiting.length + 2 * p.running.length + p.leaving.length

/-- Waits for all units. -/
def drain (p : Pool κ α) : Pool κ α := p.advance p.work

end Pool

end ImportTidy

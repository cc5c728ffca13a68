/-
# ImportTidy.Command.Outcome — what the program answers

The program loads the settings, runs, and says how it went: by its exit code, by the report on its
output if that is asked for, and else by a summary in its log. When something went wrong, one line
says what.
-/
import ImportTidy.Command.Arguments
import ImportTidy.Run.Pass

namespace ImportTidy

/-- How serious an entry of the log is. -/
inductive Level where
  | info
  | warning
  deriving DecidableEq, Repr

/-- The name of a level in the log. -/
def Level.name : Level → Text
  | .info => "INFO".toList
  | .warning => "WARN".toList

/-- What the program answers. -/
structure Outcome where
  exitCode : Nat
  /-- The output. -/
  output : Text
  /-- The summary in the log. -/
  summary : Option (Level × Text)
  /-- The line that says what went wrong. -/
  error : Option Text
  deriving DecidableEq, Repr

namespace Outcome

/-- The version of the program. -/
def version : Text := "importfix 0.1.0\n".toList

/-- How the program is used. -/
def usage : Text :=
  ("Usage: importfix [--all] [--optimize] [--root PATH] [--config PATH] [--json] [-v] [-q]\n").toList

/-- An answer that is some text and nothing else. -/
def saying (t : Text) : Outcome := ⟨0, t, none, none⟩

/-- The answer to a command line that does not fit. -/
def misuse : Outcome := ⟨2, [], none, none⟩

/-- An answer that only says what went wrong. -/
def failure (message : Text) : Outcome := ⟨1, [], none, some ("Error: ".toList ++ message)⟩

/-- A text as an entry of the log; its further lines are indented. -/
def logged (t : Text) : Text := Text.replaceAll ['\n'] "\n    ".toList t

/-- The summary of a report, if the arguments let it be logged. -/
def summaryOf (a : Arguments) (r : Report) : Option (Level × Text) :=
  if a.json then none
  else if r.isSuccess then if a.quiet then none else some (.info, logged r.summary)
  else some (.warning, logged r.summary)

/-- The answer that gives a report. -/
def ofReport (a : Arguments) (r : Report) : Outcome where
  exitCode := if r.isSuccess then 0 else 1
  output := if a.json then r.toJson.print ++ ['\n'] else []
  summary := summaryOf a r
  error := if r.isSuccess then none else some ("Error: ".toList ++ r.failureLine)

end Outcome

/-- Does what the arguments ask for, with the number of workers that the environment asks for. -/
def Arguments.execute {σ κ : Type} (a : Arguments) (l : Launcher σ κ) (workers : Option Text)
    (w : Workspace σ) : Outcome × Workspace σ :=
  let root := a.root.getD ⟨['.']⟩
  match ToolSettings.load w.disk root a.config workers with
  | .error fault => (.failure fault.message, w)
  | .ok settings =>
    match w.run l ⟨root, a.all, a.optimize⟩ settings with
    | (w, report) => (.ofReport a report, w)

/-- Does what a command line asks for. -/
def Command.execute {σ κ : Type} (c : Command) (l : Launcher σ κ) (workers : Option Text)
    (w : Workspace σ) : Outcome × Workspace σ :=
  match c with
  | .run a => a.execute l workers w
  | .showVersion => (.saying Outcome.version, w)
  | .showHelp => (.saying Outcome.usage, w)
  | .misuse => (.misuse, w)

end ImportTidy

/-
# ImportTidy.Console.Settings — how a build console is driven

The settings name the program, the project to select, the commands to send and the marks in the
output by which the console's answers are recognised. The project stands in two of the texts as a
placeholder.
-/
import ImportTidy.Text.Basic

namespace ImportTidy

/-- Settings of a build console. -/
structure ConsoleSettings where
  program : Text
  arguments : List Text
  /-- The project that is selected at the start. -/
  project : Text
  /-- The directory that the console starts in, if not the current one. -/
  workingDirectory : Option Text
  /-- The command that selects a project. -/
  selectCommand : Text
  /-- A line with this mark confirms the selection. -/
  readyMark : Text
  /-- A line with this mark ends the answer to a command. -/
  completeMark : Text
  compileCommand : Text
  exitCommand : Text
  /-- How many seconds the console has to answer. -/
  patience : Nat
  deriving DecidableEq, Repr

namespace ConsoleSettings

/-- The built-in settings, with no project yet. -/
def standard : ConsoleSettings where
  program := "play".toList
  arguments := []
  project := []
  workingDirectory := none
  selectCommand := "project \x7bproject\x7d".toList
  readyMark := "Set current project to \x7bproject\x7d".toList
  completeMark := "Total time:".toList
  compileCommand := "test:compile".toList
  exitCommand := "exit".toList
  patience := 600

/-- Stands for the project in a command or a mark. -/
def placeholder : Text := "\x7bproject\x7d".toList

/-- The same settings for another project. -/
def forProject (s : ConsoleSettings) (project : Text) : ConsoleSettings :=
  { s with project := project }

/-- The line that selects the project. -/
def selectLine (s : ConsoleSettings) : Text :=
  Text.replaceAll placeholder s.project s.selectCommand

/-- The mark that confirms the selection of the project. -/
def readyLine (s : ConsoleSettings) : Text :=
  Text.replaceAll placeholder s.project s.readyMark

/-- What makes the settings unusable. -/
inductive Defect where
  | noProgram
  | noProject
  | noMark
  | noPatience
  deriving DecidableEq, Repr

/-- The first defect of the settings. -/
def defect? (s : ConsoleSettings) : Option Defect :=
  if Text.isBlankText s.program then some .noProgram
  else if Text.isBlankText s.project then some .noProject
  else if Text.isBlankText s.readyLine || Text.isBlankText s.completeMark then some .noMark
  else if s.patience = 0 then some .noPatience
  else none

/-- The defect in words. -/
def Defect.message : Defect → Text
  | .noProgram => "program must not be empty".toList
  | .noProject => "project must not be empty".toList
  | .noMark => "ready and completion markers must not be empty".toList
  | .noPatience => "response_timeout_secs must be > 0".toList

end ConsoleSettings

end ImportTidy

/-
# ImportTidy.Settings.Tables — the tables that settings are made of

How the rules of a cleaning, the settings of a console and those of the wildcard search are written
as tables. What is not written keeps its built-in value, and entries of other names are ignored.
-/
import ImportTidy.Import.Rules
import ImportTidy.Console.Settings
import ImportTidy.Wildcard.Settings
import ImportTidy.Settings.Value

namespace ImportTidy

/-- A rewrite, of which both texts must be given. -/
def Rewrite.ofValue? (v : Value) : Option Rewrite := do
  let entries ← v.entries? ["from".toList, "to".toList]
  return {
    source := ← Value.required? Value.text? "from" entries
    target := ← Value.required? Value.text? "to" entries }

/-- The rules of a cleaning. -/
def Rules.ofValue? (v : Value) : Option Rules := do
  let texts := Value.listOf? Value.text?
  let entries ← v.entries?
    ["rewrites".toList, "removes".toList, "side_effect_imports".toList, "language_prefixes".toList,
     "external_prefixes".toList, "group_threshold".toList]
  return {
    rewrites :=
      ← Value.setting? (Value.listOf? Rewrite.ofValue?) "rewrites" standard.rewrites entries
    removes := ← Value.setting? texts "removes" standard.removes entries
    sideEffects := ← Value.setting? texts "side_effect_imports" standard.sideEffects entries
    languagePaths := ← Value.setting? texts "language_prefixes" standard.languagePaths entries
    externalPaths := ← Value.setting? texts "external_prefixes" standard.externalPaths entries
    groupThreshold := ← Value.setting? Value.count? "group_threshold" standard.groupThreshold entries }

/-- The settings of a console. -/
def ConsoleSettings.ofValue? (v : Value) : Option ConsoleSettings := do
  let entries ← v.entries?
    ["program".toList, "args".toList, "project".toList, "working_dir".toList,
     "select_command".toList, "ready_marker".toList, "complete_marker".toList,
     "compile_command".toList, "exit_command".toList, "response_timeout_secs".toList]
  return {
    program := ← Value.setting? Value.text? "program" standard.program entries
    arguments := ← Value.setting? (Value.listOf? Value.text?) "args" standard.arguments entries
    project := ← Value.setting? Value.text? "project" standard.project entries
    workingDirectory :=
      ← Value.setting? Value.optionalText? "working_dir" standard.workingDirectory entries
    selectCommand := ← Value.setting? Value.text? "select_command" standard.selectCommand entries
    readyMark := ← Value.setting? Value.text? "ready_marker" standard.readyMark entries
    completeMark := ← Value.setting? Value.text? "complete_marker" standard.completeMark entries
    compileCommand := ← Value.setting? Value.text? "compile_command" standard.compileCommand entries
    exitCommand := ← Value.setting? Value.text? "exit_command" standard.exitCommand entries
    patience := ← Value.setting? Value.count? "response_timeout_secs" standard.patience entries }

/-- The settings of the wildcard search. -/
def SearchSettings.ofValue? (v : Value) : Option SearchSettings := do
  let entries ← v.entries?
    ["max_attempts".toList, "error_marker".toList, "diagnostic_pattern".toList]
  return {
    attempts := ← Value.setting? Value.count? "max_attempts" standard.attempts entries
    errorMark := ← Value.setting? Value.text? "error_marker" standard.errorMark entries
    pattern := ← Value.setting? Value.text? "diagnostic_pattern" standard.pattern entries }

end ImportTidy

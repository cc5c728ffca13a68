/-
# ImportTidy.Command.Arguments — the command line

Arguments are read from left to right. Each option may be given once; options with a value take it
from the next argument or from behind an equals sign. The first argument that asks for the version
or the help, or that does not fit, ends the reading.
-/
import ImportTidy.Disk.Path

namespace ImportTidy

/-- What the command line asks for. -/
structure Arguments where
  root : Option Path
  /-- The settings file. -/
  config : Option Path
  all : Bool
  optimize : Bool
  json : Bool
  verbose : Bool
  quiet : Bool
  deriving DecidableEq, Repr

/-- What to do about a command line. -/
inductive Command where
  | run (arguments : Arguments)
  | showVersion
  | showHelp
  /-- The command line does not fit. -/
  | misuse
  deriving DecidableEq, Repr

namespace Arguments

/-- An option without a value. -/
inductive Switch where
  | all
  | optimize
  | json
  | verbose
  | quiet
  | version
  | help
  deriving DecidableEq, Repr

/-- An option with a value. -/
inductive Setting where
  | root
  | config
  deriving DecidableEq, Repr

/-- The options without a value, by their names. -/
def switches : List (Text × Switch) :=
  [("all".toList, .all), ("optimize".toList, .optimize), ("json".toList, .json),
   ("verbose".toList, .verbose), ("quiet".toList, .quiet), ("version".toList, .version),
   ("help".toList, .help)]

/-- The options with a value, by their names. -/
def settings : List (Text × Setting) := [("root".toList, .root), ("config".toList, .config)]

/-- The options with a letter. -/
def letters : List (Char × Switch) :=
  [('v', .verbose), ('q', .quiet), ('V', .version), ('h', .help)]

/-- A command line without arguments. -/
def empty : Arguments := ⟨none, none, false, false, false, false, false⟩

/-- Turns a switch on. One that is on already, or that ends the reading, gives the command to do. -/
def turnOn (a : Arguments) : Switch → Except Command Arguments
  | .all => if a.all then .error .misuse else .ok { a with all := true }
  | .optimize => if a.optimize then .error .misuse else .ok { a with optimize := true }
  | .json => if a.json then .error .misuse else .ok { a with json := true }
  | .verbose => if a.verbose then .error .misuse else .ok { a with verbose := true }
  | .quiet => if a.quiet then .error .misuse else .ok { a with quiet := true }
  | .version => .error .showVersion
  | .help => .error .showHelp

/-- Gives an option its value, which must not be empty. -/
def set (a : Arguments) (s : Setting) (value : Text) : Except Command Arguments :=
  if value.isEmpty then .error .misuse
  else
    match s with
    | .root => if a.root.isSome then .error .misuse else .ok { a with root := some ⟨value⟩ }
    | .config => if a.config.isSome then .error .misuse else .ok { a with config := some ⟨value⟩ }

/-- Turns on the switches of some letters. -/
def turnOnLetters : Text → Arguments → Except Command Arguments
  | [], a => .ok a
  | c :: more, a =>
    match letters.lookup c with
    | none => .error .misuse
    | some switch =>
      match a.turnOn switch with
      | .ok a => turnOnLetters more a
      | .error command => .error command

/-- An argument looks like an option; a hyphen alone does not. -/
def isOption : Text → Bool
  | '-' :: _ :: _ => true
  | _ => false

/-- Reads the arguments. -/
def read : List Text → Arguments → Command
  | [], a => .run a
  | argument :: rest, a =>
    match argument with
    | ['-', '-'] => if rest.isEmpty then .run a else .misuse
    | '-' :: '-' :: long =>
      match Text.cutFirst? '=' long with
      | some (name, value) =>
        match settings.lookup name with
        | none => .misuse
        | some s =>
          match a.set s value with
          | .ok a => read rest a
          | .error command => command
      | none =>
        match switches.lookup long, settings.lookup long with
        | some switch, _ =>
          match a.turnOn switch with
          | .ok a => read rest a
          | .error command => command
        | none, some s =>
          match rest with
          | [] => .misuse
          | value :: rest =>
            if isOption value then .misuse
            else
              match a.set s value with
              | .ok a => read rest a
              | .error command => command
        | none, none => .misuse
    | '-' :: c :: more =>
      match turnOnLetters (c :: more) a with
      | .ok a => read rest a
      | .error command => command
    | _ => .misuse

end Arguments

/-- The command that the arguments give. -/
def Command.ofArguments (arguments : List Text) : Command := Arguments.read arguments .empty

end ImportTidy

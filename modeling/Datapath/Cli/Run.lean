import Datapath.Cli.Files
import Datapath.Cli.Help
import Datapath.Cli.Settings
import Datapath.Netlist.Summary
import Datapath.Verilog.OfNetlist

/-!
# Runs of the program

What the program prints and writes for a command line. A run that succeeds prints the Verilog text,
or writes it to a file and prints nothing; on request the statistics go to standard error.
-/

namespace Datapath.Cli

/-- What a run leaves behind, files apart. -/
structure Outcome where
  exitCode : Nat
  stdout : String := ""
  stderr : String := ""
  deriving DecidableEq, Repr

namespace Outcome

/-- A run that printed a text. -/
def printed (text : String) : Outcome where
  exitCode := 0
  stdout := text

/-- The end of a run by an error, with further lines of details. -/
def failed (message : String) (details : List (String × String)) : Outcome where
  exitCode := 1
  stderr := programName ++ ": " ++ message ++ "\n"
    ++ String.join (details.map fun (key, value) => "  " ++ key ++ ": " ++ value ++ "\n")

/-- The end of a run by an error in a command. -/
def failedIn (command : CommandName) (message : String) : Outcome :=
  failed (command.word ++ ": " ++ message) []

/-- The end of a run by words that do not fit. -/
def usageError : Outcome where
  exitCode := 2
  stderr := "error: invalid usage\n\nFor more information, try '--help'.\n"

/-- The end of a run by a fault. -/
def fault : Outcome where
  exitCode := 101

/-- What is printed where nothing is run. -/
def ofStop : Stop → Outcome
  | .usageError => usageError
  | .help command => printed (Help.text command)
  | .version => printed (programName ++ " " ++ programVersion ++ "\n")

/-- The end of a run of a command that an error ended. -/
def ofError (command : CommandName) : Error → Outcome
  | .fault _ => fault
  | error => failedIn command error.message

end Outcome

/-- What a generator command is to generate. -/
def generate (command : CommandName) (given : Given) (config : Config) :
    Except Outcome Netlist := do
  let settings ← (Settings.resolve given config).mapError (Outcome.failedIn command)
  match command with
  | .multiplier =>
    let scheme ← (Settings.scheme given).mapError (Outcome.failedIn command)
    ((settings.multiplier scheme given).generate settings.technology.provider).mapError
      (Outcome.ofError command)
  | _ =>
    ((settings.adder given).generate settings.technology.provider).mapError
      (Outcome.ofError command)

/-- Adds the statistics to a run's standard error if they are asked for. -/
def withStatistics (command : CommandName) (given : Given) (netlist : Netlist)
    (outcome : Outcome) : Outcome :=
  if given.isOn "stats" then
    match netlist.summary with
    | .ok summary => { outcome with stderr := summary.json ++ "\n" }
    | .error (.netlist cause) =>
      { outcome with exitCode := 1, stderr := (Outcome.failedIn command cause.message).stderr }
    | .error error => Outcome.ofError command error
  else
    outcome

/-- Prints or writes the Verilog text of a netlist. -/
def deliver {m : Type → Type} [Monad m] (files : Files m) (command : CommandName) (given : Given)
    (netlist : Netlist) : m Outcome := do
  match netlist.verilogText with
  | .error _ => return .fault
  | .ok text =>
    match given.find? "output" with
    | none => return withStatistics command given netlist (.printed text)
    | some path =>
      match ← files.write path text with
      | .ok () => return withStatistics command given netlist (.printed "")
      | .error error =>
        return .failedIn command ("failed to write " ++ path ++ ": " ++ error.message)

/-- Runs a command. -/
def runCommand {m : Type → Type} [Monad m] (files : Files m) (config : Config)
    (command : CommandName) (given : Given) : m Outcome :=
  match command with
  | .version => return .printed (programVersion ++ "\n")
  | _ =>
    match generate command given config with
    | .error outcome => return outcome
    | .ok netlist => deliver files command given netlist

/-- Reads the configuration file that a command line names. -/
def loadConfig {m : Type → Type} [Monad m] (files : Files m) (path : String) :
    m (Except Outcome Config) := do
  match ← files.read path with
  | .error error =>
    return .error (.failed ("reading config file " ++ path ++ ": " ++ error.message)
      [("config", path)])
  | .ok text =>
    match Config.parse text with
    | .error error =>
      return .error (.failed ("parsing config file " ++ path ++ ": " ++ error.message)
        [("config", path)])
    | .ok config => return .ok config

/-- Runs the program with a configuration. -/
def runWith {m : Type → Type} [Monad m] (files : Files m) (arguments : Arguments)
    (config : Config) : m Outcome :=
  match arguments.command with
  | none => return .failed "No valid subcommand provided." []
  | some (command, given) => runCommand files config command given

/-- Runs the program on the words of a command line. The words are read before any file is. -/
def run {m : Type → Type} [Monad m] (files : Files m) (words : List String) : m Outcome := do
  match Arguments.parse words with
  | .error stop => return .ofStop stop
  | .ok arguments =>
    match arguments.global.find? "config" with
    | none => runWith files arguments {}
    | some path =>
      match ← loadConfig files path with
      | .error outcome => return outcome
      | .ok config => runWith files arguments config

end Datapath.Cli

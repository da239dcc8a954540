import Datapath.Cli.Arguments
import Datapath.Cli.Config
import Datapath.Cli.Count
import Datapath.Generator.Adder
import Datapath.Generator.Multiplier
import Datapath.Technology

/-!
# Settings

How the options of a command and the defaults of a configuration file determine what is generated. A
value on the command line comes first, then the configuration file, then the default; some settings
can only be given on the command line.
-/

namespace Datapath.Cli

/-- The settings that all generators share. -/
structure Settings where
  width : Nat
  algorithm : Adder.Algorithm
  technology : Technology
  powered : Bool
  moduleName : Option String
  deriving DecidableEq, Repr

namespace Settings

/-- The width where none is given. -/
def defaultWidth : Nat :=
  32

/-- Reads a width, or words what is wrong with its text. -/
def readWidth (text : String) : Except String Nat :=
  match readCount text with
  | .ok width => pure width
  | .error error =>
    throw ("invalid --bits value " ++ Text.quoted text ++ ": " ++ error.message)

/-- Determines the shared settings, or words what is wrong with the first of them that is. -/
def resolve (given : Given) (config : Config) : Except String Settings := do
  let width ← match given.find? "bits" with
    | some text => readWidth text
    | none => pure (config.bits.getD defaultWidth)
  let algorithm ← match given.find? "algorithm" <|> config.algorithm with
    | some name => (Adder.Algorithm.ofName name).mapError ConfigError.message
    | none => pure .default
  let technology ← match given.find? "process" <|> config.process with
    | some name => (Technology.ofName name).mapError ConfigError.message
    | none => pure .default
  let powered := match given.find? "powered" with
    | some text => text == "true"
    | none => config.powered.getD false
  return { width, algorithm, technology, powered, moduleName := given.find? "module_name" }

/-- The options of an adder. -/
def adder (settings : Settings) (given : Given) : Adder.Options where
  width := settings.width
  algorithm := settings.algorithm
  registerInput := given.isOn "register_input"
  registerOutput := given.isOn "register_output"
  powered := settings.powered
  moduleName := settings.moduleName

/-- The scheme that a command line names. -/
def scheme (given : Given) : Except String Multiplier.Scheme :=
  match given.find? "partial_products" with
  | some name => (Multiplier.Scheme.ofName name).mapError ConfigError.message
  | none => pure .default

/-- The options of a multiplier. -/
def multiplier (settings : Settings) (scheme : Multiplier.Scheme) (given : Given) :
    Multiplier.Options where
  width := settings.width
  scheme := scheme
  finalAdder := settings.algorithm
  multiplyAdd := given.isOn "multiply_add"
  registerInput := given.isOn "register_input"
  registerMiddle := given.isOn "register_middle"
  registerOutput := given.isOn "register_output"
  powered := settings.powered
  moduleName := settings.moduleName

end Settings

end Datapath.Cli

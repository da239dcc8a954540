/-!
# Arguments

What the words of a command line mean. Options are written `--name value` or `--name=value`; those
of a command follow its name, and each may be given once. A word that begins with a dash is never
the value of the option before it. Everything that does not fit is a usage error.
-/

namespace Datapath.Cli

/-- What an option takes. -/
inductive Takes where
  | text
  /-- Either `true` or `false`. -/
  | truth
  deriving DecidableEq, Repr

/-- An option. -/
structure OptionSpec where
  name : String
  takes : Takes
  /-- What stands for the value in the help. -/
  placeholder : String
  help : String
  deriving DecidableEq, Repr

namespace OptionSpec

/-- Whether the option takes a value. -/
def admits (option : OptionSpec) (value : String) : Bool :=
  match option.takes with
  | .text => true
  | .truth => value == "true" || value == "false"

/-- An option that takes a truth value. -/
def truth (name help : String) : OptionSpec where
  name := name
  takes := .truth
  placeholder := "BOOL"
  help := help

/-- An option that takes any text. -/
def text (name placeholder help : String) : OptionSpec where
  name := name
  takes := .text
  placeholder := placeholder
  help := help

end OptionSpec

/-- A command. -/
inductive CommandName where
  | version
  | adder
  | multiplier
  deriving DecidableEq, Repr

namespace CommandName

/-- All commands. -/
def all : List CommandName :=
  [.version, .adder, .multiplier]

/-- The word for a command. -/
def word : CommandName → String
  | .version => "version"
  | .adder => "adder"
  | .multiplier => "multiplier"

/-- What a command does. -/
def about : CommandName → String
  | .version => "Prints the version of the driver"
  | .adder => "Generates a parallel-prefix adder"
  | .multiplier => "Generates a Booth/Dadda multiplier or multiply-adder"

/-- The command with a given word. -/
def ofWord? (word : String) : Option CommandName :=
  all.find? (·.word == word)

/-- The options that every generator has first. -/
def generatorOptions : List OptionSpec :=
  [.text "bits" "BITS" "Operand width in bits (default 32)",
    .text "algorithm" "ALGORITHM"
      "Prefix adder: brentkung, koggestone, hancarlson or inferred (default brentkung)",
    .text "process" "PROCESS" "Technology process: none or sky130 (default none)",
    .text "module_name" "MODULE_NAME" "Name of the generated module",
    .truth "powered" "Add VPWR/VGND ports and connect cell power pins",
    .truth "register_input" "Register the operands",
    .truth "register_output" "Register the result"]

/-- The options that every generator has last. -/
def outputOptions : List OptionSpec :=
  [.text "output" "OUTPUT_PATH" "Write Verilog here instead of stdout",
    .truth "stats" "Print summary statistics as JSON to stderr"]

/-- The options of the multiplier alone. -/
def multiplierOptions : List OptionSpec :=
  [.text "partial_products" "SCHEME"
      "Partial product scheme: booth or schoolbook (default booth)",
    .truth "multiply_add" "Add a 2N-bit addend port c",
    .truth "register_middle" "Register the partial products before reduction"]

/-- The options of a command. -/
def options : CommandName → List OptionSpec
  | .version => []
  | .adder => generatorOptions ++ outputOptions
  | .multiplier => generatorOptions ++ multiplierOptions ++ outputOptions

end CommandName

/-- The options that stand before a command. -/
def globalOptions : List OptionSpec :=
  [.text "config" "CONFIG" "Path to an arithgen.toml file with [generator] defaults"]

/-- The values given for options. -/
abbrev Given := List (String × String)

namespace Given

/-- The value of an option. -/
def find? (given : Given) (name : String) : Option String :=
  List.lookup name given

/-- Whether a truth option is on. -/
def isOn (given : Given) (name : String) : Bool :=
  given.find? name == some "true"

end Given

/-- Why the words of a command line do not lead to a run. -/
inductive Stop where
  | usageError
  /-- The help of a command, or of the program, was asked for. -/
  | help (command : Option CommandName)
  /-- The version of the program was asked for. -/
  | version
  deriving DecidableEq, Repr

/-- What a command line asks for. -/
structure Arguments where
  global : Given
  command : Option (CommandName × Given)
  deriving DecidableEq, Repr

/-- The kinds of words. -/
inductive Word where
  /-- Two dashes: no option follows. -/
  | separator
  /-- A word that begins with two dashes, and what follows its first equals sign. -/
  | long (name : String) (value : Option String)
  /-- A word that begins with one dash, by the character after it. -/
  | short (letter : Char)
  | plain (text : String)
  deriving DecidableEq, Repr

namespace Word

/-- The name and value of a long option. -/
def splitValue (characters : List Char) : Word :=
  let name := String.ofList (characters.takeWhile (· != '='))
  match characters.dropWhile (· != '=') with
  | _ :: value => .long name (some (String.ofList value))
  | [] => .long name none

/-- The kind of a word. A single dash is plain. -/
def ofString (text : String) : Word :=
  match text.toList with
  | ['-', '-'] => .separator
  | '-' :: '-' :: rest => splitValue rest
  | '-' :: letter :: _ => .short letter
  | _ => .plain text

end Word

namespace Arguments

/-- Adds the value of an option that must not have one yet. -/
def give (given : Given) (option : OptionSpec) (value : String) : Except Stop Given :=
  if (given.find? option.name).isSome || !option.admits value then
    throw .usageError
  else
    pure (given ++ [(option.name, value)])

/-- Reads the options of a command, or of the program before a command. Returns what was given and
the words from the first plain one on, or what follows a separator.  -/
def readOptions (specs : List OptionSpec) (command : Option CommandName) :
    List String → Given → Except Stop (Given × List String)
  | [], given => pure (given, [])
  | word :: rest, given =>
    match Word.ofString word with
    | .plain _ => pure (given, word :: rest)
    | .separator => if rest.isEmpty then pure (given, []) else throw .usageError
    | .short 'h' => throw (.help command)
    | .short 'V' => if command.isNone then throw .version else throw .usageError
    | .short _ => throw .usageError
    | .long name value =>
      match specs.find? (·.name == name), value, rest with
      | some option, some value, rest => do
        readOptions specs command rest (← give given option value)
      | some option, none, next :: rest =>
        match Word.ofString next with
        | .plain value => do readOptions specs command rest (← give given option value)
        | _ => throw .usageError
      | some _, none, [] => throw .usageError
      | none, none, _ =>
        if name == "help" then throw (.help command)
        else if name == "version" && command.isNone then throw .version
        else throw .usageError
      | none, some _, _ => throw .usageError

/-- What the help command shows. -/
def helpTopic : List String → Stop
  | [] => .help none
  | [word] =>
    if word == "help" then .help none
    else match CommandName.ofWord? word with
      | some command => .help (some command)
      | none => .usageError
  | _ => .usageError

/-- Reads a command line. -/
def parse (words : List String) : Except Stop Arguments := do
  let (global, rest) ← readOptions globalOptions none words []
  match rest with
  | [] => return { global, command := none }
  | word :: rest =>
    match CommandName.ofWord? word with
    | none => if word == "help" then throw (helpTopic rest) else throw .usageError
    | some command =>
      let (given, stray) ← readOptions command.options (some command) rest []
      if stray.isEmpty then
        return { global, command := some (command, given) }
      else
        throw .usageError

end Arguments

end Datapath.Cli

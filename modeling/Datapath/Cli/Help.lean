import Datapath.Cli.Arguments

/-!
# Help

The help texts, made from the descriptions of commands and options.
-/

namespace Datapath.Cli

/-- The name of the program. -/
def programName : String :=
  "arithgen-driver"

/-- The version of the program. -/
def programVersion : String :=
  "0.1.0"

namespace Help

/-- Lines of two columns. -/
def columns (rows : List (String × String)) : List String :=
  let width := (rows.map (·.1.length)).foldl max 0
  rows.map fun (left, right) =>
    "  " ++ left ++ String.ofList (List.replicate (width - left.length) ' ') ++ "  " ++ right

/-- The row of an option. -/
def optionRow (option : OptionSpec) : String × String :=
  let values :=
    match option.takes with
    | .text => ""
    | .truth => " [possible values: true, false]"
  ("    --" ++ option.name ++ " <" ++ option.placeholder ++ ">", option.help ++ values)

/-- The row of the option that asks for help. -/
def helpRow : String × String :=
  ("-h, --help", "Print help")

/-- The help of the program. -/
def program : List String :=
  ["Generates adder and multiplier netlists", "",
    "Usage: " ++ programName ++ " [OPTIONS] [COMMAND]", "", "Commands:"]
    ++ columns (CommandName.all.map (fun command => (command.word, command.about))
      ++ [("help", "Print this message or the help of the given subcommand(s)")])
    ++ ["", "Options:"]
    ++ columns (globalOptions.map optionRow ++ [helpRow, ("-V, --version", "Print version")])

/-- The help of a command. -/
def ofCommand (command : CommandName) : List String :=
  let usage := "Usage: " ++ programName ++ " " ++ command.word
  [command.about, "", if command.options.isEmpty then usage else usage ++ " [OPTIONS]", "",
    "Options:"]
    ++ columns (command.options.map optionRow ++ [helpRow])

/-- The text of the help of a command or of the program. -/
def text (command : Option CommandName) : String :=
  let lines :=
    match command with
    | some command => ofCommand command
    | none => program
  String.join (lines.map (· ++ "\n"))

end Help

end Datapath.Cli

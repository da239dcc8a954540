import Datapath.Fault
import Datapath.Toml.Document

/-!
# Configuration files

A configuration file may have a table `generator` with defaults for the generators. Other tables are
not looked at, other keys in this table are refused.
-/

namespace Datapath.Cli

/-- Defaults for the generators. -/
structure Config where
  bits : Option Nat := none
  algorithm : Option String := none
  process : Option String := none
  powered : Option Bool := none
  deriving DecidableEq, Repr

/-- Why a text is no configuration. -/
inductive ConfigFileError where
  /-- The text is not TOML. -/
  | syntaxError
  /-- The generator settings are not a table. -/
  | notATable
  | unknownKey (key : String)
  | wrongType (key : String)
  deriving DecidableEq, Repr

namespace ConfigFileError

/-- The wording of the error. -/
def message : ConfigFileError → String
  | .syntaxError => "TOML parse error"
  | .notATable => "invalid type: expected a table for generator"
  | .unknownKey key => "unknown field " ++ key
  | .wrongType key => "invalid type for " ++ key

end ConfigFileError

namespace Config

/-- Takes over one setting. -/
def set (config : Config) (key : String) (value : Toml.Value) : Except ConfigFileError Config :=
  match key, value with
  | "bits", .integer number =>
    if 0 ≤ number then pure { config with bits := some number.toNat }
    else throw (.wrongType key)
  | "algorithm", .string text => pure { config with algorithm := some text }
  | "process", .string text => pure { config with process := some text }
  | "powered", .boolean truth => pure { config with powered := some truth }
  | "bits", _ | "algorithm", _ | "process", _ | "powered", _ => throw (.wrongType key)
  | _, _ => throw (.unknownKey key)

/-- The settings in the order in which a list gives them. -/
def keys : List String :=
  ["bits", "algorithm", "process", "powered"]

/-- Takes over the settings of a table, or of a list that holds all of them in order. -/
def ofValue (value : Toml.Value) : Except ConfigFileError Config :=
  match value with
  | .table _ entries => entries.foldlM (fun config (key, value) => config.set key value) {}
  | .array items =>
    if items.length < keys.length then
      throw .notATable
    else
      (keys.zip items).foldlM (fun config (key, value) => config.set key value) {}
  | _ => throw .notATable

/-- Reads a configuration file's text. -/
def parse (text : String) : Except ConfigFileError Config :=
  match Toml.parse? text with
  | none => throw .syntaxError
  | some entries =>
    match entries.find? "generator" with
    | none => pure {}
    | some value => ofValue value

end Config

end Datapath.Cli

import Datapath.CellLibrary

/-!
# Technologies

The target technologies that a user can name, each with its gate provider. A technology is called a
process where a user names one.
-/

namespace Datapath

/-- A target technology. -/
inductive Technology where
  /-- No technology: every gate is left to synthesis. -/
  | generic
  | sky130
  deriving DecidableEq, Repr

namespace Technology

/-- The technology used where none is named. -/
def default : Technology :=
  .generic

/-- The name of a technology. -/
def name : Technology → String
  | .generic => "none"
  | .sky130 => "sky130"

/-- The technology with a given name. -/
def ofName : String → Except ConfigError Technology
  | "none" | "generic" => pure .generic
  | "sky130" => pure .sky130
  | other => throw (.unknownProcess other)

/-- How gates are realized in the technology. -/
def provider : Technology → Provider
  | .generic => .inferred
  | .sky130 => CellLibrary.sky130.provider

end Technology

end Datapath

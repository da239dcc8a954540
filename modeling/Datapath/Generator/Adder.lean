import Datapath.Adder.Sum
import Datapath.Generator.Basic

/-!
# The adder generator

A module that adds the words on ports `a` and `b` and shows the sum, without its carry out, on port
`o`. Operands and result can be registered; each register stage adds a cycle of latency.
-/

namespace Datapath.Adder

/-- The choices for an adder. -/
structure Options where
  width : Nat := 32
  algorithm : Algorithm := .default
  registerInput : Bool := false
  registerOutput : Bool := false
  powered : Bool := false
  moduleName : Option String := none
  deriving DecidableEq, Repr

namespace Options

/-- Accepts the options that an adder can be built for. -/
def check (options : Options) : Except ConfigError Unit :=
  options.algorithm.checkWidth options.width

/-- The number of clock cycles from the operands to their sum. -/
def latency (options : Options) : Nat :=
  options.registerInput.toNat + options.registerOutput.toNat

/-- The name of the module. -/
def name (options : Options) : String :=
  options.moduleName.getD "adder"

/-- Builds the adder in a given memory. -/
def assemble (options : Options) (memory : Memory) : Attempt Netlist := do
  Build.setPowered options.powered
  Build.note (.generatingAdder options.width options.algorithm (← Build.providerName))
  let a ← Attempt.input memory "a" options.width
  let b ← Attempt.input memory "b" options.width
  let a ← Generator.registerStage options.registerInput Generator.inputScope a
  let b ← Generator.registerStage options.registerInput Generator.inputScope b
  let sum ← Adder.sum a b options.algorithm (some "add")
  let sum ← Generator.registerStage options.registerOutput Generator.outputScope sum
  Build.output "o" sum
  let netlist ← Attempt.finish
  Attempt.ofExcept (netlist.checkPortWidth "o" options.width)
  return netlist

/-- The adder with given options and realizations, and the log of its construction. -/
def generateLogged (options : Options) (provider : Provider) (memory : Memory := .machine) :
    Except Error Netlist × Log :=
  Generator.generate options.check options.name (options.assemble memory) provider

/-- The adder with given options and realizations. -/
def generate (options : Options) (provider : Provider) (memory : Memory := .machine) :
    Except Error Netlist :=
  (options.generateLogged provider memory).1

end Options

end Datapath.Adder

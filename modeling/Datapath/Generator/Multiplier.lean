import Datapath.Adder.Sum
import Datapath.Generator.Basic
import Datapath.Multiplier.Dadda
import Datapath.Multiplier.PartialProducts
import Std.Data.HashMap

/-!
# The multiplier generator

A module that multiplies the words on ports `a` and `b` and shows the product on port `o`, twice as
wide. With an addend, port `c` of the width of `o` is added to the product. The partial products
form a matrix, which is reduced to two rows, whose sum is the result; registers can stand before the
partial products, after them and after the sum, and each stage adds a cycle of latency.
-/

namespace Datapath.Multiplier

/-- The choices for a multiplier. -/
structure Options where
  width : Nat := 32
  scheme : Scheme := .default
  finalAdder : Adder.Algorithm := .default
  multiplyAdd : Bool := false
  registerInput : Bool := false
  registerMiddle : Bool := false
  registerOutput : Bool := false
  powered : Bool := false
  moduleName : Option String := none
  deriving DecidableEq, Repr

/-- A matrix as it leaves a register stage. A signal that stands in several places gets one
register, in the order of the first places. -/
def registerMatrix (matrix : Matrix) : Attempt Matrix := do
  let distinct := matrix.distinctBits
  let registered ← Attempt.registerWord distinct
  let table := Std.HashMap.ofList (distinct.zip registered)
  return matrix.map fun bit => table.getD bit bit

namespace Options

/-- Accepts the options that a multiplier can be built for. The width of the product has to fit a
machine word. -/
def check (options : Options) : Except Error Unit := do
  options.scheme.checkWidth options.width
  let productWidth ← Fault.checkCount (2 * options.width)
  options.finalAdder.checkWidth productWidth

/-- The number of clock cycles from the operands to their product. -/
def latency (options : Options) : Nat :=
  options.registerInput.toNat + options.registerMiddle.toNat + options.registerOutput.toNat

/-- The name of the module. -/
def name (options : Options) : String :=
  options.moduleName.getD (if options.multiplyAdd then "multiply_adder" else "multiplier")

/-- The matrix of the product and the addend, with registers if they are chosen. -/
def products (options : Options) (a b c : List SignalId) : Attempt Matrix := do
  let matrix ← partialProducts options.scheme a b
  let matrix ← Build.pushAll matrix (c.zipIdx.map fun (bit, column) => (column, bit))
  let matrix := matrix.truncate (2 * options.width)
  if options.registerMiddle then
    Build.setScope (some "mid_reg")
    let registered ← registerMatrix matrix
    Build.setScope none
    return registered
  else
    return matrix

/-- Builds the multiplier in a given memory. -/
def assemble (options : Options) (memory : Memory) : Attempt Netlist := do
  Build.setPowered options.powered
  Build.note (.generatingMultiplier options.width options.scheme options.finalAdder
    options.multiplyAdd (← Build.providerName))
  let a ← Attempt.input memory "a" options.width
  let b ← Attempt.input memory "b" options.width
  let c ← if options.multiplyAdd then Attempt.input memory "c" (2 * options.width) else pure []
  let a ← Generator.registerStage options.registerInput Generator.inputScope a
  let b ← Generator.registerStage options.registerInput Generator.inputScope b
  let c ← Generator.registerStage options.registerInput Generator.inputScope c
  let matrix ← options.products a b c
  let (x, y) := (← reduce matrix).rows
  let product ← Adder.sum x y options.finalAdder (some "final")
  let product ← Generator.registerStage options.registerOutput Generator.outputScope product
  Build.output "o" product
  let netlist ← Attempt.finish
  Attempt.ofExcept (netlist.checkPortWidth "o" (2 * options.width))
  return netlist

/-- The multiplier with given options and realizations, and the log of its construction. -/
def generateLogged (options : Options) (provider : Provider) (memory : Memory := .machine) :
    Except Error Netlist × Log :=
  Generator.generate options.check options.name (options.assemble memory) provider

/-- The multiplier with given options and realizations. -/
def generate (options : Options) (provider : Provider) (memory : Memory := .machine) :
    Except Error Netlist :=
  (options.generateLogged provider memory).1

end Options

end Datapath.Multiplier

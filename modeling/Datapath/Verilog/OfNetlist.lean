import Datapath.Netlist.Basic
import Datapath.Verilog.Printer

/-!
# Netlists as modules

Each wire becomes a net. A gate left to synthesis becomes assignments of the formulas that its
primitive is written with, a gate bound to a cell an instance; registers of the first kind are
assigned at the clock edge, so their nets are declared as registers. Every output bit is assigned
from the signal it shows.
-/

namespace Datapath

open Verilog

/-- The formulas that a primitive of fixed arity is written with, one for each output, given what
stands for the inputs. Inputs beyond those of the primitive have no effect, missing ones are a
fault. A register has no formula, as it is assigned at the clock edge. -/
def Primitive.formulas (primitive : Primitive) (inputs : List Atom) :
    Except Fault (List Expression) :=
  match primitive, inputs.map Expression.atom with
  | .and2, a :: b :: _ => pure [a &&& b]
  | .or2, a :: b :: _ => pure [a ||| b]
  | .xor2, a :: b :: _ => pure [a ^^^ b]
  | .inv, a :: _ => pure [~~~a]
  | .halfAdder, a :: b :: _ => pure [a ^^^ b, a &&& b]
  | .fullAdder, a :: b :: c :: _ => pure [a ^^^ b ^^^ c, (a &&& b) ||| (c &&& (a ^^^ b))]
  | .ao21, a1 :: a2 :: b1 :: _ => pure [(a1 &&& a2) ||| b1]
  | .ao22, a1 :: a2 :: b1 :: b2 :: _ => pure [(a1 &&& a2) ||| (b1 &&& b2)]
  | .ao32, a1 :: a2 :: a3 :: b1 :: b2 :: _ => pure [(a1 &&& a2 &&& a3) ||| (b1 &&& b2)]
  | _, _ => throw .missingPin

/-- The name of the clock in a module whose netlist has none. -/
def Netlist.defaultClock : String :=
  "clk"

namespace Netlist

/-- The name of the net that clocks registers. -/
def clockText (netlist : Netlist) : String :=
  netlist.clock.getD defaultClock

/-- What stands for a signal in expressions. -/
def atom (netlist : Netlist) (id : SignalId) : Except Fault Atom := do
  match ← netlist.signal id with
  | .literal value => return .constant value
  | .input port bit => return .bit port bit
  | .wire label => return .net (Signal.text (.wire label) id)

/-- A port of the header. Its index range needs at least one bit. -/
def portDeclaration (isInput : Bool) (port : Port) : Except Fault PortDeclaration :=
  match port.width with
  | 0 => throw .emptyPort
  | highest + 1 => pure { isInput, name := port.name, highest := some highest }

/-- An input of the header that is a single net. -/
def scalarInput (name : String) : PortDeclaration where
  isInput := true
  name := name
  highest := none

/-- The header: the clock if there is one, the rails if the netlist is powered, inputs, outputs. -/
def portDeclarations (netlist : Netlist) : Except Fault (List PortDeclaration) := do
  let clock := netlist.clock.toList.map scalarInput
  let rails := if netlist.powered then ["VPWR", "VGND"].map scalarInput else []
  let inputs ← netlist.inputs.mapM (portDeclaration true)
  let outputs ← netlist.outputs.mapM (portDeclaration false)
  return clock ++ rails ++ inputs ++ outputs

/-- Whether a gate is written as a clocked assignment. -/
def isClockedAssignment (gate : Gate) : Bool :=
  gate.primitive = .dff && gate.realization = .inferred

/-- For each signal whether a clocked assignment drives it. -/
def clockedSignals (netlist : Netlist) : Array Bool :=
  netlist.gates.foldl
    (fun clocked gate =>
      if isClockedAssignment gate then
        gate.outputs.foldl (fun clocked id => clocked.setIfInBounds id true) clocked
      else clocked)
    (Array.replicate netlist.signals.size false)

/-- The declarations of the wires. -/
def netDeclarations (netlist : Netlist) : List NetDeclaration :=
  let clocked := netlist.clockedSignals
  netlist.signals.toList.zipIdx.filterMap fun (signal, id) =>
    if signal.isWire then
      some { isRegister := clocked.getD id false, name := signal.text id }
    else none

/-- The statements of a gate that is left to synthesis. -/
def inferredStatements (netlist : Netlist) (gate : Gate) : Except Fault (List Statement) := do
  let inputs ← gate.inputs.mapM netlist.atom
  let outputs ← gate.outputs.mapM netlist.atom
  match gate.primitive, inputs, outputs with
  | .add, inputs, outputs =>
    if inputs.length < outputs.length then
      throw .missingPin
    else
      let width := outputs.length
      return [.assignSum outputs (inputs.take width) (inputs.drop width) gate.name]
  | .dff, value :: _, target :: _ =>
    return [.clocked netlist.clockText target value gate.name]
  | primitive, inputs, outputs =>
    let formulas ← primitive.formulas inputs
    if outputs.length < formulas.length then
      throw .missingPin
    else
      return (outputs.zip formulas).map fun (target, formula) =>
        .assign target formula (some gate.name)

/-- The connections of pins to signals, as far as both lists reach. -/
def connections (netlist : Netlist) (pins : List String) (ids : List SignalId) :
    Except Fault (List (String × Atom)) :=
  (pins.zip ids).mapM fun (pin, id) => return (pin, ← netlist.atom id)

/-- The instance of a gate that is bound to a cell. -/
def cellStatement (netlist : Netlist) (gate : Gate) (binding : CellBinding) :
    Except Fault Statement := do
  let clock := binding.clockPin.toList.map fun pin => (pin, Atom.net netlist.clockText)
  let inputs ← netlist.connections binding.inputPins gate.inputs
  let outputs ← netlist.connections binding.outputPins gate.outputs
  let power :=
    if netlist.powered then binding.powerPins.map fun (pin, rail) => (pin, Atom.net rail) else []
  return .cell binding.cell gate.name (clock ++ inputs ++ outputs ++ power)

/-- The statements of a gate. -/
def gateStatements (netlist : Netlist) (gate : Gate) : Except Fault (List Statement) := do
  match gate.realization with
  | .inferred => netlist.inferredStatements gate
  | .cell binding => return [← netlist.cellStatement gate binding]

/-- The assignments of an output port's bits. -/
def outputStatements (netlist : Netlist) (port : Port) : Except Fault (List Statement) :=
  port.bits.zipIdx.mapM fun (id, index) =>
    return .assign (.bit port.name index) (.atom (← netlist.atom id)) none

/-- The netlist as a module. -/
def toVerilog (netlist : Netlist) : Except Fault Module := do
  let ports ← netlist.portDeclarations
  let gates ← netlist.gates.toList.mapM netlist.gateStatements
  let outputs ← netlist.outputs.mapM netlist.outputStatements
  return {
    name := netlist.name
    ports
    nets := netlist.netDeclarations
    statements := gates.flatten ++ outputs.flatten
  }

/-- The netlist as Verilog text. -/
def verilogText (netlist : Netlist) : Except Fault String := do
  return (← netlist.toVerilog).text

end Netlist

end Datapath

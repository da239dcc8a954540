import Datapath.Netlist.Basic

/-!
# Listings

A netlist as text for the reader: its ports and literals, one line for each gate, and one line for
each bit of an output.
-/

namespace Datapath

/-- The name of a signal by position alone. -/
def positionText (id : SignalId) : String :=
  "%" ++ toString id

namespace Port

/-- A port with the positions of its bits. -/
def listing (port : Port) : String :=
  port.name ++ ": bits[" ++ toString port.width ++ "] = ["
    ++ ", ".intercalate (port.bits.map positionText) ++ "]"

/-- The lines that connect an output port's bits. -/
def outputLines (port : Port) : List String :=
  port.bits.zipIdx.map fun (id, bit) =>
    "  " ++ Signal.bitText port.name bit ++ " = " ++ positionText id

end Port

namespace Netlist

/-- A gate's input: the bit of a port by name, any other signal by position. -/
def operandText (netlist : Netlist) (id : SignalId) : Except Fault String := do
  match ← netlist.signal id with
  | .input port bit => return Signal.bitText port bit
  | _ => return positionText id

/-- The line of a gate. -/
def gateLine (netlist : Netlist) (gate : Gate) : Except Fault String := do
  let operands ← gate.inputs.mapM netlist.operandText
  let cell :=
    match gate.realization with
    | .inferred => ""
    | .cell binding => ", cell=" ++ binding.cell
  return "  " ++ ", ".intercalate (gate.outputs.map positionText) ++ " = "
    ++ gate.primitive.mnemonic ++ "(" ++ ", ".intercalate operands ++ ", name=" ++ gate.name
    ++ cell ++ ")"

/-- The lines of the literals. -/
def literalLines (netlist : Netlist) : List String :=
  netlist.signals.toList.zipIdx.filterMap fun (signal, id) =>
    match signal with
    | .literal value => some ("  " ++ positionText id ++ " = " ++ Signal.literalText value)
    | _ => none

/-- The whole netlist as text. -/
def listing (netlist : Netlist) : Except Fault String := do
  let gateLines ← netlist.gates.toList.mapM netlist.gateLine
  let heading := "fn " ++ netlist.name
    ++ "(" ++ ", ".intercalate (netlist.inputs.map Port.listing) ++ ") -> ("
    ++ ", ".intercalate (netlist.outputs.map Port.listing) ++ ") \x7b"
  return "\n".intercalate ([heading] ++ netlist.literalLines ++ gateLines
    ++ netlist.outputs.flatMap Port.outputLines ++ ["\x7d"])

end Netlist

end Datapath

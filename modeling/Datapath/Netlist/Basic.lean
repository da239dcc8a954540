import Datapath.Provider

/-!
# Netlists

A netlist is an array of signals, an array of gates that read and drive them, and named ports. A
signal is addressed by its position in the array. Nothing here demands that positions exist or that
wires are driven once; `Datapath.Netlist.Drivers` checks that.
-/

namespace Datapath

/-- The position of a signal in its netlist. -/
abbrev SignalId := Nat

/-- Where a signal's value comes from. -/
inductive Signal where
  /-- One bit of an input port, counted from the least significant. -/
  | input (port : String) (bit : Nat)
  /-- A constant. -/
  | literal (value : Bool)
  /-- A gate. The label only serves the reader. -/
  | wire (label : Option String)
  deriving DecidableEq, Repr

namespace Signal

/-- Whether the signal has to be driven by a gate. -/
def isWire : Signal → Bool
  | .wire _ => true
  | _ => false

/-- Whether the signal is a constant. -/
def isLiteral : Signal → Bool
  | .literal _ => true
  | _ => false

/-- The text of a truth value in names and listings. -/
def literalText (value : Bool) : String :=
  if value then "literal(true)" else "literal(false)"

/-- The name of the bit of a port. -/
def bitText (port : String) (bit : Nat) : String :=
  port ++ "[" ++ toString bit ++ "]"

/-- The name shown for a signal at a given position. -/
def text (signal : Signal) (position : SignalId) : String :=
  match signal with
  | .input port bit => bitText port bit
  | .literal value => literalText value
  | .wire (some label) => label ++ "_" ++ toString position
  | .wire none => "n" ++ toString position

end Signal

/-- A named group of signals at the netlist's boundary, least significant bit first. -/
structure Port where
  name : String
  bits : List SignalId
  deriving DecidableEq, Repr

namespace Port

/-- The number of bits. -/
def width (port : Port) : Nat :=
  port.bits.length

end Port

/-- An occurrence of a primitive. -/
structure Gate where
  name : String
  primitive : Primitive
  inputs : List SignalId
  outputs : List SignalId
  realization : Realization
  deriving DecidableEq, Repr

namespace Gate

/-- Whether the gate follows its inputs at once. -/
def isCombinational (gate : Gate) : Bool :=
  gate.primitive.domain = .combinational

/-- Whether the gate waits for the clock. -/
def isRegister (gate : Gate) : Bool :=
  gate.primitive.domain = .synchronous

/-- Whether the gate is an instance of a cell. -/
def isCell (gate : Gate) : Bool :=
  match gate.realization with
  | .cell _ => true
  | .inferred => false

end Gate

/-- A circuit of gates between ports. -/
structure Netlist where
  name : String
  inputs : List Port := []
  outputs : List Port := []
  signals : Array Signal
  gates : Array Gate := #[]
  /-- The net that clocks the registers, where there are any. -/
  clock : Option String := none
  /-- Whether the supply rails are part of the interface. -/
  powered : Bool := false
  deriving DecidableEq, Repr

namespace Netlist

/-- The signal at a position. -/
def signal (netlist : Netlist) (id : SignalId) : Except Fault Signal :=
  match netlist.signals[id]? with
  | some signal => pure signal
  | none => throw .unknownSignal

/-- The name shown for the signal at a position. -/
def signalText (netlist : Netlist) (id : SignalId) : Except Fault String := do
  return (← netlist.signal id).text id

/-- The first input port with a given name. -/
def inputPort? (netlist : Netlist) (name : String) : Option Port :=
  netlist.inputs.find? (·.name == name)

/-- The first output port with a given name. -/
def outputPort? (netlist : Netlist) (name : String) : Option Port :=
  netlist.outputs.find? (·.name == name)

/-- The number of registers. -/
def registerCount (netlist : Netlist) : Nat :=
  netlist.gates.countP (·.isRegister)

/-- Checks that a port, an output before an input, has the expected width. -/
def checkPortWidth (netlist : Netlist) (name : String) (expected : Nat) :
    Except NetlistError Unit :=
  match netlist.outputPort? name <|> netlist.inputPort? name with
  | none => throw (.unknownPort name)
  | some port =>
    if port.width = expected then pure ()
    else throw (.portWidthMismatch name expected port.width)

/-- The widths of a list of ports, in the manner of types. -/
def widthTexts (ports : List Port) : List String :=
  ports.map fun port => "bits[" ++ toString port.width ++ "]"

/-- The netlist's interface in one line. -/
def signature (netlist : Netlist) : String :=
  let parameters := netlist.inputs.map fun port =>
    port.name ++ ": bits[" ++ toString port.width ++ "]"
  let results :=
    match widthTexts netlist.outputs with
    | [single] => single
    | several => "(" ++ ", ".intercalate several ++ ")"
  "fn " ++ netlist.name ++ "(" ++ ", ".intercalate parameters ++ ") -> " ++ results

end Netlist

end Datapath

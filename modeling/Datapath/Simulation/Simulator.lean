import Datapath.Logic
import Datapath.Netlist.Order
import Datapath.Simulation.Lanes

/-!
# Simulation

A simulator holds a value for every signal of a netlist. Settling lets the combinational gates
follow their inputs, in an order that visits drivers first; a clock edge moves the inputs of all
registers to their outputs at once. Values are taken from any carrier of `Logic`.
-/

namespace Datapath

/-- A netlist with a value for each of its signals. -/
structure Simulator (α : Type) where
  netlist : Netlist
  /-- The combinational gates, each after the gates that drive its inputs. -/
  combinational : List Gate
  registers : List Gate
  values : Array α

namespace Simulator

variable {α : Type}

/-- The value of a signal. -/
def read (values : Array α) (id : SignalId) : Except Fault α :=
  match values[id]? with
  | some value => pure value
  | none => throw .unknownSignal

/-- Gives a signal a value. -/
def write (values : Array α) (id : SignalId) (value : α) : Except Fault (Array α) :=
  if id < values.size then
    pure (values.setIfInBounds id value)
  else
    throw .unknownSignal

/-- Gives each of a list of signals its value. -/
def writeAll (values : Array α) (entries : List (SignalId × α)) : Except Fault (Array α) :=
  entries.foldlM (fun values (id, value) => write values id value) values

variable [Logic α]

/-- The value of a signal before anything has happened: registers and inputs start false. -/
def initialValue : Signal → α
  | .literal value => Logic.ofBool value
  | _ => Logic.ofBool false

/-- A simulator in its initial state. Fails where the netlist cannot be ordered. -/
def start (netlist : Netlist) : Except Error (Simulator α) := do
  let order ← netlist.combinationalOrder
  return {
    netlist
    combinational := order.filterMap (netlist.gates[·]?)
    registers := netlist.gates.toList.filter (·.isRegister)
    values := netlist.signals.map initialValue
  }

/-- Lets a gate's outputs follow its inputs. -/
def settleGate (values : Array α) (gate : Gate) : Except Fault (Array α) := do
  let inputs ← gate.inputs.mapM (read values)
  let outputs ← gate.primitive.evaluate inputs gate.outputs.length
  writeAll values (gate.outputs.zip outputs)

/-- Lets all combinational gates follow the inputs and registers. -/
def settle (simulator : Simulator α) : Except Fault (Simulator α) := do
  let values ← simulator.combinational.foldlM settleGate simulator.values
  return { simulator with values }

/-- The first of a gate's pins. -/
def firstPin (pins : List SignalId) : Except Fault SignalId :=
  match pins with
  | id :: _ => pure id
  | [] => throw .missingPin

/-- What a register takes over at the clock edge. -/
def sampleRegister (values : Array α) (register : Gate) : Except Fault (SignalId × α) := do
  let value ← read values (← firstPin register.inputs)
  return (← firstPin register.outputs, value)

/-- Moves the input of every register to its output, all at once. -/
def clock (simulator : Simulator α) : Except Fault (Simulator α) := do
  let sampled ← simulator.registers.mapM (sampleRegister simulator.values)
  let values ← writeAll simulator.values sampled
  return { simulator with values }

/-- One cycle: settle, clock, and settle with the new register contents. -/
def step (simulator : Simulator α) : Except Fault (Simulator α) := do
  (← (← simulator.settle).clock).settle

/-- Gives the bits of an input port their values, low bit first. -/
def setInput (simulator : Simulator α) (name : String) (bits : List α) :
    Except Error (Simulator α) :=
  match simulator.netlist.inputPort? name with
  | none => throw (.netlist (.unknownPort name))
  | some port =>
    if port.width ≠ bits.length then
      throw (.netlist (.portWidthMismatch name port.width bits.length))
    else do
      let values ← writeAll simulator.values (port.bits.zip bits)
      return { simulator with values }

/-- The values of an output port's bits, low bit first. -/
def output (simulator : Simulator α) (name : String) : Except Error (List α) :=
  match simulator.netlist.outputPort? name with
  | none => throw (.netlist (.unknownPort name))
  | some port => port.bits.mapM fun id => read simulator.values id

/-- Gives an input port one value for each of the first lanes, and zero in the other lanes. -/
def setSamples (simulator : Simulator UInt64) (name : String) (samples : List Sample) :
    Except Error (Simulator UInt64) :=
  if samples.length > Lanes.count then
    throw (.fault .sampleCount)
  else
    match simulator.netlist.inputPort? name with
    | none => throw (.netlist (.unknownPort name))
    | some port => do simulator.setInput name (← Lanes.pack samples port.width)

/-- The value of an output port in each of the first lanes. -/
def samples (simulator : Simulator UInt64) (name : String) (count : Nat) :
    Except Error (List Sample) := do
  Lanes.unpack (← simulator.output name) count

end Simulator

namespace Netlist

/-- The outputs of a netlist without registers for one assignment to its inputs, both in the order
of the ports and with the low bits first. -/
def evaluate (netlist : Netlist) (inputs : List (List Bool)) : Except Error (List (List Bool)) := do
  unless inputs.length = netlist.inputs.length do
    throw (.fault .inputCount)
  let fresh : Simulator Bool ← Simulator.start netlist
  let loaded ← (netlist.inputs.zip inputs).foldlM
    (fun simulator (port, bits) => simulator.setInput port.name bits) fresh
  let settled ← loaded.settle
  netlist.outputs.mapM fun port => settled.output port.name

end Netlist

end Datapath

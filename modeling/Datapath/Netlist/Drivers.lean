import Datapath.Netlist.Basic

/-!
# Drivers

Which gate drives which wire. `Netlist.driverMap` fails where a wire has two drivers or a gate
drives what is not a wire, and `Netlist.checkDrivers` decides whether a netlist is well formed.
-/

namespace Datapath

/-- For each signal the gate that drives it, by position. -/
abbrev DriverMap := Array (Option Nat)

namespace DriverMap

/-- The gate that drives a signal. -/
def driver? (drivers : DriverMap) (id : SignalId) : Option Nat :=
  drivers[id]?.join

end DriverMap

namespace Netlist

/-- The name of the gate at a position, empty where there is none. -/
def gateName (netlist : Netlist) (index : Nat) : String :=
  match netlist.gates[index]? with
  | some gate => gate.name
  | none => ""

/-- Records that a gate drives a signal. -/
def claimDriver (netlist : Netlist) (index : Nat) (gate : Gate) (drivers : DriverMap)
    (id : SignalId) : Except NetlistError DriverMap :=
  match netlist.signals[id]? with
  | none => throw (.signalOutOfBounds id netlist.signals.size)
  | some (.wire _) =>
    match drivers.driver? id with
    | some previous => throw (.multiplyDrivenSignal id (netlist.gateName previous) gate.name)
    | none => pure (drivers.setIfInBounds id (some index))
  | some _ => throw (.drivenSource id gate.name)

/-- The gates in order, each with its position. -/
def indexedGates (netlist : Netlist) : List (Gate × Nat) :=
  netlist.gates.toList.zipIdx

/-- The driver of every signal. Fails at the first gate output that does not exist, is not a wire or
already has a driver. -/
def driverMap (netlist : Netlist) : Except NetlistError DriverMap :=
  netlist.indexedGates.foldlM
    (fun drivers (gate, index) => gate.outputs.foldlM (netlist.claimDriver index gate) drivers)
    (Array.replicate netlist.signals.size none)

/-- Checks that a signal exists and, if it is a wire, that a gate drives it. -/
def checkRead (netlist : Netlist) (drivers : DriverMap) (reader : String) (id : SignalId) :
    Except NetlistError Unit :=
  match netlist.signals[id]? with
  | none => throw (.signalOutOfBounds id netlist.signals.size)
  | some signal =>
    if signal.isWire && (drivers.driver? id).isNone then
      throw (.undrivenSignal id reader)
    else
      pure ()

/-- Checks a gate's pin counts and what it reads. -/
def checkGate (netlist : Netlist) (drivers : DriverMap) (gate : Gate) :
    Except NetlistError Unit := do
  unless gate.primitive.accepts gate.inputs.length gate.outputs.length do
    throw (.arity gate.name gate.primitive gate.inputs.length gate.outputs.length)
  gate.inputs.forM (netlist.checkRead drivers gate.name)

/-- Checks what an output port reads. -/
def checkOutput (netlist : Netlist) (drivers : DriverMap) (port : Port) :
    Except NetlistError Unit :=
  port.bits.zipIdx.forM fun (id, bit) =>
    netlist.checkRead drivers ("output " ++ Signal.bitText port.name bit) id

/-- Checks that gates drive wires only and no wire twice, that every gate has a legal number of
pins, and that every wire that is read has a driver. -/
def checkDrivers (netlist : Netlist) : Except NetlistError Unit := do
  let drivers ← netlist.driverMap
  netlist.gates.toList.forM (netlist.checkGate drivers)
  netlist.outputs.forM (netlist.checkOutput drivers)

end Netlist

end Datapath

import Datapath.Netlist.Drivers

/-!
# Evaluation order

An order of the combinational gates in which each follows the gates that drive its inputs. Inputs,
literals and register outputs are there from the start, so only a loop through combinational gates
keeps gates from being ordered.

A gate is ready once all its combinational drivers have been placed. Ready gates are placed in the
order in which they became ready; the placed gates whose readers have not been looked at yet form a
queue at the end of the order.
-/

namespace Datapath

namespace Netlist

/-- The inputs of a gate that another combinational gate drives, with repeats. -/
def awaitedInputs (netlist : Netlist) (drivers : DriverMap) (gate : Gate) : List SignalId :=
  gate.inputs.filter fun id =>
    match drivers.driver? id with
    | some index => (netlist.gates[index]?.map (·.isCombinational)).getD false
    | none => false

/-- The combinational gates, each with its position. -/
def combinationalGates (netlist : Netlist) : List (Gate × Nat) :=
  netlist.indexedGates.filter fun (gate, _) => gate.isCombinational

/-- Checks that a gate reads only signals that exist. -/
def checkInputs (netlist : Netlist) (gate : Gate) : Except Fault Unit :=
  gate.inputs.forM fun id => discard (netlist.signal id)

end Netlist

/-- The state of ordering: how many awaited inputs each gate still lacks, and the gates placed. -/
structure Placement where
  lacking : Array Nat
  placed : Array Nat

namespace Placement

/-- Tells a gate that one of its inputs is available, and places it if that was the last. -/
def supply (placement : Placement) (index : Nat) : Placement :=
  match placement.lacking[index]? with
  | some 1 =>
    { lacking := placement.lacking.setIfInBounds index 0, placed := placement.placed.push index }
  | some (more + 2) =>
    { placement with lacking := placement.lacking.setIfInBounds index (more + 1) }
  | _ => placement

/-- Looks at the placed gates one by one, from a position on, and supplies the readers of each.
There are never more gates to look at than the fuel allows if that is the number of gates. -/
def run (readersOf : Nat → List Nat) : (fuel head : Nat) → Placement → Placement
  | 0, _, placement => placement
  | fuel + 1, head, placement =>
    match placement.placed[head]? with
    | some index => run readersOf fuel (head + 1) ((readersOf index).foldl supply placement)
    | none => placement

end Placement

namespace Netlist

/-- For each signal the gates that await it, once for each input pin, in order. -/
def readers (netlist : Netlist) (drivers : DriverMap) : Array (List Nat) :=
  netlist.combinationalGates.foldr
    (fun (gate, index) readers =>
      (netlist.awaitedInputs drivers gate).foldr
        (fun id readers => readers.modify id (index :: ·)) readers)
    (Array.replicate netlist.signals.size [])

/-- The gates that await an output of the gate at a position, in the order of the outputs. -/
def readersOfGate (netlist : Netlist) (readers : Array (List Nat)) (index : Nat) : List Nat :=
  match netlist.gates[index]? with
  | some gate => gate.outputs.flatMap fun id => readers.getD id []
  | none => []

/-- The start of ordering: every gate lacks its awaited inputs; those that lack none are placed. -/
def initialPlacement (netlist : Netlist) (drivers : DriverMap) : Placement where
  lacking := netlist.gates.map fun gate =>
    if gate.isCombinational then (netlist.awaitedInputs drivers gate).length else 0
  placed := (netlist.combinationalGates.filter fun (gate, _) =>
    (netlist.awaitedInputs drivers gate).isEmpty).map (·.2) |>.toArray

/-- The positions of all combinational gates, each after the gates that drive its inputs. A loop
leaves gates that cannot be placed. -/
def combinationalOrder (netlist : Netlist) : Except Error (List Nat) := do
  let drivers ← netlist.driverMap
  netlist.combinationalGates.forM fun (gate, _) => netlist.checkInputs gate
  let readers := netlist.readers drivers
  let placement := Placement.run (netlist.readersOfGate readers) netlist.gates.size 0
    (netlist.initialPlacement drivers)
  let total := netlist.combinationalGates.length
  if placement.placed.size = total then
    return placement.placed.toList
  else
    throw (.netlist (.combinationalLoop (total - placement.placed.size)))

end Netlist

end Datapath

import Datapath.Netlist.Order

/-!
# Combinational depth

The depth of a signal is the number of combinational gates on the longest chain that ends at it.
-/

namespace Datapath.Netlist

/-- The depth of a gate's outputs from the depths of its inputs. -/
def gateDepth (gate : Gate) (depths : Array Nat) : Nat :=
  1 + (gate.inputs.map fun id => depths.getD id 0).foldl max 0

/-- Enters the depth of a gate's outputs. -/
def enterDepth (depths : Array Nat) (gate : Gate) : Array Nat :=
  let depth := gateDepth gate depths
  gate.outputs.foldl (fun depths id => depths.setIfInBounds id depth) depths

/-- The depth of every signal: zero for those that no combinational gate drives, and for a gate's
outputs one more than the greatest depth of its inputs. -/
def signalDepths (netlist : Netlist) : Except Error (Array Nat) := do
  let order ← netlist.combinationalOrder
  return (order.filterMap (netlist.gates[·]?)).foldl enterDepth
    (Array.replicate netlist.signals.size 0)

/-- The greatest depth of any signal. -/
def depth (netlist : Netlist) : Except Error Nat := do
  return (← netlist.signalDepths).foldl max 0

end Datapath.Netlist

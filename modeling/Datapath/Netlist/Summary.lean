import Datapath.Netlist.Depth

/-!
# Summary statistics

How many gates a netlist has, of which kinds, and how deep it is.
-/

namespace Datapath

/-- What is counted in a netlist. -/
structure Summary where
  totalGates : Nat
  registers : Nat
  /-- The gates that are instances of cells. -/
  cells : Nat
  /-- The primitives that occur and how often, in the order of their short names. -/
  byPrimitive : List (Primitive × Nat)
  /-- The greatest combinational depth of any signal. -/
  depth : Nat
  deriving DecidableEq, Repr

namespace Primitive

/-- All primitives in the order of their short names. -/
def byMnemonic : List Primitive :=
  all.mergeSort fun left right => left.mnemonic ≤ right.mnemonic

end Primitive

namespace Netlist

/-- The number of gates of a primitive. -/
def gateCount (netlist : Netlist) (primitive : Primitive) : Nat :=
  netlist.gates.countP (·.primitive = primitive)

/-- The statistics of a netlist that has no combinational loop. -/
def summary (netlist : Netlist) : Except Error Summary := do
  let depth ← netlist.depth
  return {
    totalGates := netlist.gates.size
    registers := netlist.registerCount
    cells := netlist.gates.countP (·.isCell)
    byPrimitive := Primitive.byMnemonic.filterMap fun primitive =>
      let count := netlist.gateCount primitive
      if count = 0 then none else some (primitive, count)
    depth
  }

end Netlist

namespace Summary

/-- One indented line of a field. -/
def fieldLine (indent : String) (key : String) (value : String) : String :=
  indent ++ "\"" ++ key ++ "\": " ++ value

/-- The counts by primitive as a block of its own. -/
def byPrimitiveText (summary : Summary) : String :=
  match summary.byPrimitive with
  | [] => "\x7b\x7d"
  | counts =>
    "\x7b\n" ++ ",\n".intercalate
      (counts.map fun (primitive, count) => fieldLine "    " primitive.mnemonic (toString count))
      ++ "\n  \x7d"

/-- The statistics as indented JSON. -/
def json (summary : Summary) : String :=
  "\x7b\n" ++ ",\n".intercalate [
    fieldLine "  " "total_gates" (toString summary.totalGates),
    fieldLine "  " "registers" (toString summary.registers),
    fieldLine "  " "cells" (toString summary.cells),
    fieldLine "  " "by_primitive" summary.byPrimitiveText,
    fieldLine "  " "comb_depth" (toString summary.depth)]
    ++ "\n\x7d"

end Summary

end Datapath

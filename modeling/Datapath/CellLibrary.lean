import Datapath.Provider

/-!
# Cell libraries

A cell library realizes each primitive for which it has a cell. `CellLibrary.sky130` describes the
high-density cells of the SkyWater 130 nm process at the lowest drive strength; it has no word-level
adder.
-/

namespace Datapath

/-- A cell and its signal pins. -/
structure Cell where
  name : String
  inputPins : List String
  outputPins : List String
  clockPin : Option String := none
  deriving DecidableEq, Repr

/-- A named set of cells. -/
structure CellLibrary where
  name : String
  /-- The cell that implements a primitive. -/
  cell? : Primitive → Option Cell
  /-- The supply pins of every cell and the rails they connect to. -/
  powerPins : List (String × String)

namespace CellLibrary

/-- How a gate is bound to one of the library's cells. -/
def binding (library : CellLibrary) (cell : Cell) : CellBinding where
  cell := cell.name
  inputPins := cell.inputPins
  outputPins := cell.outputPins
  clockPin := cell.clockPin
  powerPins := library.powerPins

/-- The provider that realizes primitives by the library's cells. -/
def provider (library : CellLibrary) : Provider where
  name := library.name
  realize primitive := (library.cell? primitive).map fun cell => .cell (library.binding cell)

/-- The common beginning of the cell names of `sky130`, and the name of the library. -/
def sky130Name : String :=
  "sky130_fd_sc_hd"

/-- A cell of `sky130` by its short name. -/
def sky130Cell (base : String) (inputPins outputPins : List String) : Cell where
  name := sky130Name ++ "__" ++ base
  inputPins := inputPins
  outputPins := outputPins

/-- SkyWater 130 nm high-density cells, drive strength 1. -/
def sky130 : CellLibrary where
  name := sky130Name
  cell?
    | .and2 => some (sky130Cell "and2_1" ["A", "B"] ["X"])
    | .or2 => some (sky130Cell "or2_1" ["A", "B"] ["X"])
    | .xor2 => some (sky130Cell "xor2_1" ["A", "B"] ["X"])
    | .inv => some (sky130Cell "inv_1" ["A"] ["Y"])
    | .halfAdder => some (sky130Cell "ha_1" ["A", "B"] ["SUM", "COUT"])
    | .fullAdder => some (sky130Cell "fa_1" ["A", "B", "CIN"] ["SUM", "COUT"])
    | .ao21 => some (sky130Cell "a21o_1" ["A1", "A2", "B1"] ["X"])
    | .ao22 => some (sky130Cell "a22o_1" ["A1", "A2", "B1", "B2"] ["X"])
    | .ao32 => some (sky130Cell "a32o_1" ["A1", "A2", "A3", "B1", "B2"] ["X"])
    | .add => none
    | .dff => some { sky130Cell "dfxtp_1" ["D"] ["Q"] with clockPin := some "CLK" }
  powerPins := [("VPWR", "VPWR"), ("VGND", "VGND"), ("VPB", "VPWR"), ("VNB", "VGND")]

end CellLibrary

end Datapath

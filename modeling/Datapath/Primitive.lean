import Datapath.Fault

/-!
# Gate primitives

The vocabulary of abstract gates that netlists are made of. A primitive says how many signals a gate
reads and drives and whether it is clocked; what it computes is in `Datapath.Logic`.
-/

namespace Datapath

/-- When a gate updates its outputs. -/
inductive Domain where
  /-- Outputs follow the inputs at once. -/
  | combinational
  /-- Outputs take the inputs' values at the rising clock edge. -/
  | synchronous
  deriving DecidableEq, Repr

/-- The abstract gates. -/
inductive Primitive where
  | and2
  | or2
  | xor2
  | inv
  /-- Outputs are the sum and the carry of two bits. -/
  | halfAdder
  /-- Outputs are the sum and the carry of three bits. -/
  | fullAdder
  /-- `(a1 & a2) | b1` -/
  | ao21
  /-- `(a1 & a2) | (b1 & b2)` -/
  | ao22
  /-- `(a1 & a2 & a3) | (b1 & b2)` -/
  | ao32
  /-- A word-level adder: the inputs are two operands of one width, low bit first, one after the
  other, and the outputs are the sum bits without the carry out. -/
  | add
  /-- A register of one bit. -/
  | dff
  deriving DecidableEq, Repr

namespace Primitive

/-- All primitives. -/
def all : List Primitive :=
  [.and2, .or2, .xor2, .inv, .halfAdder, .fullAdder, .ao21, .ao22, .ao32, .add, .dff]

/-- No primitive is missing. -/
theorem mem_all (primitive : Primitive) : primitive ∈ all := by
  cases primitive <;> decide

/-- The primitives into which all others can be decomposed. -/
def basis : List Primitive :=
  [.and2, .inv, .dff]

/-- The number of inputs and outputs, where the primitive fixes them. -/
def arity : Primitive → Option (Nat × Nat)
  | .and2 | .or2 | .xor2 => some (2, 1)
  | .inv | .dff => some (1, 1)
  | .halfAdder => some (2, 2)
  | .fullAdder => some (3, 2)
  | .ao21 => some (3, 1)
  | .ao22 => some (4, 1)
  | .ao32 => some (5, 1)
  | .add => none

/-- Whether a gate of this primitive may have so many inputs and outputs. -/
def accepts (primitive : Primitive) (inputs outputs : Nat) : Bool :=
  match primitive.arity with
  | some expected => expected == (inputs, outputs)
  | none => 0 < outputs && inputs == 2 * outputs

/-- Whether a gate of this primitive may have so many inputs and outputs, where the counts are any
machine words and not those of a gate. Without an arity, twice the outputs must be a machine word
too. -/
def acceptsCounts (primitive : Primitive) (inputs outputs : Nat) : Except Fault Bool := do
  if primitive.arity.isNone then
    discard (Fault.checkCount (2 * outputs))
  return primitive.accepts inputs outputs

/-- When gates of this primitive update their outputs. -/
def domain : Primitive → Domain
  | .dff => .synchronous
  | _ => .combinational

/-- The short name used in gate names and reports. -/
def mnemonic : Primitive → String
  | .and2 => "and2"
  | .or2 => "or2"
  | .xor2 => "xor2"
  | .inv => "inv"
  | .halfAdder => "ha"
  | .fullAdder => "fa"
  | .ao21 => "ao21"
  | .ao22 => "ao22"
  | .ao32 => "ao32"
  | .add => "add"
  | .dff => "dff"

/-- The primitive with a given short name. -/
def ofMnemonic? (text : String) : Option Primitive :=
  all.find? (·.mnemonic == text)

/-- A primitive is found by its own short name. -/
theorem ofMnemonic?_mnemonic (primitive : Primitive) :
    ofMnemonic? primitive.mnemonic = some primitive := by
  cases primitive <;> rfl

/-- The position of a primitive in `all`. -/
def index (primitive : Primitive) : Nat :=
  all.idxOf primitive

end Primitive

end Datapath

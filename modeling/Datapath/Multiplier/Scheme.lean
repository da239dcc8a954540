import Datapath.Fault

/-!
# Partial product schemes

Ways to write a product as a matrix of bits whose weighted sum is the product.
-/

namespace Datapath.Multiplier

/-- A way to form partial products. -/
inductive Scheme where
  /-- Radix-4 recoding of the multiplier into signed digits. -/
  | booth
  /-- One conjunction for each pair of operand bits. -/
  | schoolbook
  deriving DecidableEq, Repr

namespace Scheme

/-- All schemes. -/
def all : List Scheme :=
  [.booth, .schoolbook]

/-- The scheme used where none is named. -/
def default : Scheme :=
  .booth

/-- The name by which users choose a scheme. -/
def name : Scheme → String
  | .booth => "booth"
  | .schoolbook => "schoolbook"

/-- The scheme with a given name. -/
def ofName? (text : String) : Option Scheme :=
  all.find? (·.name == text)

/-- A scheme is found by its own name. -/
theorem ofName?_name (scheme : Scheme) : ofName? scheme.name = some scheme := by
  cases scheme <;> rfl

/-- The number of columns that the bits of two operands of `width` bits may fill. Recoded rows reach
one column beyond the product. -/
def columns : Scheme → (width : Nat) → Nat
  | .booth, width => 2 * width + 1
  | .schoolbook, width => 2 * width

/-- The number of columns, where it fits a machine word. -/
def columnCount (scheme : Scheme) (width : Nat) : Except Fault Nat :=
  Fault.checkCount (scheme.columns width)

end Scheme

end Datapath.Multiplier

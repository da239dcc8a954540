/-!
# Structural Verilog

The part of Verilog that netlists are written in: a module with scalar nets, continuous assignments,
clocked assignments and instances of cells. Formulas are put together with the bitwise connectives.
-/

namespace Datapath.Verilog

/-- What stands for one bit. -/
inductive Atom where
  | net (name : String)
  /-- One bit of a vector. -/
  | bit (vector : String) (index : Nat)
  | constant (value : Bool)
  deriving DecidableEq, Repr

/-- A binary connective. -/
inductive Operator where
  | and
  | or
  | xor
  deriving DecidableEq, Repr

/-- A formula for one bit. -/
inductive Expression where
  | atom (bit : Atom)
  | not (operand : Expression)
  | binary (operator : Operator) (left right : Expression)
  deriving DecidableEq, Repr

instance : AndOp Expression where
  and := .binary .and

instance : OrOp Expression where
  or := .binary .or

instance : XorOp Expression where
  xor := .binary .xor

instance : Complement Expression where
  complement := .not

/-- A statement of a module. -/
inductive Statement where
  /-- A continuous assignment of one bit, with a remark. -/
  | assign (target : Atom) (value : Expression) (remark : Option String)
  /-- A continuous assignment of the sum of two words; words are listed low bit first. -/
  | assignSum (target left right : List Atom) (remark : String)
  /-- An assignment at the rising edge of a clock. -/
  | clocked (clock : String) (target value : Atom) (remark : String)
  /-- A cell with its pins connected by name. -/
  | cell (kind name : String) (connections : List (String × Atom))
  deriving DecidableEq, Repr

/-- A port in a module's header. A port without a highest bit is a single net. -/
structure PortDeclaration where
  isInput : Bool
  name : String
  highest : Option Nat
  deriving DecidableEq, Repr

/-- A net declared inside a module; a register if it is assigned at a clock edge. -/
structure NetDeclaration where
  isRegister : Bool
  name : String
  deriving DecidableEq, Repr

/-- A module. -/
structure Module where
  name : String
  ports : List PortDeclaration
  nets : List NetDeclaration
  statements : List Statement
  deriving DecidableEq, Repr

end Datapath.Verilog

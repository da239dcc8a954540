import Datapath.Verilog.Module

/-!
# Verilog text

How a module is written. An operand that is itself a connective stands in parentheses, except that a
chain of one connective to the left needs none.
-/

namespace Datapath.Verilog

namespace Atom

/-- The text of a bit. -/
def text : Atom → String
  | .net name => name
  | .bit vector index => vector ++ "[" ++ toString index ++ "]"
  | .constant value => if value then "1'b1" else "1'b0"

end Atom

namespace Operator

/-- The sign of a connective. -/
def text : Operator → String
  | .and => "&"
  | .or => "|"
  | .xor => "^"

end Operator

namespace Expression

/-- Whether an operand of a connective is written without parentheses on its left side. -/
def chains (operator : Operator) : Expression → Bool
  | .binary inner _ _ => inner = operator
  | _ => true

/-- Whether an operand is written without parentheses anywhere. -/
def isClosed : Expression → Bool
  | .binary .. => false
  | _ => true

/-- Puts parentheses around a text unless they are not needed. -/
def enclose (bare : Bool) (text : String) : String :=
  if bare then text else "(" ++ text ++ ")"

/-- The text of a formula. -/
def text : Expression → String
  | .atom bit => bit.text
  | .not operand => "~" ++ enclose operand.isClosed operand.text
  | .binary operator left right =>
    enclose (left.chains operator) left.text ++ " " ++ operator.text ++ " "
      ++ enclose right.isClosed right.text

end Expression

/-- A word as a concatenation, high bit first. -/
def wordText (bits : List Atom) : String :=
  "\x7b" ++ ", ".intercalate (bits.reverse.map Atom.text) ++ "\x7d"

namespace Statement

/-- A remark at the end of a line. -/
def remarkText : Option String → String
  | some remark => " // " ++ remark
  | none => ""

/-- The connection of a pin. -/
def connectionText (pin : String) (atom : Atom) : String :=
  "." ++ pin ++ "(" ++ atom.text ++ ")"

/-- The lines of a statement. -/
def text : Statement → String
  | .assign target value remark =>
    "  assign " ++ target.text ++ " = " ++ value.text ++ ";" ++ remarkText remark ++ "\n"
  | .assignSum target left right remark =>
    "  assign " ++ wordText target ++ " = " ++ wordText left ++ " + " ++ wordText right ++ ";"
      ++ remarkText (some remark) ++ "\n"
  | .clocked clock target value remark =>
    "  always @(posedge " ++ clock ++ ") " ++ target.text ++ " <= " ++ value.text ++ ";"
      ++ remarkText (some remark) ++ "\n"
  | .cell kind name connections =>
    "  " ++ kind ++ " " ++ name ++ " (\n    "
      ++ ",\n    ".intercalate (connections.map fun (pin, atom) => connectionText pin atom)
      ++ "\n  );\n"

end Statement

namespace PortDeclaration

/-- A port in the header. -/
def text (port : PortDeclaration) : String :=
  "  " ++ (if port.isInput then "input" else "output") ++ " wire "
    ++ (match port.highest with
      | some highest => "[" ++ toString highest ++ ":0] "
      | none => "")
    ++ port.name

end PortDeclaration

namespace NetDeclaration

/-- The declaration of a net. -/
def text (net : NetDeclaration) : String :=
  "  " ++ (if net.isRegister then "reg" else "wire") ++ " " ++ net.name ++ ";\n"

end NetDeclaration

namespace Module

/-- The text of a module. -/
def text (module : Module) : String :=
  "module " ++ module.name ++ "(\n"
    ++ ",\n".intercalate (module.ports.map PortDeclaration.text) ++ "\n);\n"
    ++ String.join (module.nets.map NetDeclaration.text)
    ++ String.join (module.statements.map Statement.text)
    ++ "endmodule\n"

end Module

end Datapath.Verilog

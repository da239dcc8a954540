import Mathlib.Logic.Function.Iterate
import Datapath.Proofs.Lexing

/-!
# Reading Verilog text

`Module.parse` is a reader for the text of modules. It knows the usual precedence of the
connectives, complement before conjunction before exclusive before inclusive disjunction, all of
them from the left, and it skips remarks. Formulas are read from left to right with a frame for
every open parenthesis, which holds what the looser connectives wait for. Users may give a module
any text for a name; `Module.read` also reads the rest of a module whose name is none.

What the printer writes is read back, apart from remarks: `Module.read_text`. All that this asks of
a module is that the names in it are names and that its remarks stay on their lines.
-/

namespace Datapath.Verilog

/-! ## Names -/

/-- Words with a meaning of their own. -/
def reserved : List String :=
  ["module", "endmodule", "input", "output", "wire", "reg", "assign", "always", "posedge"]

/-- A stem is a word of letters, digits and underscores that does not begin with a digit. -/
structure IsStem (text : String) : Prop where
  starts : text.toList.head?.any fun char => char.isAlpha || char == '_'
  chars : text.toList.all fun char => char.isAlphanum || char == '_'

/-- A name is a stem without a meaning of its own. -/
structure IsName (text : String) : Prop extends IsStem text where
  free : text ∉ reserved

instance (text : String) : Decidable (IsStem text) :=
  decidable_of_iff _ ⟨fun ⟨starts, chars⟩ => IsStem.mk starts chars,
    fun isStem => And.intro isStem.starts isStem.chars⟩

instance (text : String) : Decidable (IsName text) :=
  decidable_of_iff _ ⟨fun ⟨isStem, free⟩ => IsName.mk isStem free,
    fun isName => And.intro isName.toIsStem isName.free⟩

/-! ## The reader -/

/-- A bit, or a sign between bits. -/
inductive Symbol where
  | atom (bit : Atom)
  | sign (char : Char)
  deriving DecidableEq, Repr

/-- What a word by itself stands for. -/
def wordAtom (text : String) : Atom :=
  if text = "1'b0" then .constant false
  else if text = "1'b1" then .constant true
  else .net text

/-- The bits and signs of a text. -/
def symbols : List Token → Option (List Symbol)
  | [] => some []
  | .word vector :: .sign '[' :: .word index :: .sign ']' :: rest => do
    return .atom (.bit vector (← index.toNat?)) :: (← symbols rest)
  | .word text :: rest => return .atom (wordAtom text) :: (← symbols rest)
  | .sign char :: rest => return .sign char :: (← symbols rest)

/-- What waits for the next operand inside a pair of parentheses. -/
structure Frame where
  /-- What stands to the left of a disjunction. -/
  disjunction : Option Expression := none
  /-- What stands to the left of an exclusive disjunction, after that. -/
  exclusive : Option Expression := none
  /-- What stands to the left of a conjunction, after that. -/
  conjunction : Option Expression := none
  /-- The complements right before the operand. -/
  complements : Nat := 0

/-- Puts a connective to the left of an operand, if there is something for its left side. -/
def Operator.join (operator : Operator) (left : Option Expression) (right : Expression) :
    Expression :=
  match left with
  | some left => .binary operator left right
  | none => right

namespace Frame

/-- The operand with the complements before it. -/
def complemented (frame : Frame) (operand : Expression) : Expression :=
  Nat.iterate .not frame.complements operand

/-- All that is read of a conjunction when an operand ends it. -/
def conjoined (frame : Frame) (operand : Expression) : Expression :=
  Operator.and.join frame.conjunction operand

/-- All that is read of an exclusive disjunction when an operand ends it. -/
def excluded (frame : Frame) (operand : Expression) : Expression :=
  Operator.xor.join frame.exclusive (frame.conjoined operand)

/-- All that is read when an operand ends it. -/
def whole (frame : Frame) (operand : Expression) : Expression :=
  Operator.or.join frame.disjunction (frame.excluded operand)

end Frame

/-- The state of a reader of formulas. -/
structure Formula where
  frame : Frame := {}
  /-- The frames outside the open parentheses, the innermost first. -/
  outer : List Frame := []
  /-- The last operand, if it has been read. -/
  operand : Option Expression := none

namespace Formula

/-- An operand where one is expected. -/
def take (frame : Frame) (outer : List Frame) (operand : Expression) : Formula where
  frame := { frame with complements := 0 }
  outer := outer
  operand := some (frame.complemented operand)

/-- Reads one more symbol. -/
def next (formula : Formula) (symbol : Symbol) : Option Formula :=
  let frame := formula.frame
  match formula.operand, symbol with
  | none, .atom bit => some (take frame formula.outer (.atom bit))
  | none, .sign '~' =>
    some { formula with frame := { frame with complements := frame.complements + 1 } }
  | none, .sign '(' => some { outer := frame :: formula.outer }
  | some operand, .sign '&' =>
    some { formula with
      frame := { frame with conjunction := some (frame.conjoined operand) }
      operand := none }
  | some operand, .sign '^' =>
    some { formula with
      frame := { disjunction := frame.disjunction, exclusive := some (frame.excluded operand) }
      operand := none }
  | some operand, .sign '|' =>
    some { formula with
      frame := { disjunction := some (frame.whole operand) }
      operand := none }
  | some operand, .sign ')' =>
    match formula.outer with
    | before :: outer => some (take before outer (frame.whole operand))
    | [] => none
  | _, _ => none

/-- Reads symbols one after the other. -/
def read (formula : Formula) (symbols : List Symbol) : Option Formula :=
  symbols.foldlM next formula

/-- What has been read, if it is complete. -/
def result (formula : Formula) : Option Expression :=
  match formula.operand, formula.outer with
  | some operand, [] => some (formula.frame.whole operand)
  | _, _ => none

end Formula

/-- The formula that symbols spell. -/
def expression? (symbols : List Symbol) : Option Expression := do
  (← Formula.read {} symbols).result

/-- The items of a list with separators between them and a mark at its end. -/
def listed? {α β : Type} [DecidableEq α] (separator mark : α) (item? : List α → Option β)
    (pieces : List α) : Option (List β) :=
  if pieces.getLast? ≠ some mark then none
  else if pieces.dropLast = [] then some []
  else (pieces.dropLast.splitOn separator).mapM item?

/-- A single bit. -/
def bit? : List Symbol → Option Atom
  | [.atom bit] => some bit
  | _ => none

/-- A concatenation, low bit first. -/
def word? : List Symbol → Option (List Atom)
  | .sign '\x7b' :: rest => return (← listed? (.sign ',') (.sign '\x7d') bit? rest).reverse
  | _ => none

/-- The connection of a pin. -/
def connection? : List Symbol → Option (String × Atom)
  | [.sign '.', .atom (.net pin), .sign '(', .atom bit, .sign ')'] => some (pin, bit)
  | _ => none

/-- A continuous assignment to a bit, or of a sum to a word. -/
def assignment? (symbols : List Symbol) : Option Statement :=
  match symbols.splitOn (.sign '=') with
  | [[.atom target], value] => return .assign target (← expression? value) none
  | [target, sum] =>
    match sum.splitOn (.sign '+') with
    | [left, right] => return .assignSum (← word? target) (← word? left) (← word? right) ""
    | _ => none
  | _ => none

/-- An assignment at the edge of a clock. -/
def clocked? (clock : String) : List Symbol → Option Statement
  | [.atom target, .sign '<', .sign '=', .atom value] => some (.clocked clock target value "")
  | _ => none

/-- The rest of an assignment at the edge of a clock. -/
def always? : List Token → Option Statement
  | .sign '@' :: .sign '(' :: .word "posedge" :: .word clock :: .sign ')' :: rest => do
    clocked? clock (← symbols rest)
  | _ => none

/-- The rest of an instance of a cell. -/
def instance? (kind : String) : List Token → Option Statement
  | .word name :: .sign '(' :: rest =>
    return .cell kind name (← listed? (.sign ',') (.sign ')') connection? (← symbols rest))
  | _ => none

/-- The rest of a statement after its first word. -/
def statement? (first : String) (rest : List Token) : Option Statement :=
  if first = "assign" then do assignment? (← symbols rest)
  else if first = "always" then always? rest
  else instance? first rest

/-- The rest of a declaration of a net. -/
def net? (isRegister : Bool) : List Token → Option NetDeclaration
  | [.word name] => some { isRegister, name }
  | _ => none

/-- A declaration or a statement. -/
def item? : List Token → Option (NetDeclaration ⊕ Statement)
  | .word first :: rest =>
    if first = "wire" then (net? false rest).map .inl
    else if first = "reg" then (net? true rest).map .inl
    else (statement? first rest).map .inr
  | _ => none

/-- The direction of a port; whether it is an input. -/
def direction? (text : String) : Option Bool :=
  if text = "input" then some true
  else if text = "output" then some false
  else none

/-- A port of the header. -/
def port? : List Token → Option PortDeclaration
  | [.word direction, .word "wire", .word name] =>
    return { isInput := ← direction? direction, name, highest := none }
  | [.word direction, .word "wire", .sign '[', .word highest, .sign ':', .word "0", .sign ']',
      .word name] =>
    return { isInput := ← direction? direction, name, highest := some (← highest.toNat?) }
  | _ => none

namespace Module

/-- The module of a given name whose text goes on with given tokens after its name. -/
def body? (name : String) (tokens : List Token) : Option Module :=
  match tokens.splitOn (.sign ';') with
  | header :: sections =>
    if sections.getLast? = some [.word "endmodule"] then do
      let ports ← listed? (.sign ',') (.sign ')') port? header
      let items ← sections.dropLast.mapM item?
      return {
        name, ports
        nets := items.filterMap Sum.getLeft?
        statements := items.filterMap Sum.getRight? }
    else none
  | [] => none

/-- The module that a text spells. What stands for its name has to be one. -/
def parse (text : String) : Option Module :=
  match tokenize text.toList with
  | .word "module" :: .word name :: .sign '(' :: rest =>
    if IsName name then body? name rest else none
  | _ => none

/-- The module of a given name that a text spells. The name is one of the words of the text, unless
it is no name at all: such a text can only be compared with what stands in its place. -/
def read (name text : String) : Option Module :=
  if IsName name then
    (parse text).filter fun module => module.name = name
  else
    let opening := ("module " ++ name ++ "(\n").toList
    if opening <+: text.toList then
      body? name (tokenize (text.toList.drop opening.length))
    else none

end Module

/-! ## What can be read back -/

/-- A remark that stays on its line. -/
def IsRemark (text : String) : Prop :=
  '\n' ∉ text.toList

namespace Atom

/-- The bit is of something with a name. -/
def Legible : Atom → Prop
  | .net name => IsName name
  | .bit vector _ => IsName vector
  | .constant _ => True

end Atom

/-- All bits of the formula can be read. -/
def Expression.Legible : Expression → Prop
  | .atom bit => bit.Legible
  | .not operand => operand.Legible
  | .binary _ left right => left.Legible ∧ right.Legible

namespace Statement

/-- All names and remarks of the statement can be read. -/
def Legible : Statement → Prop
  | .assign target value remark =>
    target.Legible ∧ value.Legible ∧ ∀ text ∈ remark, IsRemark text
  | .assignSum target left right remark =>
    (∀ bit ∈ target ++ left ++ right, bit.Legible) ∧ IsRemark remark
  | .clocked clock target value remark =>
    IsName clock ∧ target.Legible ∧ value.Legible ∧ IsRemark remark
  | .cell kind name connections =>
    IsName kind ∧ IsName name ∧ ∀ connection ∈ connections,
      IsName connection.1 ∧ connection.2.Legible

/-- The statement without its remark. -/
def bare : Statement → Statement
  | .assign target value _ => .assign target value none
  | .assignSum target left right _ => .assignSum target left right ""
  | .clocked clock target value _ => .clocked clock target value ""
  | .cell kind name connections => .cell kind name connections

end Statement

namespace Module

/-- All names and remarks of the module can be read. -/
structure Legible (module : Module) : Prop where
  ports : ∀ port ∈ module.ports, IsName port.name
  nets : ∀ net ∈ module.nets, IsName net.name
  statements : ∀ statement ∈ module.statements, statement.Legible

/-- The module without its remarks. -/
def bare (module : Module) : Module :=
  { module with statements := module.statements.map Statement.bare }

end Module

end Datapath.Verilog

import Std.Data.String.ToNat
import Datapath.Proofs.Reading

/-!
# The spelling of formulas

A formula has a spelling, the symbols that its text is cut into, and the reader makes the formula
out of them: `Expression.tokensOf_text` and `Expression.expression?_symbols`. Within parentheses a
formula leaves the reader waiting for what may follow its last operand, and as an operand it is
taken whole; the induction carries both, for any frames outside.
-/

namespace Datapath.Verilog

/-! ## Formulas -/

/-- The sign of a connective. -/
def Operator.sign : Operator → Char
  | .and => '&'
  | .or => '|'
  | .xor => '^'

/-- Puts parentheses around symbols unless they are not needed. -/
def parenthesize (bare : Bool) (symbols : List Symbol) : List Symbol :=
  if bare then symbols else .sign '(' :: symbols ++ [.sign ')']

namespace Expression

/-- The symbols of a formula. -/
def symbols : Expression → List Symbol
  | .atom bit => [.atom bit]
  | .not operand => .sign '~' :: parenthesize operand.isClosed operand.symbols
  | .binary operator left right =>
    parenthesize (left.chains operator) left.symbols ++ .sign operator.sign ::
      parenthesize right.isClosed right.symbols

/-- What waits for the right side of a connective with a given left side. -/
def awaiting (operator : Operator) (left : Expression) : Frame :=
  match operator with
  | .or => { disjunction := some left }
  | .xor => { exclusive := some left }
  | .and => { conjunction := some left }

/-- The frame in which the last operand of a formula is read. -/
def context : Expression → Frame
  | .binary operator left _ => awaiting operator left
  | _ => {}

/-- The last operand of a formula, a connective's right side. -/
def last : Expression → Expression
  | .binary _ _ right => right
  | formula => formula

theorem whole_context (formula : Expression) : formula.context.whole formula.last = formula := by
  cases formula with
  | atom bit => rfl
  | not operand => rfl
  | binary operator left right => cases operator <;> rfl

/-- The looser connectives wait outside, the same connective goes on from the left. -/
theorem read_operator (operator : Operator) (left : Expression) (outer : List Frame)
    (rest : List Symbol) (chains : left.chains operator = true) :
    Formula.read { frame := left.context, outer, operand := some left.last }
        (.sign operator.sign :: rest) =
      Formula.read { frame := awaiting operator left, outer } rest := by
  cases left with
  | atom bit => cases operator <;> rfl
  | not operand => cases operator <;> rfl
  | binary inner first second =>
      have same : inner = operator := of_decide_eq_true chains
      subst same
      cases inner <;> rfl

theorem read_parenthesized {formula : Expression} {frame : Frame} {outer : List Frame}
    {rest : List Symbol}
    (reads : ∀ outer rest, Formula.read { outer } (formula.symbols ++ rest) =
      Formula.read { frame := formula.context, outer, operand := some formula.last } rest) :
    Formula.read { frame, outer } (parenthesize false formula.symbols ++ rest) =
      Formula.read (.take frame outer formula) rest := by
  have opened : Formula.read { frame, outer } (parenthesize false formula.symbols ++ rest) =
      Formula.read { outer := frame :: outer } (formula.symbols ++ .sign ')' :: rest) := by
    rw [parenthesize, if_neg Bool.false_ne_true, List.append_assoc]
    rfl
  rw [opened, reads]
  change Formula.read (.take frame outer (formula.context.whole formula.last)) rest = _
  rw [whole_context]

/-- A formula is read within parentheses as a whole, and where an operand is expected as one. -/
theorem read_symbols (formula : Expression) :
    (∀ outer rest, Formula.read { outer } (formula.symbols ++ rest) =
      Formula.read { frame := formula.context, outer, operand := some formula.last } rest) ∧
    ∀ frame outer rest,
      Formula.read { frame, outer } (parenthesize formula.isClosed formula.symbols ++ rest) =
        Formula.read (.take frame outer formula) rest := by
  induction formula with
  | atom bit => exact ⟨fun _ _ => rfl, fun _ _ _ => rfl⟩
  | not operand ih =>
      have reads (frame : Frame) (outer : List Frame) (rest : List Symbol) :
          Formula.read { frame, outer } (symbols (.not operand) ++ rest) =
            Formula.read (.take frame outer (.not operand)) rest :=
        ih.2 { frame with complements := frame.complements + 1 } outer rest
      exact ⟨fun outer rest => reads {} outer rest, reads⟩
  | binary operator left right ihLeft ihRight =>
      have reads (outer : List Frame) (rest : List Symbol) :
          Formula.read { outer } (symbols (.binary operator left right) ++ rest) = Formula.read
            { frame := awaiting operator left, outer, operand := some right } rest := by
        rw [symbols, List.append_assoc, List.cons_append]
        have done : Formula.take (awaiting operator left) outer right =
            { frame := awaiting operator left, outer, operand := some right } := by
          cases operator <;> rfl
        rw [← done, ← ihRight.2]
        cases chains : left.chains operator with
        | true =>
            change Formula.read _ (left.symbols ++ _) = _
            rw [ihLeft.1, read_operator operator left outer _ chains]
        | false =>
            rw [read_parenthesized ihLeft.1]
            cases operator <;> rfl
      exact ⟨reads, fun frame outer rest => read_parenthesized reads⟩

/-- The symbols of a formula spell it. -/
theorem expression?_symbols (formula : Expression) :
    expression? formula.symbols = some formula := by
  have reads := (read_symbols formula).1 [] []
  rw [List.append_nil] at reads
  rw [expression?, reads]
  exact congrArg some (whole_context formula)

end Expression

/-! ## Symbols -/

/-- The tokens of a symbol. -/
def Symbol.tokens : Symbol → List Token
  | .atom (.net name) => [.word name]
  | .atom (.bit vector index) => [.word vector, .sign '[', .word (toString index), .sign ']']
  | .atom (.constant value) => [.word (if value then "1'b1" else "1'b0")]
  | .sign char => [.sign char]

/-- The symbol is a bit with a name or one of some signs. -/
def Symbol.Uses (signs : List Char) : Symbol → Prop
  | .atom bit => bit.Legible
  | .sign char => char ∈ signs

theorem Symbol.Uses.mono {signs more : List Char} (subset : signs ⊆ more) {symbol : Symbol}
    (uses : symbol.Uses signs) : symbol.Uses more := by
  cases symbol with
  | atom bit => exact uses
  | sign char => exact subset uses

/-- The signs between the bits of a statement. -/
def punctuation : List Char :=
  ['~', '&', '|', '^', '(', ')', '\x7b', ',', '\x7d', '=', '+', '<', '.']

theorem IsName.ne_of_not {text other : String} (isName : IsName text)
    (noName : ¬ IsName other := by exact fun isName => absurd isName.chars (by decide)) :
    text ≠ other := by
  rintro rfl
  exact noName isName

/-- Legible symbols are made out of their tokens. -/
theorem symbols_tokens {spelling : List Symbol}
    (legible : ∀ symbol ∈ spelling, symbol.Uses punctuation) :
    symbols (spelling.flatMap Symbol.tokens) = some spelling := by
  induction spelling with
  | nil => rfl
  | cons symbol spelling ih =>
      rw [List.forall_mem_cons] at legible
      have rest := ih legible.2
      have noIndex (index : String) (more : List Token) :
          spelling.flatMap Symbol.tokens ≠ .sign '[' :: .word index :: .sign ']' :: more := by
        intro starts
        cases spelling with
        | nil => cases starts
        | cons next spelling =>
            rcases next with (name | ⟨vector, index⟩ | value) | char
            · cases starts
            · cases starts
            · cases starts
            · rw [List.flatMap_cons] at starts
              have same : Token.sign char = .sign '[' := (List.cons_eq_cons.mp starts).1
              have opens : '[' ∈ punctuation :=
                Token.sign.inj same ▸ legible.2 (.sign char) List.mem_cons_self
              exact absurd opens (by decide)
      rw [List.flatMap_cons]
      rcases symbol with (name | ⟨vector, index⟩ | value) | char
      · have isName : IsName name := legible.1
        have isNet : wordAtom name = .net name := by
          rw [wordAtom, if_neg isName.ne_of_not, if_neg isName.ne_of_not]
        change symbols (.word name :: spelling.flatMap Symbol.tokens) = _
        rw [symbols, rest, isNet]
        · rfl
        · exact noIndex
      · change symbols (.word vector :: .sign '[' :: .word index.repr :: .sign ']' ::
          spelling.flatMap Symbol.tokens) = _
        rw [symbols, Nat.toNat?_repr, rest]
        rfl
      · change symbols (.word _ :: spelling.flatMap Symbol.tokens) = _
        rw [symbols, rest]
        · cases value <;> rfl
        · exact noIndex
      · change symbols (.sign char :: spelling.flatMap Symbol.tokens) = _
        rw [symbols, rest]
        rfl

/-! ## Texts and their tokens -/

/-- The tokens of a text without remarks. -/
def tokensOf (text : String) : List Token :=
  lex text.toList

section

variable {separator : String}

theorem tokensOf_append_separator (left : String) (separates : IsSeparator separator.toList) :
    tokensOf (left ++ separator) = tokensOf left ++ tokensOf separator := by
  rw [tokensOf, String.toList_append, lex_append_separator _ separates]
  rfl

theorem tokensOf_separator_append (separates : IsSeparator separator.toList) (right : String) :
    tokensOf (separator ++ right) = tokensOf separator ++ tokensOf right := by
  rw [tokensOf, String.toList_append, lex_separator_append separates]
  rfl

theorem tokensOf_separated (left right : String) (separates : IsSeparator separator.toList) :
    tokensOf (left ++ separator ++ right) =
      tokensOf left ++ tokensOf separator ++ tokensOf right := by
  rw [tokensOf, String.toList_append, String.toList_append, lex_separated _ _ separates]
  rfl

theorem tokensOf_intercalate (separates : IsSeparator separator.toList) (texts : List String) :
    tokensOf (separator.intercalate texts) =
      (tokensOf separator).intercalate (texts.map tokensOf) := by
  rw [tokensOf, String.toList_intercalate, lex_intercalate separates, List.map_map]
  rfl

end

theorem IsName.tokensOf_eq {text : String} (isName : IsName text) :
    tokensOf text = [.word text] := by
  apply lex_word
  · rintro rfl
    exact Bool.false_ne_true isName.starts
  · intro char member
    have allowed := List.all_eq_true.mp isName.chars char member
    rw [isWordChar, allowed, Bool.true_or]

theorem toList_toString (number : Nat) : (toString number).toList = Nat.toDigits 10 number :=
  String.toList_ofList

theorem isDigit_of_mem_toString {number : Nat} {char : Char}
    (member : char ∈ (toString number).toList) : char.isDigit = true :=
  Nat.isDigit_of_mem_toDigits (by decide) (by decide) (toList_toString number ▸ member)

theorem tokensOf_toString (number : Nat) :
    tokensOf (toString number) = [.word (toString number)] := by
  refine lex_word Nat.repr_ne_empty fun char member => ?_
  simp [isWordChar, Char.isAlphanum, isDigit_of_mem_toString member]

theorem Atom.tokensOf_text {bit : Atom} (legible : bit.Legible) :
    tokensOf bit.text = (Symbol.atom bit).tokens := by
  cases bit with
  | net name => exact IsName.tokensOf_eq legible
  | bit vector index =>
      have isName : IsName vector := legible
      rw [text, tokensOf_append_separator _ (by decide), tokensOf_separated _ _ (by decide),
        isName.tokensOf_eq, tokensOf_toString]
      rfl
  | constant value => cases value <;> rfl

namespace Expression

/-- The signs of formulas. -/
def signs : List Char :=
  ['~', '&', '|', '^', '(', ')']

theorem tokensOf_enclose {text : String} {symbols : List Symbol} (bare : Bool)
    (spelled : tokensOf text = symbols.flatMap Symbol.tokens) :
    tokensOf (enclose bare text) = (parenthesize bare symbols).flatMap Symbol.tokens := by
  cases bare with
  | true => exact spelled
  | false =>
      change tokensOf ("(" ++ text ++ ")") = _
      rw [tokensOf_append_separator _ (by decide), tokensOf_separator_append (by decide), spelled]
      simp [parenthesize, Symbol.tokens]
      rfl

theorem tokensOf_text {formula : Expression} (legible : formula.Legible) :
    tokensOf formula.text = formula.symbols.flatMap Symbol.tokens := by
  induction formula with
  | atom bit => simpa [symbols, text] using Atom.tokensOf_text legible
  | not operand ih =>
      rw [text, tokensOf_separator_append (by decide), tokensOf_enclose _ (ih legible)]
      rfl
  | binary operator left right ihLeft ihRight =>
      have between : IsSeparator (" " ++ operator.text ++ " ").toList := by
        cases operator <;> decide
      have sign : tokensOf (" " ++ operator.text ++ " ") = [.sign operator.sign] := by
        cases operator <;> rfl
      have shape : text (.binary operator left right) =
          enclose (left.chains operator) left.text ++ (" " ++ operator.text ++ " ") ++
            enclose right.isClosed right.text := by
        simp [text, String.append_assoc]
      rw [shape, tokensOf_separated _ _ between, sign, tokensOf_enclose _ (ihLeft legible.1),
        tokensOf_enclose _ (ihRight legible.2), symbols, List.flatMap_append, List.flatMap_cons,
        List.append_assoc]
      rfl

theorem uses_parenthesize {spelling : List Symbol} (bare : Bool)
    (uses : ∀ symbol ∈ spelling, symbol.Uses signs) :
    ∀ symbol ∈ parenthesize bare spelling, symbol.Uses signs := by
  cases bare with
  | true => exact uses
  | false =>
      intro symbol member
      simp only [parenthesize, Bool.false_eq_true, if_false, List.cons_append, List.mem_cons,
        List.mem_append, List.not_mem_nil, or_false] at member
      rcases member with rfl | inside | rfl
      · exact (by decide : '(' ∈ signs)
      · exact uses symbol inside
      · exact (by decide : ')' ∈ signs)

theorem uses_symbols {formula : Expression} (legible : formula.Legible) :
    ∀ symbol ∈ formula.symbols, symbol.Uses signs := by
  induction formula with
  | atom bit => exact List.forall_mem_singleton.mpr legible
  | not operand ih =>
      rw [symbols, List.forall_mem_cons]
      exact ⟨(by decide : '~' ∈ signs), uses_parenthesize _ (ih legible)⟩
  | binary operator left right ihLeft ihRight =>
      rw [symbols, List.forall_mem_append, List.forall_mem_cons]
      have known : operator.sign ∈ signs := by
        cases operator <;> decide
      exact ⟨uses_parenthesize _ (ihLeft legible.1), known,
        uses_parenthesize _ (ihRight legible.2)⟩

end Expression

end Datapath.Verilog

import Datapath.Multiplier.Booth
import Datapath.Parameters

/-!
# Partial products

The matrix of a product by either scheme. In the schoolbook scheme it holds the conjunction of every
pair of operand bits, in the column of their joint weight.
-/

namespace Datapath.Multiplier

/-- The scope of the schoolbook conjunctions. -/
def schoolbookScope : String :=
  "pp"

/-- Adds the conjunctions of one bit with the bits of a word, at consecutive columns. -/
def pushConjunctions (bit : SignalId) :
    (column : Nat) → (word : List SignalId) → Matrix → Build Matrix
  | _, [], matrix => return matrix
  | column, other :: higher, matrix => do
    let conjunction ← Build.and2 bit other
    pushConjunctions bit (column + 1) higher (← Build.push matrix column conjunction)

/-- Adds the conjunctions of every bit of a word with every bit of another. -/
def pushProducts (right : List SignalId) :
    (column : Nat) → (left : List SignalId) → Matrix → Build Matrix
  | _, [], matrix => return matrix
  | column, bit :: higher, matrix => do
    pushProducts right (column + 1) higher (← pushConjunctions bit column right matrix)

/-- The matrix of all conjunctions of a product. Refuses words that differ in width. -/
def schoolbookProducts (left right : List SignalId) : Attempt Matrix := do
  if left.length ≠ right.length then
    Attempt.refuse .unequalWidths
  Build.setScope (some schoolbookScope)
  let matrix ← pushProducts right 0 left (.empty (Scheme.schoolbook.columns left.length))
  Build.setScope none
  return matrix

/-- The matrix of a product by a scheme, for words that it need not accept. -/
def uncheckedProducts (scheme : Scheme) (left right : List SignalId) : Attempt Matrix :=
  match scheme with
  | .booth => boothProducts left right
  | .schoolbook => schoolbookProducts left right

/-- The matrix of a product by a scheme. Refuses widths that the scheme does not accept. -/
def partialProducts (scheme : Scheme) (left right : List SignalId) : Attempt Matrix := do
  Attempt.ofExcept ((scheme.checkWidth left.length).mapError .config)
  uncheckedProducts scheme left right

end Datapath.Multiplier

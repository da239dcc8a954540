import Datapath.Builder.Gates
import Datapath.Multiplier.Matrix

/-!
# Radix-4 recoded partial products

Radix-4 recoding reads the multiplier in overlapping windows of three bits and turns each into a
signed digit from -2 to 2. Digit `k` selects a row, the multiplicand times the digit, that starts at
column `2 * k`. A negative row is the complement of its magnitude plus one in its lowest column.

Sign extension is folded into a few correction bits. With `s` the sign of a row and `n` the width:

* the first row gets `s`, `s` and `!s` in columns `n + 1`, `n + 2` and `n + 3`
* every middle row `k` gets `!s` and one in columns `2 * k + n + 1` and `2 * k + n + 2`
* the last row is never negative and gets nothing

The first row contributes `2 ^ (n + 3) - s * 2 ^ (n + 1)` and a middle row
`(3 - s) * 2 ^ (2 * k + n + 1)`; the constants sum to `2 ^ (2 * n + 1)`, one beyond the last column.
-/

namespace Datapath.Multiplier

/-- The control signals of a digit. -/
structure Digit where
  /-- Whether the row is complemented. -/
  sign : SignalId
  /-- Whether the digit is one or minus one. -/
  timesOne : SignalId
  /-- Whether the digit is two or minus two. -/
  timesTwo : SignalId
  deriving DecidableEq, Repr

/-- The digit of a window, low bit first: `b0 + b1 - 2 * b2`. -/
def encodeDigit (b0 b1 b2 : SignalId) : Build Digit := do
  let not0 ← Build.inv b0
  let not1 ← Build.inv b1
  let not2 ← Build.inv b2
  let negative ← Build.and2 b2 not1
  let timesTwo ← Build.ao32 not2 b1 b0 negative not0
  let timesOne ← Build.ao22 not1 b0 b1 not0
  return { sign := b2, timesOne, timesTwo }

/-- A bit of a row, from the multiplicand bit at its position and the one below it. -/
def selectBit (lower upper : SignalId) (digit : Digit) : Build SignalId := do
  let magnitude ← Build.ao22 lower digit.timesTwo upper digit.timesOne
  Build.xor2 magnitude digit.sign

/-- The overlapping windows of three bits, given the lowest bit and those above it. -/
def windows (lowest : SignalId) : List SignalId → List (SignalId × SignalId × SignalId)
  | b1 :: b2 :: higher => (lowest, b1, b2) :: windows b2 higher
  | _ => []

/-- The pairs of neighbours in a word that has false below and above it. -/
def neighbours (word : List SignalId) : List (SignalId × SignalId) :=
  (Builder.falseId :: word).zip (word ++ [Builder.falseId])

/-- The correction bits of a row that is not the last, with their columns. -/
def corrections (width row : Nat) (sign notSign : SignalId) : List (Nat × SignalId) :=
  let start := 2 * row
  let extension :=
    if row = 0 then [(width + 1, sign), (width + 2, sign), (width + 3, notSign)]
    else [(start + width + 1, notSign), (start + width + 2, Builder.trueId)]
  extension ++ [(start, sign)]

/-- Adds the bits of a row at consecutive columns. -/
def pushRow (digit : Digit) : (column : Nat) → List (SignalId × SignalId) → Matrix → Build Matrix
  | _, [], matrix => return matrix
  | column, (lower, upper) :: higher, matrix => do
    let bit ← selectBit lower upper digit
    pushRow digit (column + 1) higher (← Build.push matrix column bit)

/-- The scope of a row. -/
def rowScope (row : Nat) : String :=
  "booth_r" ++ toString row

/-- Adds the row of one window. -/
def boothRow (multiplicand : List SignalId) (row : Nat)
    (window : SignalId × SignalId × SignalId) (matrix : Matrix) : Build Matrix := do
  let width := multiplicand.length
  Build.setScope (some (rowScope row))
  let (b0, b1, b2) := window
  let digit ← encodeDigit b0 b1 b2
  let matrix ← pushRow digit (2 * row) (neighbours multiplicand) matrix
  if row = width / 2 then
    return matrix
  else
    let notSign ← Build.inv digit.sign
    Build.pushAll matrix (corrections width row digit.sign notSign)

/-- Adds the rows of consecutive windows. -/
def boothRows (multiplicand : List SignalId) :
    (row : Nat) → List (SignalId × SignalId × SignalId) → Matrix → Build Matrix
  | _, [], matrix => return matrix
  | row, window :: higher, matrix => do
    boothRows multiplicand (row + 1) higher (← boothRow multiplicand row window matrix)

/-- The windows of a multiplier, with false below it and twice above it, so that the topmost window
makes the digits stand for an unsigned number. -/
def multiplierWindows (multiplier : List SignalId) : List (SignalId × SignalId × SignalId) :=
  windows Builder.falseId (multiplier ++ [Builder.falseId, Builder.falseId])

/-- The matrix of the recoded rows of a product. Refuses words that differ in width or have an odd
one. -/
def boothProducts (multiplier multiplicand : List SignalId) : Attempt Matrix := do
  let width := multiplier.length
  if width ≠ multiplicand.length then
    Attempt.refuse .unequalWidths
  if width % 2 ≠ 0 then
    Attempt.refuse .oddWidth
  let matrix ← boothRows multiplicand 0 (multiplierWindows multiplier)
    (.empty (Scheme.booth.columns width))
  Build.setScope none
  Build.note (.boothMatrix width (width / 2 + 1) matrix.heights)
  return matrix

end Datapath.Multiplier

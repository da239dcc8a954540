/-!
# Calls outside a contract

Operations that ask something of their arguments refuse a call that does not grant it. Such a
refusal is a `Fault`: it blames the caller, and the operation that faults has no result.
-/

namespace Datapath

/-- What a call got wrong. -/
inductive Fault where
  /-- A primitive was asked for with the wrong number of inputs. -/
  | wrongArity
  /-- Two operands of one operation differ in width. -/
  | unequalWidths
  /-- Radix-4 recoding was asked for words of odd width. -/
  | oddWidth
  /-- A signal number that the netlist does not have. -/
  | unknownSignal
  /-- A bit position that a word does not have. -/
  | unknownBit
  /-- A column that a matrix does not have. -/
  | unknownColumn
  /-- A gate lacks a pin that its primitive needs. -/
  | missingPin
  /-- A port without bits has no index range. -/
  | emptyPort
  /-- A count beyond the range of a 64-bit word. -/
  | overflow
  /-- A list that no memory can hold. -/
  | outOfMemory
  /-- More samples than a batch has lanes, or samples missing from one of its inputs. -/
  | sampleCount
  /-- A word with more bits than its type holds. -/
  | wideWord
  /-- Not one value for each input port. -/
  | inputCount
  deriving DecidableEq, Repr

namespace Fault

/-- The largest count is one below this. -/
def countLimit : Nat :=
  1 <<< 64

/-- Passes a count that fits a 64-bit word. -/
def checkCount (count : Nat) : Except Fault Nat :=
  if count < countLimit then pure count else throw .overflow

end Fault

end Datapath

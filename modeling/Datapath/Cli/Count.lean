import Datapath.Fault

/-!
# Counts as text

How a count is read from what a user typed: decimal digits, with a plus sign in front perhaps.
-/

namespace Datapath.Cli

/-- Why a text is no count. -/
inductive CountError where
  | empty
  | invalidDigit
  | tooLarge
  deriving DecidableEq, Repr

namespace CountError

/-- The wording of the error. -/
def message : CountError → String
  | .empty => "cannot parse integer from empty string"
  | .invalidDigit => "invalid digit found in string"
  | .tooLarge => "number too large to fit in target type"

end CountError

/-- Reads digits after those that make a given number. What is wrong first is reported. -/
def readDigits : List Char → Nat → Except CountError Nat
  | [], number => pure number
  | character :: rest, number =>
    if character.isDigit then
      let extended := 10 * number + (character.toNat - '0'.toNat)
      if extended < Fault.countLimit then readDigits rest extended else throw .tooLarge
    else
      throw .invalidDigit

/-- Reads a count. -/
def readCount (text : String) : Except CountError Nat :=
  match text.toList with
  | [] => throw .empty
  | ['+'] => throw .invalidDigit
  | '+' :: digits => readDigits digits 0
  | digits => readDigits digits 0

end Datapath.Cli

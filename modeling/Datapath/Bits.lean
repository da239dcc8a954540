import Datapath.Fault

/-!
# Binary digits

Words as lists of digits, least significant first. `value` and `ofNat` translate between words and
numbers; `testBit_value` says that the digits of a word are the binary digits of its value.
-/

namespace Datapath.Bits

/-- The number with the given binary digits. -/
def value : List Bool → Nat
  | [] => 0
  | digit :: higher => digit.toNat + 2 * value higher

/-- The lowest digits of a number. -/
def ofNat (width number : Nat) : List Bool :=
  (List.range width).map number.testBit

/-- The length of a word must be less than this: three bits of the machine word that holds it count
something else. -/
def lengthLimit : Nat :=
  1 <<< 61

/-- The lowest digits of a number, unless they are too many for a word of digits. -/
def word (width number : Nat) : Except Fault (List Bool) :=
  if width < lengthLimit then pure (ofNat width number) else throw .overflow

theorem testBit_value (digits : List Bool) (position : Nat) :
    (value digits).testBit position = digits.getD position false := by
  induction digits generalizing position with
  | nil => simp [value]
  | cons digit higher ih =>
    cases position with
    | zero => cases digit <;> simp [value, Nat.testBit_zero]
    | succ position =>
      have half : value (digit :: higher) / 2 = value higher := by
        rw [value]
        cases digit with
        | false => rw [Bool.toNat_false]; omega
        | true => rw [Bool.toNat_true]; omega
      simp [Nat.testBit_succ, half, ih]

@[simp]
theorem length_ofNat (width number : Nat) : (ofNat width number).length = width := by
  simp [ofNat]

end Datapath.Bits

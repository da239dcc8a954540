import Datapath.Primitive
import Datapath.Fault

/-!
# What gates compute

Gates are evaluated over any carrier of truth values with the bitwise connectives: over `Bool` a
valuation is one assignment, over `UInt64` it is sixty-four independent ones. `Primitive.evaluate`
gives the values of a gate's output pins from those of its input pins.
-/

namespace Datapath

/-- A carrier of truth values on which gates compute. -/
class Logic (α : Type) extends AndOp α, OrOp α, XorOp α, Complement α where
  /-- The value that stands for a constant. -/
  ofBool : Bool → α

/-- A single truth value. -/
instance : Logic Bool where
  and left right := left && right
  or left right := left || right
  xor left right := left ^^ right
  complement value := !value
  ofBool value := value

/-- Sixty-four truth values side by side. -/
instance : Logic UInt64 where
  ofBool value := if value then ~~~0 else 0

namespace Logic

variable {α : Type} [Logic α]

/-- The sum of two bits and a carry. -/
def sum (left right carry : α) : α :=
  left ^^^ right ^^^ carry

/-- The carry out of two bits and a carry. -/
def carry (left right carry : α) : α :=
  (left &&& right) ||| (carry &&& (left ^^^ right))

/-- The sum bits of a word-level addition, low bit first, given the pairs of operand bits and the
carry into the lowest of them. The carry out is dropped. -/
def rippleSum : List (α × α) → α → List α
  | [], _ => []
  | (left, right) :: rest, incoming =>
    sum left right incoming :: rippleSum rest (carry left right incoming)

end Logic

namespace Primitive

variable {α : Type} [Logic α]

/-- The values of the outputs of a gate of fixed arity. Inputs beyond those of the primitive have no
effect, missing ones are a fault; the word-level adder has no fixed arity. -/
def outputs (primitive : Primitive) (inputs : List α) : Except Fault (List α) :=
  match primitive, inputs with
  | .and2, a :: b :: _ => pure [a &&& b]
  | .or2, a :: b :: _ => pure [a ||| b]
  | .xor2, a :: b :: _ => pure [a ^^^ b]
  | .inv, a :: _ => pure [~~~a]
  | .halfAdder, a :: b :: _ => pure [a ^^^ b, a &&& b]
  | .fullAdder, a :: b :: c :: _ => pure [Logic.sum a b c, Logic.carry a b c]
  | .ao21, a1 :: a2 :: b1 :: _ => pure [(a1 &&& a2) ||| b1]
  | .ao22, a1 :: a2 :: b1 :: b2 :: _ => pure [(a1 &&& a2) ||| (b1 &&& b2)]
  | .ao32, a1 :: a2 :: a3 :: b1 :: b2 :: _ => pure [(a1 &&& a2 &&& a3) ||| (b1 &&& b2)]
  | .dff, d :: _ => pure [d]
  | _, _ => throw .missingPin

/-- Gives the values to the first of `count` pins and false to the others; fails when there are
fewer pins than values. -/
def drivePins (values : List α) (count : Nat) : Except Fault (List α) :=
  if count < values.length then
    throw .missingPin
  else
    pure (values ++ List.replicate (count - values.length) (Logic.ofBool false))

/-- The values of a gate's `count` output pins from those of its input pins. A word-level adder
takes as many operand bits as it has outputs. -/
def evaluate (primitive : Primitive) (inputs : List α) (count : Nat) : Except Fault (List α) :=
  match primitive with
  | .add =>
    if inputs.length < 2 * count then
      throw .missingPin
    else
      pure (Logic.rippleSum ((inputs.take count).zip (inputs.drop count)) (Logic.ofBool false))
  | primitive => do drivePins (← primitive.outputs inputs) count

end Primitive

end Datapath

import Datapath.Builder.Basic

/-!
# Gates with decomposition

One construction step for each primitive. A primitive that the provider realizes becomes one gate;
any other is built from simpler primitives with the same function:

* `or2 a b` is `inv (and2 (inv a) (inv b))`
* `xor2 a b` is `ao22 a (inv b) (inv a) b`
* `ao21 a1 a2 b1` is `or2 (and2 a1 a2) b1`
* `ao22 a1 a2 b1 b2` is `ao21 a1 a2 (and2 b1 b2)`
* `ao32 a1 a2 a3 b1 b2` is `ao22 (and2 a1 a2) a3 b1 b2`
* a half adder is `xor2 a b` and `and2 a b`
* a full adder is `xor2 t c` and `ao22 a b t c` where `t` is `xor2 a b`
* a word-level adder is a half adder at the lowest bit and full adders above it

Each step only uses those before it, so every decomposition ends in the basis.
-/

namespace Datapath

/-- The outputs of a half or full adder. -/
structure SumCarry where
  sum : SignalId
  carry : SignalId
  deriving DecidableEq, Repr

namespace Build

/-- Adds a gate of the basis with one output. -/
def basisGate (primitive : Primitive) (member : primitive ∈ Primitive.basis)
    (inputs : List SignalId) : Build SignalId := do
  place primitive ((← read).basisRealization primitive member) inputs 1

/-- Adds a gate if the provider realizes the primitive, and otherwise what is given in its stead.
The result of a gate is made from the first of its outputs. -/
def gateOr {α : Type} (primitive : Primitive) (inputs : List SignalId) (outputs : Nat)
    (result : SignalId → α) (decomposition : Build α) : Build α := do
  let provider ← read
  match provider.realize primitive with
  | some realization => return result (← place primitive realization inputs outputs)
  | none =>
    note (.decomposing provider.name primitive)
    decomposition

/-- The conjunction of two signals. -/
def and2 (a b : SignalId) : Build SignalId :=
  basisGate .and2 (by decide) [a, b]

/-- The complement of a signal. -/
def inv (a : SignalId) : Build SignalId :=
  basisGate .inv (by decide) [a]

/-- A register. -/
def dff (d : SignalId) : Build SignalId :=
  basisGate .dff (by decide) [d]

/-- The disjunction of two signals. -/
def or2 (a b : SignalId) : Build SignalId :=
  gateOr .or2 [a, b] 1 id do
    let notA ← inv a
    let notB ← inv b
    inv (← and2 notA notB)

/-- `(a1 & a2) | b1` -/
def ao21 (a1 a2 b1 : SignalId) : Build SignalId :=
  gateOr .ao21 [a1, a2, b1] 1 id do
    or2 (← and2 a1 a2) b1

/-- `(a1 & a2) | (b1 & b2)` -/
def ao22 (a1 a2 b1 b2 : SignalId) : Build SignalId :=
  gateOr .ao22 [a1, a2, b1, b2] 1 id do
    ao21 a1 a2 (← and2 b1 b2)

/-- `(a1 & a2 & a3) | (b1 & b2)` -/
def ao32 (a1 a2 a3 b1 b2 : SignalId) : Build SignalId :=
  gateOr .ao32 [a1, a2, a3, b1, b2] 1 id do
    ao22 (← and2 a1 a2) a3 b1 b2

/-- The exclusive disjunction of two signals. -/
def xor2 (a b : SignalId) : Build SignalId :=
  gateOr .xor2 [a, b] 1 id do
    let notA ← inv a
    let notB ← inv b
    ao22 a notB notA b

/-- The outputs of an adder cell whose gate drives the sum first and the carry next. -/
def sumFirst (first : SignalId) : SumCarry where
  sum := first
  carry := first + 1

/-- The sum and the carry of two signals. -/
def halfAdder (a b : SignalId) : Build SumCarry :=
  gateOr .halfAdder [a, b] 2 sumFirst do
    let sum ← xor2 a b
    let carry ← and2 a b
    return { sum, carry }

/-- The sum and the carry of three signals. -/
def fullAdder (a b c : SignalId) : Build SumCarry :=
  gateOr .fullAdder [a, b, c] 2 sumFirst do
    let half ← xor2 a b
    let sum ← xor2 half c
    let carry ← ao22 a b half c
    return { sum, carry }

/-- Full adders over pairs of operand bits, low pair first, each taking the carry of the one before.
The last carry has no reader. -/
def fullAdders : List (SignalId × SignalId) → (carry : SignalId) → Build (List SignalId)
  | [], _ => return []
  | (a, b) :: higher, carry => do
    let adder ← fullAdder a b carry
    return adder.sum :: (← fullAdders higher adder.carry)

/-- A ripple of adder cells over pairs of operand bits, low pair first. -/
def ripple : List (SignalId × SignalId) → Build (List SignalId)
  | [] => return []
  | (a, b) :: higher => do
    let adder ← halfAdder a b
    return adder.sum :: (← fullAdders higher adder.carry)

/-- The sum of two words of one width, without its carry out. -/
def add (left right : List SignalId) : Build (List SignalId) :=
  gateOr .add (left ++ right) left.length (List.range' · left.length)
    (ripple (left.zip right))

end Build

namespace Attempt

/-- The signals that a primitive yields for any list of inputs. Refuses a list of the wrong length;
for the word-level adder that is an odd or an empty one. -/
def request (primitive : Primitive) (inputs : List SignalId) : Attempt (List SignalId) :=
  match primitive, inputs with
  | .and2, [a, b] => return [← Build.and2 a b]
  | .or2, [a, b] => return [← Build.or2 a b]
  | .xor2, [a, b] => return [← Build.xor2 a b]
  | .inv, [a] => return [← Build.inv a]
  | .halfAdder, [a, b] => do
    let adder ← Build.halfAdder a b
    return [adder.sum, adder.carry]
  | .fullAdder, [a, b, c] => do
    let adder ← Build.fullAdder a b c
    return [adder.sum, adder.carry]
  | .ao21, [a1, a2, b1] => return [← Build.ao21 a1 a2 b1]
  | .ao22, [a1, a2, b1, b2] => return [← Build.ao22 a1 a2 b1 b2]
  | .ao32, [a1, a2, a3, b1, b2] => return [← Build.ao32 a1 a2 a3 b1 b2]
  | .add, inputs =>
    if inputs.isEmpty || inputs.length % 2 = 1 then
      refuse .wrongArity
    else
      let width := inputs.length / 2
      Build.add (inputs.take width) (inputs.drop width)
  | .dff, [d] => return [← Build.dff d]
  | _, _ => refuse .wrongArity

/-- The sum of two words of one width, without its carry out. Refuses words that differ in width or
are empty. -/
def add (left right : List SignalId) : Attempt (List SignalId) :=
  if left.length ≠ right.length then
    refuse .unequalWidths
  else
    request .add (left ++ right)

/-- Whether a signal is a constant. -/
def isLiteral (id : SignalId) : Attempt Bool := do
  match (← get).netlist.signals[id]? with
  | some signal => return signal.isLiteral
  | none => refuse .unknownSignal

/-- A signal one cycle later. Constants never change, so they need no register. -/
def register (id : SignalId) : Attempt SignalId := do
  if ← isLiteral id then
    return id
  else
    Build.dff id

/-- A word one cycle later. -/
def registerWord (word : List SignalId) : Attempt (List SignalId) :=
  word.mapM register

end Attempt

end Datapath

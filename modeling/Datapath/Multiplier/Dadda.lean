import Datapath.Builder.Gates
import Datapath.Multiplier.Matrix

/-!
# Dadda reduction

Reduces a matrix to two rows in stages. Each stage has a target height and brings every column down
to it, from the lowest column up: three bits become their sum in the column and their carry in the
next one, and where only one bit is too many, two bits do. The targets grow by half from two, so
that a stage never needs more than one layer of adders.
-/

namespace Datapath.Multiplier

/-- The targets from a given one up to a height, the smallest first. Refuses heights at which the
next target is out of range. -/
def targetsFrom (maxHeight target : Nat) : Except Fault (List Nat) :=
  if 2 ≤ target ∧ target < maxHeight then do
    discard (Fault.checkCount (3 * target))
    return target :: (← targetsFrom maxHeight (3 * target / 2))
  else
    pure []
termination_by maxHeight - target
decreasing_by omega

/-- The targets of the stages for a matrix of a given height, in the order of the stages. -/
def stageTargets (maxHeight : Nat) : Except Fault (List Nat) := do
  return (← targetsFrom maxHeight 2).reverse

/-- How many adders have been used. -/
structure AdderTally where
  fullAdders : Nat
  halfAdders : Nat
  deriving DecidableEq, Repr

namespace AdderTally

/-- No adders. -/
def zero : AdderTally where
  fullAdders := 0
  halfAdders := 0

/-- The adders of two parts together. -/
def add (left right : AdderTally) : AdderTally where
  fullAdders := left.fullAdders + right.fullAdders
  halfAdders := left.halfAdders + right.halfAdders

/-- The adders that take a given number of bits out of a column. -/
def ofExcess (excess : Nat) : AdderTally where
  fullAdders := excess / 2
  halfAdders := excess % 2

end AdderTally

/-- Records the loss of a carry out of the top column. -/
def noteLost (lost : Option Nat) : Build Unit := do
  if let some column := lost then
    Build.note (.bitDropped column)

/-- Takes a number of bits out of a column, the oldest first, and returns the column and the carries
out of it. The sums join the end of the column. The number of a missing next column is given. -/
def compress (lost : Option Nat) :
    (excess : Nat) → List SignalId → Build (List SignalId × List SignalId)
  | more + 2, a :: b :: c :: rest => do
    let adder ← Build.fullAdder a b c
    noteLost lost
    let (bits, carries) ← compress lost more (rest ++ [adder.sum])
    return (bits, adder.carry :: carries)
  | 1, a :: b :: rest => do
    let adder ← Build.halfAdder a b
    noteLost lost
    return (rest ++ [adder.sum], [adder.carry])
  | _, bits => return (bits, [])

/-- Brings columns down to a target, given the position of the lowest and the carries into it.
Carries join the end of a column; those out of the last column are dropped. -/
def reduceColumns (target : Nat) : (position : Nat) → (carries : List SignalId) →
    List (List SignalId) → Build (List (List SignalId) × AdderTally)
  | _, _, [] => return ([], .zero)
  | position, carries, column :: higher => do
    let bits := column ++ carries
    let excess := bits.length - target
    let lost := if higher.isEmpty then some (position + 1) else none
    let (reduced, carries) ← compress lost excess bits
    let (rest, tally) ← reduceColumns target (position + 1) carries higher
    return (reduced :: rest, (AdderTally.ofExcess excess).add tally)

/-- The scope of a stage. -/
def stageScope (stage : Nat) : String :=
  "dadda_s" ++ toString stage

/-- Carries out stages, given the number of the first. -/
def reduceStages : (stage : Nat) → (targets : List Nat) → Matrix → Build (Matrix × AdderTally)
  | _, [], matrix => return (matrix, .zero)
  | stage, target :: targets, matrix => do
    Build.setScope (some (stageScope stage))
    let (columns, tally) ← reduceColumns target 0 [] matrix.columns
    let reduced : Matrix := { columns }
    Build.note (.daddaStage stage reduced.heights)
    let (final, later) ← reduceStages (stage + 1) targets reduced
    return (final, tally.add later)

/-- Reduces a matrix to columns of at most two bits. -/
def reduce (matrix : Matrix) : Attempt Matrix := do
  let targets ← Attempt.ofExcept ((stageTargets matrix.maxHeight).mapError .fault)
  Build.note (.daddaSchedule matrix.maxHeight targets)
  let (reduced, tally) ← reduceStages 0 targets matrix
  Build.setScope none
  Build.note (.daddaTotals tally.fullAdders tally.halfAdders)
  return reduced

end Datapath.Multiplier

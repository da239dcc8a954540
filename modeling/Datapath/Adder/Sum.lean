import Datapath.Adder.Schedule
import Datapath.Builder.Gates
import Datapath.Parameters

/-!
# Sums of words

Addition by a prefix tree: half adders give each position its propagate and generate signals, the
tree extends every group down to the lowest position, and a sum bit is its own propagate signal
combined with what the positions below it generate. With the inferred algorithm the provider's
word-level adder does all of it. The carry out is dropped.
-/

namespace Datapath.Adder

/-- The signals of a group of neighbouring positions. -/
structure Group where
  /-- Whether a carry into the group leaves it again. -/
  propagate : SignalId
  /-- Whether the group produces a carry by itself. -/
  generate : SignalId
  deriving DecidableEq, Repr

/-- The group of a single position. -/
def bitGroup (left right : SignalId) : Build Group := do
  let adder ← Build.halfAdder left right
  return { propagate := adder.sum, generate := adder.carry }

/-- The group of a higher and a lower group side by side. -/
def joinGroups (upper lower : Group) : Build Group := do
  let propagate ← Build.and2 upper.propagate lower.propagate
  let generate ← Build.ao21 upper.propagate lower.generate upper.generate
  return { propagate, generate }

/-- Carries out a combination. -/
def combine (groups : Array Group) (combination : Combination) : Build (Array Group) := do
  match groups[combination.target]?, groups[combination.source]? with
  | some upper, some lower =>
    let joined ← joinGroups upper lower
    Build.note (.prefixCombined combination.target combination.source)
    return groups.setIfInBounds combination.target joined
  | _, _ => return groups

/-- Carries out the combinations of a row. -/
def combineRow (groups : Array Group) (row : List Combination) : Build (Array Group) :=
  row.foldlM combine groups

/-- Carries out the rows of a schedule. -/
def combineRows (groups : Array Group) (rows : List (List Combination)) : Build (Array Group) :=
  rows.foldlM combineRow groups

/-- The sum bits from the positions' own propagate signals and the finished groups. The lowest bit
has nothing below it. -/
def sumBits (bits : List Group) (finished : List Group) : Build (List SignalId) :=
  match bits with
  | [] => return []
  | lowest :: higher => do
    let sums ← (higher.zip finished).mapM fun (bit, below) =>
      Build.xor2 bit.propagate below.generate
    return lowest.propagate :: sums

/-- The sum of two words of one width by a prefix tree. -/
def treeSum (topology : Topology) (left right : List SignalId) : Build (List SignalId) := do
  let bits ← (left.zip right).mapM fun (left, right) => bitGroup left right
  let levels := left.length.log2
  let gatesBefore ← Build.gateCount
  let finished ← combineRows bits.toArray (topology.schedule levels)
  let gates := (← Build.gateCount) - gatesBefore
  Build.note (.prefixTree (.tree topology) left.length levels gates)
  sumBits bits finished.toList

/-- The scope of an adder's gates under a tag. -/
def scopeOf (tag : String) (algorithm : Algorithm) : String :=
  tag ++ "_" ++ algorithm.name

/-- The sum of two words, without its carry out. Refuses words that differ in width and widths that
the algorithm does not accept. A tag puts the gates into a scope of their own; there is no scope
afterwards. -/
def sum (left right : List SignalId) (algorithm : Algorithm) (tag : Option String) :
    Attempt (List SignalId) := do
  if left.length ≠ right.length then
    Attempt.refuse .unequalWidths
  Attempt.ofExcept ((algorithm.checkWidth left.length).mapError .config)
  if let some tag := tag then
    Build.setScope (some (scopeOf tag algorithm))
  let result ← match algorithm with
    | .tree topology => treeSum topology left right
    | .inferred => Attempt.add left right
  Build.setScope none
  return result

end Datapath.Adder

import Datapath.Adder.Algorithm

/-!
# Prefix schedules

A prefix tree works on one group of bits for each position: at first the single bit, in the end all
bits up to the position. Combining folds the group at a lower position into the group at a higher
one. A schedule lists the rows of a tree in order, and the combinations of a row from the highest
target down, so that no combination of a row reads a group which the row has already changed.
-/

namespace Datapath.Adder

/-- The combination of the group at one position into the group at a higher one. -/
structure Combination where
  target : Nat
  source : Nat
  deriving DecidableEq, Repr

namespace Combination

/-- The combination of the group so many positions below a target. -/
def below (target distance : Nat) : Combination where
  target := target
  source := target - distance

end Combination

namespace Topology

/-- The up-sweep row with a given half stride: the top position of each block of two half strides
takes the group of the block's lower half. -/
def upRow (width half : Nat) : List Combination :=
  (List.range (width / (2 * half))).reverse.map fun block =>
    .below (2 * half * (block + 1) - 1) half

/-- The down-sweep row with a given half stride: the middle position of each block but the first
takes the group that ends where the block begins. -/
def downRow (width half : Nat) : List Combination :=
  (List.range (width / (2 * half) - 1)).reverse.map fun block =>
    .below (2 * half * (block + 1) + half - 1) half

/-- The row in which every position takes the group a given span below it. -/
def spanRow (width span : Nat) : List Combination :=
  (List.range (width - span)).reverse.map fun source => { target := source + span, source }

/-- The combinations of a row with an odd target. -/
def oddTargets (row : List Combination) : List Combination :=
  row.filter fun combination => combination.target % 2 = 1

/-- The row in which every even position but the lowest takes the finished group just below it. -/
def evenRow (width : Nat) : List Combination :=
  (List.range (width / 2 - 1)).reverse.map fun block => .below (2 * block + 2) 1

/-- The rows of a tree over two to the power of `levels` positions. -/
def schedule (topology : Topology) (levels : Nat) : List (List Combination) :=
  let width := 1 <<< levels
  let spans := (List.range levels).map (1 <<< ·)
  match topology with
  | .brentKung => spans.map (upRow width) ++ spans.reverse.map (downRow width)
  | .koggeStone => spans.map (spanRow width)
  | .hanCarlson => spans.map (fun span => oddTargets (spanRow width span)) ++ [evenRow width]

end Topology

end Datapath.Adder

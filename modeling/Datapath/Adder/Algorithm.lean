/-!
# Adder algorithms

Ways to add two words: three topologies of parallel-prefix trees, or the word-level adder that the
gate provider offers.
-/

namespace Datapath.Adder

/-- The shape of a parallel-prefix tree. -/
inductive Topology where
  /-- An up-sweep and a down-sweep: few gates, the greatest depth. -/
  | brentKung
  /-- Every bit at every level: the least depth, many gates. -/
  | koggeStone
  /-- The odd bits at every level and one level for the even bits. -/
  | hanCarlson
  deriving DecidableEq, Repr

/-- A way to add two words. -/
inductive Algorithm where
  /-- A parallel-prefix tree. -/
  | tree (topology : Topology)
  /-- The provider's word-level adder. -/
  | inferred
  deriving DecidableEq, Repr

namespace Algorithm

/-- All algorithms. -/
def all : List Algorithm :=
  [.tree .brentKung, .tree .koggeStone, .tree .hanCarlson, .inferred]

/-- The algorithm used where none is named. -/
def default : Algorithm :=
  .tree .brentKung

/-- The name by which users choose an algorithm. -/
def name : Algorithm → String
  | .tree .brentKung => "brentkung"
  | .tree .koggeStone => "koggestone"
  | .tree .hanCarlson => "hancarlson"
  | .inferred => "inferred"

/-- Whether the algorithm builds a prefix tree. -/
def isTree : Algorithm → Bool
  | .tree _ => true
  | .inferred => false

/-- The algorithm with a given name. -/
def ofName? (text : String) : Option Algorithm :=
  all.find? (·.name == text)

/-- An algorithm is found by its own name. -/
theorem ofName?_name (algorithm : Algorithm) : ofName? algorithm.name = some algorithm := by
  rcases algorithm with (_ | _ | _) | _ <;> rfl

end Algorithm

end Datapath.Adder

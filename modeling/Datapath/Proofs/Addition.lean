import Datapath.Adder.Sum
import Datapath.Proofs.Decomposition
import Datapath.Proofs.PrefixTree
import Datapath.Proofs.Streams

/-!
# Sums of words are sums

The gates of a prefix tree compute what its schedule does on truth values, so the finished groups
are the carries of a ripple, and the sum bits those of a ripple of full adders. The word-level adder
computes the same, realized or decomposed.

`Adder.treeSum_meets` holds for every topology and every width that is a power of two;
`Adder.sum_streams` is about the numbers that words stand for, for every algorithm.
-/

namespace Datapath

open Scoped (Within within_mono exists_within)

instance : Scoped Adder.Group where
  Within bound group := group.propagate < bound ∧ group.generate < bound
  within_mono le within :=
    ⟨Nat.lt_of_lt_of_le within.1 le, Nat.lt_of_lt_of_le within.2 le⟩
  exists_within group := ⟨max group.propagate group.generate + 1,
    Nat.lt_succ_of_le (Nat.le_max_left _ _), Nat.lt_succ_of_le (Nat.le_max_right _ _)⟩

instance {α : Type} [Scoped α] : Scoped (Array α) where
  Within bound values := Within bound values.toList
  within_mono := within_mono
  exists_within values := exists_within values.toList

namespace Build

/-- A fold of steps computes a fold of what the steps compute. -/
theorem Meets.foldlM {σ τ ι : Type} [Scoped σ] {known : Nat} {step : σ → ι → Build σ}
    {items : List ι} {state : σ} (abstract : Valuation Bool → σ → τ) (transition : τ → ι → τ)
    (within : Within known state)
    (each : ∀ item ∈ items, ∀ state more, Within more state →
      Meets more (step state item) fun value result =>
        abstract value result = transition (abstract value state) item) :
    Meets known (items.foldlM step state) fun value result =>
      abstract value result = items.foldl transition (abstract value state) := by
  induction items generalizing known state with
  | nil =>
      rw [List.foldlM_nil]
      exact meets_pure (fun bound enough => within_mono enough within) fun _ => rfl
  | cons item items ih =>
      rw [List.foldlM_cons]
      rw [List.forall_mem_cons] at each
      apply (each.1 state known within).bind
      intro next more _ nextWithin
      apply (ih nextWithin each.2).imp
      intro value result holds first
      rw [holds, first]
      rfl

end Build

namespace Adder

open Attempt (Streams)
open Build (Meets)

variable {known : Nat}

/-- The truth values of a group. -/
def Group.value (value : Valuation Bool) (group : Group) : Carry where
  propagate := value group.propagate
  generate := value group.generate

/-- The group of two operand bits. -/
def Carry.ofBits (bits : Bool × Bool) : Carry where
  propagate := bits.1 ^^ bits.2
  generate := bits.1 && bits.2

theorem bitGroup_meets {left right : Nat} (left_lt : left < known) (right_lt : right < known) :
    Meets known (bitGroup left right) fun value group =>
      group.value value = .ofBits (value left, value right) := by
  apply (Build.halfAdder_meets left_lt right_lt).bind
  intro adder n le adder_lt
  refine Build.meets_pure (fun bound enough => within_mono enough adder_lt) ?_
  intro value isAdder
  simp only [Group.value, Carry.ofBits, isAdder]

theorem joinGroups_meets {upper lower : Group} (upper_lt : Within known upper)
    (lower_lt : Within known lower) :
    Meets known (joinGroups upper lower) fun value group =>
      group.value value = (upper.value value).join (lower.value value) := by
  apply (Build.and2_meets upper_lt.1 lower_lt.1).bind
  intro (propagate : Nat) n le propagate_lt
  have upper_lt := within_mono le upper_lt
  have lower_lt := within_mono le lower_lt
  refine (Build.ao21_meets upper_lt.1 lower_lt.2 upper_lt.2).bind
    fun (generate : Nat) m le' (generate_lt : generate < m) => ?_
  refine Build.meets_pure (fun bound enough => ⟨?_, ?_⟩) ?_
  · exact Nat.lt_of_lt_of_le propagate_lt (by omega)
  · exact Nat.lt_of_lt_of_le generate_lt enough
  · intro value isGenerate isPropagate
    simp only [Group.value, Carry.join, isGenerate, isPropagate]

theorem combine_meets {groups : Array Group} (groups_lt : Within known groups)
    (combination : Combination) :
    Meets known (combine groups combination) fun value result =>
      result.map (·.value value) = Carry.combine (groups.map (·.value value)) combination := by
  rw [combine]
  cases foundUpper : groups[combination.target]? with
  | none =>
      apply Build.meets_pure (fun bound enough => within_mono enough groups_lt)
      intro value
      simp [Carry.combine, foundUpper]
  | some upper =>
      cases foundLower : groups[combination.source]? with
      | none =>
          apply Build.meets_pure (fun bound enough => within_mono enough groups_lt)
          intro value
          simp [Carry.combine, foundUpper, foundLower]
      | some lower =>
          have upper_lt : Within known upper :=
            groups_lt upper (Array.mem_toList_iff.mpr (Array.mem_of_getElem? foundUpper))
          have lower_lt : Within known lower :=
            groups_lt lower (Array.mem_toList_iff.mpr (Array.mem_of_getElem? foundLower))
          apply (joinGroups_meets upper_lt lower_lt).bind
          intro joined n le joined_lt
          refine (Build.note_meets _).andThen (Build.meets_pure (fun bound enough => ?_) ?_)
          · intro group member
            rw [Array.toList_setIfInBounds] at member
            rcases List.mem_or_eq_of_mem_set member with old | rfl
            · exact within_mono (by omega) (groups_lt group old)
            · exact within_mono enough joined_lt
          · intro value isJoined
            simp [Carry.combine, foundUpper, foundLower, Array.map_setIfInBounds, isJoined]

theorem combineRows_meets {groups : Array Group} (groups_lt : Within known groups)
    (rows : List (List Combination)) :
    Meets known (combineRows groups rows) fun value result =>
      result.map (·.value value) = Carry.combineRows (groups.map (·.value value)) rows := by
  refine Meets.foldlM (fun value groups => groups.map (·.value value))
    (fun groups (row : List Combination) => row.foldl Carry.combine groups) groups_lt ?_
  intro row _ groups more groups_lt
  refine Meets.foldlM (fun value groups => groups.map (·.value value)) Carry.combine groups_lt ?_
  intro combination _ groups more groups_lt
  exact combine_meets groups_lt combination

/-- The sum bits on truth values. -/
def Carry.sumBits (bits finished : List Carry) : List Bool :=
  match bits with
  | [] => []
  | lowest :: higher => lowest.propagate :: (higher.zip finished).map fun pair =>
      pair.1.propagate ^^ pair.2.generate

theorem sumBits_meets {bits finished : List Group} (bits_lt : Within known bits)
    (finished_lt : Within known finished) :
    Meets known (sumBits bits finished) fun value sums =>
      sums.map value = Carry.sumBits (bits.map (·.value value)) (finished.map (·.value value)) := by
  cases bits with
  | nil => exact Build.meets_pure (fun bound _ => within_list_nil bound) fun _ => rfl
  | cons lowest higher =>
      rcases within_list_cons.mp bits_lt with ⟨lowest_lt, higher_lt⟩
      have each (pair : Group × Group) (member : pair ∈ higher.zip finished) (more : Nat)
          (le : known ≤ more) : Meets more (Build.xor2 pair.1.propagate pair.2.generate)
            fun value sum => value sum = (value pair.1.propagate ^^ value pair.2.generate) := by
        rcases List.of_mem_zip member with ⟨inHigher, inFinished⟩
        exact Build.xor2_meets (within_mono le (higher_lt _ inHigher)).1
          (within_mono le (finished_lt _ inFinished)).2
      apply (Meets.mapM each).bind
      intro sums n le sums_lt
      refine Build.meets_pure (fun bound enough => within_list_cons.mpr
        ⟨Nat.lt_of_lt_of_le lowest_lt.1 (by omega), within_mono enough sums_lt⟩) ?_
      intro value isSums
      simp only [List.map_cons, isSums, Carry.sumBits, List.zip_map, List.map_map]
      rfl

/-- The carry into a position: what all positions below it generate. -/
def carryInto (bits : Nat → Carry) : Nat → Bool
  | 0 => false
  | position + 1 => (Carry.range bits 0 position).generate

theorem carryInto_succ (bits : Nat → Carry) (position : Nat) :
    carryInto bits (position + 1) =
      ((bits position).propagate && carryInto bits position || (bits position).generate) := by
  cases position with
  | zero => simp [carryInto, Carry.range]
  | succ position => simp [carryInto, Carry.range, Carry.join]

/-- A ripple of full adders has the carries of the groups. -/
theorem rippleSum_eq_map_carryInto {bits : Nat → Carry} {pairs : List (Bool × Bool)}
    {start : Nat} (isBits : ∀ offset pair, pairs[offset]? = some pair →
      bits (start + offset) = .ofBits pair) :
    Logic.rippleSum pairs (carryInto bits start) =
      (List.range' start pairs.length).map fun position =>
        (bits position).propagate ^^ carryInto bits position := by
  induction pairs generalizing start with
  | nil => rfl
  | cons pair rest ih =>
      rcases pair with ⟨left, right⟩
      have here : bits start = .ofBits (left, right) := isBits 0 (left, right) rfl
      have next : Logic.carry left right (carryInto bits start) = carryInto bits (start + 1) := by
        rw [carryInto_succ, here]
        cases left <;> cases right <;> cases carryInto bits start <;> rfl
      have sum : Logic.sum left right (carryInto bits start) =
          ((bits start).propagate ^^ carryInto bits start) := by
        rw [here]
        rfl
      rw [Logic.rippleSum, next, sum, List.length_cons, List.range'_succ, List.map_cons, ih]
      intro offset other found
      rw [Nat.add_assoc, Nat.add_comm 1]
      exact isBits (offset + 1) other (by simpa using found)

/-- The groups of the single positions, without end. -/
def Carry.ofPairs (pairs : List (Bool × Bool)) (position : Nat) : Carry :=
  .ofBits (pairs.getD position (false, false))

theorem Carry.ofPairs_eq {pairs : List (Bool × Bool)} {position : Nat} {pair : Bool × Bool}
    (found : pairs[position]? = some pair) : Carry.ofPairs pairs position = .ofBits pair := by
  simp [ofPairs, found]

/-- After the last row of a tree over pairs of bits, each position holds the group of all positions
up to it. -/
theorem combineRows_covers (topology : Topology) {levels : Nat} {pairs : List (Bool × Bool)}
    (width : pairs.length = 2 ^ levels) :
    Covers (Carry.ofPairs pairs) (2 ^ levels) (fun _ => 0)
      (Carry.combineRows (pairs.map .ofBits).toArray (topology.schedule levels)) := by
  have start : (pairs.map Carry.ofBits).toArray =
      Array.ofFn fun position : Fin (2 ^ levels) => Carry.ofPairs pairs position := by
    apply Array.ext
    · simp [width]
    · intro position inside _
      simp only [List.size_toArray, List.length_map] at inside
      simp [Carry.ofPairs, inside]
  rw [start]
  exact topology.schedule_covers levels _

/-- On truth values, a tree adds as a ripple of full adders does. -/
theorem sumBits_combineRows (topology : Topology) {levels : Nat} {pairs : List (Bool × Bool)}
    (width : pairs.length = 2 ^ levels) :
    Carry.sumBits (pairs.map .ofBits)
        (Carry.combineRows (pairs.map .ofBits).toArray (topology.schedule levels)).toList =
      Logic.rippleSum pairs false := by
  have covers := combineRows_covers topology width
  generalize Carry.combineRows (pairs.map .ofBits).toArray (topology.schedule levels) = finished
    at covers
  have ripple : Logic.rippleSum pairs (carryInto (Carry.ofPairs pairs) 0) = _ :=
    rippleSum_eq_map_carryInto fun offset pair found => by
      rw [Nat.zero_add]
      exact Carry.ofPairs_eq found
  rw [show false = carryInto (Carry.ofPairs pairs) 0 from rfl, ripple]
  cases pairs with
  | nil => rfl
  | cons pair rest =>
      have lowest : Carry.ofPairs (pair :: rest) 0 = .ofBits pair := Carry.ofPairs_eq rfl
      rw [List.map_cons, Carry.sumBits, List.length_cons, List.range'_succ, List.map_cons, lowest,
        carryInto, Bool.xor_false]
      refine congrArg _ (List.ext_getElem ?_ fun index inLeft inRight => ?_)
      · have size := covers.size
        simp [size, ← width]
      · simp only [List.length_map, List.length_range'] at inRight
        rw [List.length_cons] at width
        have holds := covers.holds index (by omega)
        have above : Carry.ofPairs (pair :: rest) (index + 1) = .ofBits rest[index] :=
          Carry.ofPairs_eq (by simp [inRight])
        rcases Array.getElem?_eq_some_iff.mp holds with ⟨inside, isFinished⟩
        simp only [List.getElem_map, List.getElem_zip, List.getElem_range', Array.getElem_toList,
          isFinished, Nat.zero_add, Nat.one_mul, Nat.sub_zero]
        rw [Nat.add_comm 1 index, above, carryInto]

/-- The groups of the single positions of two words. -/
theorem bitGroups_meets {left right : List SignalId} (left_lt : Below known left)
    (right_lt : Below known right) :
    Meets known ((left.zip right).mapM fun (left, right) => bitGroup left right)
      fun value groups => groups.map (·.value value) =
        ((left.map value).zip (right.map value)).map .ofBits := by
  have each (pair : SignalId × SignalId) (member : pair ∈ left.zip right) (more : Nat)
      (le : known ≤ more) : Meets more (bitGroup pair.1 pair.2) fun value group =>
        group.value value = .ofBits (value pair.1, value pair.2) := by
    rcases List.of_mem_zip member with ⟨inLeft, inRight⟩
    exact bitGroup_meets (Nat.lt_of_lt_of_le (left_lt _ inLeft) le)
      (Nat.lt_of_lt_of_le (right_lt _ inRight) le)
  apply (Meets.mapM each).imp
  intro value groups areGroups
  rw [areGroups, List.zip_map, List.map_map]
  rfl

/-- A tree adds two words of one width that is a power of two. -/
theorem treeSum_meets (topology : Topology) {left right : List SignalId}
    (sameWidth : left.length = right.length) (power : left.length = 2 ^ left.length.log2)
    (left_lt : Below known left) (right_lt : Below known right) :
    Meets known (treeSum topology left right) fun value sums =>
      sums.map value = Logic.rippleSum ((left.map value).zip (right.map value)) false := by
  apply (bitGroups_meets left_lt right_lt).bind
  intro bits n _ bits_lt
  apply Meets.of_gateCount
  intro before
  have groups_lt : Within n bits.toArray := bits_lt
  apply (combineRows_meets groups_lt _).bind
  intro finished m le finished_lt
  apply Meets.of_gateCount
  intro after
  apply (Build.note_meets _).andThen
  apply (sumBits_meets (Scoped.within_mono le bits_lt) finished_lt).imp
  intro value sums isSums isFinished isBits
  have width : ((left.map value).zip (right.map value)).length = 2 ^ left.length.log2 := by
    simpa [← sameWidth] using power
  have finishedValues := congrArg Array.toList isFinished
  rw [Array.toList_map, List.map_toArray, isBits] at finishedValues
  rw [isSums, isBits, finishedValues]
  exact sumBits_combineRows topology width

namespace Algorithm

theorem eq_two_pow_of_checkWidth {topology : Topology} {width : Nat}
    (accepted : (tree topology).checkWidth width = .ok ()) :
    width = 2 ^ width.log2 := by
  unfold checkWidth at accepted
  by_cases zero : width = 0
  · rw [if_pos zero] at accepted
    cases accepted
  · by_cases power : isPowerOfTwo width = true
    · simpa [isPowerOfTwo, Nat.one_shiftLeft] using power
    · simp only [if_neg zero, if_neg power] at accepted
      cases accepted

theorem pos_of_checkWidth {algorithm : Algorithm} {width : Nat}
    (accepted : algorithm.checkWidth width = .ok ()) : 0 < width := by
  unfold checkWidth at accepted
  by_cases zero : width = 0
  · rw [if_pos zero] at accepted
    cases accepted
  · exact Nat.pos_of_ne_zero zero

end Algorithm

/-- The sum of two words that an algorithm accepts. -/
def acceptedSum (algorithm : Algorithm) (left right : List SignalId) : Build (List SignalId) :=
  match algorithm with
  | .tree topology => treeSum topology left right
  | .inferred => Build.add left right

/-- A step in a scope of its own, if there is one, and no scope afterwards. -/
def inScope (scope : Option String) (step : Build (List SignalId)) : Build (List SignalId) := do
  if scope.isSome then Build.setScope scope
  let result ← step
  Build.setScope none
  return result

theorem inScope_meets {post : Valuation Bool → List SignalId → Prop} (scope : Option String)
    {step : Build (List SignalId)} (meets : Meets known step post) :
    Meets known (inScope scope step) post := by
  have ending : Meets known (step >>= fun result => Build.setScope none >>= fun _ => pure result)
      post := by
    apply meets.bind
    intro result n _ result_lt
    refine (Build.setScope_meets none).andThen (Build.meets_pure ?_ fun _ holds => holds)
    exact fun bound enough => Scoped.within_mono enough result_lt
  cases scope with
  | none => exact ending
  | some scope => exact (Build.setScope_meets _).andThen ending

section Accepted

variable {algorithm : Algorithm} {left right : List SignalId}
  (sameWidth : left.length = right.length)
  (accepted : algorithm.checkWidth left.length = .ok ())

include sameWidth accepted

theorem acceptedSum_meets (left_lt : Below known left) (right_lt : Below known right) :
    Meets known (acceptedSum algorithm left right) fun value sums =>
      sums.map value = Logic.rippleSum ((left.map value).zip (right.map value)) false := by
  cases algorithm with
  | tree topology =>
      exact treeSum_meets topology sameWidth (Algorithm.eq_two_pow_of_checkWidth accepted) left_lt
        right_lt
  | inferred =>
      have nonempty := List.ne_nil_of_length_pos (Algorithm.pos_of_checkWidth accepted)
      exact Build.add_meets nonempty sameWidth left_lt right_lt

/-- A sum of words of one accepted width is not refused. -/
theorem sum_performs (tag : Option String) :
    Attempt.Performs (sum left right algorithm tag)
      (inScope (tag.map (scopeOf · algorithm)) (acceptedSum algorithm left right)) := by
  have nonempty := List.ne_nil_of_length_pos (Algorithm.pos_of_checkWidth accepted)
  have ending {words : Attempt (List SignalId)} {step : Build (List SignalId)}
      (performs : Attempt.Performs words step) :
      Attempt.Performs
        (words >>= fun result => liftM (Build.setScope none) >>= fun _ => pure result)
        (step >>= fun result => Build.setScope none >>= fun _ => pure result) :=
    performs.bind fun _ => (Attempt.performs_lift _).bind fun _ => Attempt.performs_pure _
  unfold sum
  rw [accepted, if_neg (by simpa using sameWidth)]
  have tree (topology : Topology) :=
    ending (Attempt.performs_lift (treeSum topology left right))
  have inferred := ending (Attempt.add_performs nonempty sameWidth)
  cases tag with
  | none =>
      cases algorithm with
      | tree topology => exact tree topology
      | inferred => exact inferred
  | some tag =>
      have entered := Attempt.performs_lift (Build.setScope (some (scopeOf tag algorithm)))
      cases algorithm with
      | tree topology => exact entered.bind fun _ => tree topology
      | inferred => exact entered.bind fun _ => inferred

end Accepted

/-- In each cycle, the value of a sum is that of its operands together, up to the lost carry. -/
theorem sum_streams (algorithm : Algorithm) (tag : Option String) {left right : List SignalId}
    (left_lt : Below known left) (right_lt : Below known right) :
    Streams known (sum left right algorithm tag) fun trace sums => ∀ cycle,
      Bits.value (sums.map (trace cycle)) =
        (Bits.value (left.map (trace cycle)) + Bits.value (right.map (trace cycle))) %
          2 ^ left.length := by
  by_cases sameWidth : left.length = right.length
  · cases check : algorithm.checkWidth left.length with
    | error error =>
        intro provider before result after _ ran
        unfold sum at ran
        rw [check, if_neg (by simpa using sameWidth)] at ran
        cases ran
    | ok passed =>
        have meets := inScope_meets (tag.map (scopeOf · algorithm))
          (acceptedSum_meets sameWidth check left_lt right_lt)
        have performs := sum_performs sameWidth check tag
        apply (Attempt.streams_of_performs performs meets).imp
        intro trace sums _ holds cycle
        rw [holds cycle, Logic.value_rippleSum_zip (by simpa using sameWidth), List.length_map]
  · unfold sum
    rw [if_pos (by simpa using sameWidth)]
    exact Attempt.streams_refuse_bind

end Adder

end Datapath

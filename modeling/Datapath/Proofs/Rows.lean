import Datapath.Proofs.Carries

/-!
# Rows at once

A row of a prefix tree is carried out in place, one combination after the other, and its
combinations are meant to work side by side on what the row before has left. They do: a row lists
its combinations from the highest target down and each reads its own target and a lower position, so
what it reads has not been written before in the row.

Carried out in place, a row is therefore the same construction as one that reads from a copy of the
groups, and on truth values it replaces all its targets at once: `Adder.combineRows_atOnce`.
-/

namespace Datapath

open Scoped (Within)

namespace Adder

/-- The positions whose groups a combination reads. -/
def Combination.reads (combination : Combination) : List Nat :=
  [combination.target, combination.source]

/-- Carries out a combination that reads a copy of the groups. -/
def combineFrom (copy groups : Array Group) (combination : Combination) :
    Build (Array Group) := do
  match copy[combination.target]?, copy[combination.source]? with
  | some upper, some lower =>
    let joined ← joinGroups upper lower
    Build.note (.prefixCombined combination.target combination.source)
    return groups.setIfInBounds combination.target joined
  | _, _ => return groups

/-- Carries out the combinations of a row, all of which read the groups as they were before it. -/
def combineRowAtOnce (groups : Array Group) (row : List Combination) : Build (Array Group) :=
  row.foldlM (combineFrom groups) groups

/-- Carries out the rows of a schedule, each of them at once. -/
def combineRowsAtOnce (groups : Array Group) (rows : List (List Combination)) :
    Build (Array Group) :=
  rows.foldlM combineRowAtOnce groups

/-- Replaces the truth values of all targets of a row at once. -/
def Carry.joinRow (groups : Array Carry) (row : List Combination) : Array Carry :=
  groups.mapIdx fun position upper =>
    ((row.find? (·.target == position)).bind fun combination =>
      groups[combination.source]?).elim upper upper.join

/-- No combination reads a position that an earlier one has written. -/
def Undisturbed (row : List Combination) : Prop :=
  row.Pairwise fun earlier later => earlier.target ∉ later.reads

theorem undisturbed_cons {first : Combination} {rest : List Combination} :
    Undisturbed (first :: rest) ↔
      (∀ later ∈ rest, later.target ≠ first.target ∧ later.source ≠ first.target) ∧
        Undisturbed rest := by
  simp [Undisturbed, Combination.reads, eq_comm]

theorem undisturbed_of_falling {row : List Combination}
    (falling : row.Pairwise fun first second => second.target < first.target)
    (lower : ∀ combination ∈ row, combination.source < combination.target) : Undisturbed row := by
  refine falling.imp_of_mem fun {first second} _ member lt => ?_
  have below := lower second member
  simp only [Combination.reads, List.mem_cons, List.not_mem_nil, or_false]
  omega

namespace Topology

theorem schedule_undisturbed (topology : Topology) (levels : Nat) :
    ∀ row ∈ topology.schedule levels, Undisturbed row :=
  fun row isRow => undisturbed_of_falling (topology.schedule_falling levels row isRow)
    fun combination member => (topology.schedule_inside levels row isRow combination member).1

end Topology

/-- What follows a combination need only be known for groups that differ at its target. -/
theorem combineFrom_bind_congr {α : Type} (copy groups : Array Group) (combination : Combination)
    {first second : Array Group → Build α}
    (same : ∀ after : Array Group,
      (∀ position, position ≠ combination.target → after[position]? = groups[position]?) →
        first after = second after) :
    combineFrom copy groups combination >>= first =
      combineFrom copy groups combination >>= second := by
  have unchanged := same groups fun _ _ => rfl
  have changed (joined : Group) := same (groups.setIfInBounds combination.target joined)
    fun position other => Array.getElem?_setIfInBounds_ne (Ne.symm other)
  unfold combineFrom
  split
  · simp only [bind_assoc, pure_bind, changed]
  · simp only [pure_bind, unchanged]

/-- As long as the groups are still those of the copy where a row reads them, it does not matter
which of them it reads. -/
theorem foldlM_combine_eq {copy groups : Array Group} {row : List Combination}
    (undisturbed : Undisturbed row)
    (agree : ∀ combination ∈ row, ∀ position ∈ combination.reads,
      groups[position]? = copy[position]?) :
    row.foldlM combine groups = row.foldlM (combineFrom copy) groups := by
  induction row generalizing groups with
  | nil => rfl
  | cons combination rest ih =>
      rcases undisturbed_cons.mp undisturbed with ⟨apart, undisturbedRest⟩
      rw [List.forall_mem_cons] at agree
      have here : combine groups combination = combineFrom copy groups combination := by
        rw [show combine groups combination = combineFrom groups groups combination from rfl,
          combineFrom, combineFrom, agree.1 combination.target (by simp [Combination.reads]),
          agree.1 combination.source (by simp [Combination.reads])]
      rw [List.foldlM_cons, List.foldlM_cons, here]
      refine combineFrom_bind_congr copy groups combination fun after kept => ?_
      refine ih undisturbedRest fun later member position isRead => ?_
      rw [kept position, agree.2 later member position isRead]
      rcases apart later member with ⟨otherTarget, otherSource⟩
      rcases List.mem_pair.mp isRead with rfl | rfl
      · exact otherTarget
      · exact otherSource

theorem combineRow_eq_atOnce (groups : Array Group) {row : List Combination}
    (undisturbed : Undisturbed row) : combineRow groups row = combineRowAtOnce groups row :=
  foldlM_combine_eq undisturbed fun _ _ _ _ => rfl

theorem combineRows_eq_atOnce (groups : Array Group) {rows : List (List Combination)}
    (undisturbed : ∀ row ∈ rows, Undisturbed row) :
    combineRows groups rows = combineRowsAtOnce groups rows := by
  induction rows generalizing groups with
  | nil => rfl
  | cons row rows ih =>
      rw [List.forall_mem_cons] at undisturbed
      rw [combineRows, combineRowsAtOnce, List.foldlM_cons, List.foldlM_cons,
        combineRow_eq_atOnce groups undisturbed.1]
      exact congrArg _ (funext fun after => ih after undisturbed.2)

namespace Carry

theorem getElem?_combine (groups : Array Carry) (combination : Combination) (position : Nat) :
    (combine groups combination)[position]? =
      if combination.target = position then
        groups[position]?.map fun upper => groups[combination.source]?.elim upper upper.join
      else groups[position]? := by
  unfold combine
  split
  · next upper lower foundUpper foundLower =>
      rw [Array.getElem?_setIfInBounds, foundLower]
      split
      · next same =>
          rw [← same, foundUpper, if_pos (Array.getElem?_eq_some_iff.mp foundUpper).1]
          rfl
      · rfl
  · next missing =>
      split
      · next same =>
          subst same
          cases foundUpper : groups[combination.target]? with
          | none => rfl
          | some upper =>
              cases foundLower : groups[combination.source]? with
              | none => rfl
              | some lower => exact absurd foundLower (missing upper lower foundUpper)
      · rfl

theorem getElem?_joinRow (groups : Array Carry) (row : List Combination) (position : Nat) :
    (joinRow groups row)[position]? = groups[position]?.map fun upper =>
      ((row.find? (·.target == position)).bind fun combination =>
        groups[combination.source]?).elim upper upper.join := by
  rw [joinRow, Array.getElem?_mapIdx]

/-- In place, an undisturbed row replaces its targets as if at once. -/
theorem foldl_combine_eq (groups : Array Carry) {row : List Combination}
    (undisturbed : Undisturbed row) : row.foldl combine groups = joinRow groups row := by
  induction row generalizing groups with
  | nil => exact Array.ext_getElem? fun position => by simp [getElem?_joinRow]
  | cons combination rest ih =>
      rcases undisturbed_cons.mp undisturbed with ⟨apart, undisturbedRest⟩
      rw [List.foldl_cons, ih _ undisturbedRest]
      apply Array.ext_getElem?
      intro position
      rw [getElem?_joinRow, getElem?_joinRow, getElem?_combine, List.find?_cons]
      by_cases same : combination.target = position
      · -- no later combination has this target
        have last : rest.find? (·.target == position) = none := by
          simpa [← same] using fun later member => (apart later member).1
        simp [same, last, Function.comp_def]
      · -- the later combination of this target reads what was there before
        rw [if_neg same, beq_false_of_ne same]
        cases found : rest.find? (·.target == position) with
        | none => simp
        | some later =>
            have member := List.mem_of_find?_eq_some found
            simp [getElem?_combine, Ne.symm (apart later member).2]

end Carry

/-- In a tree of any topology over a power of two of positions, the rows are the levels that the
loops of the tree visit, and the loops, which look every position up, carry out these rows. A
combination folds a lower position into one that the word has, and within a row no combination reads
a position that an earlier one has written. So the rows carried out in place are the same
construction as rows that read from a copy, for all groups: they return the same signals and place
the same gates. In every context the finished groups compute what the schedule does on truth values,
one row at once after the other. -/
theorem combineRows_atOnce (topology : Topology) (levels : Nat) :
    topology.levels levels (2 ^ levels) = pure (topology.schedule levels) ∧
    (∀ groups : Array Group, groups.size = 2 ^ levels → extendGroups topology levels groups =
      liftM (combineRows groups (topology.schedule levels))) ∧
    (∀ row ∈ topology.schedule levels,
      (∀ combination ∈ row,
        combination.source < combination.target ∧ combination.target < 2 ^ levels) ∧
      row.Pairwise fun earlier later => earlier.target ∉ later.reads) ∧
    (∀ groups : Array Group, combineRows groups (topology.schedule levels) =
      combineRowsAtOnce groups (topology.schedule levels)) ∧
    ∀ (complete : CompleteProvider) (builder : Builder) (groups : Array Group),
      Within builder.size groups →
        let result := Build.run (combineRows groups (topology.schedule levels)) complete builder
        Builder.Computation complete.toProvider builder result.2 result.1 fun value finished =>
          finished.map (·.value value) =
            (topology.schedule levels).foldl Carry.joinRow (groups.map (·.value value)) := by
  have undisturbed := topology.schedule_undisturbed levels
  refine ⟨topology.levels_eq_schedule levels, fun groups size => extendGroups_eq topology size,
    fun row isRow => ⟨topology.schedule_inside levels row isRow, undisturbed row isRow⟩,
    fun groups => combineRows_eq_atOnce groups undisturbed,
    fun complete builder groups groups_lt => ?_⟩
  have promise := (combineRows_meets groups_lt (topology.schedule levels)).promise complete builder
    (Nat.le_refl _)
  refine promise.computation.imp fun value isFinished => isFinished.trans ?_
  exact List.foldl_ext _ _ _ fun carries row isRow =>
    Carry.foldl_combine_eq carries (undisturbed row isRow)

/-- Four positions of an input whose groups have signals in common. -/
theorem combineRows_atOnce_common :
    let groups : Array Group := #[⟨2, 3⟩, ⟨3, 2⟩, ⟨4, 4⟩, ⟨5, Builder.trueId⟩]
    let result := Build.run (combineRows groups (Topology.hanCarlson.schedule 2))
      ⟨.restrictedTo Primitive.basis, by decide⟩ ((Builder.start "carries").addInput "a" 4)
    Builder.Computation (.restrictedTo Primitive.basis)
      ((Builder.start "carries").addInput "a" 4) result.2 result.1 fun value finished =>
        finished.map (·.value value) =
          (Topology.hanCarlson.schedule 2).foldl Carry.joinRow (groups.map (·.value value)) :=
  (combineRows_atOnce .hanCarlson 2).2.2.2.2 ⟨.restrictedTo Primitive.basis, by decide⟩
    ((Builder.start "carries").addInput "a" 4) _ (by simp [Within, Builder.start, Builder.addInput,
      Builder.size, Builder.trueId])

end Adder

end Datapath

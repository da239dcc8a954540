import Mathlib.Order.Monotone.Basic
import Datapath.Proofs.Reduction

/-!
# The targets of the stages

Possible targets start at two, and each is half as much again as the one before, rounded down. They
rise, so every height has finitely many below it and the loop that lists these ends. `Schedules` has
the finite runs of this loop. It asks nothing of the target at which a run begins: from one, where
half as much again is no more, no run reaches a height above it.

`Multiplier.stageTargets_lists` says for all heights when the list exists and what is in it.
-/

namespace Datapath.Multiplier

/-- The possible targets, the smallest first. -/
def possibleTarget : Nat → Nat
  | 0 => 2
  | index + 1 => 3 * possibleTarget index / 2

theorem two_le_possibleTarget (index : Nat) : 2 ≤ possibleTarget index := by
  induction index with
  | zero => exact Nat.le_refl 2
  | succ index ih =>
      rw [possibleTarget]
      omega

/-- Half of two or more is not rounded down to nothing. -/
theorem possibleTarget_strictMono : StrictMono possibleTarget := by
  refine strictMono_nat_of_lt_succ fun index => ?_
  have proper := two_le_possibleTarget index
  rw [possibleTarget]
  omega

/-- The loop that lists targets from a given one on. It ends at the first that is not below the
height. At any other it is refused if three times the target is out of range, and goes on with the
next one if not. -/
inductive Schedules (height : Nat) : Nat → Except Fault (List Nat) → Prop where
  | stop {target : Nat} (reached : height ≤ target) : Schedules height target (.ok [])
  | refuse {target : Nat} (lower : target < height) (large : Fault.countLimit ≤ 3 * target) :
      Schedules height target (.error .overflow)
  | pass {target : Nat} {later : Except Fault (List Nat)} (lower : target < height)
      (small : 3 * target < Fault.countLimit) (rest : Schedules height (3 * target / 2) later) :
      Schedules height target (later.map (target :: ·))

variable {height : Nat}

/-- From two on the loop ends. -/
theorem schedules_targetsFrom {target : Nat} (proper : 2 ≤ target) :
    Schedules height target (targetsFrom height target) := by
  induction target using targetsFrom.induct height with
  | case1 target step ih =>
      rw [targetsFrom, if_pos step]
      by_cases small : 3 * target < Fault.countLimit
      · have inRange : Fault.checkCount (3 * target) = .ok (3 * target) := if_pos small
        have listed : Schedules height target
            ((targetsFrom height (3 * target / 2)).map (target :: ·)) :=
          .pass step.2 small (ih (by omega))
        rw [inRange]
        cases later : targetsFrom height (3 * target / 2) <;> rw [later] at listed <;> exact listed
      · have outOfRange : Fault.checkCount (3 * target) = .error .overflow := if_neg small
        rw [outOfRange]
        exact .refuse step.2 (Nat.le_of_not_lt small)
  | case2 target stop =>
      rw [targetsFrom, if_neg stop]
      exact .stop (by omega)

/-- From a possible target on, the loop lists those that follow up to the height, or one of them is
too large. -/
theorem Schedules.outcome {target : Nat} {result : Except Fault (List Nat)}
    (schedules : Schedules height target result) {index : Nat}
    (isTarget : possibleTarget index = target) :
    (result = .error .overflow ∧ ∃ large, possibleTarget large < height ∧
      Fault.countLimit ≤ 3 * possibleTarget large) ∨
    ∃ count, result = .ok ((List.range' index count).map possibleTarget) ∧
      height ≤ possibleTarget (index + count) ∧
      ∀ position, index ≤ position → position < index + count →
        possibleTarget position < height ∧ 3 * possibleTarget position < Fault.countLimit := by
  induction schedules generalizing index with
  | stop reached => exact .inr ⟨0, rfl, isTarget ▸ reached, fun _ _ _ => by omega⟩
  | refuse lower large => exact .inl ⟨rfl, index, isTarget ▸ lower, isTarget ▸ large⟩
  | pass lower small rest ih =>
      subst isTarget
      have next : possibleTarget (index + 1) = 3 * possibleTarget index / 2 := rfl
      rcases ih next with ⟨rfl, tooLarge⟩ | ⟨count, rfl, reached, inRange⟩
      · exact .inl ⟨rfl, tooLarge⟩
      · refine .inr ⟨count + 1, rfl, by rwa [Nat.add_right_comm] at reached, ?_⟩
        intro position first below
        rcases Nat.eq_or_lt_of_le first with rfl | later
        · exact ⟨lower, small⟩
        · exact inRange position later (by omega)

theorem stageTargets_eq (height : Nat) :
    stageTargets height = (targetsFrom height 2).map List.reverse := by
  rw [stageTargets]
  cases targetsFrom height 2 <;> rfl

/-- The targets are the first of the possible ones, or one of these is too large. -/
theorem stageTargets_cases (height : Nat) :
    (stageTargets height = .error .overflow ∧ ∃ large, possibleTarget large < height ∧
      Fault.countLimit ≤ 3 * possibleTarget large) ∨
    ∃ count, stageTargets height = .ok ((List.range count).map possibleTarget).reverse ∧
      (∀ index, possibleTarget index < height ↔ index < count) ∧
      ∀ index < count, 3 * possibleTarget index < Fault.countLimit := by
  have schedules : Schedules height 2 (targetsFrom height 2) :=
    schedules_targetsFrom (Nat.le_refl 2)
  have isFirst : possibleTarget 0 = 2 := rfl
  rw [stageTargets_eq]
  rcases schedules.outcome isFirst with ⟨refused, tooLarge⟩ | ⟨count, listed, reached, inRange⟩
  · rw [refused]
    exact .inl ⟨rfl, tooLarge⟩
  · rw [Nat.zero_add] at reached inRange
    rw [listed, ← List.range_eq_range']
    refine .inr ⟨count, rfl, fun index => ⟨fun lower => ?_, fun before => ?_⟩, ?_⟩
    · exact possibleTarget_strictMono.lt_iff_lt.mp (Nat.lt_of_lt_of_le lower reached)
    · exact (inRange index (Nat.zero_le index) before).1
    · exact fun index before => (inRange index (Nat.zero_le index) before).2

/-- The last stage brings the height to two, and the first is in reach of it. -/
theorem last_and_first_of_stageTargets {targets : List Nat}
    (listed : stageTargets height = .ok targets) (nonempty : targets ≠ []) :
    targets.getLast? = some 2 ∧
      ∃ first, targets.head? = some first ∧ first < height ∧ height ≤ 3 * first / 2 := by
  have chain := stageTargets_isChain listed
  cases targets with
  | nil => exact absurd rfl nonempty
  | cons first lower =>
      rcases stageTargets_eq_ok listed with ⟨none, _⟩ | last
      · exact absurd none nonempty
      · rcases List.isChain_cons_cons.mp chain with ⟨descends, _⟩
        exact ⟨last, first, rfl, descends.lower, descends.near⟩

/-- For every height: the loop from two on ends, and what it lists, the last first, are the targets.
They are refused just if three times a possible target below the height is out of range. Otherwise
they fall, they are the possible targets below the height, and if there are any, the last is two and
the first is below the height and reaches it with half as much again. -/
theorem stageTargets_lists (height : Nat) :
    (∃ listed, Schedules height 2 listed ∧ stageTargets height = listed.map List.reverse) ∧
      (stageTargets height = .error .overflow ↔
        ∃ index, possibleTarget index < height ∧ 2 ^ 64 ≤ 3 * possibleTarget index) ∧
      (stageTargets height ≠ .error .overflow →
        ∃ targets, stageTargets height = .ok targets ∧ targets.Pairwise (· > ·) ∧
          (∀ target, target ∈ targets ↔ target < height ∧ ∃ index, possibleTarget index = target) ∧
          (targets ≠ [] → targets.getLast? = some 2 ∧
            ∃ first, targets.head? = some first ∧ first < height ∧ height ≤ 3 * first / 2)) := by
  refine ⟨⟨_, schedules_targetsFrom (Nat.le_refl 2), stageTargets_eq height⟩, ?_⟩
  rcases stageTargets_cases height with ⟨refused, tooLarge⟩ | ⟨count, listed, below_iff, inRange⟩
  · exact ⟨iff_of_true refused tooLarge, absurd refused⟩
  · refine ⟨iff_of_false (fun refused => ?_) ?_, fun _ => ⟨_, listed, ?_, fun target => ?_,
      last_and_first_of_stageTargets listed⟩⟩
    · cases listed.symm.trans refused
    · rintro ⟨index, lower, large⟩
      exact absurd (inRange index ((below_iff index).mp lower)) (Nat.not_lt_of_le large)
    · rw [List.pairwise_reverse, List.pairwise_map]
      exact List.pairwise_lt_range.imp fun earlier => possibleTarget_strictMono earlier
    · rw [List.mem_reverse, List.mem_map]
      constructor
      · rintro ⟨index, member, rfl⟩
        exact ⟨(below_iff index).mpr (List.mem_range.mp member), index, rfl⟩
      · rintro ⟨lower, index, rfl⟩
        exact ⟨index, List.mem_range.mpr ((below_iff index).mp lower), rfl⟩

end Datapath.Multiplier

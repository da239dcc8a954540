import Datapath.Multiplier.Dadda
import Datapath.Proofs.Decomposition
import Datapath.Proofs.Streams
import Datapath.Proofs.Weights

/-!
# Reduction to two rows

An adder replaces bits of a column by a sum in the column and a carry in the next one, which keeps
the weight. Only carries out of the last column are lost, and they weigh nothing modulo the power of
two that belongs to the matrix. A stage counts the carries into a column before it takes bits out,
so all columns end at its target, and the last target is two.

`Multiplier.reduce_streams` says both for every matrix. How far one target is from the next is said
by `Multiplier.stageTargets_isChain`.
-/

namespace Datapath

open Scoped (Within within_mono)

namespace Multiplier

instance : Scoped AdderTally where
  Within _ _ := True
  within_mono _ := id
  exists_within _ := ⟨0, trivial⟩

theorem targetsFrom_eq_ok {maxHeight target : Nat} {targets : List Nat} (proper : 2 ≤ target)
    (higher : target < maxHeight) (listed : targetsFrom maxHeight target = .ok targets) :
    ∃ later, targets = target :: later ∧ targetsFrom maxHeight (3 * target / 2) = .ok later := by
  rw [targetsFrom, if_pos ⟨proper, higher⟩] at listed
  cases inRange : Fault.checkCount (3 * target) with
  | error fault =>
      rw [inRange] at listed
      cases listed
  | ok checked =>
      cases rest : targetsFrom maxHeight (3 * target / 2) with
      | error fault =>
          rw [inRange, rest] at listed
          cases listed
      | ok later =>
          rw [inRange, rest] at listed
          cases listed
          exact ⟨later, rfl, rfl⟩

theorem Matrix.length_le_maxHeight {matrix : Matrix} {column : List SignalId}
    (member : column ∈ matrix.columns) : column.length ≤ matrix.maxHeight :=
  (foldl_max_le_iff.mp (Nat.le_refl matrix.maxHeight)).2 _ (List.mem_map_of_mem member)

/-- The last stage brings all columns to two bits; where there is no stage, they are already. -/
theorem stageTargets_eq_ok {maxHeight : Nat} {targets : List Nat}
    (listed : stageTargets maxHeight = .ok targets) :
    targets = [] ∧ maxHeight ≤ 2 ∨ targets.getLast? = some 2 := by
  cases rest : targetsFrom maxHeight 2 with
  | error fault =>
      rw [stageTargets, rest] at listed
      cases listed
  | ok ascending =>
      rw [stageTargets, rest] at listed
      cases listed
      by_cases higher : 2 < maxHeight
      · right
        rcases targetsFrom_eq_ok (Nat.le_refl 2) higher rest with ⟨later, rfl, _⟩
        rw [List.getLast?_reverse]
        rfl
      · left
        rw [targetsFrom, if_neg (by omega)] at rest
        cases rest
        exact ⟨rfl, Nat.le_of_not_lt higher⟩

/-- A target is in reach of a height: it is lower, but at least two and no less than two thirds. -/
structure Descends (height target : Nat) : Prop where
  proper : 2 ≤ target
  lower : target < height
  near : height ≤ 3 * target / 2

theorem isChain_of_targetsFrom {maxHeight target : Nat} {ascending lower : List Nat}
    (proper : 2 ≤ target) (higher : target < maxHeight)
    (listed : targetsFrom maxHeight (3 * target / 2) = .ok ascending)
    (chain : (target :: lower).IsChain Descends) :
    (maxHeight :: (ascending.reverse ++ target :: lower)).IsChain Descends := by
  by_cases more : 3 * target / 2 < maxHeight
  · rcases targetsFrom_eq_ok (by omega) more listed with ⟨later, rfl, rest⟩
    have step : Descends (3 * target / 2) target := ⟨proper, by omega, Nat.le_refl _⟩
    have longer := isChain_of_targetsFrom (by omega) more rest (.cons_cons step chain)
    simpa using longer
  · rw [targetsFrom, if_neg (by omega)] at listed
    cases listed
    exact .cons_cons ⟨proper, higher, Nat.le_of_not_lt more⟩ chain
termination_by maxHeight - target

/-- Each stage is in reach of the one before it. -/
theorem stageTargets_isChain {maxHeight : Nat} {targets : List Nat}
    (listed : stageTargets maxHeight = .ok targets) :
    (maxHeight :: targets).IsChain Descends := by
  cases rest : targetsFrom maxHeight 2 with
  | error fault =>
      rw [stageTargets, rest] at listed
      cases listed
  | ok ascending =>
      rw [stageTargets, rest] at listed
      cases listed
      by_cases higher : 2 < maxHeight
      · rcases targetsFrom_eq_ok (Nat.le_refl 2) higher rest with ⟨later, rfl, others⟩
        simpa using isChain_of_targetsFrom (Nat.le_refl 2) higher others (.singleton 2)
      · rw [targetsFrom, if_neg (by omega)] at rest
        cases rest
        exact .singleton maxHeight

theorem two_le_of_isChain {height target : Nat} {targets : List Nat}
    (chain : (height :: targets).IsChain Descends) (member : target ∈ targets) : 2 ≤ target := by
  induction targets generalizing height with
  | nil => exact absurd member List.not_mem_nil
  | cons first later ih =>
      rcases List.isChain_cons_cons.mp chain with ⟨step, rest⟩
      rcases List.mem_cons.mp member with rfl | member
      · exact step.proper
      · exact ih rest member

/-- Where no adder is used although there are bits enough, no bit is too many. -/
theorem excess_eq_zero {excess : Nat} {bits : List SignalId}
    (notFull : ∀ more a b c rest, excess = more + 2 → bits = a :: b :: c :: rest → False)
    (notHalf : ∀ a b rest, excess = 1 → bits = a :: b :: rest → False)
    (enough : excess = 0 ∨ excess < bits.length) : excess = 0 := by
  rcases excess with _ | _ | more
  · rfl
  · rcases bits with _ | ⟨a, _ | ⟨b, rest⟩⟩
    · exact absurd enough (by simp)
    · exact absurd enough (by simp)
    · exact (notHalf a b rest rfl rfl).elim
  · rcases bits with _ | ⟨a, _ | ⟨b, _ | ⟨c, rest⟩⟩⟩
    · exact absurd enough (by simp)
    · exact absurd enough (by simp)
    · exact absurd enough (by simp)
    · exact (notFull more a b c rest rfl rfl).elim

end Multiplier

namespace Build

open Multiplier

variable {known : Nat}

theorem noteLost_meets (lost : Option Nat) : Meets known (noteLost lost) fun _ _ => True := by
  cases lost with
  | none => exact meets_pure (fun _ _ => trivial) fun _ => trivial
  | some column => exact note_meets _

/-- What is taken out of a column leaves it as a sum of the same weight. -/
theorem compress_meets (lost : Option Nat) {excess : Nat} {bits : List SignalId}
    (bits_lt : Below known bits) :
    Meets known (compress lost excess bits) fun value result =>
      trueCount value result.1 + 2 * trueCount value result.2 = trueCount value bits ∧
        (excess = 0 ∨ excess < bits.length → result.1.length + excess = bits.length) := by
  fun_induction compress lost excess bits generalizing known with
  | case1 more a b c rest ih =>
      simp only [below_cons] at bits_lt
      rcases bits_lt with ⟨a_lt, b_lt, c_lt, rest_lt⟩
      apply (fullAdder_meets a_lt b_lt c_lt).bind
      intro adder n le adder_lt
      apply (noteLost_meets lost).andThen
      have bits_lt : Below n (rest ++ [adder.sum]) :=
        below_append.mpr ⟨rest_lt.mono le, by simp [adder_lt.1]⟩
      apply (ih adder bits_lt).bind
      intro result m le' result_lt
      refine meets_pure (fun bound enough => ⟨within_mono enough result_lt.1, ?_⟩) ?_
      · exact within_list_cons.mpr ⟨Nat.lt_of_lt_of_le adder_lt.2 (Nat.le_trans le' enough),
          within_mono enough result_lt.2⟩
      · intro value compressed isAdder
        have bit := Logic.toNat_sum_add_carry (value a) (value b) (value c)
        rw [← isAdder.1, ← isAdder.2] at bit
        rw [trueCount_append, trueCount_singleton, List.length_append, List.length_singleton]
          at compressed
        rcases compressed with ⟨weighs, shorter⟩
        simp only [trueCount, List.length_cons]
        refine ⟨by omega, fun few => ?_⟩
        have shortened := shorter (by omega)
        omega
  | case2 a b rest =>
      simp only [below_cons] at bits_lt
      rcases bits_lt with ⟨a_lt, b_lt, rest_lt⟩
      apply (halfAdder_meets a_lt b_lt).bind
      intro adder n le adder_lt
      refine (noteLost_meets lost).andThen (meets_pure (fun bound enough => ⟨?_, ?_⟩) ?_)
      · exact below_append.mpr
          ⟨rest_lt.mono (Nat.le_trans le enough), by simp [Nat.lt_of_lt_of_le adder_lt.1 enough]⟩
      · exact within_list_cons.mpr
          ⟨Nat.lt_of_lt_of_le adder_lt.2 enough, within_list_nil bound⟩
      · intro value isAdder
        have bit := Logic.toNat_xor_add_and (value a) (value b)
        rw [← isAdder.1, ← isAdder.2] at bit
        refine ⟨?_, fun _ => by simp⟩
        simp only [trueCount_append, trueCount]
        omega
  | case3 excess bits notFull notHalf =>
      refine meets_pure (fun bound enough => ⟨within_mono enough bits_lt, within_list_nil bound⟩) ?_
      intro value
      refine ⟨by simp [trueCount], fun enough => ?_⟩
      rw [excess_eq_zero notFull notHalf enough, Nat.add_zero]

/-- Columns are brought to the target, and only multiples of their modulus are lost. -/
theorem reduceColumns_meets {target : Nat} {carries : List SignalId}
    {columns : List (List SignalId)} (carries_lt : Below known carries)
    (columns_lt : Within known columns) (position : Nat) :
    Meets known (reduceColumns target position carries columns) fun value result =>
      result.1.length = columns.length ∧
        columnsWeight value result.1 ≡ columnsWeight value columns + trueCount value carries
          [MOD 2 ^ columns.length] ∧
        (0 < target → ∀ column ∈ result.1, column.length ≤ target) := by
  induction columns generalizing known position carries with
  | nil =>
      refine meets_pure (fun bound _ => ⟨within_list_nil bound, trivial⟩) fun value => ?_
      exact ⟨rfl, Nat.modEq_one, nofun⟩
  | cons column higher ih =>
      rcases within_list_cons.mp columns_lt with ⟨column_lt, higher_lt⟩
      have bits_lt : Below known (column ++ carries) := below_append.mpr ⟨column_lt, carries_lt⟩
      refine (compress_meets _ bits_lt).bind
        fun ⟨reduced, outgoing⟩ n le ⟨reduced_lt, outgoing_lt⟩ => ?_
      refine (ih outgoing_lt (within_mono le higher_lt) (position + 1)).bind
        fun ⟨rest, tally⟩ m le' ⟨rest_lt, _⟩ => ?_
      refine meets_pure (fun bound enough => ⟨within_list_cons.mpr ⟨?_, ?_⟩, trivial⟩) ?_
      · exact within_mono (Nat.le_trans le' enough) reduced_lt
      · exact within_mono enough rest_lt
      · rintro value ⟨sameCount, weighs, low⟩ ⟨compressed, shorter⟩
        refine ⟨congrArg Nat.succ sameCount, ?_, fun positive => List.forall_mem_cons.mpr ⟨?_, ?_⟩⟩
        · have doubled := (weighs.mul_left' 2).add_left (trueCount value reduced)
          rw [List.length_cons, Nat.pow_succ, Nat.mul_comm _ 2, columnsWeight, columnsWeight]
          rw [trueCount_append] at compressed
          have kept : trueCount value reduced +
              2 * (columnsWeight value higher + trueCount value outgoing) =
                trueCount value column + 2 * columnsWeight value higher +
                  trueCount value carries := by
            dsimp only at compressed
            omega
          rw [← kept]
          exact doubled
        · have shortened := shorter (by omega)
          dsimp only at shortened ⊢
          omega
        · exact low positive

/-- All stages keep what a matrix stands for, and the last decides how high its columns are. -/
theorem reduceStages_meets {targets : List Nat} {matrix : Matrix} (matrix_lt : Within known matrix)
    (stage : Nat) :
    Meets known (reduceStages stage targets matrix) fun value result =>
      Matrix.Gains value matrix result.1 0 ∧
        (∀ target, targets.getLast? = some target → 0 < target →
          ∀ column ∈ result.1.columns, column.length ≤ target) ∧
        (targets = [] → result.1 = matrix) := by
  induction targets generalizing known stage matrix with
  | nil =>
      refine meets_pure (fun bound enough => ⟨within_mono enough matrix_lt, trivial⟩)
        fun value => ?_
      exact ⟨.refl matrix, nofun, fun _ => rfl⟩
  | cons target targets ih =>
      apply (setScope_meets _).andThen
      refine (reduceColumns_meets (below_nil known) matrix_lt 0).bind
        fun ⟨columns, tally⟩ n le ⟨columns_lt, _⟩ => ?_
      apply (note_meets _).andThen
      have reduced_lt : Within n ({ columns } : Matrix) := columns_lt
      apply (ih reduced_lt (stage + 1)).bind
      rintro ⟨final, later⟩ m le' ⟨final_lt, _⟩
      refine meets_pure (fun bound enough => ⟨within_mono enough final_lt, trivial⟩) ?_
      rintro value ⟨gains, lastLow, unchanged⟩ ⟨sameCount, weighs, low⟩
      have stageGains : Matrix.Gains value matrix { columns } 0 := ⟨sameCount, weighs⟩
      refine ⟨stageGains.trans gains, fun last isLast positive => ?_, nofun⟩
      cases targets with
      | nil =>
          cases isLast
          rw [show final = { columns } from unchanged rfl]
          exact low positive
      | cons next targets =>
          rw [List.getLast?_cons_cons] at isLast
          exact lastLow last isLast positive

end Build

namespace Multiplier

open Attempt (Performs Streams)

/-- The reduction of a matrix by stages of known targets. -/
def reduceTo (targets : List Nat) (matrix : Matrix) : Build Matrix := do
  Build.note (.daddaSchedule matrix.maxHeight targets)
  let (reduced, tally) ← reduceStages 0 targets matrix
  Build.setScope none
  Build.note (.daddaTotals tally.fullAdders tally.halfAdders)
  return reduced

theorem reduce_performs_reduceTo {matrix : Matrix} {targets : List Nat}
    (listed : stageTargets matrix.maxHeight = .ok targets) :
    Performs (reduce matrix) (reduceTo targets matrix) := by
  intro provider builder
  rw [reduce, listed]
  rfl

theorem reduceTo_meets {known : Nat} {matrix : Matrix} (matrix_lt : Within known matrix)
    {targets : List Nat} (listed : stageTargets matrix.maxHeight = .ok targets) :
    Build.Meets known (reduceTo targets matrix) fun value reduced =>
      Matrix.Gains value matrix reduced 0 ∧ ∀ column ∈ reduced.columns, column.length ≤ 2 := by
  apply (Build.note_meets _).andThen
  refine (Build.reduceStages_meets matrix_lt 0).bind fun ⟨reduced, tally⟩ n _ ⟨reduced_lt, _⟩ => ?_
  apply (Build.setScope_meets none).andThen
  apply (Build.note_meets _).andThen
  apply Build.meets_pure (fun bound enough => within_mono enough reduced_lt)
  rintro value ⟨gains, lastLow, unchanged⟩
  refine ⟨gains, fun column member => ?_⟩
  rcases stageTargets_eq_ok listed with ⟨none, low⟩ | last
  · rw [show reduced = matrix from unchanged none] at member
    exact Nat.le_trans (Matrix.length_le_maxHeight member) low
  · exact lastLow 2 last (by omega) column member

/-- A reduced matrix stands for what the matrix did, in columns of at most two bits. -/
theorem reduce_performs {known : Nat} {matrix : Matrix} (matrix_lt : Within known matrix)
    {targets : List Nat} (listed : stageTargets matrix.maxHeight = .ok targets) :
    ∃ step, Performs (reduce matrix) step ∧
      Build.Meets known step fun value reduced =>
        Matrix.Gains value matrix reduced 0 ∧ ∀ column ∈ reduced.columns, column.length ≤ 2 :=
  ⟨_, reduce_performs_reduceTo listed, reduceTo_meets matrix_lt listed⟩

/-- In each cycle, a reduced matrix stands for what the matrix did. -/
theorem reduce_streams {known : Nat} {matrix : Matrix} (matrix_lt : Within known matrix) :
    Streams known (reduce matrix) fun trace reduced => ∀ cycle,
      Matrix.Gains (trace cycle) matrix reduced 0 ∧
        ∀ column ∈ reduced.columns, column.length ≤ 2 := by
  intro provider before reduced after enough ran
  cases listed : stageTargets matrix.maxHeight with
  | error fault =>
      rw [reduce, listed] at ran
      cases ran
  | ok targets =>
      rcases reduce_performs matrix_lt listed with ⟨step, performs, meets⟩
      exact Attempt.streams_of_performs performs meets provider before reduced after enough ran

end Multiplier

end Datapath

import Datapath.Proofs.Queues
import Datapath.Proofs.Requests

/-!
# The adders of a reduction

How many adders a reduction uses depends on the heights of the columns only. `stagesAccount` follows
them through the stages, and `Build.reduceStages_counts` says that a run requests just those adders
and drops just those carries, for every provider.

The columns of the conjunctions of two words rise by one bit each up to the width of the words and
fall again. A stage cuts this profile off at its target. Its carries rise above the target, stay,
and have faded out before the last column, so none is lost there. A column that rises above the
target uses one half adder, and so does, in the first stage, the column where the profile begins to
fall, because it is one bit short. As a full adder puts out one bit less than it takes and a half
adder as many, the sums of the heights give the number of full adders.
-/

namespace Datapath

namespace Multiplier

/-- What becomes of the heights of columns, the adders that are used and the carries that leave the
last column. -/
structure Account where
  heights : List Nat
  tally : AdderTally
  lost : Nat

/-- The account of a stage, given the number of carries into the lowest column. -/
def stageAccount (target : Nat) : (carries : Nat) → (heights : List Nat) → Account
  | carries, [] => { heights := [], tally := .zero, lost := carries }
  | carries, height :: higher =>
    let excess := height + carries - target
    let rest := stageAccount target ((excess + 1) / 2) higher
    { heights := min (height + carries) target :: rest.heights
      tally := (AdderTally.ofExcess excess).add rest.tally
      lost := rest.lost }

/-- The account of stages that follow each other. -/
def stagesAccount : (targets heights : List Nat) → Account
  | [], heights => { heights, tally := .zero, lost := 0 }
  | target :: targets, heights =>
    let first := stageAccount target 0 heights
    let rest := stagesAccount targets first.heights
    { heights := rest.heights
      tally := first.tally.add rest.tally
      lost := first.lost + rest.lost }

end Multiplier

namespace Build

open Multiplier

theorem noteLost_counts (lost : Option Nat) :
    Counts (noteLost lost) fun _ tally dropped =>
      tally = .zero ∧ dropped = if lost.isSome then 1 else 0 := by
  cases lost with
  | none => exact plain_pure ()
  | some column => exact counts_note ⟨rfl, rfl⟩

/-- Each adder of a column hands on one carry, which is dropped if there is no next column. -/
theorem compress_counts (lost : Option Nat) {excess : Nat} {bits : List SignalId}
    (enough : excess = 0 ∨ excess < bits.length) :
    Counts (compress lost excess bits) fun result tally dropped =>
      result.1.length + excess = bits.length ∧ result.2.length = (excess + 1) / 2 ∧
        tally = .ofExcess excess ∧ dropped = if lost.isSome then (excess + 1) / 2 else 0 := by
  fun_induction compress lost excess bits with
  | case1 more a b c rest ih =>
      refine (fullAdder_counts a b c).bind fun adder used _ full =>
        (noteLost_counts lost).bind fun _ none dropped noted => (ih adder ?_).bind
          fun result others moreDropped shorter => counts_pure ?_
      · simp only [List.length_cons] at enough
        simp only [List.length_append, List.length_cons, List.length_nil]
        omega
      · rcases full with ⟨rfl, rfl⟩
        rcases noted with ⟨rfl, rfl⟩
        rcases shorter with ⟨kept, handed, rfl, rfl⟩
        simp only [List.length_append, List.length_cons, List.length_nil] at kept ⊢
        refine ⟨by omega, by omega, ?_, ?_⟩
        · simp only [AdderTally.add, AdderTally.zero, AdderTally.ofExcess, AdderTally.mk.injEq]
          omega
        · split <;> omega
  | case2 a b rest =>
      refine (halfAdder_counts a b).bind fun adder used _ half =>
        (noteLost_counts lost).bind fun _ none dropped noted => counts_pure ?_
      rcases half with ⟨rfl, rfl⟩
      rcases noted with ⟨rfl, rfl⟩
      exact ⟨by simp, rfl, rfl, by simp⟩
  | case3 excess bits notFull notHalf =>
      have none := excess_eq_zero notFull notHalf enough
      subst none
      exact counts_pure ⟨rfl, rfl, rfl, by simp⟩

/-- A stage does what its account says. Nothing is lost where there is no column. -/
theorem reduceColumns_counts {target : Nat} (positive : 0 < target) (position : Nat)
    (carries : List SignalId) (columns : List (List SignalId)) :
    Counts (reduceColumns target position carries columns) fun result tally dropped =>
      let account := stageAccount target carries.length (columns.map List.length)
      result.1.map List.length = account.heights ∧ result.2 = account.tally ∧
        tally = account.tally ∧ dropped = if columns = [] then 0 else account.lost := by
  induction columns generalizing position carries with
  | nil => exact counts_pure ⟨rfl, rfl, rfl, rfl⟩
  | cons column higher ih =>
      refine (compress_counts _ (by simp only [List.length_append]; omega)).bind
        fun ⟨reduced, outgoing⟩ used dropped compressed =>
          (ih (position + 1) outgoing).bind fun ⟨rest, tally⟩ more moreDropped later =>
            counts_pure ?_
      rcases compressed with ⟨kept, handed, rfl, rfl⟩
      rcases later with ⟨heights, tallied, rfl, rfl⟩
      dsimp only at kept handed heights tallied ⊢
      rw [List.length_append] at kept handed
      simp only [List.map_cons, stageAccount, ← handed, heights, tallied, AdderTally.add_zero,
        List.length_append, List.cons.injEq, and_true, true_and]
      refine ⟨by omega, ?_⟩
      cases higher with
      | nil => simp [stageAccount, handed]
      | cons next higher => simp

/-- The stages do what their account says. -/
theorem reduceStages_counts {targets : List Nat} (proper : ∀ target ∈ targets, 0 < target)
    (stage : Nat) {matrix : Matrix} (nonempty : matrix.columns ≠ []) :
    Counts (reduceStages stage targets matrix) fun result tally dropped =>
      let account := stagesAccount targets matrix.heights
      result.1.heights = account.heights ∧ result.2 = account.tally ∧ tally = account.tally ∧
        dropped = account.lost := by
  induction targets generalizing stage matrix with
  | nil => exact counts_pure ⟨rfl, rfl, rfl, rfl⟩
  | cons target targets ih =>
      rw [List.forall_mem_cons] at proper
      refine (plain_setScope _).andThen fun _ =>
        (reduceColumns_counts proper.1 0 [] matrix.columns).bind
          fun ⟨columns, tally⟩ used dropped here => ?_
      rcases here with ⟨heights, rfl, rfl, rfl⟩
      have kept : columns ≠ [] := by
        rintro rfl
        rcases exists_cons : matrix.columns with _ | ⟨column, higher⟩
        · exact nonempty exists_cons
        · rw [exists_cons] at heights
          cases heights
      refine (plain_note rfl rfl).andThen fun _ => (ih proper.2 (stage + 1) kept).bind
        fun ⟨final, later⟩ more moreDropped rest => counts_pure ?_
      rcases rest with ⟨finalHeights, rfl, rfl, rfl⟩
      rw [if_neg nonempty, AdderTally.add_zero]
      rw [show ({ columns } : Matrix).heights = _ from heights] at finalHeights ⊢
      exact ⟨finalHeights, rfl, rfl, rfl⟩

theorem reduceTo_counts {targets : List Nat} (proper : ∀ target ∈ targets, 0 < target)
    {matrix : Matrix} (nonempty : matrix.columns ≠ []) :
    Counts (reduceTo targets matrix) fun reduced tally dropped =>
      let account := stagesAccount targets matrix.heights
      reduced.heights = account.heights ∧ tally = account.tally ∧ dropped = account.lost := by
  refine (plain_note rfl rfl).andThen fun _ => (reduceStages_counts proper 0 nonempty).bind
    fun ⟨reduced, tally⟩ used dropped stages => (plain_setScope none).andThen fun _ =>
      (plain_note rfl rfl).andThen fun _ => counts_pure ?_
  rcases stages with ⟨heights, _, rfl, rfl⟩
  rw [AdderTally.add_zero]
  exact ⟨heights, rfl, rfl⟩

end Build

namespace Multiplier

/-- The height of a column in the matrix of a product of words, when no column is higher than a
cap. Where the columns begin to fall, the matrix of conjunctions is one bit short of its cap. -/
def profile (width cap short index : Nat) : Nat :=
  if index < 2 * width - cap then min (index + 1) cap
  else if index = 2 * width - cap then cap - short
  else 2 * width - 1 - index

/-- The carries into a column in the stage that brings a cap down to a target. -/
def carriesInto (width cap target index : Nat) : Nat :=
  min (min (index - target) (cap - target)) (2 * width + 1 - target - index)

variable {width cap target short : Nat}

theorem height_profile (proper : 2 ≤ target) (lower : target < cap) (narrow : cap ≤ width)
    (shortBy : short ≤ 1) {index : Nat} (inside : index < 2 * width) :
    min (profile width cap short index + carriesInto width cap target index) target =
      profile width target 0 index := by
  unfold profile carriesInto
  grind

theorem carries_profile (proper : 2 ≤ target) (lower : target < cap) (narrow : cap ≤ width)
    (shortBy : short ≤ 1) {index : Nat} (inside : index < 2 * width) :
    (profile width cap short index + carriesInto width cap target index - target + 1) / 2 =
      carriesInto width cap target (index + 1) := by
  unfold profile carriesInto
  grind

theorem halfAdders_profile (proper : 2 ≤ target) (lower : target < cap) (narrow : cap ≤ width)
    (shortBy : short ≤ 1) {index : Nat} (inside : index < 2 * width) :
    (profile width cap short index + carriesInto width cap target index - target) % 2 +
        ((cap - max target (index + 1)) + if index + 1 ≤ 2 * width - cap then short else 0) =
      (cap - max target index) + if index ≤ 2 * width - cap then short else 0 := by
  unfold profile carriesInto
  grind

/-- An adder puts out one bit less than it takes if it is full, and as many if it is not. -/
theorem stageAccount_sum (target carries : Nat) (heights : List Nat) :
    let account := stageAccount target carries heights
    heights.sum + carries = account.heights.sum + account.tally.fullAdders + account.lost := by
  induction heights generalizing carries with
  | nil => simp [stageAccount, AdderTally.zero]
  | cons height higher ih =>
      have rest := ih ((height + carries - target + 1) / 2)
      simp only [stageAccount, AdderTally.add, AdderTally.ofExcess, List.sum_cons] at rest ⊢
      omega

theorem stagesAccount_sum (targets heights : List Nat) :
    let account := stagesAccount targets heights
    heights.sum = account.heights.sum + account.tally.fullAdders + account.lost := by
  induction targets generalizing heights with
  | nil => rfl
  | cons target targets ih =>
      have first := stageAccount_sum target 0 heights
      have rest := ih (stageAccount target 0 heights).heights
      simp only [stagesAccount, AdderTally.add] at first rest ⊢
      omega

/-- A stage leaves the profile of its target. The columns that rise to the cap above the target use
one half adder each, and so does the column that is one bit short. -/
theorem stageAccount_profile (proper : 2 ≤ target) (lower : target < cap) (narrow : cap ≤ width)
    (shortBy : short ≤ 1) {start count : Nat} (ends : start + count = 2 * width) :
    let account := stageAccount target (carriesInto width cap target start)
      ((List.range' start count).map (profile width cap short))
    account.heights = (List.range' start count).map (profile width target 0) ∧
      account.tally.halfAdders =
        (cap - max target start) + (if start ≤ 2 * width - cap then short else 0) ∧
      account.lost = 0 := by
  induction count generalizing start with
  | zero =>
      refine ⟨rfl, ?_, ?_⟩
      · simp only [stageAccount, List.range'_zero, List.map_nil, AdderTally.zero]
        grind
      · simp only [stageAccount, List.range'_zero, List.map_nil, carriesInto]
        omega
  | succ count ih =>
      have inside : start < 2 * width := by omega
      have rest : start + 1 + count = 2 * width := by omega
      rcases ih rest with ⟨heights, halfAdders, lost⟩
      have here := halfAdders_profile proper lower narrow shortBy inside
      simp only [List.range'_succ, List.map_cons, stageAccount,
        carries_profile proper lower narrow shortBy inside,
        height_profile proper lower narrow shortBy inside, heights, lost, AdderTally.add,
        AdderTally.ofExcess, halfAdders, here, and_self]

theorem stagesAccount_profile {targets : List Nat} {last : Nat}
    (chain : (cap :: targets).IsChain Descends) (narrow : cap ≤ width) (shortBy : short ≤ 1)
    (isLast : targets.getLast? = some last) :
    let account := stagesAccount targets ((List.range (2 * width)).map (profile width cap short))
    account.heights = (List.range (2 * width)).map (profile width last 0) ∧
      account.tally.halfAdders = cap - last + short ∧ account.lost = 0 ∧ last < cap := by
  induction targets generalizing cap short with
  | nil => cases isLast
  | cons target targets ih =>
      rcases List.isChain_cons_cons.mp chain with ⟨⟨proper, lower, _⟩, rest⟩
      have stage := stageAccount_profile proper lower narrow shortBy (Nat.zero_add (2 * width))
      have noCarries : carriesInto width cap target 0 = 0 := by
        simp [carriesInto]
      rw [noCarries, ← List.range_eq_range'] at stage
      rcases stage with ⟨heights, halfAdders, lost⟩
      rw [Nat.max_zero, if_pos (Nat.zero_le _)] at halfAdders
      rw [stagesAccount, heights]
      dsimp only [AdderTally.add]
      rw [halfAdders, lost]
      cases targets with
      | nil =>
          cases isLast
          exact ⟨rfl, rfl, rfl, lower⟩
      | cons next targets =>
          rw [List.getLast?_cons_cons] at isLast
          rcases ih rest (by omega) (Nat.zero_le 1) isLast with ⟨final, later, none, below⟩
          exact ⟨final, by omega, by omega, by omega⟩

/-- The sum of the heights of the matrix of conjunctions. -/
theorem sum_profile_self (positive : 0 < width) :
    ((List.range (2 * width)).map (profile width width 1)).sum = width * width := by
  have pairs : ∀ index ∈ Finset.range width,
      profile width width 1 index + profile width width 1 (width + index) = width := by
    intro index inside
    have lt := Finset.mem_range.mp inside
    unfold profile
    grind
  change ∑ index ∈ Finset.range (2 * width), profile width width 1 index = _
  rw [Nat.two_mul, Finset.sum_range_add, ← Finset.sum_add_distrib, Finset.sum_const_nat pairs,
    Finset.card_range]

/-- The sum of the heights once no column has more than two bits. -/
theorem sum_profile_two (wide : 2 ≤ width) :
    ((List.range (2 * width)).map (profile width 2 0)).sum + 3 = 4 * width := by
  obtain ⟨more, rfl⟩ : ∃ more, width = more + 1 := ⟨width - 1, by omega⟩
  have inner : ∀ index ∈ Finset.range (2 * more), profile (more + 1) 2 0 (index + 1) = 2 := by
    intro index inside
    have lt := Finset.mem_range.mp inside
    unfold profile
    grind
  change ∑ index ∈ Finset.range (2 * (more + 1)), profile (more + 1) 2 0 index + 3 = _
  rw [Nat.mul_succ, Finset.sum_range_succ, Finset.sum_range_succ', Finset.sum_const_nat inner,
    Finset.card_range]
  unfold profile
  grind

theorem count_conjunctions (width rows index : Nat) :
    ((List.range' 0 rows).flatMap (List.range' · width)).count index =
      min rows (index + 1) - (index + 1 - width) := by
  induction rows with
  | zero => simp
  | succ rows ih =>
      have once : (List.range' rows width).count index =
          if rows ≤ index ∧ index < rows + width then 1 else 0 := by
        rw [List.Nodup.count List.nodup_range']
        simp [List.mem_range'_1]
      rw [List.range'_1_concat, List.flatMap_append, List.count_append, ih, List.flatMap_singleton,
        Nat.zero_add, once]
      split <;> omega

theorem Matrix.heights_eq_map (matrix : Matrix) :
    matrix.heights = (List.range matrix.columnCount).map matrix.heightAt := by
  apply List.ext_getElem
  · simp [heights, columnCount]
  · intro index inside _
    rw [heights, List.length_map] at inside
    simp [heights, heightAt, inside]

/-- The conjunctions of two words fill their columns as the profile says. -/
theorem run_schoolbookProducts {left right : List SignalId}
    (sameWidth : left.length = right.length) (provider : CompleteProvider) (builder : Builder) :
    ∃ matrix after, Attempt.run (schoolbookProducts left right) provider builder =
        (.ok matrix, after) ∧
      matrix.heights =
        (List.range (2 * left.length)).map (profile left.length left.length 1) := by
  let opened : Builder := { builder with scope := some schoolbookScope }
  let filled := Build.run (pushProducts right 0 left (.empty (2 * left.length))) provider opened
  have ran : Attempt.run (schoolbookProducts left right) provider builder =
      (.ok filled.1, { filled.2 with scope := none }) := by
    rw [schoolbookProducts, if_neg (by simpa using sameWidth)]
    rfl
  have grows : Matrix.Grows (.empty (2 * left.length)) filled.1 _ :=
    Build.pushProducts_grows right 0 left (.empty (2 * left.length)) provider opened
  have columnCount := grows.columnCount.trans (Matrix.columnCount_empty _)
  refine ⟨_, _, ran, ?_⟩
  rw [Matrix.heights_eq_map, columnCount]
  apply List.map_congr_left
  intro index inside
  rw [List.mem_range] at inside
  rw [grows.heightAt_of_empty (columnCount ▸ inside), ← sameWidth, count_conjunctions]
  unfold profile
  grind

theorem maxHeight_of_profile {matrix : Matrix} {width : Nat} (positive : 0 < width)
    (heights : matrix.heights = (List.range (2 * width)).map (profile width width 1)) :
    matrix.maxHeight = width := by
  rw [Matrix.maxHeight, heights]
  apply Nat.le_antisymm
  · refine foldl_max_le_iff.mpr ⟨Nat.zero_le width, fun height member => ?_⟩
    rcases List.mem_map.mp member with ⟨index, _, rfl⟩
    unfold profile
    grind
  · refine (foldl_max_le_iff.mp (Nat.le_refl _)).2 width (List.mem_map.mpr ⟨width - 1, ?_, ?_⟩)
    · exact List.mem_range.mpr (by omega)
    · unfold profile
      grind

/-- From the profile of conjunctions to columns of two bits, the stages take the square of the width
down to four times the width less three, one bit for each full adder. -/
theorem stagesAccount_conjunctions {width : Nat} {targets : List Nat} (wide : 3 ≤ width)
    (chain : (width :: targets).IsChain Descends) (isLast : targets.getLast? = some 2) :
    let account := stagesAccount targets ((List.range (2 * width)).map (profile width width 1))
    account.tally = { fullAdders := (width - 1) * (width - 3), halfAdders := width - 1 } ∧
      account.lost = 0 := by
  intro account
  have final : account.heights = _ ∧ account.tally.halfAdders = _ ∧ account.lost = 0 ∧ 2 < width :=
    stagesAccount_profile chain (Nat.le_refl width) (Nat.le_refl 1) isLast
  rcases final with ⟨heights, halfAdders, lost, _⟩
  have conserved : _ = account.heights.sum + account.tally.fullAdders + account.lost :=
    stagesAccount_sum targets _
  rw [heights, lost, sum_profile_self (by omega)] at conserved
  have left := sum_profile_two (show 2 ≤ width by omega)
  have fullAdders : account.tally.fullAdders = (width - 1) * (width - 3) := by
    obtain ⟨more, rfl⟩ : ∃ more, width = more + 3 := ⟨width - 3, by omega⟩
    have square : (more + 3) * (more + 3) = (more + 2) * more + (4 * more + 9) := by grind
    rw [square] at conserved
    change _ = (more + 2) * more
    omega
  refine ⟨?_, lost⟩
  rw [← fullAdders, show width - 1 = account.tally.halfAdders by omega]

/-- The matrix of the conjunctions of two words of at least three bits is built from every builder,
whatever the provider realizes. When it is reduced, as it is unless its height is out of range, the
loops and the recursion request the same adders: for words of `n` bits, they are `(n - 1) * (n - 3)`
full adders and `n - 1` half adders, and no carry out of the last column is dropped. -/
theorem reduce_schoolbook_requests (complete : CompleteProvider) (builder : Builder)
    {left right : List SignalId} (sameWidth : left.length = right.length)
    (wide : 3 ≤ left.length) :
    ∃ matrix begun,
      Attempt.run (schoolbookProducts left right) complete builder = (.ok matrix, begun) ∧
        Attempt.run (lower matrix) complete begun = Attempt.run (reduce matrix) complete begun ∧
        (left.length < 2 ^ 62 →
          ∃ reduced after, Attempt.run (lower matrix) complete begun = (.ok reduced, after)) ∧
        ∀ reduced after, Attempt.run (lower matrix) complete begun = (.ok reduced, after) →
          ∃ events : List Event, after.log.toList = begun.log.toList ++ events ∧
            events.countP (·.requests .fullAdder) = (left.length - 1) * (left.length - 3) ∧
            events.countP (·.requests .halfAdder) = left.length - 1 ∧
            events.countP (·.dropsBit) = 0 := by
  rcases run_schoolbookProducts sameWidth complete builder with ⟨matrix, begun, ran, heights⟩
  have maxHeight := maxHeight_of_profile (by omega) heights
  refine ⟨matrix, begun, ran, run_lower_eq_run_reduce matrix complete begun, fun bounded => ?_,
    fun reduced after lowered => ?_⟩
  · have low : 3 * matrix.maxHeight < Fault.countLimit + 3 := by
      rw [maxHeight, Fault.countLimit]
      omega
    rcases exists_stageTargets low with ⟨targets, listed, _⟩
    rw [run_lower_eq_run_reduce]
    exact ⟨_, _, reduce_performs_reduceTo listed complete begun⟩
  rw [run_lower_eq_run_reduce] at lowered
  cases listed : stageTargets matrix.maxHeight with
  | error fault =>
      rw [reduce, listed] at lowered
      cases lowered
  | ok targets =>
      rw [reduce_performs_reduceTo listed] at lowered
      cases lowered
      have chain := stageTargets_isChain listed
      have last : targets.getLast? = some 2 := by
        rcases stageTargets_eq_ok listed with ⟨_, low⟩ | last
        · omega
        · exact last
      have nonempty : matrix.columns ≠ [] := by
        rintro none
        rw [Matrix.heights, none, List.map_nil, eq_comm, List.map_eq_nil_iff,
          List.range_eq_nil] at heights
        omega
      have positive : ∀ target ∈ targets, 0 < target := fun _ member =>
        Nat.lt_of_lt_of_le Nat.zero_lt_two (two_le_of_isChain chain member)
      rcases Build.reduceTo_counts positive nonempty complete begun with
        ⟨events, logged, _, requested, dropped⟩
      rw [maxHeight] at chain
      rcases stagesAccount_conjunctions wide chain last with ⟨adders, lost⟩
      rw [heights, adders] at requested
      rw [heights, lost] at dropped
      exact ⟨events, logged, congrArg AdderTally.fullAdders requested,
        congrArg AdderTally.halfAdders requested, dropped⟩

/-- Words of four bits, two of them the same signal, and a provider that has to decompose adders. -/
theorem reduce_schoolbook_requests_repeated :
    ∃ matrix begun reduced after, ∃ events : List Event,
      Attempt.run (schoolbookProducts [2, 3, 3, Builder.trueId] [4, 4, 5, 2])
          ⟨.restrictedTo Primitive.basis, by decide⟩
          ((Builder.start "product").addInput "a" 4) = (.ok matrix, begun) ∧
        Attempt.run (lower matrix) ⟨.restrictedTo Primitive.basis, by decide⟩ begun =
          (.ok reduced, after) ∧
        after.log.toList = begun.log.toList ++ events ∧
        events.countP (·.requests .fullAdder) = 3 ∧ events.countP (·.requests .halfAdder) = 3 ∧
        events.countP (·.dropsBit) = 0 := by
  let complete : CompleteProvider := ⟨.restrictedTo Primitive.basis, by decide⟩
  rcases reduce_schoolbook_requests complete ((Builder.start "product").addInput "a" 4)
    (show [2, 3, 3, Builder.trueId].length = [4, 4, 5, 2].length from rfl) (by decide) with
    ⟨matrix, begun, built, _, succeeds, counts⟩
  rcases succeeds (by decide) with ⟨reduced, after, lowered⟩
  rcases counts reduced after lowered with ⟨events, logged, fullAdders, halfAdders, kept⟩
  exact ⟨matrix, begun, reduced, after, events, built, lowered, logged, fullAdders, halfAdders,
    kept⟩

end Multiplier

end Datapath

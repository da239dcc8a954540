import Datapath.Proofs.Contexts
import Datapath.Proofs.Heights
import Datapath.Proofs.Success

/-!
# Reduction as loops over queues

`Multiplier.lower` carries out the stages on one matrix: the columns are visited in turn, and while
a column is too high an adder pops its oldest bits, its sum is pushed to the same column and its
carry to the next one. A pop from a column that has run out is refused.

With targets of at least two no pop is refused, and the loops do what the recursion on the list of
columns does: the carries that it hands on are those that have been pushed to the next column. So
`Multiplier.lower_leaves_two_rows` is about both.
-/

namespace Datapath

open Scoped (Within)

namespace Multiplier

namespace Matrix

/-- Pops a number of bits from a column. Refuses when the column runs out. -/
def popBits (column : Nat) : (count : Nat) → Matrix → Except Fault (List SignalId × Matrix)
  | 0, matrix => pure ([], matrix)
  | count + 1, matrix => do
    match ← matrix.popFront column with
    | (none, _) => throw .unknownBit
    | (some bit, rest) =>
      let (bits, rest) ← popBits column count rest
      return (bit :: bits, rest)

theorem lt_columnCount_of_heightAt {matrix : Matrix} {column : Nat}
    (high : 0 < matrix.heightAt column) : column < matrix.columnCount := by
  by_contra beyond
  have missing : matrix.columns[column]? = none :=
    List.getElem?_eq_none (Nat.le_of_not_lt beyond)
  simp [heightAt, List.getD_eq_getElem?_getD, missing] at high

theorem heightAt_push_self {matrix : Matrix} {column : Nat} (inside : column < matrix.columnCount)
    (bit : SignalId) : (matrix.push column bit).heightAt column = matrix.heightAt column + 1 := by
  rw [(grows_push matrix column bit).heightAt column inside, List.count_singleton_self]

theorem heightAt_push_succ (matrix : Matrix) (column : Nat) (bit : SignalId) :
    (matrix.push (column + 1) bit).heightAt column = matrix.heightAt column := by
  simp [heightAt, push, List.getD_eq_getElem?_getD]

theorem popFront_eq_ok {matrix rest : Matrix} {column bit : Nat}
    (popped : matrix.popFront column = .ok (some bit, rest)) :
    rest.columnCount = matrix.columnCount ∧
      rest.heightAt column + 1 = matrix.heightAt column := by
  rw [popFront, Matrix.column] at popped
  cases found : matrix.columns[column]? with
  | none =>
      rw [found] at popped
      cases popped
  | some bits =>
      rw [found] at popped
      rcases List.getElem?_eq_some_iff.mp found with ⟨inside, isBits⟩
      cases bits with
      | nil => cases popped
      | cons first others =>
          cases popped
          simp [heightAt, columnCount, inside, isBits]

/-- What is popped is missing in the column. -/
theorem popBits_eq_ok {matrix rest : Matrix} {column count : Nat} {bits : List SignalId}
    (popped : popBits column count matrix = .ok (bits, rest)) :
    rest.columnCount = matrix.columnCount ∧
      rest.heightAt column + count = matrix.heightAt column := by
  induction count generalizing matrix bits with
  | zero =>
      cases popped
      exact ⟨rfl, rfl⟩
  | succ count ih =>
      rw [popBits] at popped
      rcases first : matrix.popFront column with fault | ⟨_ | bit, middle⟩
      · rw [first] at popped
        cases popped
      · rw [first] at popped
        cases popped
      · rw [first] at popped
        change (popBits column count middle >>= fun result => _) = _ at popped
        rcases others : popBits column count middle with fault | ⟨later, last⟩
        · rw [others] at popped
          cases popped
        · rw [others] at popped
          cases popped
          rcases popFront_eq_ok first with ⟨sameCount, shorter⟩
          rcases ih others with ⟨sameCountLater, shorterLater⟩
          exact ⟨sameCountLater.trans sameCount, by omega⟩

end Matrix

/-- Uses a full adder for three bits and a half adder for two. -/
def addBits : List SignalId → Attempt (SumCarry × AdderTally)
  | [a, b, c] => do return (← Build.fullAdder a b c, { fullAdders := 1, halfAdders := 0 })
  | [a, b] => do return (← Build.halfAdder a b, { fullAdders := 0, halfAdders := 1 })
  | _ => Attempt.refuse .unknownBit

/-- How many bits the adder takes that is used next in a column of a height above the target. -/
def adderInputs (target height : Nat) : Nat :=
  if target + 1 < height then 3 else 2

theorem two_le_adderInputs (target height : Nat) : 2 ≤ adderInputs target height := by
  unfold adderInputs
  split <;> omega

/-- Lowers a column as long as it is higher than the target. -/
def lowerColumn (target column : Nat) (matrix : Matrix) : Attempt (Matrix × AdderTally) :=
  if _ : target < matrix.heightAt column then
    match _ : matrix.popBits column (adderInputs target (matrix.heightAt column)) with
    | .error fault => Attempt.refuse fault
    | .ok (bits, rest) => do
      let (adder, used) ← addBits bits
      noteLost (if column + 1 < matrix.columnCount then none else some (column + 1))
      let (lowered, tally) ← lowerColumn target column
        ((rest.push column adder.sum).push (column + 1) adder.carry)
      return (lowered, used.add tally)
  else
    return (matrix, .zero)
termination_by matrix.heightAt column
decreasing_by
  rename_i popped
  rcases Matrix.popBits_eq_ok popped with ⟨sameCount, shorter⟩
  have inside : column < rest.columnCount := by
    rw [sameCount]
    exact Matrix.lt_columnCount_of_heightAt (Nat.zero_lt_of_lt ‹target < matrix.heightAt column›)
  have atLeastTwo := two_le_adderInputs target (matrix.heightAt column)
  rw [Matrix.heightAt_push_succ, Matrix.heightAt_push_self inside]
  omega

/-- Lowers columns one after the other. -/
def lowerColumns (target : Nat) : List Nat → Matrix → Attempt (Matrix × AdderTally)
  | [], matrix => return (matrix, .zero)
  | column :: later, matrix => do
    let (lowered, used) ← lowerColumn target column matrix
    let (final, tally) ← lowerColumns target later lowered
    return (final, used.add tally)

/-- Carries out stages, given the number of the first. -/
def lowerStages : (stage : Nat) → (targets : List Nat) → Matrix → Attempt (Matrix × AdderTally)
  | _, [], matrix => return (matrix, .zero)
  | stage, target :: targets, matrix => do
    Build.setScope (some (stageScope stage))
    let (lowered, used) ← lowerColumns target (List.range matrix.columnCount) matrix
    Build.note (.daddaStage stage lowered.heights)
    let (final, tally) ← lowerStages (stage + 1) targets lowered
    return (final, used.add tally)

/-- Reduces a matrix in place to columns of at most two bits. -/
def lower (matrix : Matrix) : Attempt Matrix := do
  let targets ← Attempt.ofExcept ((stageTargets matrix.maxHeight).mapError .fault)
  Build.note (.daddaSchedule matrix.maxHeight targets)
  let (lowered, tally) ← lowerStages 0 targets matrix
  Build.setScope none
  Build.note (.daddaTotals tally.fullAdders tally.halfAdders)
  return lowered

open Attempt (Performs)

/-- The columns above one that has handed carries on. -/
def carryInto (carries : List SignalId) (higher : List (List SignalId)) : List (List SignalId) :=
  higher.modify 0 (· ++ carries)

section Loops

variable (done higher : List (List SignalId)) {target : Nat}

/-- The column that a carry out of the current one goes to, if there is none. -/
def lostBeyond : Option Nat :=
  if higher.isEmpty then some (done.length + 1) else none

theorem carryInto_nil : carryInto [] higher = higher := by
  cases higher <;> simp [carryInto]

theorem carryInto_carryInto (first later : List SignalId) :
    carryInto later (carryInto first higher) = carryInto (first ++ later) higher := by
  cases higher <;> simp [carryInto]

theorem lostBeyond_carryInto (carries : List SignalId) :
    lostBeyond done (carryInto carries higher) = lostBeyond done higher := by
  cases higher <;> rfl

theorem popFront_current (bit : SignalId) (others : List SignalId) :
    Matrix.popFront ⟨done ++ (bit :: others) :: higher⟩ done.length =
      .ok (some bit, ⟨done ++ others :: higher⟩) := by
  rw [Matrix.popFront, Matrix.column]
  simp [bind, Except.bind, pure, Except.pure]

theorem popBits_current (taken others : List SignalId) :
    Matrix.popBits done.length taken.length ⟨done ++ (taken ++ others) :: higher⟩ =
      .ok (taken, ⟨done ++ others :: higher⟩) := by
  induction taken with
  | nil => rfl
  | cons bit taken ih =>
      rw [List.length_cons, Matrix.popBits, List.cons_append, popFront_current]
      change (Matrix.popBits _ _ _ >>= fun result => _) = _
      rw [ih]
      rfl

theorem heightAt_current (bits : List SignalId) :
    Matrix.heightAt ⟨done ++ bits :: higher⟩ done.length = bits.length := by
  simp [Matrix.heightAt]

theorem modify_beyond {α : Type} (first rest : List α) (index : Nat) (change : α → α) :
    (first ++ rest).modify (first.length + index) change = first ++ rest.modify index change := by
  induction first with
  | nil => simp
  | cons item first ih =>
      rw [List.length_cons, Nat.add_right_comm, List.cons_append, List.modify_succ_cons, ih,
        List.cons_append]

theorem push_current (bits : List SignalId) (adder : SumCarry) :
    (Matrix.push ⟨done ++ bits :: higher⟩ done.length adder.sum).push (done.length + 1)
        adder.carry =
      ⟨done ++ (bits ++ [adder.sum]) :: carryInto [adder.carry] higher⟩ := by
  have here := modify_beyond done (bits :: higher) 0 (· ++ [adder.sum])
  have above := modify_beyond done ((bits ++ [adder.sum]) :: higher) 1 (· ++ [adder.carry])
  rw [Nat.add_zero, List.modify_zero_cons] at here
  rw [List.modify_succ_cons] at above
  rw [Matrix.push, Matrix.push, here, above, carryInto]

/-- One round of the loop on a column. -/
theorem lowerColumn_round (taken others : List SignalId)
    (high : target < (taken ++ others).length)
    (count : adderInputs target (taken ++ others).length = taken.length) :
    lowerColumn target done.length ⟨done ++ (taken ++ others) :: higher⟩ = do
      let (adder, used) ← addBits taken
      noteLost (lostBeyond done higher)
      let (lowered, tally) ← lowerColumn target done.length
        ⟨done ++ (others ++ [adder.sum]) :: carryInto [adder.carry] higher⟩
      return (lowered, used.add tally) := by
  have popped := popBits_current done higher taken others
  rw [lowerColumn, dif_pos (by rwa [heightAt_current])]
  rw [← count, ← heightAt_current done higher] at popped
  split
  · next fault failed => cases failed.symm.trans popped
  · next bits rest found =>
      cases found.symm.trans popped
      have lost : (if done.length + 1 < Matrix.columnCount ⟨done ++ (taken ++ others) :: higher⟩
          then none else some (done.length + 1)) = lostBeyond done higher := by
        cases higher <;> simp [lostBeyond, Matrix.columnCount]
      simp only [lost, push_current]

/-- What a column hands on once it has been compressed. -/
def compressed (excess : Nat) (result : List SignalId × List SignalId) : Matrix × AdderTally :=
  (⟨done ++ result.1 :: carryInto result.2 higher⟩, .ofExcess excess)

theorem compressed_fullAdder (more : Nat) (result : List SignalId × List SignalId)
    (carry : SignalId) :
    ((compressed done (carryInto [carry] higher) more result).1,
        AdderTally.add { fullAdders := 1, halfAdders := 0 }
          (compressed done (carryInto [carry] higher) more result).2) =
      compressed done higher (more + 2) (result.1, carry :: result.2) := by
  have full : 1 + more / 2 = (more + 2) / 2 := by omega
  have half : 0 + more % 2 = (more + 2) % 2 := by omega
  simp only [compressed, carryInto_carryInto, AdderTally.add, AdderTally.ofExcess, full, half,
    List.singleton_append]

/-- Targets of at least two leave every adder enough bits. -/
theorem lowerColumn_performs (proper : 2 ≤ target) {lost : Option Nat} {excess : Nat}
    {bits : List SignalId} (isLost : lostBeyond done higher = lost)
    (surplus : bits.length - target = excess) :
    Performs (lowerColumn target done.length ⟨done ++ bits :: higher⟩)
      (compress lost excess bits >>= fun result =>
        pure (compressed done higher excess result)) := by
  have settled (higher : List (List SignalId)) {bits : List SignalId}
      (low : bits.length ≤ target) :
      lowerColumn target done.length ⟨done ++ bits :: higher⟩ =
        pure (compressed done higher 0 (bits, [])) := by
    rw [lowerColumn, dif_neg (by rw [heightAt_current]; omega), compressed, carryInto_nil]
    rfl
  fun_induction compress lost excess bits generalizing higher with
  | case1 more a b c rest ih =>
      simp only [List.length_cons] at surplus
      have round := lowerColumn_round done higher [a, b, c] rest
        (show target < _ by simp; omega) (by simp [adderInputs]; omega)
      have later (adder : SumCarry) := ih adder (carryInto [adder.carry] higher)
        ((lostBeyond_carryInto done higher [adder.carry]).trans isLost) (by simp; omega)
      intro provider builder
      rw [show a :: b :: c :: rest = [a, b, c] ++ rest from rfl, round, isLost]
      simp only [addBits, Attempt.run_bind, later _ _ _, Attempt.run_lift, Attempt.run_pure,
        Build.run_bind, Build.run_pure, compressed_fullAdder]
  | case2 a b rest =>
      simp only [List.length_cons] at surplus
      have round := lowerColumn_round done higher [a, b] rest
        (show target < _ by simp; omega) (by simp [adderInputs]; omega)
      have later (adder : SumCarry) :
          lowerColumn target done.length
              ⟨done ++ (rest ++ [adder.sum]) :: carryInto [adder.carry] higher⟩ = _ :=
        settled _ (by simp; omega)
      intro provider builder
      rw [show a :: b :: rest = [a, b] ++ rest from rfl, round, isLost]
      simp only [addBits, Attempt.run_bind, later, Attempt.run_lift, Attempt.run_pure,
        Build.run_bind, Build.run_pure, compressed, carryInto_nil]
      rfl
  | case3 excess bits notFull notHalf =>
      have none := excess_eq_zero notFull notHalf (by omega)
      subst none
      rw [settled higher (by omega), pure_bind]
      exact Attempt.performs_pure _

theorem lowerColumns_performs (proper : 2 ≤ target) (carries : List SignalId) :
    Performs
      (lowerColumns target (List.range' done.length higher.length)
        ⟨done ++ carryInto carries higher⟩)
      (reduceColumns target done.length carries higher >>= fun result =>
        pure (⟨done ++ result.1⟩, result.2)) := by
  induction higher generalizing done carries with
  | nil => exact Attempt.performs_pure _
  | cons column higher ih =>
      have lost : lostBeyond done higher =
          if higher.isEmpty then some (done.length + 1) else none := rfl
      have here := lowerColumn_performs done higher proper lost
        (show (column ++ carries).length - target = _ from rfl)
      have next (reduced outgoing : List SignalId) := ih (done ++ [reduced]) outgoing
      simp only [List.length_append, List.length_singleton, List.append_assoc,
        List.singleton_append] at next
      intro provider builder
      rw [List.length_cons, List.range'_succ, lowerColumns, reduceColumns,
        show carryInto carries (column :: higher) = (column ++ carries) :: higher from rfl]
      simp only [Attempt.run_bind, here _ _, Attempt.run_lift, Build.run_bind, Build.run_pure,
        compressed, next _ _ _ _, Attempt.run_pure]

end Loops

theorem lowerStages_performs {targets : List Nat} (proper : ∀ target ∈ targets, 2 ≤ target)
    (stage : Nat) (matrix : Matrix) :
    Performs (lowerStages stage targets matrix) (reduceStages stage targets matrix) := by
  induction targets generalizing stage matrix with
  | nil => exact Attempt.performs_pure _
  | cons target targets ih =>
      rw [List.forall_mem_cons] at proper
      have columns := lowerColumns_performs [] matrix.columns proper.1 []
      rw [carryInto_nil, List.nil_append, List.length_nil, ← List.range_eq_range'] at columns
      intro provider builder
      rw [lowerStages, reduceStages]
      simp only [Attempt.run_bind, Attempt.run_lift, Build.run_bind, Build.run_pure,
        Matrix.columnCount, columns _ _, List.nil_append, ih proper.2 _ _ _ _, Attempt.run_pure]

/-- The loops do what the recursion does. -/
theorem run_lower {matrix : Matrix} {targets : List Nat}
    (listed : stageTargets matrix.maxHeight = .ok targets)
    (proper : ∀ target ∈ targets, 2 ≤ target) (provider : CompleteProvider) (builder : Builder) :
    Attempt.run (lower matrix) provider builder = Attempt.run (reduce matrix) provider builder := by
  have passed : Attempt.ofExcept (Except.mapError Error.fault (.ok targets)) = pure targets := rfl
  rw [lower, reduce, listed, passed]
  simp only [Attempt.run_bind, Attempt.run_pure, lowerStages_performs proper _ _ _ _]

theorem run_lower_eq_run_reduce (matrix : Matrix) (provider : CompleteProvider)
    (builder : Builder) :
    Attempt.run (lower matrix) provider builder = Attempt.run (reduce matrix) provider builder := by
  cases listed : stageTargets matrix.maxHeight with
  | error fault =>
      rw [lower, reduce, listed]
      rfl
  | ok targets =>
      exact run_lower listed (fun _ => two_le_of_isChain (stageTargets_isChain listed)) provider
        builder

/-- From every builder, a matrix of existing signals in columns that are not too high is reduced.
The loops never find a column without the bits that an adder needs, every column ends with at most
two bits, and for all values of the signals the two rows sum up to the weighted sum of the true bits
of the matrix, modulo the power of two that belongs to its columns. -/
theorem lower_leaves_two_rows (complete : CompleteProvider) {builder : Builder}
    (literals : builder.HasLiterals) {matrix : Matrix} (matrix_lt : Within builder.size matrix)
    (low : ∀ column ∈ matrix.columns, column.length < 2 ^ 62) :
    ∃ reduced after,
      Attempt.run (lower matrix) complete builder = (.ok reduced, after) ∧
        Attempt.run (reduce matrix) complete builder = (.ok reduced, after) ∧
        (∀ column ∈ reduced.columns, column.length ≤ 2) ∧
        reduced.rows.1.length = matrix.columnCount ∧ reduced.rows.2.length = matrix.columnCount ∧
        Builder.Computation complete.toProvider builder after reduced fun value reduced =>
          Bits.value (reduced.rows.1.map value) + Bits.value (reduced.rows.2.map value) ≡
            ∑ index ∈ Finset.range matrix.columnCount, 2 ^ index * matrix.trueBits value index
              [MOD 2 ^ matrix.columnCount] := by
  have bounded : 3 * matrix.maxHeight < Fault.countLimit + 3 := by
    have highest : matrix.maxHeight ≤ 2 ^ 62 - 1 := by
      apply Matrix.maxHeight_le
      intro index inside
      rw [Matrix.heightAt, List.getD_eq_getElem?_getD, List.getElem?_eq_getElem inside]
      exact Nat.le_sub_one_of_lt (low _ (List.getElem_mem inside))
    rw [Fault.countLimit]
    omega
  rcases exists_stageTargets bounded with ⟨targets, listed, proper⟩
  rcases reduce_performs matrix_lt listed with ⟨step, performs, meets⟩
  have grounded := meets.imp fun value reduced holds (grounds : Grounds value) =>
    And.intro holds grounds.1
  rcases performs.computation grounded complete literals (Nat.le_refl _) with
    ⟨reduced, after, ran, computation⟩
  rcases computation.exists_value with ⟨_, ⟨gains, twoHigh⟩, _⟩
  have rowLengths : reduced.rows.1.length = reduced.columnCount ∧
      reduced.rows.2.length = reduced.columnCount := by
    simp [Matrix.rows, Matrix.columnCount]
  rw [gains.columnCount] at rowLengths
  refine ⟨reduced, after, (run_lower listed proper complete builder).trans ran, ran, twoHigh,
    rowLengths.1, rowLengths.2, computation.imp ?_⟩
  rintro value ⟨⟨gains, twoHigh⟩, ground⟩
  rw [Matrix.value_rows twoHigh ground, ← Matrix.weight_eq_sum]
  exact gains.weight

/-- A column of five bits, two of them literals and two of them the same input, with a column above
it. -/
theorem lower_leaves_two_rows_repeated :
    ∃ reduced after,
      Attempt.run (lower ⟨[[2, 2, Builder.trueId, Builder.falseId, 3], [3]]⟩)
          ⟨.restrictedTo Primitive.basis, by decide⟩
          ((Builder.start "sum").addInput "a" 2) = (.ok reduced, after) ∧
        reduced.rows.1.length = 2 ∧ reduced.rows.2.length = 2 ∧
        ∀ first second : Bool, ∃ value : Valuation Bool, value 2 = first ∧ value 3 = second ∧
          Gate.Settled (Builder.added ((Builder.start "sum").addInput "a" 2) after) value ∧
            Bits.value (reduced.rows.1.map value) + Bits.value (reduced.rows.2.map value) ≡
              2 * first.toNat + 3 * second.toNat + 1 [MOD 4] := by
  let complete : CompleteProvider := ⟨.restrictedTo Primitive.basis, by decide⟩
  have opened : Builder.Step complete.toProvider True (.start "sum")
      ((Builder.start "sum").addInput "a" 2) := .input _ "a" 2
  have literals := (Builder.hasLiterals_start "sum").step opened
  have matrix_lt : Within ((Builder.start "sum").addInput "a" 2).size
      (⟨[[2, 2, Builder.trueId, Builder.falseId, 3], [3]]⟩ : Matrix) := by
    simp [Within, Builder.start, Builder.addInput, Builder.size, Builder.trueId, Builder.falseId]
  have low : ∀ column ∈ [[2, 2, Builder.trueId, Builder.falseId, 3], [3]],
      column.length < 2 ^ 62 := by decide
  rcases lower_leaves_two_rows complete literals matrix_lt low with
    ⟨reduced, after, ran, _, _, firstRow, secondRow, computation⟩
  refine ⟨reduced, after, ran, firstRow, secondRow, fun first second => ?_⟩
  rcases computation.exists_for_word fun index => if index = 0 then first else second with
    ⟨value, isFalse, isTrue, isWord, settled, sums⟩
  have isFirst : value 2 = first := isWord 0 Nat.two_pos
  have isSecond : value 3 = second := isWord 1 Nat.one_lt_two
  refine ⟨value, isFirst, isSecond, settled, sums.trans ?_⟩
  have weight : ∑ index ∈ Finset.range 2, 2 ^ index * Matrix.trueBits value
      ⟨[[2, 2, Builder.trueId, Builder.falseId, 3], [3]]⟩ index =
        2 * first.toNat + 3 * second.toNat + 1 := by
    simp only [Finset.sum_range_succ, Finset.sum_range_zero, Matrix.trueBits, List.getD_cons_zero,
      List.getD_cons_succ, List.countP_cons, List.countP_nil, isFirst, isSecond, isTrue, isFalse]
    cases first <;> cases second <;> rfl
  exact weight ▸ Nat.ModEq.rfl

end Multiplier

end Datapath

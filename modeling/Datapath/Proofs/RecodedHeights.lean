import Datapath.Proofs.Heights
import Datapath.Proofs.Recoding

/-!
# Heights of recoded products

The rows of a recoded product overlap, and each but the last brings correction bits of three kinds:
one in its lowest column, two above its highest column, and a third one for the first row. In the
lower half of the matrix, the lowest columns of the rows lie where rows are still missing. In the
upper half, the bits above the rows lie where rows have ended already: a row that ends leaves room
for two columns, and the next one ends two columns later.

So a column holds at most one bit more than rows reach it, and none of those that all rows reach
holds more than the rows: the matrix is as high as the number of rows.
-/

namespace Datapath.Multiplier

/-- The number of bits that a column holds after a number of rows that bring correction bits: the
rows that reach it, and the correction bits in it. -/
def correctedHeight (width rows index : Nat) : Nat :=
  (min rows (index / 2 + 1) - (index + 1 - width) / 2) +
    (if index % 2 = 0 ∧ index < 2 * rows then 1 else 0) +
    (if width < index ∧ index ≤ width + 2 * rows then 1 else 0) +
    if 0 < rows ∧ index = width + 3 then 1 else 0

/-- The number of bits that a column holds after all rows, of which the last brings no correction
bits. -/
def recodedHeight (width index : Nat) : Nat :=
  correctedHeight width (width / 2) index + if width ≤ index ∧ index ≤ 2 * width then 1 else 0

variable {width : Nat}

theorem reached_succ (width rows index : Nat) :
    min (rows + 1) (index / 2 + 1) - (index + 1 - width) / 2 =
      min rows (index / 2 + 1) - (index + 1 - width) / 2 +
        (List.range' (2 * rows) (width + 1)).count index := by
  rw [List.count_range_1']
  split <;> omega

theorem count_correctionColumns (width row index : Nat) :
    (correctionColumns width row).count index =
      (if index = 2 * row then 1 else 0) +
        (if width + 2 * row < index ∧ index ≤ width + 2 * row + 2 then 1 else 0) +
        if row = 0 ∧ index = width + 3 then 1 else 0 := by
  rw [correctionColumns]
  split <;> simp only [List.count_append, List.count_cons, List.count_nil, beq_iff_eq] <;> grind

/-- One row more: it reaches its columns, and its correction bits lie below and above them. -/
theorem correctedHeight_succ (width rows index : Nat) :
    correctedHeight width (rows + 1) index =
      correctedHeight width rows index +
        ((List.range' (2 * rows) (width + 1)).count index +
          (correctionColumns width rows).count index) := by
  unfold correctedHeight
  rw [reached_succ, count_correctionColumns]
  grind

theorem count_correctedRows (rows index : Nat) (few : rows ≤ width / 2) :
    ((List.range' 0 rows).flatMap (rowColumns width)).count index =
      correctedHeight width rows index := by
  induction rows with
  | zero => simp [correctedHeight]
  | succ rows ih =>
      rw [List.range'_1_concat, List.flatMap_append, List.count_append, ih (by omega),
        List.flatMap_singleton, Nat.zero_add, rowColumns, if_neg (by omega), List.count_append,
        correctedHeight_succ]

theorem count_rows (even : width % 2 = 0) (index : Nat) :
    ((List.range' 0 (width / 2 + 1)).flatMap (rowColumns width)).count index =
      recodedHeight width index := by
  rw [List.range'_1_concat, List.flatMap_append, List.count_append,
    count_correctedRows _ index (Nat.le_refl _), List.flatMap_singleton, Nat.zero_add, rowColumns,
    if_pos rfl, List.append_nil, List.count_range_1', recodedHeight]
  grind

/-- No column holds more bits than there are rows. -/
theorem recodedHeight_le (even : width % 2 = 0) (positive : 0 < width) {index : Nat}
    (inside : index < 2 * width + 1) : recodedHeight width index ≤ width / 2 + 1 := by
  unfold recodedHeight correctedHeight
  grind

/-- All rows reach the column that is as far from the lowest one as the words are wide. -/
theorem recodedHeight_self (even : width % 2 = 0) : recodedHeight width width = width / 2 + 1 := by
  unfold recodedHeight correctedHeight
  grind

theorem Matrix.heightAt_le_maxHeight {matrix : Matrix} {index : Nat}
    (inside : index < matrix.columnCount) : matrix.heightAt index ≤ matrix.maxHeight := by
  have found : index < matrix.columns.length := inside
  rw [heightAt, List.getD_eq_getElem?_getD, List.getElem?_eq_getElem found]
  exact length_le_maxHeight (List.getElem_mem found)

/-- Every column of the recoded product of two words holds the bits that belong there. -/
theorem run_boothProducts {left right : List SignalId} (sameWidth : left.length = right.length)
    (even : left.length % 2 = 0) (provider : CompleteProvider) (builder : Builder) :
    ∃ matrix after, Attempt.run (boothProducts left right) provider builder = (.ok matrix, after) ∧
      matrix.columnCount = 2 * left.length + 1 ∧
      ∀ index < matrix.columnCount, matrix.heightAt index = recodedHeight left.length index := by
  let rows := Build.run (boothRows right 0 (multiplierWindows left)
    (.empty (Scheme.booth.columns left.length))) provider builder
  let noted : Builder := { rows.2 with
    scope := none
    log := rows.2.log.push (.boothMatrix left.length (left.length / 2 + 1) rows.1.heights) }
  have ran : Attempt.run (boothProducts left right) provider builder = (.ok rows.1, noted) := by
    rw [boothProducts, if_neg (by simpa using sameWidth), if_neg (by simpa using even)]
    rfl
  have count : (multiplierWindows left).length = left.length / 2 + 1 :=
    length_windows Builder.falseId left even
  have grows : Matrix.Grows (.empty (Scheme.booth.columns left.length)) rows.1 _ :=
    Build.boothRows_grows right 0 (multiplierWindows left) _ provider builder
  rw [count, ← sameWidth] at grows
  refine ⟨_, _, ran, grows.columnCount.trans (Matrix.columnCount_empty _), fun index inside => ?_⟩
  rw [grows.heightAt_of_empty inside, count_rows even]

/-- The matrix of the recoded product of two words of an even width is built from every builder,
whatever the provider realizes and the words are. It has one column more than the product, and it is
exactly as high as the number of its rows. -/
theorem boothProducts_height (complete : CompleteProvider) (builder : Builder)
    {left right : List SignalId} (sameWidth : left.length = right.length)
    (even : left.length % 2 = 0) (wide : 2 ≤ left.length) :
    ∃ matrix after, Attempt.run (boothProducts left right) complete builder = (.ok matrix, after) ∧
      matrix.columnCount = 2 * left.length + 1 ∧ matrix.maxHeight = left.length / 2 + 1 := by
  rcases run_boothProducts sameWidth even complete builder with
    ⟨matrix, after, ran, columnCount, heights⟩
  refine ⟨matrix, after, ran, columnCount, Nat.le_antisymm ?_ ?_⟩
  · refine Matrix.maxHeight_le fun index inside => ?_
    rw [heights index inside]
    exact recodedHeight_le even (by omega) (columnCount ▸ inside)
  · have inside : left.length < matrix.columnCount := by omega
    rw [← recodedHeight_self even, ← heights _ inside]
    exact Matrix.heightAt_le_maxHeight inside

/-- Words of four bits that share signals, and a provider that realizes the basis only. -/
theorem boothProducts_height_repeated :
    ∃ matrix after,
      Attempt.run (boothProducts [2, 3, 3, Builder.trueId] [4, 4, 5, 2])
          ⟨.restrictedTo Primitive.basis, by decide⟩
          ((Builder.start "product").addInput "a" 4) = (.ok matrix, after) ∧
        matrix.columnCount = 9 ∧ matrix.maxHeight = 3 :=
  boothProducts_height ⟨.restrictedTo Primitive.basis, by decide⟩
    ((Builder.start "product").addInput "a" 4)
    (show [2, 3, 3, Builder.trueId].length = [4, 4, 5, 2].length from rfl) (by decide) (by decide)

end Datapath.Multiplier

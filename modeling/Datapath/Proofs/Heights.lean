import Datapath.Multiplier.PartialProducts
import Datapath.Proofs.Reduction

/-!
# Heights of matrices

Which columns the bits of a construction go to does not depend on the provider or on the signals.
`Matrix.Grows` says it as a list of column numbers: each column has grown by as many bits as the
list has its number. A recoded row puts at most two bits into a column and a row of conjunctions at
most one, which bounds the height of the whole matrix.
-/

namespace Datapath

namespace Build

variable {α β : Type}

/-- The result has a property, whatever the provider and the builder are. -/
def Always (step : Build α) (property : α → Prop) : Prop :=
  ∀ (provider : CompleteProvider) (builder : Builder), property (run step provider builder).1

theorem always_pure {property : α → Prop} {result : α} (holds : property result) :
    Always (pure result) property :=
  fun _ _ => holds

theorem Always.bind {step : Build α} {next : α → Build β} {property : α → Prop}
    {final : β → Prop} (first : Always step property)
    (rest : ∀ result, property result → Always (next result) final) :
    Always (step >>= next) final :=
  fun provider builder => rest _ (first provider builder) provider _

/-- A step whose result does not matter may come first. -/
theorem Always.after {step : Build α} {next : α → Build β} {final : β → Prop}
    (rest : ∀ result, Always (next result) final) : Always (step >>= next) final :=
  fun provider _ => rest _ provider _

end Build

namespace Multiplier

namespace Matrix

/-- The number of bits in a column, none where there is no column. -/
def heightAt (matrix : Matrix) (index : Nat) : Nat :=
  (matrix.columns.getD index []).length

/-- A matrix of the same columns, with one more bit for each number of a list of columns. -/
structure Grows (before after : Matrix) (columns : List Nat) : Prop where
  columnCount : after.columnCount = before.columnCount
  heightAt : ∀ index < before.columnCount,
    after.heightAt index = before.heightAt index + columns.count index

variable {before middle after : Matrix} {columns more : List Nat}

theorem Grows.refl (matrix : Matrix) : Grows matrix matrix [] :=
  ⟨rfl, fun _ _ => rfl⟩

theorem Grows.trans (first : Grows before middle columns) (second : Grows middle after more) :
    Grows before after (columns ++ more) where
  columnCount := second.columnCount.trans first.columnCount
  heightAt index inside := by
    rw [second.heightAt index (first.columnCount ▸ inside), first.heightAt index inside,
      List.count_append, Nat.add_assoc]

theorem grows_push (matrix : Matrix) (column : Nat) (bit : SignalId) :
    Grows matrix (matrix.push column bit) [column] where
  columnCount := matrix.columnCount_push column bit
  heightAt index inside := by
    have found : index < matrix.columns.length := inside
    simp only [Matrix.heightAt, push, List.getD_eq_getElem?_getD, List.getElem?_modify,
      List.getElem?_eq_getElem found, List.count_singleton]
    by_cases same : column = index <;> simp [same]

theorem heightAt_empty (columns index : Nat) : (empty columns).heightAt index = 0 := by
  simp only [heightAt, empty, List.getD_eq_getElem?_getD, List.getElem?_replicate]
  split <;> rfl

theorem heightAt_truncate {matrix : Matrix} {columns index : Nat} (inside : index < columns) :
    (matrix.truncate columns).heightAt index = matrix.heightAt index := by
  simp only [heightAt, truncate, List.getD_eq_getElem?_getD, List.getElem?_take, if_pos inside]

theorem maxHeight_map (replace : SignalId → SignalId) (matrix : Matrix) :
    (matrix.map replace).maxHeight = matrix.maxHeight := by
  rw [maxHeight, heights_map, maxHeight]

/-- The greatest height is one of the heights, so a bound on all of them is one on it. -/
theorem maxHeight_le {matrix : Matrix} {bound : Nat}
    (low : ∀ index < matrix.columnCount, matrix.heightAt index ≤ bound) :
    matrix.maxHeight ≤ bound := by
  refine foldl_max_le_iff.mpr ⟨Nat.zero_le bound, fun height member => ?_⟩
  rcases List.mem_map.mp member with ⟨column, isColumn, rfl⟩
  rcases List.getElem_of_mem isColumn with ⟨index, inside, rfl⟩
  have here := low index inside
  rwa [heightAt, List.getD_eq_getElem?_getD, List.getElem?_eq_getElem inside] at here

/-- An empty matrix that has grown is as high as the list has repetitions. -/
theorem Grows.heightAt_of_empty {columnCount : Nat}
    (grows : Grows (.empty columnCount) after columns)
    {index : Nat} (inside : index < after.columnCount) :
    after.heightAt index = columns.count index := by
  rw [grows.heightAt index (grows.columnCount ▸ inside), heightAt_empty, Nat.zero_add]

end Matrix

/-- The columns of the correction bits of a row that is not the last. -/
def correctionColumns (width row : Nat) : List Nat :=
  (if row = 0 then [width + 1, width + 2, width + 3]
    else [2 * row + width + 1, 2 * row + width + 2]) ++ [2 * row]

/-- The columns of the bits of a recoded row. -/
def rowColumns (width row : Nat) : List Nat :=
  List.range' (2 * row) (width + 1) ++
    if row = width / 2 then [] else correctionColumns width row

theorem map_fst_corrections (width row : Nat) (sign notSign : SignalId) :
    (corrections width row sign notSign).map (·.1) = correctionColumns width row := by
  rw [corrections, correctionColumns]
  split <;> rfl

theorem count_le_one_of_range' (start count index : Nat) :
    (List.range' start count).count index ≤ 1 :=
  List.nodup_iff_count_le_one.mp List.nodup_range' index

/-- A recoded row puts at most two bits into a column. -/
theorem count_rowColumns_le (width row index : Nat) : (rowColumns width row).count index ≤ 2 := by
  have once : (correctionColumns width row).Nodup := by
    rw [correctionColumns]
    split <;> simp <;> omega
  have row_le := count_le_one_of_range' (2 * row) (width + 1) index
  have corrections_le := List.nodup_iff_count_le_one.mp once index
  rw [rowColumns, List.count_append]
  split
  · rw [List.count_nil]
    omega
  · omega

theorem count_flatMap_le {ι : Type} {items : List ι} {list : ι → List Nat} {bound : Nat}
    (low : ∀ item ∈ items, ∀ index, (list item).count index ≤ bound) (index : Nat) :
    (items.flatMap list).count index ≤ bound * items.length := by
  induction items with
  | nil => simp
  | cons item items ih =>
      rw [List.forall_mem_cons] at low
      rw [List.flatMap_cons, List.count_append, List.length_cons, Nat.mul_succ, Nat.add_comm]
      exact Nat.add_le_add (ih low.2) (low.1 index)

end Multiplier

namespace Build

open Multiplier

theorem push_grows (matrix : Matrix) (column : Nat) (bit : SignalId) :
    Always (push matrix column bit) fun result => Matrix.Grows matrix result [column] := by
  have pushed : Always (pure (matrix.push column bit)) fun result =>
      Matrix.Grows matrix result [column] := always_pure (Matrix.grows_push matrix column bit)
  rw [push]
  by_cases inside : column < matrix.columnCount
  · simpa [inside] using pushed
  · simp only [inside]
    exact .after fun _ => pushed

theorem pushAll_grows (matrix : Matrix) (entries : List (Nat × SignalId)) :
    Always (pushAll matrix entries) fun result =>
      Matrix.Grows matrix result (entries.map (·.1)) := by
  induction entries generalizing matrix with
  | nil => exact always_pure (.refl matrix)
  | cons entry entries ih =>
      rcases entry with ⟨column, bit⟩
      rw [pushAll, List.foldlM_cons]
      refine (push_grows matrix column bit).bind fun pushed first provider builder => ?_
      exact first.trans (ih pushed provider builder)

theorem pushRow_grows (digit : Digit) (column : Nat) (pairs : List (SignalId × SignalId))
    (matrix : Matrix) :
    Always (pushRow digit column pairs matrix) fun result =>
      Matrix.Grows matrix result (List.range' column pairs.length) := by
  induction pairs generalizing column matrix with
  | nil => exact always_pure (.refl matrix)
  | cons pair higher ih =>
      refine .after fun bit => (push_grows matrix column bit).bind fun pushed first => ?_
      intro provider builder
      exact first.trans (ih (column + 1) pushed provider builder)

theorem length_neighbours (word : List SignalId) :
    (neighbours word).length = word.length + 1 := by
  simp [neighbours]

theorem boothRow_grows (multiplicand : List SignalId) (row : Nat)
    (window : SignalId × SignalId × SignalId) (matrix : Matrix) :
    Always (boothRow multiplicand row window matrix) fun result =>
      Matrix.Grows matrix result (rowColumns multiplicand.length row) := by
  refine .after fun _ => .after fun digit =>
    (pushRow_grows digit (2 * row) (neighbours multiplicand) matrix).bind fun pushed first => ?_
  rw [length_neighbours] at first
  rw [rowColumns]
  by_cases last : row = multiplicand.length / 2
  · rw [if_pos last, if_pos last, List.append_nil]
    exact always_pure first
  · rw [if_neg last, if_neg last]
    refine .after fun notSign => ?_
    intro provider builder
    have corrected := pushAll_grows pushed
      (corrections multiplicand.length row digit.sign notSign) provider builder
    rw [map_fst_corrections] at corrected
    exact first.trans corrected

theorem boothRows_grows (multiplicand : List SignalId) (row : Nat)
    (windows : List (SignalId × SignalId × SignalId)) (matrix : Matrix) :
    Always (boothRows multiplicand row windows matrix) fun result =>
      Matrix.Grows matrix result
        ((List.range' row windows.length).flatMap (rowColumns multiplicand.length)) := by
  induction windows generalizing row matrix with
  | nil => exact always_pure (.refl matrix)
  | cons window higher ih =>
      refine (boothRow_grows multiplicand row window matrix).bind fun middle first => ?_
      intro provider builder
      exact first.trans (ih (row + 1) middle provider builder)

theorem pushConjunctions_grows (bit : SignalId) (column : Nat) (word : List SignalId)
    (matrix : Matrix) :
    Always (pushConjunctions bit column word matrix) fun result =>
      Matrix.Grows matrix result (List.range' column word.length) := by
  induction word generalizing column matrix with
  | nil => exact always_pure (.refl matrix)
  | cons other higher ih =>
      refine .after fun conjunction =>
        (push_grows matrix column conjunction).bind fun pushed first => ?_
      intro provider builder
      exact first.trans (ih (column + 1) pushed provider builder)

theorem pushProducts_grows (right : List SignalId) (column : Nat) (left : List SignalId)
    (matrix : Matrix) :
    Always (pushProducts right column left matrix) fun result =>
      Matrix.Grows matrix result
        ((List.range' column left.length).flatMap (List.range' · right.length)) := by
  induction left generalizing column matrix with
  | nil => exact always_pure (.refl matrix)
  | cons bit higher ih =>
      refine (pushConjunctions_grows bit column right matrix).bind fun middle first => ?_
      intro provider builder
      exact first.trans (ih (column + 1) middle provider builder)

end Build

end Datapath

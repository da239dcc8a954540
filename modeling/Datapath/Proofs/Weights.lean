import Mathlib.Algebra.BigOperators.Ring.Finset
import Mathlib.Data.Nat.ModEq
import Datapath.Multiplier.Matrix
import Datapath.Proofs.Construction

/-!
# Weights of matrices

A bit in column `i` of a matrix weighs `2 ^ i`, so a matrix of `n` columns stands for the sum of the
weights of its true bits modulo `2 ^ n`. A bit that is pushed to a column beyond the last is lost,
and its weight is a multiple of `2 ^ n`; cutting columns off loses multiples of the new modulus.

Steps that push bits are described by what the matrix gains. A matrix of at most two bits a column
weighs as much as its two rows together.
-/

namespace Datapath

open Scoped (Within within_mono exists_within)

instance : Scoped Multiplier.Matrix where
  Within bound matrix := Within bound matrix.columns
  within_mono := within_mono
  exists_within matrix := exists_within matrix.columns

namespace Multiplier

variable {value : Valuation Bool}

/-- The number of true bits. -/
def trueCount (value : Valuation Bool) : List SignalId → Nat
  | [] => 0
  | bit :: rest => (value bit).toNat + trueCount value rest

theorem trueCount_append (left right : List SignalId) :
    trueCount value (left ++ right) = trueCount value left + trueCount value right := by
  induction left with
  | nil => simp [trueCount]
  | cons bit left ih => rw [List.cons_append, trueCount, ih, trueCount, Nat.add_assoc]

theorem trueCount_singleton (bit : SignalId) : trueCount value [bit] = (value bit).toNat :=
  rfl

/-- The sum of the weights of the true bits. -/
def columnsWeight (value : Valuation Bool) : List (List SignalId) → Nat
  | [] => 0
  | column :: higher => trueCount value column + 2 * columnsWeight value higher

theorem columnsWeight_replicate_nil (count : Nat) :
    columnsWeight value (List.replicate count []) = 0 := by
  induction count with
  | zero => rfl
  | succ count ih => rw [List.replicate_succ, columnsWeight, ih, trueCount]

theorem columnsWeight_modify {columns : List (List SignalId)} {index : Nat}
    (inside : index < columns.length) (bit : SignalId) :
    columnsWeight value (columns.modify index (· ++ [bit])) =
      columnsWeight value columns + 2 ^ index * (value bit).toNat := by
  induction columns generalizing index with
  | nil => cases inside
  | cons column higher ih =>
      cases index with
      | zero =>
          rw [List.modify_zero_cons, columnsWeight, columnsWeight, trueCount_append,
            trueCount_singleton]
          omega
      | succ index =>
          rw [List.modify_succ_cons, columnsWeight, columnsWeight,
            ih (Nat.lt_of_succ_lt_succ inside), Nat.pow_succ]
          grind

theorem columnsWeight_take_modEq (count : Nat) (columns : List (List SignalId)) :
    columnsWeight value (columns.take count) ≡ columnsWeight value columns [MOD 2 ^ count] := by
  induction columns generalizing count with
  | nil => rw [List.take_nil]
  | cons column higher ih =>
      cases count with
      | zero => exact Nat.modEq_one
      | succ count =>
          rw [List.take_succ_cons, columnsWeight, columnsWeight, Nat.pow_succ, Nat.mul_comm _ 2]
          exact ((ih count).mul_left' 2).add_left _

theorem trueCount_map {other : Valuation Bool} {replace : SignalId → SignalId}
    {bits : List SignalId} (same : ∀ bit ∈ bits, other (replace bit) = value bit) :
    trueCount other (bits.map replace) = trueCount value bits := by
  induction bits with
  | nil => rfl
  | cons bit bits ih =>
      rw [List.forall_mem_cons] at same
      rw [List.map_cons, trueCount, trueCount, same.1, ih same.2]

theorem columnsWeight_map {other : Valuation Bool} {replace : SignalId → SignalId}
    {columns : List (List SignalId)}
    (same : ∀ bit ∈ columns.flatten, other (replace bit) = value bit) :
    columnsWeight other (columns.map (·.map replace)) = columnsWeight value columns := by
  induction columns with
  | nil => rfl
  | cons column higher ih =>
      simp only [List.flatten_cons, List.mem_append] at same
      rw [List.map_cons, columnsWeight, columnsWeight,
        trueCount_map fun bit member => same bit (.inl member),
        ih fun bit member => same bit (.inr member)]

theorem trueCount_eq_countP (bits : List SignalId) :
    trueCount value bits = bits.countP (value ·) := by
  induction bits with
  | nil => rfl
  | cons bit bits ih =>
      rw [trueCount, ih, List.countP_cons, Nat.add_comm]
      cases value bit <;> rfl

namespace Matrix

/-- The number of true bits in a column. -/
def trueBits (value : Valuation Bool) (matrix : Matrix) (index : Nat) : Nat :=
  (matrix.columns.getD index []).countP (value ·)

/-- The sum of the weights of the true bits. -/
def weight (value : Valuation Bool) (matrix : Matrix) : Nat :=
  columnsWeight value matrix.columns

/-- The weight of a matrix is the weighted sum over its columns. -/
theorem weight_eq_sum (matrix : Matrix) :
    matrix.weight value =
      ∑ index ∈ Finset.range matrix.columnCount, 2 ^ index * matrix.trueBits value index := by
  rcases matrix with ⟨columns⟩
  simp only [weight, columnCount, trueBits]
  induction columns with
  | nil => rfl
  | cons column higher ih =>
      rw [columnsWeight, ih, trueCount_eq_countP, List.length_cons, Finset.sum_range_succ',
        Finset.mul_sum, Nat.pow_zero, Nat.one_mul, List.getD_cons_zero, Nat.add_comm]
      refine congrArg (· + _) (Finset.sum_congr rfl fun index _ => ?_)
      rw [List.getD_cons_succ, Nat.pow_succ, Nat.mul_comm (2 ^ index) 2, Nat.mul_assoc]

@[simp]
theorem weight_empty (columns : Nat) : (empty columns).weight value = 0 :=
  columnsWeight_replicate_nil columns

theorem weight_truncate_modEq (matrix : Matrix) (columns : Nat) :
    (matrix.truncate columns).weight value ≡ matrix.weight value [MOD 2 ^ columns] :=
  columnsWeight_take_modEq columns matrix.columns

theorem weight_map {other : Valuation Bool} {replace : SignalId → SignalId} {matrix : Matrix}
    (same : ∀ bit ∈ matrix.bits, other (replace bit) = value bit) :
    (matrix.map replace).weight other = matrix.weight value :=
  columnsWeight_map same

/-- A matrix of the same number of columns that weighs so much more. -/
structure Gains (value : Valuation Bool) (before after : Matrix) (amount : Nat) : Prop where
  columnCount : after.columnCount = before.columnCount
  weight : after.weight value ≡ before.weight value + amount [MOD 2 ^ before.columnCount]

variable {before middle after : Matrix} {amount more : Nat}

theorem Gains.refl (matrix : Matrix) : Gains value matrix matrix 0 :=
  ⟨rfl, .refl _⟩

theorem Gains.trans (first : Gains value before middle amount)
    (second : Gains value middle after more) : Gains value before after (amount + more) where
  columnCount := second.columnCount.trans first.columnCount
  weight := by
    have later := second.weight
    rw [first.columnCount] at later
    rw [← Nat.add_assoc]
    exact later.trans (first.weight.add_right more)

theorem gains_push (matrix : Matrix) (index : Nat) (bit : SignalId) :
    Gains value matrix (matrix.push index bit) (2 ^ index * (value bit).toNat) where
  columnCount := matrix.columnCount_push index bit
  weight := by
    by_cases inside : index < matrix.columns.length
    · rw [Matrix.weight, push, columnsWeight_modify inside]
      rfl
    · have beyond : 2 ^ index * (value bit).toNat ≡ 0 [MOD 2 ^ matrix.columnCount] := by
        refine Nat.modEq_zero_iff_dvd.mpr (Nat.dvd_mul_right_of_dvd ?_ _)
        exact Nat.pow_dvd_pow 2 (Nat.le_of_not_lt inside)
      have unchanged : matrix.push index bit = matrix := by
        rw [push, List.modify_eq_self (Nat.le_of_not_lt inside)]
      rw [unchanged]
      exact (beyond.add_left (matrix.weight value)).symm

end Matrix

/-- The sum of the weights of bits with columns beside them. -/
def entriesWeight (value : Valuation Bool) : List (Nat × SignalId) → Nat
  | [] => 0
  | (column, bit) :: rest => 2 ^ column * (value bit).toNat + entriesWeight value rest

/-- The bits of a word at consecutive columns weigh the value of the word. -/
theorem entriesWeight_zipIdx (word : List SignalId) (start : Nat) :
    entriesWeight value ((word.zipIdx start).map fun (bit, column) => (column, bit)) =
      2 ^ start * Bits.value (word.map value) := by
  induction word generalizing start with
  | nil => rfl
  | cons bit word ih =>
      rw [List.zipIdx_cons, List.map_cons, entriesWeight, ih, List.map_cons, Bits.value,
        Nat.pow_succ]
      grind

theorem map_snd_swap_zipIdx (word : List SignalId) (start : Nat) :
    ((word.zipIdx start).map fun (bit, column) => (column, bit)).map (·.2) = word := by
  rw [List.map_map]
  exact List.zipIdx_map_fst start word

theorem map_fst_swap_zipIdx (word : List SignalId) (start : Nat) :
    ((word.zipIdx start).map fun (bit, column) => (column, bit)).map (·.1) =
      List.range' start word.length := by
  rw [List.map_map]
  exact List.zipIdx_map_snd start word

theorem trueCount_eq_of_length_le {column : List SignalId} (low : column.length ≤ 2)
    (ground : value Builder.falseId = false) :
    trueCount value column = (value (column[0]?.getD Builder.falseId)).toNat +
      (value (column[1]?.getD Builder.falseId)).toNat := by
  rcases column with _ | ⟨first, _ | ⟨second, _ | ⟨third, rest⟩⟩⟩
  · simp [trueCount, ground]
  · simp [trueCount, ground]
  · simp [trueCount]
  · simp at low

/-- A matrix of at most two bits a column weighs as much as its rows. -/
theorem Matrix.value_rows {matrix : Matrix} (low : ∀ column ∈ matrix.columns, column.length ≤ 2)
    (ground : value Builder.falseId = false) :
    Bits.value (matrix.rows.1.map value) + Bits.value (matrix.rows.2.map value) =
      matrix.weight value := by
  rcases matrix with ⟨columns⟩
  simp only [rows, weight]
  induction columns with
  | nil => rfl
  | cons column higher ih =>
      rw [List.forall_mem_cons] at low
      have rest := ih low.2
      have here := trueCount_eq_of_length_le low.1 ground
      simp only [List.map_cons, Bits.value, columnsWeight] at rest ⊢
      omega

theorem Matrix.mem_bits_push {matrix : Matrix} {column : Nat} {bit id : SignalId}
    (member : id ∈ (matrix.push column bit).bits) : id ∈ matrix.bits ∨ id = bit := by
  rcases List.mem_flatten.mp member with ⟨bits, isColumn, inColumn⟩
  rcases List.getElem_of_mem isColumn with ⟨index, inside, rfl⟩
  simp only [push, List.length_modify] at inside
  have old (isOld : id ∈ matrix.columns[index]) : id ∈ matrix.bits :=
    List.mem_flatten.mpr ⟨_, List.getElem_mem inside, isOld⟩
  simp only [push, List.getElem_modify] at inColumn
  split at inColumn
  · rcases List.mem_append.mp inColumn with isOld | isNew
    · exact .inl (old isOld)
    · exact .inr (List.mem_singleton.mp isNew)
  · exact .inl (old inColumn)

end Multiplier

namespace Build

open Multiplier

variable {known : Nat} {matrix : Matrix}

theorem within_push {bound : Nat} (matrix_lt : Within bound matrix) (column : Nat) {bit : Nat}
    (bit_lt : bit < bound) : Within bound (matrix.push column bit) := by
  intro bits isColumn id inColumn
  rcases Matrix.mem_bits_push (List.mem_flatten.mpr ⟨bits, isColumn, inColumn⟩) with old | rfl
  · rcases List.mem_flatten.mp old with ⟨bits, isColumn, inColumn⟩
    exact matrix_lt bits isColumn id inColumn
  · exact bit_lt

theorem push_meets (matrix_lt : Within known matrix) (column : Nat) {bit : Nat}
    (bit_lt : bit < known) :
    Meets known (push matrix column bit) fun value result =>
      Matrix.Gains value matrix result (2 ^ column * (value bit).toNat) := by
  have pushed : Meets known (pure (matrix.push column bit)) fun value result =>
      Matrix.Gains value matrix result (2 ^ column * (value bit).toNat) :=
    meets_pure (fun bound enough => within_mono enough (within_push matrix_lt column bit_lt))
      fun value => Matrix.gains_push matrix column bit
  rw [push]
  by_cases inside : column < matrix.columnCount
  · simpa [inside] using pushed
  · simp only [inside]
    exact (note_meets _).andThen pushed

theorem pushAll_meets (matrix_lt : Within known matrix) {entries : List (Nat × SignalId)}
    (entries_lt : Below known (entries.map (·.2))) :
    Meets known (pushAll matrix entries) fun value result =>
      Matrix.Gains value matrix result (entriesWeight value entries) := by
  induction entries generalizing known matrix with
  | nil =>
      exact meets_pure (fun bound enough => within_mono enough matrix_lt) fun value => .refl matrix
  | cons entry entries ih =>
      rcases entry with ⟨column, bit⟩
      rcases below_cons.mp entries_lt with ⟨bit_lt, rest_lt⟩
      rw [pushAll, List.foldlM_cons]
      apply (push_meets matrix_lt column bit_lt).bind
      intro pushed n le pushed_lt
      exact (ih pushed_lt (rest_lt.mono le)).imp fun value result later first => first.trans later

end Build

end Datapath

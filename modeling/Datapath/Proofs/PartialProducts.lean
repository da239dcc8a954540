import Datapath.Multiplier.PartialProducts
import Datapath.Proofs.Contexts
import Datapath.Proofs.Recoding
import Datapath.Proofs.Streams

/-!
# Partial products stand for the product

By either scheme, the matrix of the partial products weighs the product of the operands, modulo the
power of two that belongs to its columns: `Multiplier.partialProducts_streams` says so for the
traces of a netlist, `Multiplier.partialProducts_multiply` for whatever was built before.
-/

namespace Datapath

open Scoped (Within within_mono)

namespace Multiplier

/-- The matrix has so many columns and stands for a number modulo their power of two. -/
structure Matrix.Represents (value : Valuation Bool) (matrix : Matrix) (columns number : Nat) :
    Prop where
  columnCount : matrix.columnCount = columns
  weight : matrix.weight value ≡ number [MOD 2 ^ columns]

variable {value : Valuation Bool} {before after : Matrix} {columns number amount : Nat}

theorem Matrix.represents_of_gains_empty
    (gains : Matrix.Gains value (.empty columns) after amount) :
    after.Represents value columns amount where
  columnCount := gains.columnCount.trans (columnCount_empty columns)
  weight := by
    have weighs := gains.weight
    rwa [columnCount_empty, weight_empty, Nat.zero_add] at weighs

theorem Matrix.Represents.gains (represents : before.Represents value columns number)
    (gains : Matrix.Gains value before after amount) :
    after.Represents value columns (number + amount) where
  columnCount := gains.columnCount.trans represents.columnCount
  weight := by
    have weighs := gains.weight
    rw [represents.columnCount] at weighs
    exact weighs.trans (represents.weight.add_right amount)

theorem Matrix.Represents.truncate (represents : before.Represents value columns number)
    {fewer : Nat} (le : fewer ≤ columns) :
    (before.truncate fewer).Represents value fewer number where
  columnCount := by
    rw [columnCount_truncate, represents.columnCount, Nat.min_eq_left le]
  weight := by
    have divides : 2 ^ fewer ∣ 2 ^ columns := Nat.pow_dvd_pow 2 le
    exact (before.weight_truncate_modEq fewer).trans (represents.weight.of_dvd divides)

end Multiplier

namespace Build

open Multiplier

variable {known : Nat}

theorem within_empty (bound columns : Nat) : Within bound (Matrix.empty columns) := by
  intro column member
  rw [List.eq_of_mem_replicate member]
  exact within_list_nil bound

theorem pushConjunctions_meets {bit : Nat} {word : List SignalId} {matrix : Matrix}
    (bit_lt : bit < known) (word_lt : Below known word) (matrix_lt : Within known matrix)
    (column : Nat) :
    Meets known (pushConjunctions bit column word matrix) fun value result =>
      Matrix.Gains value matrix result
        (2 ^ column * ((value bit).toNat * Bits.value (word.map value))) := by
  induction word generalizing known column matrix with
  | nil =>
      exact meets_pure (fun bound enough => within_mono enough matrix_lt) fun value => .refl matrix
  | cons other higher ih =>
      rcases below_cons.mp word_lt with ⟨other_lt, higher_lt⟩
      apply (and2_meets bit_lt other_lt).bind
      intro conjunction n le conjunction_lt
      refine (push_meets (within_mono le matrix_lt) column conjunction_lt).bind
        fun pushed m le' pushed_lt => ?_
      have all : known ≤ m := Nat.le_trans le le'
      apply (ih (Nat.lt_of_lt_of_le bit_lt all) (higher_lt.mono all) pushed_lt (column + 1)).imp
      intro value result later first isConjunction
      have both := first.trans later
      have product :
          (value bit && value other).toNat = (value bit).toNat * (value other).toNat := by
        cases value bit <;> cases value other <;> rfl
      rw [isConjunction, product] at both
      rw [List.map_cons, Bits.value, Nat.mul_add (value bit).toNat, Nat.mul_add (2 ^ column),
        Nat.mul_left_comm (value bit).toNat 2, ← Nat.mul_assoc (2 ^ column) 2, ← Nat.pow_succ]
      exact both

theorem pushProducts_meets {left right : List SignalId} {matrix : Matrix}
    (left_lt : Below known left) (right_lt : Below known right) (matrix_lt : Within known matrix)
    (column : Nat) :
    Meets known (pushProducts right column left matrix) fun value result =>
      Matrix.Gains value matrix result
        (2 ^ column * (Bits.value (left.map value) * Bits.value (right.map value))) := by
  induction left generalizing known column matrix with
  | nil =>
      apply meets_pure (fun bound enough => within_mono enough matrix_lt)
      intro value
      simpa [Bits.value] using Matrix.Gains.refl matrix
  | cons bit higher ih =>
      rcases below_cons.mp left_lt with ⟨bit_lt, higher_lt⟩
      refine (pushConjunctions_meets bit_lt right_lt matrix_lt column).bind
        fun pushed n le pushed_lt => ?_
      apply (ih (higher_lt.mono le) (right_lt.mono le) pushed_lt (column + 1)).imp
      intro value result later first
      have both := first.trans later
      rw [List.map_cons, Bits.value, Nat.add_mul, Nat.mul_add, Nat.mul_assoc 2,
        ← Nat.mul_assoc (2 ^ column) 2, ← Nat.pow_succ]
      exact both

end Build

namespace Multiplier

open Attempt (Performs Streams)

variable {known : Nat} {left right : List SignalId}

theorem schoolbookProducts_performs (left_lt : Below known left) (right_lt : Below known right)
    (sameWidth : left.length = right.length) :
    ∃ step, Performs (schoolbookProducts left right) step ∧
      Build.Meets known step fun value matrix =>
        matrix.Represents value (Scheme.schoolbook.columns left.length)
          (Bits.value (left.map value) * Bits.value (right.map value)) := by
  unfold schoolbookProducts
  rw [if_neg (by simpa using sameWidth)]
  refine ⟨_, (Attempt.performs_lift _).bind fun _ => (Attempt.performs_lift _).bind fun matrix =>
    (Attempt.performs_lift _).bind fun _ => Attempt.performs_pure matrix, ?_⟩
  apply (Build.setScope_meets _).andThen
  apply (Build.pushProducts_meets left_lt right_lt (Build.within_empty known _) 0).bind
  intro matrix n _ matrix_lt
  apply (Build.setScope_meets none).andThen
  apply Build.meets_pure (fun bound enough => within_mono enough matrix_lt)
  intro value gains
  have represents := Matrix.represents_of_gains_empty gains
  rwa [Nat.pow_zero, Nat.one_mul] at represents

/-- The rows of an unsigned multiplier weigh the product and one column beyond it. -/
theorem represents_of_rowGains {value : Valuation Bool} (grounds : Grounds value)
    (even : left.length % 2 = 0) (positive : 0 < left.length)
    (sameWidth : left.length = right.length)
    {matrix : Matrix} (rows : Build.RowGains value right 0 (multiplierWindows left).length
      (multiplierWindows left) (.empty (Scheme.booth.columns left.length)) matrix) :
    matrix.Represents value (Scheme.booth.columns left.length)
      (Bits.value (left.map value) * Bits.value (right.map value)) := by
  rcases rows with ⟨amount, gains, makes⟩
  have represents := Matrix.represents_of_gains_empty gains
  have digits : taken value (multiplierWindows left) = _ :=
    taken_windows grounds.1 Builder.falseId left even
  have count : (multiplierWindows left).length = left.length / 2 + 1 :=
    length_windows Builder.falseId left even
  rw [digits, count, ← sameWidth, rowConstants_eq even positive, grounds.1, Nat.mul_zero,
    Nat.pow_zero, Nat.one_mul, Nat.one_mul, Bool.toNat_false, Nat.zero_add, Nat.add_mul] at makes
  have isProduct : amount =
      Bits.value (left.map value) * Bits.value (right.map value) + 2 ^ (2 * left.length + 1) := by
    change amount + borrowed value (multiplierWindows left) * _ =
      _ + borrowed value (multiplierWindows left) * _ + _ at makes
    omega
  refine ⟨represents.columnCount, represents.weight.trans ?_⟩
  rw [isProduct, Nat.ModEq, Scheme.columns, Nat.add_mod_right]

theorem boothProducts_performs (literals : Builder.trueId < known) (left_lt : Below known left)
    (right_lt : Below known right) (sameWidth : left.length = right.length)
    (positive : 0 < left.length) (even : left.length % 2 = 0) :
    ∃ step, Performs (boothProducts left right) step ∧
      Build.Meets known step fun value matrix => Grounds value →
        matrix.Represents value (Scheme.booth.columns left.length)
          (Bits.value (left.map value) * Bits.value (right.map value)) := by
  unfold boothProducts
  rw [if_neg (by simpa using sameWidth), if_neg (by simpa using even)]
  refine ⟨_, (Attempt.performs_lift _).bind fun matrix => (Attempt.performs_lift _).bind fun _ =>
    (Attempt.performs_lift _).bind fun _ => Attempt.performs_pure matrix, ?_⟩
  have falseId_lt : Builder.falseId < known := Nat.lt_trans Nat.zero_lt_one literals
  have windows_lt : Within known (multiplierWindows left) :=
    within_windows falseId_lt (below_append.mpr ⟨left_lt, by simp [falseId_lt]⟩)
  have count := length_windows Builder.falseId left even
  apply (Build.boothRows_meets literals right_lt windows_lt
    (Build.within_empty known (Scheme.booth.columns left.length)) 0
    ((Nat.zero_add _).trans (sameWidth ▸ count))).bind
  intro matrix n _ matrix_lt
  apply (Build.setScope_meets none).andThen
  apply (Build.note_meets _).andThen
  apply Build.meets_pure (fun bound enough => within_mono enough matrix_lt)
  intro value rows grounds
  apply represents_of_rowGains grounds even positive sameWidth
  refine rows grounds fun window last => ?_
  rw [getLast?_windows Builder.falseId left even window last, grounds.1]

theorem Scheme.checkWidth_eq_ok {scheme : Scheme} {width : Nat} :
    scheme.checkWidth width = .ok () ↔ 0 < width ∧ (scheme = .booth → width % 2 = 0) := by
  unfold checkWidth
  by_cases zero : width = 0
  · rw [if_pos zero]
    exact ⟨nofun, fun wide => absurd zero (Nat.ne_of_gt wide.1)⟩
  · have positive : 0 < width := Nat.pos_of_ne_zero zero
    rw [if_neg zero]
    cases scheme with
    | schoolbook => exact ⟨fun _ => ⟨positive, nofun⟩, fun _ => rfl⟩
    | booth =>
        by_cases even : width % 2 = 0
        · exact ⟨fun _ => ⟨positive, fun _ => even⟩, fun _ => if_pos even⟩
        · refine ⟨fun accepted => ?_, fun wide => absurd (wide.2 rfl) even⟩
          dsimp only at accepted
          rw [if_neg even] at accepted
          cases accepted

/-- The partial products of two words of an accepted width stand for their product. -/
theorem partialProducts_performs {scheme : Scheme} (literals : Builder.trueId < known)
    (left_lt : Below known left) (right_lt : Below known right)
    (sameWidth : left.length = right.length)
    (accepted : scheme.checkWidth left.length = .ok ()) :
    ∃ step, Performs (partialProducts scheme left right) step ∧
      Build.Meets known step fun value matrix => Grounds value →
        matrix.Represents value (scheme.columns left.length)
          (Bits.value (left.map value) * Bits.value (right.map value)) := by
  rcases Scheme.checkWidth_eq_ok.mp accepted with ⟨positive, even⟩
  have checked : partialProducts scheme left right = uncheckedProducts scheme left right := by
    rw [partialProducts, accepted]
    rfl
  rw [checked]
  cases scheme with
  | booth => exact boothProducts_performs literals left_lt right_lt sameWidth positive (even rfl)
  | schoolbook =>
      rcases schoolbookProducts_performs left_lt right_lt sameWidth with ⟨step, performs, meets⟩
      exact ⟨step, performs, meets.imp fun _ _ represents _ => represents⟩

theorem run_uncheckedProducts_of_unequal (scheme : Scheme) (unequal : left.length ≠ right.length)
    (provider : CompleteProvider) (before : Builder) :
    Attempt.run (uncheckedProducts scheme left right) provider before =
      (.error (.fault .unequalWidths), before) := by
  cases scheme with
  | booth =>
      rw [uncheckedProducts, boothProducts, if_pos unequal]
      rfl
  | schoolbook =>
      rw [uncheckedProducts, schoolbookProducts, if_pos unequal]
      rfl

/-- In each cycle, the partial products of two words stand for their product. -/
theorem partialProducts_streams (scheme : Scheme) (literals : Builder.trueId < known)
    (left_lt : Below known left) (right_lt : Below known right) :
    Streams known (partialProducts scheme left right) fun trace matrix => ∀ cycle,
      matrix.Represents (trace cycle) (scheme.columns left.length)
        (Bits.value (left.map (trace cycle)) * Bits.value (right.map (trace cycle))) := by
  intro provider before matrix after enough ran
  cases accepted : scheme.checkWidth left.length with
  | error cause =>
      rw [partialProducts, accepted] at ran
      cases ran
  | ok passed =>
      by_cases sameWidth : left.length = right.length
      · rcases partialProducts_performs literals left_lt right_lt sameWidth accepted with
          ⟨step, performs, meets⟩
        have streams := (Attempt.streams_of_performs performs meets).imp
          fun trace matrix grounded represents cycle => represents cycle (grounded cycle)
        exact streams provider before matrix after enough ran
      · have refused := run_uncheckedProducts_of_unequal scheme sameWidth provider before
        rw [partialProducts, accepted] at ran
        cases refused.symm.trans ran

/-- From every builder, words of one accepted width that are made of existing signals have partial
products, and for all values of the signals the weighted sum of the true bits is the product modulo
the power of two that belongs to the columns. -/
theorem partialProducts_multiply (scheme : Scheme) (complete : CompleteProvider)
    {builder : Builder} (literals : builder.HasLiterals) (left_lt : Below builder.size left)
    (right_lt : Below builder.size right) (sameWidth : left.length = right.length)
    (positive : 0 < left.length) (even : scheme = .booth → left.length % 2 = 0) :
    ∃ matrix after,
      Attempt.run (partialProducts scheme left right) complete builder = (.ok matrix, after) ∧
        matrix.columnCount = scheme.columns left.length ∧
        Builder.Computation complete.toProvider builder after matrix fun value matrix =>
          ∑ index ∈ Finset.range matrix.columnCount, 2 ^ index * matrix.trueBits value index ≡
            Bits.value (left.map value) * Bits.value (right.map value)
              [MOD 2 ^ scheme.columns left.length] := by
  have accepted : scheme.checkWidth left.length = .ok () :=
    Scheme.checkWidth_eq_ok.mpr ⟨positive, even⟩
  rcases partialProducts_performs literals.trueId_lt left_lt right_lt sameWidth accepted with
    ⟨step, performs, meets⟩
  rcases performs.computation meets complete literals (Nat.le_refl _) with
    ⟨matrix, after, ran, represents⟩
  rcases represents.exists_value with ⟨_, shaped⟩
  refine ⟨matrix, after, ran, shaped.columnCount, represents.imp fun value represents => ?_⟩
  rw [← Matrix.weight_eq_sum]
  exact represents.weight

/-- One bit of an input, with the literal true above it, times three of that bit: the recoded
products weigh nine or nothing. -/
theorem partialProducts_multiply_repeated :
    ∃ matrix after,
      Attempt.run (partialProducts .booth [2, Builder.trueId] [2, 2])
          ⟨.restrictedTo Primitive.basis, by decide⟩
          ((Builder.start "square").addInput "a" 1) = (.ok matrix, after) ∧
        matrix.columnCount = 5 ∧ ∀ bit : Bool, ∃ value : Valuation Bool, value 2 = bit ∧
          Gate.Settled (Builder.added ((Builder.start "square").addInput "a" 1) after) value ∧
            ∑ index ∈ Finset.range 5, 2 ^ index * matrix.trueBits value index ≡
              9 * bit.toNat [MOD 32] := by
  let complete : CompleteProvider := ⟨.restrictedTo Primitive.basis, by decide⟩
  have opened : Builder.Step complete.toProvider True (.start "square")
      ((Builder.start "square").addInput "a" 1) := .input _ "a" 1
  have literals := (Builder.hasLiterals_start "square").step opened
  have left_lt : Below ((Builder.start "square").addInput "a" 1).size [2, Builder.trueId] := by
    simp [Builder.start, Builder.addInput, Builder.size, Builder.trueId]
  have right_lt : Below ((Builder.start "square").addInput "a" 1).size [2, 2] := by
    simp [Builder.start, Builder.addInput, Builder.size]
  rcases partialProducts_multiply .booth complete literals left_lt right_lt rfl Nat.two_pos
    (fun _ => rfl) with ⟨matrix, after, ran, count, computation⟩
  refine ⟨matrix, after, ran, count, fun bit => ?_⟩
  rcases computation.exists_for_word fun _ => bit with
    ⟨value, _, isTrue, isWord, settled, weighs⟩
  have isBit : value 2 = bit := isWord 0 Nat.one_pos
  refine ⟨value, isBit, settled, ?_⟩
  have product : Bits.value ([2, Builder.trueId].map value) * Bits.value ([2, 2].map value) =
      9 * bit.toNat := by
    simp only [List.map_cons, List.map_nil, isBit, isTrue]
    cases bit <;> rfl
  rwa [product, count] at weighs

end Multiplier

end Datapath

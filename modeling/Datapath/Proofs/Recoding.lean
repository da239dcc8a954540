import Datapath.Multiplier.Booth
import Datapath.Proofs.Decomposition
import Datapath.Proofs.Weights

/-!
# The recoded rows of a product

A row stands for the multiplicand times its digit, up to the complement of negative rows and the
correction bits. All numbers here are natural, so a digit is the difference of what its window takes
and what it borrows: row by row, the gain of the matrix and the borrowed multiples of the
multiplicand make up the taken ones and a constant.

Over all windows the difference is the multiplier, and the constants add up to the weight of one
column beyond the product: `Build.boothRows_meets`.
-/

namespace Datapath

open Scoped (Within within_mono)

namespace Bits

theorem value_replicate_false (length : Nat) : value (List.replicate length false) = 0 := by
  induction length with
  | zero => rfl
  | succ length ih =>
      rw [List.replicate_succ, value, ih]
      rfl

/-- A word and its complement add up to all ones. -/
theorem value_add_value_not (digits : List Bool) :
    value digits + value (digits.map (!·)) + 1 = 2 ^ digits.length := by
  induction digits with
  | nil => rfl
  | cons digit higher ih =>
      rw [List.map_cons, value, value, List.length_cons, Nat.pow_succ, ← ih]
      cases digit <;> simp <;> omega

theorem value_append_false (digits : List Bool) : value (digits ++ [false]) = value digits := by
  rw [value_append]
  simp [value]

end Bits

namespace Multiplier

instance : Scoped Digit where
  Within bound digit := digit.sign < bound ∧ digit.timesOne < bound ∧ digit.timesTwo < bound
  within_mono le within := ⟨Nat.lt_of_lt_of_le within.1 le, Nat.lt_of_lt_of_le within.2.1 le,
    Nat.lt_of_lt_of_le within.2.2 le⟩
  exists_within digit := by
    refine ⟨digit.sign + digit.timesOne + digit.timesTwo + 1, ?_, ?_, ?_⟩ <;>
      simp only [SignalId] <;> omega

/-- The digit of a window of truth values: its sign, and whether it is one or two in magnitude. -/
structure Recoded where
  sign : Bool
  timesOne : Bool
  timesTwo : Bool

namespace Recoded

/-- The digit of a window. -/
def ofWindow (b0 b1 b2 : Bool) : Recoded where
  sign := b2
  timesOne := b0 ^^ b1
  timesTwo := !b2 && b1 && b0 || b2 && !b1 && !b0

/-- A bit of a row. -/
def select (digit : Recoded) (pair : Bool × Bool) : Bool :=
  (pair.1 && digit.timesTwo || pair.2 && digit.timesOne) ^^ digit.sign

/-- The neighbours in a word between two false bits. -/
def neighbours (word : List Bool) : List (Bool × Bool) :=
  (false :: word).zip (word ++ [false])

theorem length_neighbours (word : List Bool) : (neighbours word).length = word.length + 1 := by
  simp [neighbours]

/-- The magnitude of a row is that of its digit times the word. -/
theorem value_magnitude (timesOne timesTwo : Bool) (word : List Bool)
    (exclusive : (timesOne && timesTwo) = false) :
    Bits.value ((neighbours word).map fun pair => pair.1 && timesTwo || pair.2 && timesOne) =
      (timesOne.toNat + 2 * timesTwo.toNat) * Bits.value word := by
  have sameLength : (false :: word).length = (word ++ [false]).length := by
    simp
  cases timesOne <;> cases timesTwo
  · simp [Bits.value_replicate_false]
  · have lowers : (neighbours word).map (fun pair => pair.1) = false :: word :=
      List.map_fst_zip (Nat.le_of_eq sameLength)
    simp [lowers, Bits.value]
  · have uppers : (neighbours word).map (fun pair => pair.2) = word ++ [false] :=
      List.map_snd_zip (Nat.le_of_eq sameLength.symm)
    simp [uppers, Bits.value_append_false]
  · cases exclusive

/-- A row and what its window borrows make up what the window takes; a row with a sign is one power
of two too high. -/
theorem value_row (b0 b1 b2 : Bool) (word : List Bool) :
    Bits.value ((neighbours word).map (select (ofWindow b0 b1 b2))) + b2.toNat +
        2 * b2.toNat * Bits.value word =
      (b0.toNat + b1.toNat) * Bits.value word + b2.toNat * 2 ^ (word.length + 1) := by
  let digit := ofWindow b0 b1 b2
  have exclusive : (digit.timesOne && digit.timesTwo) = false := by
    cases b0 <;> cases b1 <;> cases b2 <;> rfl
  have magnitude := value_magnitude digit.timesOne digit.timesTwo word exclusive
  cases b2 with
  | false =>
      have plain : (neighbours word).map (select digit) = (neighbours word).map fun pair =>
          pair.1 && digit.timesTwo || pair.2 && digit.timesOne :=
        List.map_congr_left fun pair _ => Bool.xor_false _
      have digits : digit.timesOne.toNat + 2 * digit.timesTwo.toNat = b0.toNat + b1.toNat := by
        cases b0 <;> cases b1 <;> rfl
      rw [plain, magnitude, digits]
      simp
  | true =>
      have complement := Bits.value_add_value_not
        ((neighbours word).map fun pair => pair.1 && digit.timesTwo || pair.2 && digit.timesOne)
      have flipped : (neighbours word).map (select digit) = ((neighbours word).map fun pair =>
          pair.1 && digit.timesTwo || pair.2 && digit.timesOne).map (!·) := by
        rw [List.map_map]
        exact List.map_congr_left fun pair _ => Bool.xor_true _
      have digits :
          digit.timesOne.toNat + 2 * digit.timesTwo.toNat + (b0.toNat + b1.toNat) = 2 := by
        cases b0 <;> cases b1 <;> rfl
      rw [← flipped, magnitude, List.length_map, length_neighbours] at complement
      have doubled := congrArg (· * Bits.value word) digits
      simp only [Nat.add_mul _ (b0.toNat + b1.toNat)] at doubled
      rw [Bool.toNat_true, Nat.mul_one, Nat.one_mul]
      change Bits.value ((neighbours word).map (select digit)) + 1 + 2 * Bits.value word = _
      omega

end Recoded

/-- The truth values of a digit. -/
def Digit.recoded (value : Valuation Bool) (digit : Digit) : Recoded where
  sign := value digit.sign
  timesOne := value digit.timesOne
  timesTwo := value digit.timesTwo

/-- The bit that a digit selects from a pair of signals. -/
def Digit.selected (value : Valuation Bool) (digit : Digit) (pair : SignalId × SignalId) : Bool :=
  (digit.recoded value).select (value pair.1, value pair.2)

theorem map_selected_neighbours {value : Valuation Bool} (ground : value Builder.falseId = false)
    (digit : Digit) (word : List SignalId) :
    (neighbours word).map (digit.selected value) =
      (Recoded.neighbours (word.map value)).map (digit.recoded value).select := by
  have ends : Recoded.neighbours (word.map value) =
      (neighbours word).map (Prod.map value value) := by
    rw [neighbours, ← List.zip_map]
    simp [Recoded.neighbours, ground]
  rw [ends, List.map_map]
  rfl

theorem within_windows {bound : Nat} : ∀ {lowest : Nat} {bits : List SignalId}, lowest < bound →
    Below bound bits → Within bound (windows lowest bits)
  | _, [], _, _ => within_list_nil bound
  | _, [_], _, _ => within_list_nil bound
  | _, _ :: _ :: _, lowest_lt, bits_lt => by
      rcases below_cons.mp bits_lt with ⟨b1_lt, rest_lt⟩
      rcases below_cons.mp rest_lt with ⟨b2_lt, higher_lt⟩
      exact within_list_cons.mpr ⟨⟨lowest_lt, b1_lt, b2_lt⟩, within_windows b2_lt higher_lt⟩

/-- What the windows of a multiplier take. -/
def taken (value : Valuation Bool) : List (SignalId × SignalId × SignalId) → Nat
  | [] => 0
  | (b0, b1, _) :: higher => (value b0).toNat + (value b1).toNat + 4 * taken value higher

/-- What the windows of a multiplier borrow. -/
def borrowed (value : Valuation Bool) : List (SignalId × SignalId × SignalId) → Nat
  | [] => 0
  | (_, _, b2) :: higher => 2 * (value b2).toNat + 4 * borrowed value higher

/-- The digits of all windows stand for the multiplier. -/
theorem taken_windows {value : Valuation Bool} (ground : value Builder.falseId = false) :
    ∀ (lowest : SignalId) (bits : List SignalId), bits.length % 2 = 0 →
      taken value (windows lowest (bits ++ [Builder.falseId, Builder.falseId])) =
        (value lowest).toNat + Bits.value (bits.map value) +
          borrowed value (windows lowest (bits ++ [Builder.falseId, Builder.falseId]))
  | lowest, [], _ => by simp [windows, taken, borrowed, ground, Bits.value]
  | lowest, [_], odd => by cases odd
  | lowest, b1 :: b2 :: higher, even => by
      have rest := taken_windows ground b2 higher (by simp at even; omega)
      simp only [List.cons_append, windows, taken, borrowed, rest, List.map_cons, Bits.value]
      omega

theorem length_windows : ∀ (lowest : SignalId) (bits : List SignalId), bits.length % 2 = 0 →
    (windows lowest (bits ++ [Builder.falseId, Builder.falseId])).length = bits.length / 2 + 1
  | lowest, [], _ => rfl
  | lowest, [_], odd => by cases odd
  | lowest, b1 :: b2 :: higher, even => by
      have rest := length_windows b2 higher (by simp at even; omega)
      simp only [List.cons_append, windows, List.length_cons, rest]
      omega

/-- The topmost window has the sign of an unsigned number. -/
theorem getLast?_windows : ∀ (lowest : SignalId) (bits : List SignalId), bits.length % 2 = 0 →
    ∀ window, (windows lowest (bits ++ [Builder.falseId, Builder.falseId])).getLast? = some window →
      window.2.2 = Builder.falseId
  | lowest, [], _ => by simp [windows]
  | lowest, [_], odd => by cases odd
  | lowest, b1 :: b2 :: higher, even => by
      have rest := getLast?_windows b2 higher (by simp at even; omega)
      have nonempty : windows b2 (higher ++ [Builder.falseId, Builder.falseId]) ≠ [] := by
        have := length_windows b2 higher (by simp at even; omega)
        exact List.ne_nil_of_length_pos (by omega)
      rw [List.cons_append, List.cons_append, windows, List.getLast?_cons_of_ne_nil nonempty]
      exact rest

/-- The constant that the correction bits of a row leave. -/
def rowConstant (width row : Nat) : Nat :=
  if row = width / 2 then 0
  else if row = 0 then 2 ^ (width + 3)
  else 3 * 2 ^ (2 * row + width + 1)

/-- The constants of consecutive rows together. -/
def rowConstants (width : Nat) : (row count : Nat) → Nat
  | _, 0 => 0
  | row, count + 1 => rowConstant width row + rowConstants width (row + 1) count

/-- The constants from a row on fill the columns up to one beyond the product. -/
theorem rowConstants_add {width row : Nat} (even : width % 2 = 0) (positive : 0 < row) :
    ∀ count, row + count = width / 2 →
      rowConstants width row (count + 1) + 2 ^ (2 * row + width + 1) = 2 ^ (2 * width + 1) := by
  intro count
  induction count generalizing row with
  | zero =>
      intro last
      rw [rowConstants, rowConstants, rowConstant, if_pos (by omega),
        show 2 * row + width + 1 = 2 * width + 1 by omega]
      simp
  | succ count ih =>
      intro last
      have rest : rowConstants width (row + 1) (count + 1) + 2 ^ (2 * (row + 1) + width + 1) =
          2 ^ (2 * width + 1) := ih (by omega) (by omega)
      rw [show 2 * (row + 1) + width + 1 = 2 * row + width + 1 + 2 by omega,
        Nat.pow_add _ _ 2] at rest
      rw [rowConstants, rowConstant, if_neg (by omega), if_neg (by omega)]
      omega

theorem rowConstants_eq {width : Nat} (even : width % 2 = 0) (positive : 0 < width) :
    rowConstants width 0 (width / 2 + 1) = 2 ^ (2 * width + 1) := by
  rcases Nat.exists_eq_succ_of_ne_zero (show width / 2 ≠ 0 by omega) with ⟨count, half⟩
  have rest : rowConstants width 1 (count + 1) + 2 ^ (2 * 1 + width + 1) = 2 ^ (2 * width + 1) :=
    rowConstants_add even (by omega) count (by omega)
  rw [half, rowConstants, rowConstant, if_neg (by omega), if_pos rfl, Nat.zero_add,
    show width + 3 = 2 * 1 + width + 1 by omega]
  omega

/-- The correction bits of a row turn its sign into a constant. -/
theorem entriesWeight_corrections {value : Valuation Bool} {width row : Nat}
    {sign notSign : SignalId}
    (notLast : row ≠ width / 2) (isNot : value notSign = !value sign)
    (power : value Builder.trueId = true) :
    entriesWeight value (corrections width row sign notSign) +
        2 ^ (2 * row) * ((value sign).toNat * 2 ^ (width + 1)) =
      2 ^ (2 * row) * (value sign).toNat + rowConstant width row := by
  rw [rowConstant, if_neg notLast, corrections]
  by_cases first : row = 0
  · subst first
    simp only [if_pos, List.cons_append, List.nil_append, entriesWeight, isNot, Nat.pow_succ]
    cases value sign <;> grind
  · simp only [if_neg first, List.cons_append, List.nil_append, entriesWeight, isNot, power,
      Nat.pow_succ, Nat.pow_add _ (2 * row) width]
    cases value sign <;> grind

end Multiplier

namespace Build

open Multiplier

/-- What a row adds to the matrix makes up, with what it borrows, what it takes and its constant. -/
def RowGains (value : Valuation Bool) (multiplicand : List SignalId) (row count : Nat)
    (windows : List (SignalId × SignalId × SignalId)) (before after : Matrix) : Prop :=
  ∃ amount, Matrix.Gains value before after amount ∧
    amount + 2 ^ (2 * row) * (borrowed value windows * Bits.value (multiplicand.map value)) =
      2 ^ (2 * row) * (taken value windows * Bits.value (multiplicand.map value)) +
        rowConstants multiplicand.length row count

variable {known : Nat}

theorem encodeDigit_meets {b0 b1 b2 : Nat} (b0_lt : b0 < known) (b1_lt : b1 < known)
    (b2_lt : b2 < known) :
    Meets known (encodeDigit b0 b1 b2) fun value digit =>
      digit.recoded value = .ofWindow (value b0) (value b1) (value b2) := by
  apply (inv_meets b0_lt).bind
  intro (not0 : Nat) n0 le0 (not0_lt : not0 < n0)
  apply (inv_meets (by omega)).bind
  intro (not1 : Nat) n1 le1 (not1_lt : not1 < n1)
  apply (inv_meets (by omega)).bind
  intro (not2 : Nat) n2 le2 (not2_lt : not2 < n2)
  refine (and2_meets (by omega) (by omega)).bind
    fun (negative : Nat) n3 le3 (negative_lt : negative < n3) => ?_
  refine (ao32_meets (by omega) (by omega) (by omega) (by omega) (by omega)).bind
    fun (timesTwo : Nat) n4 le4 (timesTwo_lt : timesTwo < n4) => ?_
  refine (ao22_meets (by omega) (by omega) (by omega) (by omega)).bind
    fun (timesOne : Nat) n5 le5 (timesOne_lt : timesOne < n5) => ?_
  refine meets_pure (fun bound enough => ⟨?_, ?_, ?_⟩) ?_
  · exact Nat.lt_of_lt_of_le b2_lt (by omega)
  · exact Nat.lt_of_lt_of_le timesOne_lt enough
  · exact Nat.lt_of_lt_of_le timesTwo_lt (by omega)
  · intro value isOne isTwo isNegative isNot2 isNot1 isNot0
    simp only [Digit.recoded, Recoded.ofWindow, isOne, isTwo, isNegative, isNot2, isNot1, isNot0]
    cases value b0 <;> cases value b1 <;> rfl

theorem selectBit_meets {lower upper : Nat} {digit : Digit} (lower_lt : lower < known)
    (upper_lt : upper < known) (digit_lt : Within known digit) :
    Meets known (selectBit lower upper digit) fun value bit =>
      value bit = digit.selected value (lower, upper) := by
  rcases digit_lt with ⟨sign_lt, timesOne_lt, timesTwo_lt⟩
  refine (ao22_meets lower_lt timesTwo_lt upper_lt timesOne_lt).bind
    fun (magnitude : Nat) n le (magnitude_lt : magnitude < n) => ?_
  apply (xor2_meets magnitude_lt (Nat.lt_of_lt_of_le sign_lt le)).imp
  intro value bit isBit isMagnitude
  rw [isBit, isMagnitude]
  rfl

theorem pushRow_meets {digit : Digit} {pairs : List (SignalId × SignalId)} {matrix : Matrix}
    (digit_lt : Within known digit) (pairs_lt : Within known pairs)
    (matrix_lt : Within known matrix) (column : Nat) :
    Meets known (pushRow digit column pairs matrix) fun value result =>
      Matrix.Gains value matrix result
        (2 ^ column * Bits.value (pairs.map (digit.selected value))) := by
  induction pairs generalizing known column matrix with
  | nil =>
      exact meets_pure (fun bound enough => within_mono enough matrix_lt) fun value => .refl matrix
  | cons pair higher ih =>
      rcases pair with ⟨lower, upper⟩
      rcases within_list_cons.mp pairs_lt with ⟨⟨lower_lt, upper_lt⟩, higher_lt⟩
      apply (selectBit_meets lower_lt upper_lt digit_lt).bind
      intro bit n le bit_lt
      refine (push_meets (within_mono le matrix_lt) column bit_lt).bind
        fun pushed m le' pushed_lt => ?_
      have all : known ≤ m := Nat.le_trans le le'
      refine (ih (within_mono all digit_lt) (within_mono all higher_lt) pushed_lt
        (column + 1)).imp ?_
      intro value result later first isBit
      have both := first.trans later
      rw [isBit] at both
      rw [List.map_cons, Bits.value, Nat.mul_add, ← Nat.mul_assoc, ← Nat.pow_succ]
      exact both

theorem within_neighbours {word : List SignalId} (literals : Builder.trueId < known)
    (word_lt : Below known word) : Within known (neighbours word) := by
  have falseId_lt : Builder.falseId < known := Nat.lt_trans Nat.zero_lt_one literals
  intro pair member
  rcases List.of_mem_zip member with ⟨isLower, isUpper⟩
  constructor
  · rcases List.mem_cons.mp isLower with same | inside
    · exact same ▸ falseId_lt
    · exact word_lt _ inside
  · rcases List.mem_append.mp isUpper with inside | same
    · exact word_lt _ inside
    · exact List.mem_singleton.mp same ▸ falseId_lt

theorem below_corrections {sign notSign : Nat} (literals : Builder.trueId < known)
    (sign_lt : sign < known) (notSign_lt : notSign < known) (width row : Nat) :
    Below known ((corrections width row sign notSign).map (·.2)) := by
  rw [corrections]
  split <;> simp [sign_lt, notSign_lt, literals]

/-- What the bits of a row weigh, by what its window takes and borrows. -/
theorem weight_row {value : Valuation Bool} (grounds : Grounds value) {digit : Digit}
    {b0 b1 b2 : SignalId} (multiplicand : List SignalId) (row : Nat)
    (isDigit : digit.recoded value = .ofWindow (value b0) (value b1) (value b2)) :
    2 ^ (2 * row) * Bits.value ((neighbours multiplicand).map (digit.selected value)) +
        2 ^ (2 * row) * (value b2).toNat +
        2 ^ (2 * row) *
          (borrowed value [(b0, b1, b2)] * Bits.value (multiplicand.map value)) =
      2 ^ (2 * row) * (taken value [(b0, b1, b2)] * Bits.value (multiplicand.map value)) +
        2 ^ (2 * row) * ((value b2).toNat * 2 ^ (multiplicand.length + 1)) := by
  have isRow := Recoded.value_row (value b0) (value b1) (value b2) (multiplicand.map value)
  rw [map_selected_neighbours grounds.1, isDigit, borrowed, borrowed, taken, taken]
  rw [List.length_map] at isRow
  rw [← Nat.mul_add, ← Nat.mul_add, ← Nat.mul_add, Nat.mul_zero, Nat.add_zero, Nat.add_zero, isRow]

theorem boothRow_meets {multiplicand : List SignalId} {window : SignalId × SignalId × SignalId}
    {matrix : Matrix} (literals : Builder.trueId < known)
    (multiplicand_lt : Below known multiplicand) (window_lt : Within known window)
    (matrix_lt : Within known matrix) (row : Nat) :
    Meets known (boothRow multiplicand row window matrix) fun value result =>
      Grounds value → (row = multiplicand.length / 2 → value window.2.2 = false) →
        RowGains value multiplicand row 1 [window] matrix result := by
  rcases window with ⟨b0, b1, b2⟩
  rcases window_lt with ⟨b0_lt, b1_lt, b2_lt⟩
  have pairs_lt := within_neighbours literals multiplicand_lt
  apply (setScope_meets _).andThen
  apply (encodeDigit_meets b0_lt b1_lt b2_lt).bind
  intro digit n le digit_lt
  refine (pushRow_meets digit_lt (within_mono le pairs_lt) (within_mono le matrix_lt)
    (2 * row)).bind fun pushed m le' pushed_lt => ?_
  by_cases last : row = multiplicand.length / 2
  · rw [if_pos last]
    refine meets_pure (fun bound enough => within_mono enough pushed_lt) ?_
    intro value gains (isDigit : digit.recoded value = .ofWindow (value b0) (value b1) (value b2))
      grounds unsigned
    have weighs := weight_row grounds multiplicand row isDigit
    refine ⟨_, gains, ?_⟩
    have positive : value b2 = false := unsigned last
    rw [positive, Bool.toNat_false, Nat.mul_zero, Nat.zero_mul, Nat.mul_zero, Nat.add_zero,
      Nat.add_zero] at weighs
    rw [weighs, rowConstants, rowConstants, rowConstant, if_pos last, Nat.add_zero]
  · rw [if_neg last]
    have sign_lt := Nat.lt_of_lt_of_le digit_lt.1 le'
    apply (inv_meets sign_lt).bind
    intro (notSign : Nat) k le'' (notSign_lt : notSign < k)
    refine (pushAll_meets (within_mono le'' pushed_lt) ?_).imp ?_
    · have known_le : known ≤ k := by omega
      exact below_corrections (Nat.lt_of_lt_of_le literals known_le)
        (Nat.lt_of_lt_of_le sign_lt le'') notSign_lt _ _
    · intro value result corrected isNot gains
        (isDigit : digit.recoded value = .ofWindow (value b0) (value b1) (value b2)) grounds _
      have weighs := weight_row grounds multiplicand row isDigit
      have corrects := entriesWeight_corrections last isNot grounds.2
      have isSign : value digit.sign = value b2 := congrArg Recoded.sign isDigit
      rw [isSign] at corrects
      refine ⟨_, gains.trans corrected, ?_⟩
      rw [rowConstants, rowConstants]
      omega

/-- The rows of all windows gain what the digits make of the multiplicand, and a constant. -/
theorem boothRows_meets {multiplicand : List SignalId}
    {windows : List (SignalId × SignalId × SignalId)} {matrix : Matrix}
    (literals : Builder.trueId < known) (multiplicand_lt : Below known multiplicand)
    (windows_lt : Within known windows) (matrix_lt : Within known matrix) (row : Nat)
    (count : row + windows.length = multiplicand.length / 2 + 1) :
    Meets known (boothRows multiplicand row windows matrix) fun value result =>
      Grounds value → (∀ window, windows.getLast? = some window → value window.2.2 = false) →
        RowGains value multiplicand row windows.length windows matrix result := by
  induction windows generalizing known row matrix with
  | nil =>
      refine meets_pure (fun bound enough => within_mono enough matrix_lt) ?_
      intro value _ _
      exact ⟨0, .refl matrix, by simp [borrowed, taken, rowConstants]⟩
  | cons window higher ih =>
      rcases within_list_cons.mp windows_lt with ⟨window_lt, higher_lt⟩
      rw [List.length_cons] at count
      refine (boothRow_meets literals multiplicand_lt window_lt matrix_lt row).bind
        fun middle n le middle_lt => ?_
      refine (ih (Nat.lt_of_lt_of_le literals le) (multiplicand_lt.mono le)
        (within_mono le higher_lt) middle_lt (row + 1) (by omega)).imp ?_
      intro value result later first grounds unsigned
      have isLast (last : row = multiplicand.length / 2) : value window.2.2 = false := by
        have none : higher = [] := List.length_eq_zero_iff.mp (by omega)
        subst none
        exact unsigned window rfl
      have isLater (other : SignalId × SignalId × SignalId)
          (last : higher.getLast? = some other) : value other.2.2 = false := by
        apply unsigned other
        have nonempty : higher ≠ [] := by
          rintro rfl
          cases last
        rw [List.getLast?_cons_of_ne_nil nonempty, last]
      rcases first grounds isLast with ⟨amount, gains, makes⟩
      rcases later grounds isLater with ⟨more, gainsMore, makesMore⟩
      refine ⟨amount + more, gains.trans gainsMore, ?_⟩
      rcases window with ⟨b0, b1, b2⟩
      simp only [borrowed, taken, rowConstants, List.length_cons, Nat.mul_zero,
        Nat.add_zero] at makes makesMore ⊢
      rw [show 2 * (row + 1) = 2 * row + 2 by omega, Nat.pow_add] at makesMore
      grind

end Build

end Datapath

import Mathlib.Data.Nat.Init
import Mathlib.Algebra.Order.Group.Nat
import Datapath.Adder.Schedule

/-!
# Prefix trees over truth values

The group of a range of positions is joined from those of its parts, wherever it is split. During
the walk through a schedule, each position holds the group of a range that ends there; `Covers` says
where the ranges begin. A combination is exact when the range of its target begins just above its
source, and then the target's range grows down to where the source's begins.

In a row of exact combinations with falling targets no combination reads what the row has changed,
so the row does what it would do all at once. For each topology, the beginnings after every row have
a closed form, and after the last row all ranges begin at zero.
-/

namespace Datapath.Adder

/-- The truth values of a group's signals. -/
structure Carry where
  propagate : Bool
  generate : Bool
  deriving DecidableEq, Repr

namespace Carry

/-- The group of a higher and a lower group side by side. -/
def join (upper lower : Carry) : Carry where
  propagate := upper.propagate && lower.propagate
  generate := upper.propagate && lower.generate || upper.generate

theorem join_assoc (first second third : Carry) :
    (first.join second).join third = first.join (second.join third) := by
  rcases first with ⟨p, g⟩
  cases p <;> cases g <;> simp [join]

/-- The group of a range, from its lowest position and the number of the others. -/
def range (bits : Nat → Carry) (low : Nat) : Nat → Carry
  | 0 => bits low
  | more + 1 => (bits (low + more + 1)).join (range bits low more)

theorem range_join (bits : Nat → Carry) (low lower upper : Nat) :
    (range bits (low + lower + 1) upper).join (range bits low lower) =
      range bits low (lower + 1 + upper) := by
  induction upper with
  | zero => rfl
  | succ upper ih =>
      rw [range, join_assoc, ih]
      have position : low + lower + 1 + upper + 1 = low + (lower + 1 + upper) + 1 := by omega
      rw [position]
      rfl

/-- Carries out a combination on truth values. -/
def combine (groups : Array Carry) (combination : Combination) : Array Carry :=
  match groups[combination.target]?, groups[combination.source]? with
  | some upper, some lower => groups.setIfInBounds combination.target (upper.join lower)
  | _, _ => groups

end Carry

open Carry (combine)

/-- Each position holds the group of a range that ends there, and the ranges begin as told. -/
structure Covers (bits : Nat → Carry) (width : Nat) (low : Nat → Nat) (groups : Array Carry) :
    Prop where
  size : groups.size = width
  low_le : ∀ position < width, low position ≤ position
  holds : ∀ position < width,
    groups[position]? = some (Carry.range bits (low position) (position - low position))

namespace Covers

variable {bits : Nat → Carry} {width : Nat} {low : Nat → Nat} {groups : Array Carry}

theorem start (bits : Nat → Carry) (width : Nat) :
    Covers bits width id (Array.ofFn fun position : Fin width => bits position) where
  size := Array.size_ofFn
  low_le _ _ := Nat.le_refl _
  holds position inside := by simp [inside, Carry.range]

theorem congr {other : Nat → Nat} (covers : Covers bits width low groups)
    (same : ∀ position < width, other position = low position) :
    Covers bits width other groups where
  size := covers.size
  low_le position inside := by
    rw [same position inside]
    exact covers.low_le position inside
  holds position inside := by
    rw [same position inside]
    exact covers.holds position inside

/-- An exact combination lets the target's range begin where the source's does. -/
theorem combine {combination : Combination} (covers : Covers bits width low groups)
    (inside : combination.target < width) (lower : combination.source < combination.target)
    (exact : low combination.target = combination.source + 1) :
    Covers bits width (Function.update low combination.target (low combination.source))
      (Carry.combine groups combination) := by
  rcases combination with ⟨target, source⟩
  simp only at inside lower exact ⊢
  have source_inside : source < width := by omega
  have source_le := covers.low_le source source_inside
  have result : Carry.combine groups ⟨target, source⟩ =
      groups.setIfInBounds target (Carry.range bits (low source) (target - low source)) := by
    simp only [Carry.combine, covers.holds target inside, covers.holds source source_inside]
    have joined := Carry.range_join bits (low source) (source - low source) (target - (source + 1))
    rw [show low source + (source - low source) + 1 = source + 1 by omega,
      show source - low source + 1 + (target - (source + 1)) = target - low source by omega]
      at joined
    rw [exact, joined]
  refine ⟨?_, fun position isInside => ?_, fun position isInside => ?_⟩
  · rw [result, Array.size_setIfInBounds, covers.size]
  · by_cases same : position = target
    · subst same
      rw [Function.update_self]
      omega
    · rw [Function.update_of_ne same]
      exact covers.low_le position isInside
  · rw [result]
    by_cases same : position = target
    · subst same
      simp [covers.size, inside]
    · rw [Function.update_of_ne same, Array.getElem?_setIfInBounds_ne (Ne.symm same)]
      exact covers.holds position isInside

/-- A row of exact combinations with falling targets changes all ranges as if at once. -/
theorem row {row : List Combination} {after : Nat → Nat} (covers : Covers bits width low groups)
    (falling : row.Pairwise fun first second => second.target < first.target)
    (inside : ∀ combination ∈ row, combination.target < width)
    (lower : ∀ combination ∈ row, combination.source < combination.target)
    (exact : ∀ combination ∈ row, low combination.target = combination.source + 1)
    (changed : ∀ combination ∈ row, after combination.target = low combination.source)
    (kept : ∀ position < width, (∀ combination ∈ row, combination.target ≠ position) →
      after position = low position) :
    Covers bits width after (row.foldl Carry.combine groups) := by
  induction row generalizing low groups with
  | nil => exact covers.congr fun position isInside => kept position isInside nofun
  | cons first rest ih =>
      rw [List.pairwise_cons] at falling
      rw [List.forall_mem_cons] at inside lower exact changed
      have unchanged (combination : Combination) (member : combination ∈ rest) :
          combination.target ≠ first.target ∧ combination.source ≠ first.target := by
        have below := falling.1 combination member
        have := lower.2 combination member
        omega
      refine ih (covers.combine inside.1 lower.1 exact.1) falling.2 inside.2 lower.2 ?_ ?_ ?_
      · intro combination member
        rw [Function.update_of_ne (unchanged combination member).1]
        exact exact.2 combination member
      · intro combination member
        rw [Function.update_of_ne (unchanged combination member).2]
        exact changed.2 combination member
      · intro position isInside missed
        by_cases same : position = first.target
        · subst same
          rw [Function.update_self]
          exact changed.1
        · rw [Function.update_of_ne same]
          apply kept position isInside
          intro combination member
          rcases List.mem_cons.mp member with rfl | later
          · exact Ne.symm same
          · exact missed combination later

end Covers

namespace Carry

/-- Carries out the rows of a schedule on truth values. -/
def combineRows (groups : Array Carry) (rows : List (List Combination)) : Array Carry :=
  rows.foldl (fun groups row => row.foldl combine groups) groups

theorem combineRows_append (groups : Array Carry) (first second : List (List Combination)) :
    combineRows groups (first ++ second) = combineRows (combineRows groups first) second :=
  List.foldl_append

theorem combineRows_singleton (groups : Array Carry) (row : List Combination) :
    combineRows groups [row] = row.foldl combine groups :=
  rfl

end Carry

namespace Topology

/-- Combinations listed from the highest position down have falling targets. -/
theorem pairwise_target_of_reverse {count : Nat} {combination : Nat → Combination}
    (rising : ∀ first second, first < second →
      (combination first).target < (combination second).target) :
    ((List.range count).reverse.map combination).Pairwise fun first second =>
      second.target < first.target := by
  rw [List.pairwise_map, List.pairwise_reverse]
  exact List.pairwise_lt_range.imp fun {first second} lt => rising first second lt

theorem mem_row {count : Nat} {combination : Nat → Combination} {member : Combination} :
    member ∈ (List.range count).reverse.map combination ↔
      ∃ index < count, combination index = member := by
  simp

section KoggeStone

variable {bits : Nat → Carry} {width : Nat} {groups : Array Carry}

/-- After some levels, every range has twice as many positions for each of them, or all. -/
def spanLow (level position : Nat) : Nat :=
  position + 1 - 2 ^ level

theorem spanRow_falling (width span : Nat) :
    (spanRow width span).Pairwise fun first second => second.target < first.target :=
  pairwise_target_of_reverse fun _ _ lt => Nat.add_lt_add_right lt _

theorem spanRow_covers {level : Nat} (covers : Covers bits width (spanLow level) groups) :
    Covers bits width (spanLow (level + 1))
      ((spanRow width (2 ^ level)).foldl Carry.combine groups) := by
  have positive : 0 < 2 ^ level := Nat.two_pow_pos level
  have doubled : 2 ^ (level + 1) = 2 ^ level + 2 ^ level := by rw [Nat.pow_succ]; omega
  refine covers.row (spanRow_falling width _) ?_ ?_ ?_ ?_ ?_
  all_goals simp only [spanRow, mem_row, forall_exists_index, and_imp]
  · rintro _ source inside rfl
    simp only
    omega
  · rintro _ source inside rfl
    simp only
    omega
  · rintro _ source inside rfl
    simp only [spanLow]
    omega
  · rintro _ source inside rfl
    simp only [spanLow]
    omega
  · intro position inside missed
    have low : position < 2 ^ level := by
      by_contra high
      exact missed _ (position - 2 ^ level) (by omega) rfl (by simp only; omega)
    simp only [spanLow]
    omega

theorem koggeStone_covers (levels : Nat) (bits : Nat → Carry) :
    Covers bits (2 ^ levels) (fun _ => 0) (Carry.combineRows
      (Array.ofFn fun position : Fin (2 ^ levels) => bits position)
      (schedule .koggeStone levels)) := by
  have after (level : Nat) : Covers bits (2 ^ levels) (spanLow level) (Carry.combineRows
      (Array.ofFn fun position : Fin (2 ^ levels) => bits position)
      (((List.range level).map (2 ^ ·)).map (spanRow (2 ^ levels)))) := by
    induction level with
    | zero => exact (Covers.start bits _).congr fun position _ => Nat.add_sub_cancel position 1
    | succ level ih =>
        rw [List.range_succ, List.map_append, List.map_append, Carry.combineRows_append]
        exact spanRow_covers ih
  simp only [schedule, Nat.one_shiftLeft]
  apply (after levels).congr
  intro position inside
  simp only [spanLow]
  omega

end KoggeStone

section HanCarlson

variable {bits : Nat → Carry} {width : Nat} {groups : Array Carry}

/-- Odd positions are combined as in the other tree, even ones wait. -/
def oddLow (level position : Nat) : Nat :=
  if position % 2 = 1 then spanLow level position else position

theorem oddRow_covers {level : Nat} (covers : Covers bits width (oddLow level) groups) :
    Covers bits width (oddLow (level + 1))
      ((oddTargets (spanRow width (2 ^ level))).foldl Carry.combine groups) := by
  have positive : 0 < 2 ^ level := Nat.two_pow_pos level
  have doubled : 2 ^ (level + 1) = 2 ^ level + 2 ^ level := by rw [Nat.pow_succ]; omega
  have parity : 2 ^ level = 1 ∨ 2 ^ level % 2 = 0 := by
    cases level with
    | zero => exact .inl rfl
    | succ level => exact .inr (by rw [Nat.pow_succ, Nat.mul_mod_left])
  refine covers.row ((spanRow_falling width _).sublist List.filter_sublist) ?_ ?_ ?_ ?_ ?_
  all_goals
    simp only [oddTargets, List.mem_filter, decide_eq_true_iff, spanRow, mem_row, and_imp,
      forall_exists_index]
  · rintro _ source inside rfl odd
    simp only
    omega
  · rintro _ source inside rfl odd
    simp only
    omega
  · rintro _ source inside rfl odd
    simp only at odd
    simp only [oddLow, spanLow, if_pos odd]
    omega
  · rintro _ source inside rfl odd
    simp only at odd
    simp only [oddLow, if_pos odd, spanLow]
    split <;> omega
  · intro position inside missed
    by_cases odd : position % 2 = 1
    · have low : position < 2 ^ level := by
        by_contra high
        apply missed _ (position - 2 ^ level) (by omega) rfl (by simp only; omega)
        simp only
        omega
      simp only [oddLow, if_pos odd, spanLow]
      omega
    · simp only [oddLow, if_neg odd]

theorem evenRow_falling (width : Nat) :
    (evenRow width).Pairwise fun first second => second.target < first.target := by
  refine pairwise_target_of_reverse fun first second lt => ?_
  simp only [Combination.below]
  omega

theorem evenRow_covers {after : Nat → Nat} (covers : Covers bits width after groups)
    (even : width = 1 ∨ width % 2 = 0)
    (odd_zero : ∀ position < width, position % 2 = 1 → after position = 0)
    (even_self : ∀ position < width, position % 2 = 0 → after position = position) :
    Covers bits width (fun _ => 0) ((evenRow width).foldl Carry.combine groups) := by
  refine covers.row (evenRow_falling width) ?_ ?_ ?_ ?_ ?_
  all_goals simp only [evenRow, mem_row, forall_exists_index, and_imp, Combination.below]
  · rintro _ block inside rfl
    simp only
    omega
  · rintro _ block inside rfl
    simp only
    omega
  · rintro _ block inside rfl
    simp only
    rw [even_self _ (by omega) (by omega)]
    omega
  · rintro _ block inside rfl
    simp only
    rw [odd_zero _ (by omega) (by omega)]
  · intro position inside missed
    rcases Nat.mod_two_eq_zero_or_one position with isEven | isOdd
    · rw [even_self position inside isEven]
      by_contra positive
      exact missed _ (position / 2 - 1) (by omega) rfl (by simp only; omega)
    · exact (odd_zero position inside isOdd).symm

theorem hanCarlson_covers (levels : Nat) (bits : Nat → Carry) :
    Covers bits (2 ^ levels) (fun _ => 0) (Carry.combineRows
      (Array.ofFn fun position : Fin (2 ^ levels) => bits position)
      (schedule .hanCarlson levels)) := by
  have after (level : Nat) : Covers bits (2 ^ levels) (oddLow level) (Carry.combineRows
      (Array.ofFn fun position : Fin (2 ^ levels) => bits position)
      (((List.range level).map (2 ^ ·)).map
        fun span => oddTargets (spanRow (2 ^ levels) span))) := by
    induction level with
    | zero =>
        apply (Covers.start bits _).congr
        intro position _
        simp [oddLow, spanLow]
    | succ level ih =>
        rw [List.range_succ, List.map_append, List.map_append, Carry.combineRows_append]
        exact oddRow_covers ih
  simp only [schedule, Nat.one_shiftLeft]
  rw [Carry.combineRows_append, Carry.combineRows_singleton]
  refine evenRow_covers (after levels) ?_ (fun position inside odd => ?_)
    fun position _ even => ?_
  · cases levels with
    | zero => exact .inl rfl
    | succ levels => exact .inr (by rw [Nat.pow_succ, Nat.mul_mod_left])
  · simp only [oddLow, if_pos odd, spanLow]
    omega
  · exact if_neg (by omega)

end HanCarlson

section BrentKung

variable {bits : Nat → Carry} {levels : Nat} {groups : Array Carry}

/-- On the way up, a range has as many positions as the greatest power of two that divides the
number of positions up to its end, of those that have had their turn. -/
def upLow : (level position : Nat) → Nat
  | 0, position => position
  | level + 1, position =>
    if 2 ^ (level + 1) ∣ position + 1 then position + 1 - 2 ^ (level + 1) else upLow level position

theorem upLow_of_dvd {level position : Nat} (divides : 2 ^ level ∣ position + 1) :
    upLow level position = position + 1 - 2 ^ level := by
  cases level with
  | zero => exact (Nat.add_sub_cancel position 1).symm
  | succ level => exact if_pos divides

theorem upLow_of_not_dvd {level higher position : Nat} (le : level ≤ higher)
    (divides : 2 ^ level ∣ position + 1) (highest : ¬ 2 ^ (level + 1) ∣ position + 1) :
    upLow higher position = position + 1 - 2 ^ level := by
  induction higher, le using Nat.le_induction with
  | base => exact upLow_of_dvd divides
  | succ higher le ih =>
      rw [upLow, if_neg, ih]
      intro higherDivides
      exact highest (Nat.dvd_trans (Nat.pow_dvd_pow 2 (by omega)) higherDivides)

theorem mem_upRow {width half : Nat} (positive : 0 < half) {combination : Combination}
    (member : combination ∈ upRow width half) :
    combination.target < width ∧ combination.source + half = combination.target ∧
      2 * half ∣ combination.target + 1 := by
  rcases mem_row.mp member with ⟨block, inside, rfl⟩
  have fits : 2 * half * (block + 1) ≤ width := by
    rw [Nat.mul_comm]
    exact (Nat.le_div_iff_mul_le (by omega)).mp inside
  have large : 2 * half ≤ 2 * half * (block + 1) := Nat.le_mul_of_pos_right _ (Nat.succ_pos block)
  simp only [Combination.below]
  refine ⟨by omega, by omega, ⟨block + 1, by omega⟩⟩

theorem exists_mem_upRow {width half position : Nat} (positive : 0 < half)
    (inside : position < width)
    (divides : 2 * half ∣ position + 1) :
    ∃ combination ∈ upRow width half, combination.target = position := by
  rcases divides with ⟨_ | block, product⟩
  · omega
  · refine ⟨_, mem_row.mpr ⟨block, ?_, rfl⟩, ?_⟩
    · rw [← Nat.succ_le_iff, Nat.le_div_iff_mul_le (by omega), Nat.mul_comm, ← product]
      exact inside
    · simp only [Combination.below]
      omega

theorem upRow_falling {width half : Nat} (positive : 0 < half) :
    (upRow width half).Pairwise fun first second => second.target < first.target := by
  apply pairwise_target_of_reverse
  intro first second lt
  have scaled : 2 * half * (first + 1) < 2 * half * (second + 1) :=
    Nat.mul_lt_mul_of_pos_left (by omega) (by omega)
  have product : 0 < 2 * half * (first + 1) := Nat.mul_pos (by omega) (by omega)
  simp only [Combination.below]
  omega

theorem upRow_covers {level : Nat} (covers : Covers bits (2 ^ levels) (upLow level) groups) :
    Covers bits (2 ^ levels) (upLow (level + 1))
      ((upRow (2 ^ levels) (2 ^ level)).foldl Carry.combine groups) := by
  have positive : 0 < 2 ^ level := Nat.two_pow_pos level
  have doubled : 2 ^ (level + 1) = 2 * 2 ^ level := by rw [Nat.pow_succ, Nat.mul_comm]
  have halves (position : Nat) (divides : 2 * 2 ^ level ∣ position + 1) :
      2 ^ level ∣ position + 1 := Nat.dvd_trans (Nat.dvd_mul_left _ _) divides
  refine covers.row (upRow_falling positive) ?_ ?_ ?_ ?_ ?_
  · exact fun combination member => (mem_upRow positive member).1
  · intro combination member
    have := (mem_upRow positive member).2.1
    omega
  · intro combination member
    rcases mem_upRow positive member with ⟨_, distance, divides⟩
    rw [upLow_of_dvd (halves _ divides)]
    omega
  · intro combination member
    rcases mem_upRow positive member with ⟨_, distance, divides⟩
    have sourceDivides : 2 ^ level ∣ combination.source + 1 := by
      have aligned := Nat.dvd_sub (halves _ divides) (Nat.dvd_refl (2 ^ level))
      rwa [show combination.target + 1 - 2 ^ level = combination.source + 1 by omega] at aligned
    rw [upLow_of_dvd (by rwa [doubled]), upLow_of_dvd sourceDivides]
    omega
  · intro position inside missed
    apply if_neg
    intro divides
    rw [doubled] at divides
    rcases exists_mem_upRow positive inside divides with ⟨combination, member, isTarget⟩
    exact missed combination member isTarget

/-- Positions that a half stride divides and a stride does not lie half a stride above a block. -/
theorem exists_blocks {half count : Nat} (divides : half ∣ count) (odd : ¬ 2 * half ∣ count) :
    ∃ blocks, count = 2 * half * blocks + half := by
  rcases divides with ⟨multiple, rfl⟩
  have isOdd : multiple % 2 = 1 := by
    by_contra isEven
    apply odd
    rw [Nat.mul_comm 2]
    exact Nat.mul_dvd_mul_left _ (Nat.dvd_of_mod_eq_zero (by omega))
  refine ⟨multiple / 2, ?_⟩
  have split : multiple = 2 * (multiple / 2) + 1 := by omega
  conv_lhs => rw [split]
  rw [Nat.mul_succ, Nat.mul_left_comm, Nat.mul_assoc]

/-- On the way down, the ranges of the positions that have had their turn begin at zero. -/
def downLow (levels level position : Nat) : Nat :=
  if 2 ^ level ∣ position + 1 then 0 else upLow levels position

theorem mem_downRow {width half : Nat} (positive : 0 < half) {combination : Combination}
    (member : combination ∈ downRow width half) :
    combination.target < width ∧ combination.source + half = combination.target ∧
      2 * half ∣ combination.source + 1 := by
  rcases mem_row.mp member with ⟨block, inside, rfl⟩
  have fits : 2 * half * (block + 2) ≤ width := by
    rw [Nat.mul_comm]
    exact (Nat.le_div_iff_mul_le (by omega)).mp (by omega)
  have large : 2 * half * (block + 2) = 2 * half * (block + 1) + 2 * half := by
    rw [← Nat.mul_succ]
  have product : 0 < 2 * half * (block + 1) := Nat.mul_pos (by omega) (by omega)
  simp only [Combination.below]
  refine ⟨by omega, by omega, ⟨block + 1, by omega⟩⟩

theorem exists_mem_downRow {width half position : Nat} (positive : 0 < half)
    (even : 2 * half ∣ width) (inside : position < width) (above : 2 * half < position + 1)
    (divides : 2 * half ∣ position + 1 - half) :
    ∃ combination ∈ downRow width half, combination.target = position := by
  rcases divides with ⟨_ | block, product⟩
  · omega
  · rcases even with ⟨blocks, rfl⟩
    have fits : block + 1 < blocks := by
      have : 2 * half * (block + 1) < 2 * half * blocks := by omega
      exact Nat.lt_of_mul_lt_mul_left this
    refine ⟨_, mem_row.mpr ⟨block, ?_, rfl⟩, ?_⟩
    · rw [Nat.mul_div_cancel_left _ (by omega)]
      omega
    · simp only [Combination.below]
      omega

theorem downRow_falling {width half : Nat} (positive : 0 < half) :
    (downRow width half).Pairwise fun first second => second.target < first.target := by
  apply pairwise_target_of_reverse
  intro first second lt
  have scaled : 2 * half * (first + 1) < 2 * half * (second + 1) :=
    Nat.mul_lt_mul_of_pos_left (by omega) (by omega)
  simp only [Combination.below]
  omega

theorem downRow_covers {level : Nat} (inside : level < levels)
    (covers : Covers bits (2 ^ levels) (downLow levels (level + 1)) groups) :
    Covers bits (2 ^ levels) (downLow levels level)
      ((downRow (2 ^ levels) (2 ^ level)).foldl Carry.combine groups) := by
  have positive : 0 < 2 ^ level := Nat.two_pow_pos level
  have doubled : 2 ^ (level + 1) = 2 * 2 ^ level := by rw [Nat.pow_succ, Nat.mul_comm]
  have odd (combination : Combination) (member : combination ∈ downRow (2 ^ levels) (2 ^ level)) :
      2 ^ level ∣ combination.target + 1 ∧ ¬ 2 ^ (level + 1) ∣ combination.target + 1 := by
    rcases mem_downRow positive member with ⟨_, distance, divides⟩
    have target : combination.target + 1 = combination.source + 1 + 2 ^ level := by omega
    rw [target, doubled, Nat.dvd_add_right divides]
    refine ⟨Nat.dvd_add (Nat.dvd_trans (Nat.dvd_mul_left _ _) divides) (Nat.dvd_refl _), ?_⟩
    exact fun tooHigh => absurd (Nat.le_of_dvd positive tooHigh) (by omega)
  refine covers.row (downRow_falling positive) ?_ ?_ ?_ ?_ ?_
  · exact fun combination member => (mem_downRow positive member).1
  · intro combination member
    have := (mem_downRow positive member).2.1
    omega
  · intro combination member
    rcases odd combination member with ⟨divides, highest⟩
    have distance := (mem_downRow positive member).2.1
    rw [downLow, if_neg highest, upLow_of_not_dvd (Nat.le_of_lt inside) divides highest]
    omega
  · intro combination member
    rcases mem_downRow positive member with ⟨_, _, divides⟩
    rw [downLow, downLow, if_pos (odd combination member).1, doubled, if_pos divides]
  · intro position isInside missed
    by_cases divides : 2 ^ level ∣ position + 1
    · rw [downLow, if_pos divides, downLow]
      split
      · rfl
      · rename_i highest
        rw [upLow_of_not_dvd (Nat.le_of_lt inside) divides highest]
        by_contra large
        have even : 2 * 2 ^ level ∣ 2 ^ levels := doubled ▸ Nat.pow_dvd_pow 2 inside
        have rest : 2 * 2 ^ level ∣ position + 1 - 2 ^ level := by
          rcases exists_blocks divides (doubled ▸ highest) with ⟨blocks, count⟩
          exact ⟨blocks, by omega⟩
        have above : 2 * 2 ^ level < position + 1 := by
          have := Nat.le_of_dvd (by omega) rest
          omega
        rcases exists_mem_downRow positive even isInside above rest with
          ⟨combination, member, isTarget⟩
        exact missed combination member isTarget
    · have notHigher : ¬ 2 ^ (level + 1) ∣ position + 1 := by
        intro higher
        exact divides (Nat.dvd_trans (Nat.pow_dvd_pow 2 (Nat.le_succ level)) higher)
      rw [downLow, downLow, if_neg divides, if_neg notHigher]

theorem brentKung_covers (levels : Nat) (bits : Nat → Carry) :
    Covers bits (2 ^ levels) (fun _ => 0) (Carry.combineRows
      (Array.ofFn fun position : Fin (2 ^ levels) => bits position)
      (schedule .brentKung levels)) := by
  have up (level : Nat) : Covers bits (2 ^ levels) (upLow level) (Carry.combineRows
      (Array.ofFn fun position : Fin (2 ^ levels) => bits position)
      (((List.range level).map (2 ^ ·)).map (upRow (2 ^ levels)))) := by
    induction level with
    | zero => exact Covers.start bits _
    | succ level ih =>
        rw [List.range_succ, List.map_append, List.map_append, Carry.combineRows_append]
        exact upRow_covers ih
  have down (done : Nat) (le : done ≤ levels) (groups : Array Carry)
      (covers : Covers bits (2 ^ levels) (downLow levels done) groups) :
      Covers bits (2 ^ levels) (fun _ => 0) (Carry.combineRows groups
        (((List.range done).map (2 ^ ·)).reverse.map (downRow (2 ^ levels)))) := by
    induction done generalizing groups with
    | zero => exact covers.congr fun position _ => (if_pos (Nat.one_dvd _)).symm
    | succ done ih =>
        have rows : ((List.range (done + 1)).map (2 ^ ·)).reverse.map (downRow (2 ^ levels)) =
            [downRow (2 ^ levels) (2 ^ done)] ++
              ((List.range done).map (2 ^ ·)).reverse.map (downRow (2 ^ levels)) := by
          rw [List.range_succ, List.map_append, List.reverse_append]
          rfl
        rw [rows, Carry.combineRows_append]
        exact ih (by omega) _ (downRow_covers le covers)
  simp only [schedule, Nat.one_shiftLeft]
  rw [Carry.combineRows_append]
  refine down levels (Nat.le_refl _) _ ((up levels).congr fun position inside => ?_)
  rw [downLow]
  split
  · rename_i divides
    rw [upLow_of_dvd divides]
    have := Nat.le_of_dvd (by omega) divides
    omega
  · rfl

end BrentKung

/-- At the end of every schedule each position holds the group of all positions up to it. -/
theorem schedule_covers (topology : Topology) (levels : Nat) (bits : Nat → Carry) :
    Covers bits (2 ^ levels) (fun _ => 0) (Carry.combineRows
      (Array.ofFn fun position : Fin (2 ^ levels) => bits position)
      (topology.schedule levels)) := by
  cases topology with
  | brentKung => exact brentKung_covers levels bits
  | koggeStone => exact koggeStone_covers levels bits
  | hanCarlson => exact hanCarlson_covers levels bits

/-- No tree combines positions that the word does not have. -/
theorem schedule_inside (topology : Topology) (levels : Nat) :
    ∀ row ∈ topology.schedule levels, ∀ combination ∈ row,
      combination.source < combination.target ∧ combination.target < 2 ^ levels := by
  have span (level : Nat) : ∀ combination ∈ spanRow (2 ^ levels) (2 ^ level),
      combination.source < combination.target ∧ combination.target < 2 ^ levels := by
    intro combination member
    rcases mem_row.mp member with ⟨source, inside, rfl⟩
    have positive : 0 < 2 ^ level := Nat.two_pow_pos level
    simp only
    omega
  intro row isRow combination member
  cases topology with
  | brentKung =>
      simp only [schedule, Nat.one_shiftLeft, List.mem_append, List.mem_map, List.mem_reverse,
        List.mem_range] at isRow
      rcases isRow with ⟨_, ⟨level, _, rfl⟩, rfl⟩ | ⟨_, ⟨level, _, rfl⟩, rfl⟩
      · have positive : 0 < 2 ^ level := Nat.two_pow_pos level
        rcases mem_upRow positive member with ⟨inside, apart, _⟩
        omega
      · have positive : 0 < 2 ^ level := Nat.two_pow_pos level
        rcases mem_downRow positive member with ⟨inside, apart, _⟩
        omega
  | koggeStone =>
      simp only [schedule, Nat.one_shiftLeft, List.mem_map, List.mem_range] at isRow
      rcases isRow with ⟨_, ⟨level, _, rfl⟩, rfl⟩
      exact span level combination member
  | hanCarlson =>
      simp only [schedule, Nat.one_shiftLeft, List.mem_append, List.mem_map, List.mem_range,
        List.mem_singleton] at isRow
      rcases isRow with ⟨_, ⟨level, _, rfl⟩, rfl⟩ | rfl
      · exact span level combination ((List.mem_filter.mp member).1)
      · rcases mem_row.mp member with ⟨block, inside, rfl⟩
        simp only [Combination.below]
        omega

theorem flatten_schedule_inside (topology : Topology) (levels : Nat) :
    ∀ combination ∈ (topology.schedule levels).flatten,
      combination.source < combination.target ∧ combination.target < 2 ^ levels := by
  intro combination member
  rcases List.mem_flatten.mp member with ⟨row, isRow, inRow⟩
  exact topology.schedule_inside levels row isRow combination inRow

/-- Every row lists its combinations from the highest target down. -/
theorem schedule_falling (topology : Topology) (levels : Nat) :
    ∀ row ∈ topology.schedule levels,
      row.Pairwise fun first second => second.target < first.target := by
  intro row isRow
  cases topology with
  | brentKung =>
      simp only [schedule, Nat.one_shiftLeft, List.mem_append, List.mem_map, List.mem_reverse,
        List.mem_range] at isRow
      rcases isRow with ⟨_, ⟨level, _, rfl⟩, rfl⟩ | ⟨_, ⟨level, _, rfl⟩, rfl⟩
      · exact upRow_falling (Nat.two_pow_pos level)
      · exact downRow_falling (Nat.two_pow_pos level)
  | koggeStone =>
      simp only [schedule, List.mem_map] at isRow
      rcases isRow with ⟨span, _, rfl⟩
      exact spanRow_falling _ span
  | hanCarlson =>
      simp only [schedule, List.mem_append, List.mem_map, List.mem_singleton] at isRow
      rcases isRow with ⟨span, _, rfl⟩ | rfl
      · exact (spanRow_falling _ span).sublist List.filter_sublist
      · exact evenRow_falling _

end Topology

end Datapath.Adder

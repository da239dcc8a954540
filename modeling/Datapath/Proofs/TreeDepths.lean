import Mathlib.Data.Nat.Digits.Defs
import Mathlib.Data.Nat.Size
import Datapath.Proofs.PrefixTree

/-!
# Depths in prefix trees

The two signals of a group are equally deep, so one number for each position says how deep a tree
has become. A combination puts its target one level above the deeper of its two groups. In a row
with falling targets and one distance, every target sees the depths from before the row.

For each topology the depths after every row have a closed form. A position of a Kogge-Stone tree is
done after as many rows as its number has bits. A Han-Carlson tree does the same for odd positions,
and takes one more level for even ones. In a Brent-Kung tree the group of the lowest positions
climbs to the leading one bit of their number and is combined once for each of the other one bits,
so the position below the highest is the deepest.
-/

namespace Datapath.Adder

namespace Combination

/-- The depths of the positions' groups after a combination. -/
def deepen (depths : Nat → Nat) (combination : Combination) : Nat → Nat :=
  Function.update depths combination.target
    (1 + max (depths combination.target) (depths combination.source))

variable {depths : Nat → Nat} {row : List Combination} {position : Nat}

theorem le_deepen (depths : Nat → Nat) (combination : Combination) (position : Nat) :
    depths position ≤ deepen depths combination position := by
  rw [deepen, Function.update_apply]
  split
  · rename_i same
    subst same
    omega
  · exact Nat.le_refl _

/-- Combinations never make a group less deep. -/
theorem le_foldl_deepen (depths : Nat → Nat) (row : List Combination) (position : Nat) :
    depths position ≤ row.foldl deepen depths position := by
  induction row generalizing depths with
  | nil => exact Nat.le_refl _
  | cons first rest ih => exact Nat.le_trans (le_deepen depths first position) (ih _)

theorem foldl_deepen_of_ne (missed : ∀ combination ∈ row, combination.target ≠ position) :
    row.foldl deepen depths position = depths position := by
  induction row generalizing depths with
  | nil => rfl
  | cons first rest ih =>
      rw [List.forall_mem_cons] at missed
      rw [List.foldl_cons, ih missed.2, deepen, Function.update_of_ne missed.1.symm]

/-- In a row with falling targets, a combination finds the depths from before the row. -/
theorem foldl_deepen_target
    (falling : row.Pairwise fun first second => second.target < first.target)
    (lower : ∀ combination ∈ row, combination.source < combination.target)
    {combination : Combination} (member : combination ∈ row) :
    row.foldl deepen depths combination.target =
      1 + max (depths combination.target) (depths combination.source) := by
  induction row generalizing depths with
  | nil => cases member
  | cons first rest ih =>
      rw [List.pairwise_cons] at falling
      rw [List.forall_mem_cons] at lower
      rw [List.foldl_cons]
      rcases List.mem_cons.mp member with rfl | later
      · rw [foldl_deepen_of_ne fun other member => Nat.ne_of_lt (falling.1 other member), deepen,
          Function.update_self]
      · have below := falling.1 combination later
        have apart := lower.2 combination later
        rw [ih falling.2 lower.2 later, deepen, Function.update_of_ne (by omega),
          Function.update_of_ne (by omega)]

/-- What a row does whose combinations have falling targets and all the same distance. -/
theorem foldl_deepen_distance {distance : Nat} {taken : Prop} [Decidable taken]
    (falling : row.Pairwise fun first second => second.target < first.target)
    (positive : 0 < distance)
    (apart : ∀ combination ∈ row, combination.source + distance = combination.target)
    (isTarget : taken ↔ ∃ combination ∈ row, combination.target = position) :
    row.foldl deepen depths position =
      if taken then 1 + max (depths position) (depths (position - distance))
      else depths position := by
  split
  · rename_i isTaken
    rcases isTarget.mp isTaken with ⟨combination, member, rfl⟩
    have lower : ∀ other ∈ row, other.source < other.target := by
      intro other isOther
      have := apart other isOther
      omega
    rw [foldl_deepen_target falling lower member, ← apart combination member, Nat.add_sub_cancel]
  · rename_i free
    exact foldl_deepen_of_ne fun combination member same =>
      free (isTarget.mpr ⟨combination, member, same⟩)

/-- The depths after the rows of a schedule. -/
def deepenRows (depths : Nat → Nat) (rows : List (List Combination)) : Nat → Nat :=
  rows.flatten.foldl deepen depths

theorem deepenRows_append (depths : Nat → Nat) (first second : List (List Combination)) :
    deepenRows depths (first ++ second) = deepenRows (deepenRows depths first) second := by
  rw [deepenRows, List.flatten_append, List.foldl_append]
  rfl

theorem deepenRows_singleton (depths : Nat → Nat) (row : List Combination) :
    deepenRows depths [row] = row.foldl deepen depths := by
  simp [deepenRows]

end Combination

open Combination (deepen deepenRows)

namespace Topology

variable {depths : Nat → Nat} {width position : Nat}

section Spans

variable {span : Nat}

theorem spanRow_distance :
    ∀ combination ∈ spanRow width span, combination.source + span = combination.target := by
  intro combination member
  rcases mem_row.mp member with ⟨source, _, rfl⟩
  rfl

theorem span_le_iff (inside : position < width) :
    span ≤ position ↔ ∃ combination ∈ spanRow width span, combination.target = position := by
  constructor
  · intro le
    exact ⟨_, mem_row.mpr ⟨position - span, by omega, rfl⟩, Nat.sub_add_cancel le⟩
  · rintro ⟨combination, member, rfl⟩
    rw [← spanRow_distance combination member]
    exact Nat.le_add_left _ _

theorem spanRow_deepen (positive : 0 < span) (inside : position < width) :
    (spanRow width span).foldl deepen depths position =
      if span ≤ position then 1 + max (depths position) (depths (position - span))
      else depths position :=
  Combination.foldl_deepen_distance (spanRow_falling width span) positive spanRow_distance
    (span_le_iff inside)

theorem oddTargets_deepen (positive : 0 < span) (inside : position < width) :
    (oddTargets (spanRow width span)).foldl deepen depths position =
      if position % 2 = 1 ∧ span ≤ position then
        1 + max (depths position) (depths (position - span))
      else depths position := by
  refine Combination.foldl_deepen_distance
    ((spanRow_falling width span).sublist List.filter_sublist) positive
    (fun combination member => spanRow_distance combination (List.mem_filter.mp member).1) ?_
  rw [span_le_iff inside]
  simp only [oddTargets, List.mem_filter, decide_eq_true_eq]
  constructor
  · rintro ⟨odd, combination, member, rfl⟩
    exact ⟨combination, ⟨member, odd⟩, rfl⟩
  · rintro ⟨combination, ⟨member, odd⟩, rfl⟩
    exact ⟨odd, combination, member, rfl⟩

theorem evenRow_deepen (even : width % 2 = 0) (inside : position < width) :
    (evenRow width).foldl deepen depths position =
      if position % 2 = 0 ∧ 0 < position then 1 + max (depths position) (depths (position - 1))
      else depths position := by
  refine Combination.foldl_deepen_distance (pairwise_target_of_reverse fun first second lt => ?_)
    Nat.one_pos ?_ ?_
  · simp only [Combination.below]
    omega
  · intro combination member
    rcases mem_row.mp member with ⟨block, _, rfl⟩
    simp only [Combination.below]
    omega
  · constructor
    · rintro ⟨isEven, positive⟩
      refine ⟨_, mem_row.mpr ⟨position / 2 - 1, by omega, rfl⟩, ?_⟩
      simp only [Combination.below]
      omega
    · rintro ⟨combination, member, rfl⟩
      rcases mem_row.mp member with ⟨block, _, rfl⟩
      simp only [Combination.below]
      omega

end Spans

theorem upRow_deepen {half : Nat} (positive : 0 < half) (inside : position < width) :
    (upRow width half).foldl deepen depths position =
      if 2 * half ∣ position + 1 then 1 + max (depths position) (depths (position - half))
      else depths position := by
  refine Combination.foldl_deepen_distance (upRow_falling positive) positive
    (fun combination member => (mem_upRow positive member).2.1)
    ⟨exists_mem_upRow positive inside, ?_⟩
  rintro ⟨combination, member, rfl⟩
  exact (mem_upRow positive member).2.2

theorem downRow_deepen {half : Nat} (positive : 0 < half) (even : 2 * half ∣ width)
    (inside : position < width) :
    (downRow width half).foldl deepen depths position =
      if 2 * half < position + 1 ∧ 2 * half ∣ position + 1 - half then
        1 + max (depths position) (depths (position - half))
      else depths position := by
  refine Combination.foldl_deepen_distance (downRow_falling positive) positive
    (fun combination member => (mem_downRow positive member).2.1)
    ⟨fun ⟨above, divides⟩ => exists_mem_downRow positive even inside above divides, ?_⟩
  rintro ⟨combination, member, rfl⟩
  rcases mem_downRow positive member with ⟨_, distance, divides⟩
  have large := Nat.le_of_dvd (Nat.succ_pos _) divides
  refine ⟨by omega, ?_⟩
  rwa [show combination.target + 1 - half = combination.source + 1 by omega]

/-! ## Closed forms -/

/-- The depth of the group of the lowest positions after both sweeps, from their number. -/
def sweptDepth (count : Nat) : Nat :=
  count.log2 + (Nat.digits 2 count).sum

theorem sweptDepth_two_mul {count : Nat} (positive : 0 < count) :
    sweptDepth (2 * count) = sweptDepth count + 1 := by
  rw [sweptDepth, sweptDepth, Nat.log2_two_mul (by omega),
    Nat.digits_base_mul (by decide) positive, List.sum_cons]
  omega

theorem sweptDepth_two_mul_add_one {count : Nat} (positive : 0 < count) :
    sweptDepth (2 * count + 1) = sweptDepth count + 2 := by
  have log : (2 * count + 1).log2 = count.log2 + 1 := by
    rw [Nat.log2_def, if_pos (by omega)]
    congr 2
    omega
  rw [sweptDepth, sweptDepth, log, Nat.add_comm (2 * count) 1,
    Nat.digits_add 2 (by decide) 1 count (by decide) (.inl (by decide)), List.sum_cons]
  omega

@[simp]
theorem sweptDepth_one : sweptDepth 1 = 1 := by
  simp [sweptDepth, Nat.log2_def]

theorem sweptDepth_two_pow_mul {count : Nat} (positive : 0 < count) (level : Nat) :
    sweptDepth (2 ^ level * count) = level + sweptDepth count := by
  induction level with
  | zero => rw [Nat.pow_zero, Nat.one_mul, Nat.zero_add]
  | succ level ih =>
      rw [Nat.pow_succ', Nat.mul_assoc,
        sweptDepth_two_mul (Nat.mul_pos (Nat.two_pow_pos level) positive), ih]
      omega

theorem sweptDepth_lt {count levels : Nat} (positive : 0 < count) (inside : count < 2 ^ levels) :
    sweptDepth count < 2 * levels := by
  induction levels generalizing count with
  | zero => omega
  | succ levels ih =>
      rw [Nat.pow_succ'] at inside
      rcases Nat.eq_zero_or_pos (count / 2) with zero | half
      · have isOne : count = 1 := by omega
        rw [isOne, sweptDepth_one]
        omega
      · have lt := ih half (by omega)
        rcases Nat.mod_two_eq_zero_or_one count with even | odd
        · rw [show count = 2 * (count / 2) by omega, sweptDepth_two_mul half]
          omega
        · rw [show count = 2 * (count / 2) + 1 by omega, sweptDepth_two_mul_add_one half]
          omega

/-- The number with one bits only is the deepest. -/
theorem sweptDepth_two_pow_sub_one (levels : Nat) :
    sweptDepth (2 ^ (levels + 1) - 1) = 2 * levels + 1 := by
  induction levels with
  | zero => exact sweptDepth_one
  | succ levels ih =>
      have positive : 0 < 2 ^ (levels + 1) - 1 := by
        have := Nat.two_pow_pos levels
        rw [Nat.pow_succ]
        omega
      have step : 2 ^ (levels + 1 + 1) - 1 = 2 * (2 ^ (levels + 1) - 1) + 1 := by
        rw [Nat.pow_succ']
        omega
      rw [step, sweptDepth_two_mul_add_one positive, ih]
      omega

/-- The depth of the group of all positions up to one. -/
def groupDepth (topology : Topology) (position : Nat) : Nat :=
  match topology with
  | .koggeStone => 1 + position.size
  | .hanCarlson =>
    if position % 2 = 0 ∧ 0 < position then 2 + (position - 1).size else 1 + position.size
  | .brentKung => sweptDepth (position + 1)

theorem koggeStone_depths (levels : Nat) {position : Nat} (inside : position < 2 ^ levels) :
    deepenRows (fun _ => 1) (schedule .koggeStone levels) position =
      koggeStone.groupDepth position := by
  have after (level : Nat) : ∀ position < 2 ^ levels, deepenRows (fun _ => 1)
      (((List.range level).map (2 ^ ·)).map (spanRow (2 ^ levels))) position =
        1 + min level position.size := by
    induction level with
    | zero =>
        intro position _
        rw [Nat.zero_min]
        rfl
    | succ level ih =>
        intro position inside
        rw [List.range_succ, List.map_append, List.map_append, Combination.deepenRows_append,
          List.map_singleton, List.map_singleton, Combination.deepenRows_singleton,
          spanRow_deepen (Nat.two_pow_pos level) inside, ih position inside]
        split
        · rename_i le
          have high : level < position.size := Nat.lt_size.mpr le
          rw [ih (position - 2 ^ level) (Nat.lt_of_le_of_lt (Nat.sub_le _ _) inside)]
          omega
        · rename_i gt
          have low : position.size ≤ level := Nat.size_le.mpr (Nat.lt_of_not_le gt)
          omega
  simp only [schedule, Nat.one_shiftLeft]
  rw [after levels position inside, groupDepth, Nat.min_eq_right (Nat.size_le.mpr inside)]

/-- The depth of a position after some of the rows with odd targets. -/
def oddDepth (level position : Nat) : Nat :=
  if position % 2 = 1 then 1 + min level position.size else 1

theorem oddDepth_of_odd {level position : Nat} (odd : position % 2 = 1) :
    oddDepth level position = 1 + min level position.size :=
  if_pos odd

theorem oddDepth_of_even {level position : Nat} (even : position % 2 = 0) :
    oddDepth level position = 1 :=
  if_neg (by omega)

theorem oddDepth_le (level position : Nat) : oddDepth level position ≤ 1 + level := by
  unfold oddDepth
  split <;> omega

theorem oddRows_depths (levels level : Nat) : ∀ position < 2 ^ levels, deepenRows (fun _ => 1)
    (((List.range level).map (2 ^ ·)).map fun span => oddTargets (spanRow (2 ^ levels) span))
      position = oddDepth level position := by
  induction level with
  | zero =>
      intro position _
      simp [deepenRows, oddDepth]
  | succ level ih =>
      intro position inside
      have source := oddDepth_le level (position - 2 ^ level)
      rw [List.range_succ, List.map_append, List.map_append, Combination.deepenRows_append,
        List.map_singleton, List.map_singleton, Combination.deepenRows_singleton,
        oddTargets_deepen (Nat.two_pow_pos level) inside, ih position inside,
        ih (position - 2 ^ level) (Nat.lt_of_le_of_lt (Nat.sub_le _ _) inside)]
      rcases Nat.mod_two_eq_zero_or_one position with even | odd
      · rw [if_neg (by omega), oddDepth_of_even even, oddDepth_of_even even]
      · rw [oddDepth_of_odd odd, oddDepth_of_odd odd]
        by_cases le : 2 ^ level ≤ position
        · have high : level < position.size := Nat.lt_size.mpr le
          rw [if_pos ⟨odd, le⟩]
          omega
        · have low : position.size ≤ level := Nat.size_le.mpr (Nat.lt_of_not_le le)
          rw [if_neg fun taken => le taken.2]
          omega

theorem hanCarlson_depths (levels : Nat) {position : Nat} (inside : position < 2 ^ levels) :
    deepenRows (fun _ => 1) (schedule .hanCarlson levels) position =
      hanCarlson.groupDepth position := by
  have odd (other : Nat) (le : other ≤ position) (isOdd : other % 2 = 1) :
      oddDepth levels other = 1 + other.size := by
    rw [oddDepth_of_odd isOdd,
      Nat.min_eq_right (Nat.size_le.mpr (Nat.lt_of_le_of_lt le inside))]
  simp only [schedule, Nat.one_shiftLeft, groupDepth]
  rw [Combination.deepenRows_append, Combination.deepenRows_singleton]
  cases levels with
  | zero =>
      obtain rfl : position = 0 := Nat.lt_one_iff.mp inside
      rfl
  | succ levels =>
      have even : 2 ^ (levels + 1) % 2 = 0 := by rw [Nat.pow_succ, Nat.mul_mod_left]
      rw [evenRow_deepen even inside, oddRows_depths _ _ position inside,
        oddRows_depths _ _ (position - 1) (Nat.lt_of_le_of_lt (Nat.sub_le _ _) inside)]
      rcases Nat.mod_two_eq_zero_or_one position with isEven | isOdd
      · rw [oddDepth_of_even isEven]
        split
        · rw [odd (position - 1) (Nat.sub_le _ _) (by omega)]
          omega
        · obtain rfl : position = 0 := by omega
          rfl
      · rw [if_neg (by omega), if_neg (by omega), odd position (Nat.le_refl _) isOdd]

/-- On the way up, the depth grows with the power of two that divides the number of positions. -/
def upDepth : (level position : Nat) → Nat
  | 0, _ => 1
  | level + 1, position =>
    if 2 ^ (level + 1) ∣ position + 1 then level + 2 else upDepth level position

theorem upDepth_of_dvd {level : Nat} (divides : 2 ^ level ∣ position + 1) :
    upDepth level position = level + 1 := by
  cases level with
  | zero => rfl
  | succ level => exact if_pos divides

theorem upDepth_of_not_dvd {level higher : Nat} (le : level ≤ higher)
    (divides : 2 ^ level ∣ position + 1) (highest : ¬ 2 ^ (level + 1) ∣ position + 1) :
    upDepth higher position = level + 1 := by
  induction higher, le using Nat.le_induction with
  | base => exact upDepth_of_dvd divides
  | succ higher le ih =>
      rw [upDepth, if_neg, ih]
      intro higherDivides
      exact highest (Nat.dvd_trans (Nat.pow_dvd_pow 2 (by omega)) higherDivides)

theorem upRows_depths (levels level : Nat) : ∀ position < 2 ^ levels, deepenRows (fun _ => 1)
    (((List.range level).map (2 ^ ·)).map (upRow (2 ^ levels))) position =
      upDepth level position := by
  induction level with
  | zero =>
      intro position _
      rfl
  | succ level ih =>
      intro position inside
      rw [List.range_succ, List.map_append, List.map_append, Combination.deepenRows_append,
        List.map_singleton, List.map_singleton, Combination.deepenRows_singleton,
        upRow_deepen (Nat.two_pow_pos level) inside, ih position inside,
        ih (position - 2 ^ level) (Nat.lt_of_le_of_lt (Nat.sub_le _ _) inside), upDepth,
        Nat.pow_succ']
      split
      · rename_i divides
        have half : 2 ^ level ∣ position + 1 := Nat.dvd_trans (Nat.dvd_mul_left _ _) divides
        have large := Nat.le_of_dvd (Nat.succ_pos _) divides
        have source : 2 ^ level ∣ position - 2 ^ level + 1 := by
          have aligned := Nat.dvd_sub half (Nat.dvd_refl (2 ^ level))
          have positive := Nat.two_pow_pos level
          rwa [show position + 1 - 2 ^ level = position - 2 ^ level + 1 by omega] at aligned
        rw [upDepth_of_dvd half, upDepth_of_dvd source]
        omega
      · rfl

/-- On the way down, the positions that have had their turn are done. -/
def downDepth (levels level position : Nat) : Nat :=
  if 2 ^ level ∣ position + 1 then sweptDepth (position + 1) else upDepth levels position

theorem downRow_depths {levels level : Nat} (lt : level < levels)
    (higher : ∀ position < 2 ^ levels, depths position = downDepth levels (level + 1) position)
    (inside : position < 2 ^ levels) :
    (downRow (2 ^ levels) (2 ^ level)).foldl deepen depths position =
      downDepth levels level position := by
  have positive : 0 < 2 ^ level := Nat.two_pow_pos level
  have doubled : 2 ^ (level + 1) = 2 * 2 ^ level := Nat.pow_succ'
  have even : 2 * 2 ^ level ∣ 2 ^ levels := doubled ▸ Nat.pow_dvd_pow 2 lt
  have half : ¬ 2 * 2 ^ level ∣ 2 ^ level :=
    fun divides => absurd (Nat.le_of_dvd positive divides) (by omega)
  rw [downRow_deepen positive even inside, higher position inside,
    higher (position - 2 ^ level) (Nat.lt_of_le_of_lt (Nat.sub_le _ _) inside)]
  simp only [downDepth, doubled]
  by_cases divides : 2 * 2 ^ level ∣ position + 1
  · -- The position has had its turn in a higher row.
    have free : ¬ (2 * 2 ^ level < position + 1 ∧ 2 * 2 ^ level ∣ position + 1 - 2 ^ level) := by
      rintro ⟨above, taken⟩
      apply half
      rwa [← Nat.dvd_add_right taken, Nat.sub_add_cancel (by omega)]
    rw [if_neg free, if_pos divides, if_pos (Nat.dvd_trans (Nat.dvd_mul_left _ _) divides)]
  · rw [if_neg divides]
    by_cases turn : 2 ^ level ∣ position + 1
    · rw [if_pos turn, upDepth_of_not_dvd (Nat.le_of_lt lt) turn (doubled ▸ divides)]
      rcases exists_blocks turn divides with ⟨blocks, count⟩
      have product : position + 1 = 2 ^ level * (2 * blocks + 1) := by
        rw [count, Nat.mul_succ, Nat.mul_left_comm, Nat.mul_assoc]
      rcases Nat.eq_zero_or_pos blocks with rfl | more
      · rw [if_neg (by omega), product, Nat.mul_zero, Nat.zero_add,
          sweptDepth_two_pow_mul Nat.one_pos, sweptDepth_one]
      · have large := Nat.le_mul_of_pos_right (2 * 2 ^ level) more
        have source : position - 2 ^ level + 1 = 2 * 2 ^ level * blocks := by omega
        have below : position + 1 - 2 ^ level = 2 * 2 ^ level * blocks := by omega
        have taken : 2 * 2 ^ level < position + 1 ∧ 2 * 2 ^ level ∣ position + 1 - 2 ^ level :=
          ⟨by omega, below ▸ Nat.dvd_mul_right _ _⟩
        rw [if_pos taken, source, if_pos (Nat.dvd_mul_right _ _), ← doubled,
          sweptDepth_two_pow_mul more, product, sweptDepth_two_pow_mul (Nat.succ_pos _),
          sweptDepth_two_mul_add_one more]
        omega
    · have free : ¬ (2 * 2 ^ level < position + 1 ∧
          2 * 2 ^ level ∣ position + 1 - 2 ^ level) := by
        rintro ⟨above, taken⟩
        apply turn
        have aligned := Nat.dvd_add (Nat.dvd_trans (Nat.dvd_mul_left _ _) taken)
          (Nat.dvd_refl (2 ^ level))
        rwa [Nat.sub_add_cancel (by omega)] at aligned
      rw [if_neg free, if_neg turn]

theorem brentKung_depths (levels : Nat) {position : Nat} (inside : position < 2 ^ levels) :
    deepenRows (fun _ => 1) (schedule .brentKung levels) position =
      brentKung.groupDepth position := by
  have down (done : Nat) (le : done ≤ levels) (depths : Nat → Nat)
      (higher : ∀ position < 2 ^ levels, depths position = downDepth levels done position) :
      deepenRows depths (((List.range done).map (2 ^ ·)).reverse.map (downRow (2 ^ levels)))
        position = sweptDepth (position + 1) := by
    induction done generalizing depths with
    | zero => exact (higher position inside).trans (if_pos (Nat.one_dvd _))
    | succ done ih =>
        have rows : ((List.range (done + 1)).map (2 ^ ·)).reverse.map (downRow (2 ^ levels)) =
            [downRow (2 ^ levels) (2 ^ done)] ++
              ((List.range done).map (2 ^ ·)).reverse.map (downRow (2 ^ levels)) := by
          rw [List.range_succ, List.map_append, List.reverse_append]
          rfl
        rw [rows, Combination.deepenRows_append, Combination.deepenRows_singleton]
        exact ih (by omega) _ fun position inside => downRow_depths le higher inside
  simp only [schedule, Nat.one_shiftLeft]
  rw [Combination.deepenRows_append]
  refine down levels (Nat.le_refl _) _ fun position inside => ?_
  rw [upRows_depths levels levels position inside, downDepth]
  split
  · rename_i divides
    have whole : position + 1 = 2 ^ levels :=
      Nat.le_antisymm inside (Nat.le_of_dvd (Nat.succ_pos _) divides)
    have swept := sweptDepth_two_pow_mul Nat.one_pos levels
    rw [Nat.mul_one, sweptDepth_one] at swept
    rw [upDepth_of_dvd divides, whole, swept]
  · rfl

/-- At the end of every schedule the depths of the groups have a closed form. -/
theorem schedule_depths (topology : Topology) (levels : Nat) {position : Nat}
    (inside : position < 2 ^ levels) :
    deepenRows (fun _ => 1) (topology.schedule levels) position =
      topology.groupDepth position := by
  cases topology with
  | brentKung => exact brentKung_depths levels inside
  | koggeStone => exact koggeStone_depths levels inside
  | hanCarlson => exact hanCarlson_depths levels inside

theorem one_le_groupDepth (topology : Topology) {levels position : Nat}
    (inside : position < 2 ^ levels) : 1 ≤ topology.groupDepth position := by
  rw [← topology.schedule_depths levels inside, deepenRows]
  exact Combination.le_foldl_deepen (fun _ => 1) _ position

/-- The depth of an adder of native gates, from the logarithm of its width. -/
def adderDepth (topology : Topology) (levels : Nat) : Nat :=
  match topology with
  | .koggeStone => levels + 2
  | .hanCarlson => levels + 3
  | .brentKung => 2 * levels

variable {levels : Nat}

/-- No group is as deep as the adder. -/
theorem groupDepth_lt (topology : Topology) (enough : 2 ≤ levels) {position : Nat}
    (inside : position < 2 ^ levels) :
    topology.groupDepth position < topology.adderDepth levels := by
  have size (other : Nat) (le : other ≤ position) : other.size ≤ levels :=
    Nat.size_le.mpr (Nat.lt_of_le_of_lt le inside)
  cases topology with
  | koggeStone =>
      have := size position (Nat.le_refl _)
      simp only [groupDepth, adderDepth]
      omega
  | hanCarlson =>
      have := size position (Nat.le_refl _)
      have := size (position - 1) (Nat.sub_le _ _)
      simp only [groupDepth, adderDepth]
      split <;> omega
  | brentKung =>
      simp only [groupDepth, adderDepth]
      rcases Nat.lt_or_ge (position + 1) (2 ^ levels) with lt | ge
      · exact sweptDepth_lt (Nat.succ_pos _) lt
      · have whole : position + 1 = 2 ^ levels * 1 := by omega
        rw [whole, sweptDepth_two_pow_mul Nat.one_pos, sweptDepth_one]
        omega

/-- The position before the last one is the critical one. -/
theorem groupDepth_critical (topology : Topology) (enough : 3 ≤ levels) :
    topology.groupDepth (2 ^ levels - 2) + 1 = topology.adderDepth levels := by
  obtain ⟨more, rfl⟩ : ∃ more, levels = more + 3 := ⟨levels - 3, by omega⟩
  have positive : 0 < 2 ^ more := Nat.two_pow_pos more
  have eight : 2 ^ (more + 3) = 8 * 2 ^ more := by rw [Nat.pow_add, Nat.mul_comm]
  have size (other : Nat) (low : 4 * 2 ^ more ≤ other) (high : other < 8 * 2 ^ more) :
      other.size = more + 3 := by
    refine Nat.le_antisymm (Nat.size_le.mpr (eight ▸ high)) (Nat.lt_size.mpr ?_)
    rwa [Nat.pow_add, Nat.mul_comm]
  cases topology with
  | koggeStone =>
      simp only [groupDepth, adderDepth, eight]
      rw [size _ (by omega) (by omega)]
      omega
  | hanCarlson =>
      simp only [groupDepth, adderDepth, eight]
      rw [if_pos (by omega), size _ (by omega) (by omega)]
      omega
  | brentKung =>
      simp only [groupDepth, adderDepth]
      rw [show 2 ^ (more + 3) - 2 + 1 = 2 ^ (more + 3) - 1 by omega,
        sweptDepth_two_pow_sub_one (more + 2)]
      omega

end Topology

end Datapath.Adder

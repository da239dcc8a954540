import Datapath.Proofs.Addition
import Datapath.Proofs.Lookups

/-!
# Trees as loops

A tree is built in levels. In each level a loop visits positions in steps, from the highest one
down, and folds into the group of a position that of one below it. `Topology.levels` lists what the
loops visit, and `Adder.extendGroups` carries it out: each position is looked up when it is needed,
positions are subtracted from one another, and what is missing or negative is refused, as are
positions that are not in order.

For words of a power of two nothing is refused. The levels are the rows of the schedule,
`Topology.levels_eq_schedule`, and the loops are the construction that works on whole lists:
`Adder.sumByLoops_eq_sum`, which holds for all words because both refuse the others at once.
-/

namespace Datapath

namespace Adder

/-! ## Levels -/

theorem Combination.eq_of_apart {first second : Combination} {distance : Nat}
    (firstApart : first.source + distance = first.target)
    (secondApart : second.source + distance = second.target)
    (sameTarget : first.target = second.target) : first = second := by
  have sameSource : first.source = second.source := by omega
  rcases first with ⟨target, source⟩
  cases sameTarget
  cases sameSource
  rfl

namespace Topology

/-- The positions from a first one on, in steps and below a limit, from the highest down. -/
def descending (first limit stride : Nat) : List Nat :=
  ((List.range limit).filter fun position =>
    first ≤ position ∧ (position - first) % stride = 0).reverse

/-- A level that folds into positions, so many steps apart, the groups a given distance below. -/
def strideLevel (limit first stride distance : Nat) : Attempt (List Combination) :=
  (descending first limit stride).mapM fun target => do
    return { target, source := ← Attempt.difference target distance }

/-- A level that folds every group into the one a given span above it, or only those that come to an
odd position. -/
def spanLevel (limit span : Nat) (oddOnly : Bool) : Attempt (List Combination) := do
  let sources ← Attempt.difference limit span
  return ((List.range sources).reverse.map fun source => { target := source + span, source }).filter
    fun combination => !(oddOnly && combination.target % 2 == 0)

/-- The level that folds into every even position but the lowest the group just below it. Words of
less than three positions have none. -/
def evenLevel (limit : Nat) : Attempt (List Combination) :=
  if 3 ≤ limit then do
    let highest ← Attempt.difference limit 2
    ((List.range (highest + 1)).reverse.filter fun target =>
      2 ≤ target ∧ (highest - target) % 2 = 0).mapM fun target => do
        return { target, source := ← Attempt.difference target 1 }
  else
    return []

/-- What the loops of a tree visit, level by level. -/
def levels (topology : Topology) (count limit : Nat) : Attempt (List (List Combination)) :=
  match topology with
  | .brentKung => do
    let up ← (List.range' 1 count).mapM fun level =>
      strideLevel limit (1 <<< level - 1) (1 <<< level) (1 <<< level >>> 1)
    let down ← (List.range' 1 count).reverse.mapM fun level =>
      strideLevel limit (1 <<< level + 1 <<< level >>> 1 - 1) (1 <<< level) (1 <<< level >>> 1)
    return up ++ down
  | .koggeStone => (List.range count).mapM fun level => spanLevel limit (1 <<< level) false
  | .hanCarlson => do
    let odd ← (List.range count).mapM fun level => spanLevel limit (1 <<< level) true
    return odd ++ [← evenLevel limit]

/-! ## The levels of a power of two -/

theorem mem_descending {first limit stride position : Nat} :
    position ∈ descending first limit stride ↔
      position < limit ∧ first ≤ position ∧ (position - first) % stride = 0 := by
  simp [descending]

theorem descending_falling (first limit stride : Nat) :
    (descending first limit stride).Pairwise fun position next => next < position := by
  rw [descending, List.pairwise_reverse]
  exact List.pairwise_lt_range.filter _

/-- Rows with the same combinations are the same if they list them from the highest target down. -/
theorem eq_of_falling {row other : List Combination}
    (falling : row.Pairwise fun first second => second.target < first.target)
    (otherFalling : other.Pairwise fun first second => second.target < first.target)
    (same : ∀ combination, combination ∈ row ↔ combination ∈ other) : row = other := by
  have nodup {list : List Combination}
      (falling : list.Pairwise fun first second => second.target < first.target) : list.Nodup :=
    falling.imp fun lt => by rintro rfl; exact Nat.lt_irrefl _ lt
  refine List.Perm.eq_of_pairwise (fun _ _ _ _ => ?_) falling otherFalling
    ((List.perm_ext_iff_of_nodup (nodup falling) (nodup otherFalling)).mpr same)
  exact fun lt gt => absurd lt (Nat.lt_asymm gt)

variable {limit first stride distance : Nat}

/-- Where no position is lower than its distance, a level is that row of its combinations. -/
theorem strideLevel_eq {row : List Combination} (le : distance ≤ first)
    (falling : row.Pairwise fun first second => second.target < first.target)
    (mem_row : ∀ combination, combination ∈ row ↔ combination.target < limit ∧
      first ≤ combination.target ∧ (combination.target - first) % stride = 0 ∧
        combination.source + distance = combination.target) :
    strideLevel limit first stride distance = pure row := by
  let fold (target : Nat) : Combination := .below target distance
  have listed : strideLevel limit first stride distance =
      pure ((descending first limit stride).map fold) := by
    refine Attempt.mapM_pure fun target member => ?_
    have above := (mem_descending.mp member).2.1
    rw [Attempt.difference_eq (Nat.le_trans le above)]
    rfl
  rw [listed]
  refine congrArg pure (eq_of_falling ?_ falling fun combination => ?_)
  · exact List.pairwise_map.mpr (descending_falling first limit stride)
  · rw [mem_row, List.mem_map]
    constructor
    · rintro ⟨target, member, rfl⟩
      rcases mem_descending.mp member with ⟨inside, above, steps⟩
      exact ⟨inside, above, steps, Nat.sub_add_cancel (Nat.le_trans le above)⟩
    · rintro ⟨inside, above, steps, apart⟩
      refine ⟨combination.target, mem_descending.mpr ⟨inside, above, steps⟩, ?_⟩
      have isSource : combination.target - distance = combination.source :=
        Nat.sub_eq_of_eq_add apart.symm
      simp only [fold, Combination.below, isSource]

/-- Steps that begin right below a multiple of the stride reach the positions below multiples. -/
theorem steps_iff_dvd {position : Nat} (positive : 0 < stride) :
    stride - 1 ≤ position ∧ (position - (stride - 1)) % stride = 0 ↔ stride ∣ position + 1 := by
  constructor
  · rintro ⟨above, steps⟩
    have split : position + 1 = position - (stride - 1) + stride := by omega
    rw [split]
    exact Nat.dvd_add (Nat.dvd_of_mod_eq_zero steps) (Nat.dvd_refl stride)
  · intro divides
    have le := Nat.le_of_dvd (Nat.succ_pos position) divides
    have rest : position - (stride - 1) = position + 1 - stride := by omega
    rw [rest]
    exact ⟨by omega, Nat.mod_eq_zero_of_dvd (Nat.dvd_sub divides (Nat.dvd_refl stride))⟩

variable {half : Nat}

theorem strideLevel_up (positive : 0 < half) :
    strideLevel limit (2 * half - 1) (2 * half) half = pure (upRow limit half) := by
  refine strideLevel_eq (by omega) (upRow_falling positive) fun combination => ?_
  rw [← and_assoc (a := 2 * half - 1 ≤ _), steps_iff_dvd (by omega)]
  constructor
  · intro member
    rcases mem_upRow positive member with ⟨inside, apart, divides⟩
    exact ⟨inside, divides, apart⟩
  · rintro ⟨inside, divides, apart⟩
    rcases exists_mem_upRow positive inside divides with ⟨other, member, sameTarget⟩
    exact Combination.eq_of_apart (mem_upRow positive member).2.1 apart sameTarget ▸ member

theorem strideLevel_down (positive : 0 < half) (even : 2 * half ∣ limit) :
    strideLevel limit (2 * half + half - 1) (2 * half) half = pure (downRow limit half) := by
  refine strideLevel_eq (by omega) (downRow_falling positive) fun combination => ?_
  constructor
  · intro member
    rcases mem_downRow positive member with ⟨inside, apart, divides⟩
    rcases (steps_iff_dvd (by omega)).mpr divides with ⟨above, steps⟩
    refine ⟨inside, by omega, ?_, apart⟩
    rwa [← apart, show combination.source + half - (2 * half + half - 1) =
      combination.source - (2 * half - 1) by omega]
  · rintro ⟨inside, above, steps, apart⟩
    have divides : 2 * half ∣ combination.source + 1 := by
      refine (steps_iff_dvd (by omega)).mp ⟨by omega, ?_⟩
      rwa [show combination.source - (2 * half - 1) =
        combination.target - (2 * half + half - 1) by omega]
    have below : combination.target + 1 - half = combination.source + 1 := by omega
    rcases exists_mem_downRow positive even inside (by omega) (below ▸ divides) with
      ⟨other, member, sameTarget⟩
    exact Combination.eq_of_apart (mem_downRow positive member).2.1 apart sameTarget ▸ member

theorem spanLevel_eq {span : Nat} (le : span ≤ limit) :
    spanLevel limit span false = pure (spanRow limit span) := by
  rw [spanLevel, Attempt.difference_eq le]
  simp [spanRow]

theorem spanLevel_odd {span : Nat} (le : span ≤ limit) :
    spanLevel limit span true = pure (oddTargets (spanRow limit span)) := by
  rw [spanLevel, Attempt.difference_eq le, pure_bind]
  refine congrArg pure (List.filter_congr fun combination _ => ?_)
  rcases Nat.mod_two_eq_zero_or_one combination.target with even | odd
  · simp [even]
  · simp [odd]

theorem evenLevel_eq (even : limit % 2 = 0 ∨ limit = 1) :
    evenLevel limit = pure (evenRow limit) := by
  unfold evenLevel
  by_cases wide : 3 ≤ limit
  · let fold (target : Nat) : Combination := .below target 1
    have listed (target : Nat) (member : target ∈ (List.range (limit - 2 + 1)).reverse.filter
        fun target => 2 ≤ target ∧ (limit - 2 - target) % 2 = 0) :
        (do return { target, source := ← Attempt.difference target 1 } : Attempt Combination) =
          pure (fold target) := by
      simp only [List.mem_filter, decide_eq_true_eq] at member
      rw [Attempt.difference_eq (by omega)]
      rfl
    rw [if_pos wide, Attempt.difference_eq (by omega), pure_bind, Attempt.mapM_pure listed]
    · refine congrArg pure (eq_of_falling ?_ (evenRow_falling limit) fun combination => ?_)
      · refine List.pairwise_map.mpr (List.Pairwise.filter _ ?_)
        exact List.pairwise_reverse.mpr List.pairwise_lt_range
      · rw [evenRow, mem_row, List.mem_map]
        constructor
        · rintro ⟨target, member, rfl⟩
          simp only [List.mem_filter, List.mem_reverse, List.mem_range, decide_eq_true_eq] at member
          exact ⟨target / 2 - 1, by omega, congrArg fold (by omega)⟩
        · rintro ⟨block, inside, rfl⟩
          refine ⟨2 * block + 2, ?_, rfl⟩
          simp only [List.mem_filter, List.mem_reverse, List.mem_range, decide_eq_true_eq]
          omega
  · have none : limit / 2 - 1 = 0 := by omega
    rw [if_neg wide, evenRow, none]
    rfl

/-- The levels that the loops visit are the rows of the schedule, and no difference is negative. -/
theorem levels_eq_schedule (topology : Topology) (count : Nat) :
    topology.levels count (2 ^ count) = pure (topology.schedule count) := by
  let half (level : Nat) : Nat := 1 <<< level >>> 1
  have stride {level : Nat} (positive : 0 < level) :
      1 <<< level = 2 * half level ∧ half level = 2 ^ (level - 1) := by
    rcases Nat.exists_eq_succ_of_ne_zero (Nat.ne_of_gt positive) with ⟨below, rfl⟩
    simp only [half, Nat.one_shiftLeft, Nat.shiftRight_one, Nat.succ_eq_add_one, Nat.pow_succ,
      Nat.add_sub_cancel]
    omega
  have spans : (List.range' 1 count).map half = (List.range count).map (1 <<< ·) := by
    rw [List.range'_eq_map_range, List.map_map]
    refine List.map_congr_left fun level _ => ?_
    simp only [Function.comp_apply, (stride (show 0 < 1 + level by omega)).2, Nat.one_shiftLeft,
      Nat.add_sub_cancel_left]
  have le_width {level : Nat} (member : level ∈ List.range count) : 1 <<< level ≤ 2 ^ count := by
    rw [Nat.one_shiftLeft]
    exact Nat.pow_le_pow_right Nat.zero_lt_two (Nat.le_of_lt (List.mem_range.mp member))
  have width : 1 <<< count = 2 ^ count := Nat.one_shiftLeft count
  cases topology with
  | brentKung =>
      have up : (List.range' 1 count).mapM (fun level => strideLevel (2 ^ count)
          (1 <<< level - 1) (1 <<< level) (1 <<< level >>> 1)) =
            pure ((List.range' 1 count).map fun level => upRow (2 ^ count) (half level)) := by
        refine Attempt.mapM_pure fun level member => ?_
        rcases stride (List.mem_range'_1.mp member).1 with ⟨isStride, isHalf⟩
        change strideLevel _ (1 <<< level - 1) (1 <<< level) (half level) = _
        rw [isStride]
        exact strideLevel_up (isHalf ▸ Nat.two_pow_pos _)
      have down : (List.range' 1 count).reverse.mapM (fun level => strideLevel (2 ^ count)
          (1 <<< level + 1 <<< level >>> 1 - 1) (1 <<< level) (1 <<< level >>> 1)) =
            pure ((List.range' 1 count).reverse.map fun level =>
              downRow (2 ^ count) (half level)) := by
        refine Attempt.mapM_pure fun level member => ?_
        rcases List.mem_range'_1.mp (List.mem_reverse.mp member) with ⟨positive, inside⟩
        rcases stride positive with ⟨isStride, isHalf⟩
        have divides : 2 * half level ∣ 2 ^ count := by
          rw [← isStride, Nat.one_shiftLeft]
          exact Nat.pow_dvd_pow 2 (by omega)
        change strideLevel _ (1 <<< level + half level - 1) (1 <<< level) (half level) = _
        rw [isStride]
        exact strideLevel_down (isHalf ▸ Nat.two_pow_pos _) divides
      rw [levels, up, down, schedule, ← spans, width, ← List.map_reverse, List.map_map,
        List.map_map]
      rfl
  | koggeStone =>
      have each := Attempt.mapM_pure fun level (member : level ∈ List.range count) =>
        spanLevel_eq (le_width member)
      rw [levels, each, schedule, width, List.map_map]
      rfl
  | hanCarlson =>
      have each := Attempt.mapM_pure fun level (member : level ∈ List.range count) =>
        spanLevel_odd (le_width member)
      have even : 2 ^ count % 2 = 0 ∨ 2 ^ count = 1 := by
        cases count with
        | zero => exact .inr rfl
        | succ count => exact .inl (by rw [Nat.pow_succ, Nat.mul_mod_left])
      rw [levels, each, evenLevel_eq even, schedule, width, List.map_map]
      rfl

end Topology

/-! ## Trees -/

/-- Folds the group of a lower position into that of a higher one. Refuses positions that have no
group and positions that are not in order. -/
def fold (groups : Array Group) (combination : Combination) : Attempt (Array Group) := do
  if combination.target ≤ combination.source then
    Attempt.refuse .unknownBit
  let upper ← Attempt.found groups[combination.target]?
  let lower ← Attempt.found groups[combination.source]?
  let joined ← joinGroups upper lower
  Build.note (.prefixCombined combination.target combination.source)
  return groups.setIfInBounds combination.target joined

/-- Extends the groups of single positions by the loops of a tree. -/
def extendGroups (topology : Topology) (count : Nat) (groups : Array Group) :
    Attempt (Array Group) := do
  let rows ← topology.levels count groups.size
  rows.foldlM (fun groups row => row.foldlM fold groups) groups

/-- The group of a single position of two words. -/
def groupAt (left right : List SignalId) (position : Nat) : Attempt Group := do
  bitGroup (← Attempt.found left[position]?) (← Attempt.found right[position]?)

/-- The sum bit of a position that has another below it. -/
def sumBitAt (bits : List Group) (finished : Array Group) (position : Nat) : Attempt SignalId := do
  let bit ← Attempt.found bits[position]?
  let below ← Attempt.found finished[position - 1]?
  Build.xor2 bit.propagate below.generate

/-- The sum of two words by a prefix tree, position by position. -/
def climb (topology : Topology) (left right : List SignalId) : Attempt (List SignalId) := do
  let bits ← (List.range' 0 left.length).mapM (groupAt left right)
  let levels := left.length.log2
  let gatesBefore ← Build.gateCount
  let finished ← extendGroups topology levels bits.toArray
  let gates := (← Build.gateCount) - gatesBefore
  Build.note (.prefixTree (.tree topology) left.length levels gates)
  let lowest ← Attempt.found bits[0]?
  let higher ← (List.range' 1 (left.length - 1)).mapM (sumBitAt bits finished)
  return lowest.propagate :: higher

/-- The sum of two words, with the loops of the tree. -/
def sumByLoops (left right : List SignalId) (algorithm : Algorithm) (tag : Option String) :
    Attempt (List SignalId) := do
  if left.length ≠ right.length then
    Attempt.refuse .unequalWidths
  Attempt.ofExcept ((algorithm.checkWidth left.length).mapError .config)
  if let some tag := tag then
    Build.setScope (some (scopeOf tag algorithm))
  let result ← match algorithm with
    | .tree topology => climb topology left right
    | .inferred => Attempt.add left right
  Build.setScope none
  return result

theorem fold_eq {groups : Array Group} {combination : Combination}
    (order : combination.source < combination.target) (inside : combination.target < groups.size) :
    fold groups combination = liftM (combine groups combination) := by
  have upper : groups[combination.target]? = some groups[combination.target] :=
    Array.getElem?_eq_getElem inside
  have lower : groups[combination.source]? = some groups[combination.source] :=
    Array.getElem?_eq_getElem (Nat.lt_trans order inside)
  rw [fold, if_neg (Nat.not_le.mpr order), combine, upper, lower]
  rfl

theorem always_size_combine (groups : Array Group) (combination : Combination) :
    Build.Always (combine groups combination) fun result => result.size = groups.size := by
  unfold combine
  split
  · exact .after fun joined => .after fun _ => Build.always_pure Array.size_setIfInBounds
  · exact Build.always_pure rfl

theorem always_size_combineRow (groups : Array Group) (row : List Combination) :
    Build.Always (combineRow groups row) fun result => result.size = groups.size :=
  Build.always_foldlM rfl fun combination _ middle same provider builder =>
    (always_size_combine middle combination provider builder).trans same

theorem always_size_combineRows (groups : Array Group) (rows : List (List Combination)) :
    Build.Always (combineRows groups rows) fun result => result.size = groups.size :=
  Build.always_foldlM rfl fun row _ middle same provider builder =>
    (always_size_combineRow middle row provider builder).trans same

/-- The loops over a power of two of groups carry out the rows of the schedule: nothing that they
look up is missing. -/
theorem extendGroups_eq (topology : Topology) {count : Nat} {groups : Array Group}
    (size : groups.size = 2 ^ count) :
    extendGroups topology count groups =
      liftM (combineRows groups (topology.schedule count)) := by
  let sized (groups : Array Group) : Prop := groups.size = 2 ^ count
  rw [extendGroups, size, topology.levels_eq_schedule, pure_bind]
  refine Attempt.foldlM_lift (show sized groups from size) fun row isRow middle same => ⟨?_, ?_⟩
  · refine Attempt.foldlM_lift same fun combination member middle same => ⟨?_, ?_⟩
    · rcases topology.schedule_inside count row isRow combination member with ⟨order, inside⟩
      exact fold_eq order (same ▸ inside)
    · exact fun provider builder =>
        (always_size_combine middle combination provider builder).trans same
  · exact fun provider builder => (always_size_combineRow middle row provider builder).trans same

theorem mapM_groupAt {left right : List SignalId} (same : left.length = right.length) :
    (List.range' 0 left.length).mapM (groupAt left right) =
      (liftM ((left.zip right).mapM fun (left, right) => bitGroup left right) :
        Attempt (List Group)) := by
  have pairs : left.length = (left.zip right).length := by simp [same]
  rw [pairs]
  refine Attempt.mapM_range' fun index pair isPair => ?_
  rcases List.getElem?_zip_eq_some.mp isPair with ⟨isLeft, isRight⟩
  rw [Nat.zero_add, groupAt, isLeft, isRight]
  rfl

theorem mapM_sumBitAt {lowest : Group} {higher : List Group} {finished : Array Group}
    (size : finished.size = higher.length + 1) :
    (List.range' 1 higher.length).mapM (sumBitAt (lowest :: higher) finished) =
      (liftM ((higher.zip finished.toList).mapM fun (bit, below) =>
        Build.xor2 bit.propagate below.generate) : Attempt (List SignalId)) := by
  have pairs : higher.length = (higher.zip finished.toList).length := by simp [size]
  rw [pairs]
  refine Attempt.mapM_range' fun index pair isPair => ?_
  rcases List.getElem?_zip_eq_some.mp isPair with ⟨isBit, isBelow⟩
  rw [Array.getElem?_toList] at isBelow
  rw [sumBitAt, Nat.add_comm, List.getElem?_cons_succ, isBit, Nat.add_sub_cancel, isBelow]
  rfl

/-- The loops over words of a power of two are never refused. -/
theorem climb_eq (topology : Topology) {left right : List SignalId} {count : Nat}
    (width : left.length = 2 ^ count) (same : left.length = right.length) :
    climb topology left right = liftM (treeSum topology left right) := by
  have levels : left.length.log2 = count := by rw [width, Nat.log2_two_pow]
  have length := Build.always_length_mapM
    (fun pair : SignalId × SignalId => bitGroup pair.1 pair.2) (left.zip right)
  rw [List.length_zip, ← same, Nat.min_self] at length
  rw [climb, treeSum, mapM_groupAt same, levels, Attempt.lift_bind]
  refine Attempt.lift_bind_congr length fun bits each => ?_
  have size : bits.toArray.size = left.length := bits.size_toArray.trans each
  rw [Attempt.lift_bind]
  refine bind_congr fun gatesBefore => ?_
  rw [extendGroups_eq topology (size.trans width), Attempt.lift_bind]
  refine Attempt.lift_bind_congr (always_size_combineRows _ _) fun finished full => ?_
  rw [Attempt.lift_bind]
  refine bind_congr fun gatesAfter => ?_
  rw [Attempt.lift_bind]
  refine bind_congr fun _ => ?_
  cases bits with
  | nil =>
      have positive := Nat.two_pow_pos count
      rw [← width, ← each] at positive
      cases positive
  | cons lowest higher =>
      have rest : left.length - 1 = higher.length := by
        rw [← each, List.length_cons, Nat.add_sub_cancel]
      rw [rest, mapM_sumBitAt full]
      rfl

/-- The loops are the construction on whole words, and refuse what it refuses. -/
theorem sumByLoops_eq_sum (left right : List SignalId) (algorithm : Algorithm)
    (tag : Option String) : sumByLoops left right algorithm tag = sum left right algorithm tag := by
  by_cases same : left.length = right.length
  · have accepted : ¬left.length ≠ right.length := by simpa using same
    rw [sumByLoops, sum, if_neg accepted, if_neg accepted]
    cases checked : algorithm.checkWidth left.length with
    | error cause => rfl
    | ok _ =>
        cases algorithm with
        | inferred => rfl
        | tree topology =>
            have climbs := climb_eq topology (Algorithm.eq_two_pow_of_checkWidth checked) same
            let ending (words : Attempt (List SignalId)) : Attempt (List SignalId) := do
              let result ← words
              Build.setScope none
              return result
            cases tag with
            | none => exact congrArg ending climbs
            | some tag =>
                exact congrArg (fun words => do
                  Build.setScope (some (scopeOf tag (.tree topology)))
                  ending words) climbs
  · rw [sumByLoops, sum, if_pos same, if_pos same, Attempt.refuse_bind, Attempt.refuse_bind]

end Adder

end Datapath

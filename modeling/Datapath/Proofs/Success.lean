import Datapath.Proofs.AdderRuns
import Datapath.Proofs.Heights
import Datapath.Proofs.MultiplierRuns
import Datapath.Proofs.Targets

/-!
# Constructions that are not refused

`Attempt.Succeeds` is the specification of a construction that cannot be refused: from any builder
that has the known signals it ends with a result, makes strict moves, refers to existing signals and
has a property that does not depend on values. What a step promises of every settled valuation gives
such properties too, because its gates can be settled: `Builder.Promise.exists_value`.

So the staged sum and the staged product of words of accepted widths are built for every provider.
The heights of the matrix decide whether the targets of its reduction stay in range.
-/

namespace Datapath

open Scoped (Within within_mono)

/-- The gates of a step can be settled, so what it promises of all valuations holds of some. -/
theorem Builder.Promise.exists_value {α : Type} [Scoped α] {provider : Provider}
    {before after : Builder} {result : α} {post : Valuation Bool → α → Prop}
    (promise : Promise provider before after result post) (literals : trueId < before.size) :
    ∃ value, Grounds value ∧ post value result := by
  rcases promise.moves.extension.exists_settled fun id => decide (id = trueId) with
    ⟨value, kept, settled⟩
  have literalFalse : falseId < before.size := Nat.lt_trans Nat.zero_lt_one literals
  refine ⟨value, ⟨?_, ?_⟩, promise.holds value settled⟩
  · rw [kept falseId literalFalse]
    rfl
  · rw [kept trueId literals]
    rfl

namespace Attempt

variable {α β : Type} [Scoped α] [Scoped β] {known : Nat}

/-- The attempt is not refused, and its result has a property. -/
def Succeeds (known : Nat) (attempt : Attempt α) (property : α → Prop) : Prop :=
  ∀ (provider : CompleteProvider) (before : Builder), known ≤ before.size →
    ∃ result after, run attempt provider before = (.ok result, after) ∧
      Builder.Moves provider.toProvider True before after ∧ Within after.size result ∧
      property result

variable {property : α → Prop}

theorem Succeeds.imp {attempt : Attempt α} {weaker : α → Prop}
    (succeeds : Succeeds known attempt property)
    (implies : ∀ result, property result → weaker result) : Succeeds known attempt weaker := by
  intro provider before enough
  rcases succeeds provider before enough with ⟨result, after, ran, moves, within, holds⟩
  exact ⟨result, after, ran, moves, within, implies result holds⟩

theorem succeeds_pure {result : α} (within : Within known result) (holds : property result) :
    Succeeds known (pure result) property :=
  fun _ before enough => ⟨result, before, rfl, .refl, within_mono enough within, holds⟩

theorem Succeeds.bind {attempt : Attempt α} {next : α → Attempt β} {final : β → Prop}
    (first : Succeeds known attempt property)
    (rest : ∀ result more, known ≤ more → Within more result → property result →
      Succeeds more (next result) final) : Succeeds known (attempt >>= next) final := by
  intro provider before enough
  rcases first provider before enough with ⟨result, middle, ranFirst, moves, within, holds⟩
  have later := Nat.le_trans enough moves.extension.size_le
  rcases rest result middle.size later within holds provider middle (Nat.le_refl _) with
    ⟨last, after, ranRest, movesRest, withinRest, holdsRest⟩
  refine ⟨last, after, ?_, moves.trans movesRest, withinRest, holdsRest⟩
  rw [run_bind, ranFirst]
  exact ranRest

/-- A step has the properties that follow from its promise. -/
theorem succeeds_lift {step : Build α} {post : Valuation Bool → α → Prop}
    (literals : Builder.trueId < known) (meets : Build.Meets known step post)
    (implies : ∀ value result, Grounds value → post value result → property result) :
    Succeeds known (liftM step) property := by
  intro provider before enough
  have promise := meets.promise provider before enough
  rcases promise.exists_value (Nat.lt_of_lt_of_le literals enough) with ⟨value, grounds, holds⟩
  exact ⟨_, _, rfl, promise.moves, promise.within, implies value _ grounds holds⟩

/-- A step that is made for what it does to the builder. -/
theorem succeeds_effect {step : Build Unit} (meets : Build.Meets known step fun _ _ => True) :
    Succeeds known (liftM step) fun _ => True := by
  intro provider before enough
  have promise := meets.promise provider before enough
  exact ⟨_, _, rfl, promise.moves, promise.within, trivial⟩

theorem Succeeds.and_always {step : Build α} {other : α → Prop}
    (succeeds : Succeeds known (liftM step) property) (always : Build.Always step other) :
    Succeeds known (liftM step) fun result => property result ∧ other result := by
  intro provider before enough
  rcases succeeds provider before enough with ⟨result, after, ran, moves, within, holds⟩
  cases ran
  exact ⟨_, _, rfl, moves, within, holds, always provider before⟩

theorem Succeeds.of_performs {attempt : Attempt α} {step : Build α}
    (performs : Performs attempt step) (succeeds : Succeeds known (liftM step) property) :
    Succeeds known attempt property := by
  intro provider before enough
  rw [performs]
  exact succeeds provider before enough

/-- A check that passes may come first. -/
theorem Succeeds.of_check {γ ε : Type} {passed : γ} {wrap : ε → Error} {next : γ → Attempt α}
    (rest : Succeeds known (next passed) property) :
    Succeeds known (ofExcept (Except.mapError wrap (.ok passed)) >>= next) property :=
  rest

theorem register_succeeds {id : Nat} (id_lt : id < known) :
    Succeeds known (register id) fun _ => True := by
  intro provider before enough
  have existing : id < before.size := Nat.lt_of_lt_of_le id_lt enough
  have found : before.netlist.signals[id]? = some before.netlist.signals[id] :=
    Array.getElem?_eq_getElem existing
  have ok : ∃ result after, run (register id) provider before = (.ok result, after) := by
    rw [register_eq, run_bind, run_isLiteral, found]
    dsimp only
    cases before.netlist.signals[id].isLiteral <;> exact ⟨_, _, rfl⟩
  rcases ok with ⟨result, after, ran⟩
  rcases register_moves ran with ⟨moves, within⟩
  exact ⟨result, after, ran, moves, within, trivial⟩

theorem registerWord_succeeds {word : List SignalId} (word_lt : Below known word) :
    Succeeds known (registerWord word) fun registered => registered.length = word.length := by
  induction word generalizing known with
  | nil => exact succeeds_pure (within_list_nil known) rfl
  | cons id word ih =>
      rcases below_cons.mp word_lt with ⟨id_lt, rest_lt⟩
      rw [registerWord_cons]
      refine (register_succeeds id_lt).bind fun q n le q_lt _ => ?_
      refine (ih (rest_lt.mono le)).bind fun rest m le' restWithin length => ?_
      refine succeeds_pure (within_list_cons.mpr ⟨within_mono le' q_lt, restWithin⟩) ?_
      rw [List.length_cons, List.length_cons, length]

end Attempt

open Attempt (Succeeds)

/-- A register stage keeps the width of its word. -/
theorem Generator.registerStage_succeeds {known : Nat} (enabled : Bool) (scope : String)
    {word : List SignalId} (word_lt : Below known word) :
    Succeeds known (registerStage enabled scope word) fun registered =>
      registered.length = word.length := by
  cases enabled with
  | false => exact Attempt.succeeds_pure word_lt rfl
  | true =>
      refine (Attempt.succeeds_effect (Build.setScope_meets (some scope))).bind
        fun _ n le _ _ => ?_
      refine (Attempt.registerWord_succeeds (word_lt.mono le)).bind
        fun registered m _ registered_lt length => ?_
      refine (Attempt.succeeds_effect (Build.setScope_meets none)).bind fun _ k le' _ _ => ?_
      exact Attempt.succeeds_pure (within_mono le' registered_lt) length

namespace Adder

variable {known : Nat} {left right : List SignalId}

/-- Words of one accepted width are added. -/
theorem sum_succeeds {algorithm : Algorithm} (tag : Option String)
    (literals : Builder.trueId < known) (left_lt : Below known left) (right_lt : Below known right)
    (sameWidth : left.length = right.length)
    (accepted : algorithm.checkWidth left.length = .ok ()) :
    Succeeds known (sum left right algorithm tag) fun sums => sums.length = left.length := by
  have meets := inScope_meets (tag.map (scopeOf · algorithm))
    (acceptedSum_meets sameWidth accepted left_lt right_lt)
  refine .of_performs (sum_performs sameWidth accepted tag)
    (Attempt.succeeds_lift literals meets fun value sums _ isSum => ?_)
  have lengths := congrArg List.length isSum
  simpa [Logic.length_rippleSum, ← sameWidth] using lengths

/-- The staged sum of words of an accepted width is built. -/
theorem Options.staged_succeeds (options : Options) {a b : List SignalId}
    (literals : Builder.trueId < known) (a_lt : Below known a) (b_lt : Below known b)
    (widthA : a.length = options.width) (widthB : b.length = options.width)
    (accepted : options.check = .ok ()) :
    Succeeds known (options.staged a b) fun sum => sum.length = options.width := by
  refine (Generator.registerStage_succeeds _ _ a_lt).bind fun left n le left_lt lengthA => ?_
  refine (Generator.registerStage_succeeds _ _ (b_lt.mono le)).bind
    fun right m le' right_lt lengthB => ?_
  have width : left.length = options.width := lengthA.trans widthA
  have literals_lt : Builder.trueId < m := Nat.lt_of_lt_of_le literals (Nat.le_trans le le')
  refine (sum_succeeds (some "add") literals_lt (within_mono le' left_lt) right_lt
    (by rw [width, lengthB, widthB]) (by rw [width]; exact accepted)).bind
      fun sum k _ sum_lt lengthSum => ?_
  exact (Generator.registerStage_succeeds _ _ sum_lt).imp fun shown lengthShown =>
    lengthShown.trans (lengthSum.trans width)

end Adder

namespace Multiplier

variable {known : Nat} {left right : List SignalId}

/-- A matrix with a number of columns and a bound on their heights. -/
structure Matrix.Shaped (matrix : Matrix) (columns bound : Nat) : Prop where
  columnCount : matrix.columnCount = columns
  low : ∀ index < columns, matrix.heightAt index ≤ bound

theorem Matrix.Grows.shaped {columnCount bound : Nat} {after : Matrix} {columns : List Nat}
    (grows : Matrix.Grows (.empty columnCount) after columns)
    (low : ∀ index, columns.count index ≤ bound) : after.Shaped columnCount bound where
  columnCount := grows.columnCount.trans (Matrix.columnCount_empty columnCount)
  low index inside := by
    rw [grows.heightAt_of_empty (by rwa [grows.columnCount, Matrix.columnCount_empty])]
    exact low index

theorem Matrix.Shaped.truncate {matrix : Matrix} {columns bound fewer : Nat}
    (shaped : matrix.Shaped columns bound) (le : fewer ≤ columns) :
    (matrix.truncate fewer).Shaped fewer bound where
  columnCount := by
    rw [Matrix.columnCount_truncate, shaped.columnCount, Nat.min_eq_left le]
  low index inside := by
    rw [Matrix.heightAt_truncate inside]
    exact shaped.low index (Nat.lt_of_lt_of_le inside le)

theorem Matrix.Shaped.maxHeight_le {matrix : Matrix} {columns bound : Nat}
    (shaped : matrix.Shaped columns bound) : matrix.maxHeight ≤ bound :=
  Matrix.maxHeight_le fun index inside => shaped.low index (shaped.columnCount ▸ inside)

theorem schoolbookProducts_succeeds (literals : Builder.trueId < known)
    (left_lt : Below known left) (right_lt : Below known right)
    (sameWidth : left.length = right.length) :
    Succeeds known (schoolbookProducts left right) fun matrix =>
      matrix.Shaped (Scheme.schoolbook.columns left.length) left.length := by
  unfold schoolbookProducts
  rw [if_neg (by simpa using sameWidth)]
  refine (Attempt.succeeds_effect (Build.setScope_meets _)).bind fun _ n le _ _ => ?_
  have literals_lt : Builder.trueId < n := Nat.lt_of_lt_of_le literals le
  have products := Build.pushProducts_meets (left_lt.mono le) (right_lt.mono le)
    (Build.within_empty n (Scheme.schoolbook.columns left.length)) 0
  refine ((Attempt.succeeds_lift literals_lt products fun _ _ _ _ => trivial).and_always
    (Build.pushProducts_grows right 0 left _)).bind fun matrix m le' matrix_lt ⟨_, grows⟩ => ?_
  refine (Attempt.succeeds_effect (Build.setScope_meets none)).bind fun _ k le'' _ _ => ?_
  refine Attempt.succeeds_pure (within_mono le'' matrix_lt) (grows.shaped fun index => ?_)
  have bounded := count_flatMap_le
    (fun column (_ : column ∈ List.range' 0 left.length) index =>
      count_le_one_of_range' column right.length index) index
  simpa using bounded

theorem boothProducts_succeeds (literals : Builder.trueId < known)
    (left_lt : Below known left) (right_lt : Below known right)
    (sameWidth : left.length = right.length) (even : left.length % 2 = 0) :
    Succeeds known (boothProducts left right) fun matrix =>
      matrix.Shaped (Scheme.booth.columns left.length) (left.length + 2) := by
  unfold boothProducts
  rw [if_neg (by simpa using sameWidth), if_neg (by simpa using even)]
  have falseId_lt : Builder.falseId < known := Nat.lt_trans Nat.zero_lt_one literals
  have windows_lt : Within known (multiplierWindows left) :=
    within_windows falseId_lt (below_append.mpr ⟨left_lt, by simp [falseId_lt]⟩)
  have count : (multiplierWindows left).length = left.length / 2 + 1 :=
    length_windows Builder.falseId left even
  have rows := Build.boothRows_meets literals right_lt windows_lt
    (Build.within_empty known (Scheme.booth.columns left.length)) 0
    ((Nat.zero_add _).trans (sameWidth ▸ count))
  refine ((Attempt.succeeds_lift literals rows fun _ _ _ _ => trivial).and_always
    (Build.boothRows_grows right 0 (multiplierWindows left) _)).bind
      fun matrix m le matrix_lt ⟨_, grows⟩ => ?_
  refine (Attempt.succeeds_effect (Build.setScope_meets none)).bind fun _ k le' _ _ => ?_
  refine (Attempt.succeeds_effect (Build.note_meets _)).bind fun _ l le'' _ _ => ?_
  refine Attempt.succeeds_pure (within_mono (Nat.le_trans le' le'') matrix_lt)
    (grows.shaped fun index => ?_)
  have bounded := count_flatMap_le
    (fun row (_ : row ∈ List.range' 0 (multiplierWindows left).length) index =>
      count_rowColumns_le right.length row index) index
  rw [List.length_range'] at bounded
  omega

/-- The partial products of words of an accepted width are built, in columns that are at most two
bits higher than the words are wide. -/
theorem partialProducts_succeeds {scheme : Scheme} (literals : Builder.trueId < known)
    (left_lt : Below known left) (right_lt : Below known right)
    (sameWidth : left.length = right.length)
    (accepted : scheme.checkWidth left.length = .ok ()) :
    Succeeds known (partialProducts scheme left right) fun matrix =>
      matrix.Shaped (scheme.columns left.length) (left.length + 2) := by
  unfold partialProducts
  rw [accepted]
  apply Succeeds.of_check
  cases scheme with
  | schoolbook =>
      refine (schoolbookProducts_succeeds literals left_lt right_lt sameWidth).imp
        fun matrix shaped => ⟨shaped.columnCount, fun index inside => ?_⟩
      exact Nat.le_trans (shaped.low index inside) (Nat.le_add_right _ 2)
  | booth =>
      exact boothProducts_succeeds literals left_lt right_lt sameWidth
        ((Scheme.checkWidth_eq_ok.mp accepted).2 rfl)

/-- Registers change neither the columns of a matrix nor their heights. -/
theorem registerMatrix_succeeds {matrix : Matrix} (matrix_lt : Within known matrix) :
    Succeeds known (registerMatrix matrix) fun registered =>
      registered.columnCount = matrix.columnCount ∧ registered.maxHeight = matrix.maxHeight := by
  have bits_lt : Below known matrix.distinctBits := by
    intro bit member
    rcases List.mem_flatten.mp (Matrix.mem_distinctBits.mp member) with ⟨column, isColumn, isBit⟩
    exact matrix_lt column isColumn bit isBit
  refine (Attempt.registerWord_succeeds bits_lt).bind
    fun registered m _ registered_lt length => Attempt.succeeds_pure ?_ ⟨?_, ?_⟩
  · intro column member id isId
    rcases List.mem_map.mp member with ⟨old, isColumn, rfl⟩
    rcases List.mem_map.mp isId with ⟨bit, isBit, rfl⟩
    have inMatrix : bit ∈ matrix.bits := List.mem_flatten.mpr ⟨old, isColumn, isBit⟩
    rcases matrix.exists_register length inMatrix with ⟨index, _, found⟩
    exact registered_lt _ (List.mem_of_getElem? found)
  · exact List.length_map _
  · exact Matrix.maxHeight_map _ matrix

theorem delayMatrix_succeeds (enabled : Bool) {matrix : Matrix} (matrix_lt : Within known matrix) :
    Succeeds known (delayMatrix enabled matrix) fun registered =>
      registered.columnCount = matrix.columnCount ∧ registered.maxHeight = matrix.maxHeight := by
  cases enabled with
  | false => exact Attempt.succeeds_pure matrix_lt ⟨rfl, rfl⟩
  | true =>
      refine (Attempt.succeeds_effect (Build.setScope_meets _)).bind fun _ n le _ _ => ?_
      refine (registerMatrix_succeeds (within_mono le matrix_lt)).bind
        fun registered m _ registered_lt same => ?_
      refine (Attempt.succeeds_effect (Build.setScope_meets none)).bind fun _ k le' _ _ => ?_
      exact Attempt.succeeds_pure (within_mono le' registered_lt) same

/-- The targets for a matrix that is not too high stay in range. -/
theorem exists_stageTargets {maxHeight : Nat} (low : 3 * maxHeight < Fault.countLimit + 3) :
    ∃ targets, stageTargets maxHeight = .ok targets ∧ ∀ target ∈ targets, 2 ≤ target := by
  rcases stageTargets_cases maxHeight with ⟨_, large, lower, outOfRange⟩ | ⟨_, listed, _⟩
  · omega
  · exact ⟨_, listed, fun _ => two_le_of_isChain (stageTargets_isChain listed)⟩

/-- A matrix that is not too high is reduced to columns of at most two bits. -/
theorem reduce_succeeds {matrix : Matrix} (literals : Builder.trueId < known)
    (matrix_lt : Within known matrix) (low : 3 * matrix.maxHeight < Fault.countLimit + 3) :
    Succeeds known (reduce matrix) fun reduced =>
      reduced.columnCount = matrix.columnCount ∧ ∀ column ∈ reduced.columns, column.length ≤ 2 := by
  rcases exists_stageTargets low with ⟨targets, listed, _⟩
  rcases reduce_performs matrix_lt listed with ⟨step, performs, meets⟩
  refine .of_performs performs (Attempt.succeeds_lift literals meets ?_)
  exact fun _ _ _ ⟨gains, lowered⟩ => ⟨gains.columnCount, lowered⟩

namespace Options

/-- The matrix of the product and the addend is built. An addend puts one more bit into a column. -/
theorem products_succeeds (options : Options) {a b c : List SignalId}
    (literals : Builder.trueId < known) (a_lt : Below known a) (b_lt : Below known b)
    (c_lt : Below known c) (widthA : a.length = options.width) (widthB : b.length = options.width)
    (accepted : options.scheme.checkWidth options.width = .ok ()) :
    Succeeds known (options.products a b c) fun matrix =>
      matrix.columnCount = 2 * options.width ∧ matrix.maxHeight ≤ options.width + 3 := by
  rw [products_eq]
  refine (partialProducts_succeeds literals a_lt b_lt (widthA.trans widthB.symm)
    (widthA ▸ accepted)).bind fun matrix n le matrix_lt shaped => ?_
  rw [widthA] at shaped
  have literals_lt : Builder.trueId < n := Nat.lt_of_lt_of_le literals le
  have entries_lt := c_lt.mono le
  rw [← map_snd_swap_zipIdx c 0] at entries_lt
  refine ((Attempt.succeeds_lift literals_lt (Build.pushAll_meets matrix_lt entries_lt)
    fun _ _ _ _ => trivial).and_always (Build.pushAll_grows matrix _)).bind
      fun pushed m _ pushed_lt both => ?_
  have grows := both.2
  have wider : 2 * options.width ≤ options.scheme.columns options.width := by
    cases options.scheme <;> simp [Scheme.columns]
  have pushedShaped : pushed.Shaped (options.scheme.columns options.width) (options.width + 3) := by
    refine ⟨grows.columnCount.trans shaped.columnCount, fun index inside => ?_⟩
    have low := shaped.low index inside
    have once := count_le_one_of_range' 0 c.length index
    rw [grows.heightAt index (shaped.columnCount.symm ▸ inside), map_fst_swap_zipIdx]
    omega
  have truncated := pushedShaped.truncate wider
  have truncated_lt : Within m (pushed.truncate (2 * options.width)) :=
    fun column member => pushed_lt column (List.mem_of_mem_take member)
  refine (delayMatrix_succeeds _ truncated_lt).imp fun registered same => ⟨?_, ?_⟩
  · exact same.1.trans truncated.columnCount
  · exact Nat.le_of_eq same.2 |>.trans truncated.maxHeight_le

theorem check_eq_ok {options : Options} (accepted : options.check = .ok ()) :
    options.scheme.checkWidth options.width = .ok () ∧
      options.finalAdder.checkWidth (2 * options.width) = .ok () := by
  unfold check at accepted
  cases scheme : options.scheme.checkWidth options.width with
  | error error =>
      rw [scheme] at accepted
      cases accepted
  | ok passed =>
      rw [scheme] at accepted
      refine ⟨rfl, ?_⟩
      by_cases inRange : 2 * options.width < Fault.countLimit
      · rw [Fault.checkCount, if_pos inRange] at accepted
        change (options.finalAdder.checkWidth _).mapError Error.config = _ at accepted
        exact Netlist.mapError_eq_ok.mp accepted
      · rw [Fault.checkCount, if_neg inRange] at accepted
        cases accepted

/-- The staged product of words of an accepted width is built. -/
theorem staged_succeeds (options : Options) {a b c : List SignalId}
    (literals : Builder.trueId < known) (a_lt : Below known a) (b_lt : Below known b)
    (c_lt : Below known c) (widthA : a.length = options.width) (widthB : b.length = options.width)
    (accepted : options.check = .ok ()) (bounded : options.width < 2 ^ 62) :
    Succeeds known (options.staged a b c) fun product => product.length = 2 * options.width := by
  rcases check_eq_ok accepted with ⟨schemeAccepts, adderAccepts⟩
  refine (Generator.registerStage_succeeds _ _ a_lt).bind fun left n le left_lt lengthA => ?_
  refine (Generator.registerStage_succeeds _ _ (b_lt.mono le)).bind
    fun right m le' right_lt lengthB => ?_
  have all : known ≤ m := Nat.le_trans le le'
  refine (Generator.registerStage_succeeds _ _ (c_lt.mono all)).bind
    fun addend k le'' addend_lt _ => ?_
  have literals_lt : Builder.trueId < k := Nat.lt_of_lt_of_le literals (Nat.le_trans all le'')
  refine (options.products_succeeds literals_lt (within_mono (Nat.le_trans le' le'') left_lt)
    (within_mono le'' right_lt) addend_lt (lengthA.trans widthA) (lengthB.trans widthB)
    schemeAccepts).bind fun matrix l le₁ matrix_lt ⟨columnCount, low⟩ => ?_
  have literals_lt : Builder.trueId < l := Nat.lt_of_lt_of_le literals_lt le₁
  refine (reduce_succeeds literals_lt matrix_lt (by simp only [Fault.countLimit]; omega)).bind
    fun reduced i le₂ reduced_lt ⟨sameCount, _⟩ => ?_
  have literals_lt : Builder.trueId < i := Nat.lt_of_lt_of_le literals_lt le₂
  rcases within_rows literals_lt reduced_lt with ⟨first_lt, second_lt⟩
  have first : reduced.rows.1.length = 2 * options.width := by
    rw [← columnCount, ← sameCount]
    exact List.length_map _
  have second : reduced.rows.2.length = 2 * options.width := by
    rw [← columnCount, ← sameCount]
    exact List.length_map _
  refine (Adder.sum_succeeds (some "final") literals_lt first_lt second_lt
    (first.trans second.symm) (first.symm ▸ adderAccepts)).bind
      fun product j _ product_lt lengthProduct => ?_
  exact (Generator.registerStage_succeeds _ _ product_lt).imp fun shown lengthShown =>
    lengthShown.trans (lengthProduct.trans first)

end Options

end Multiplier

end Datapath

import Datapath.Proofs.Levels
import Datapath.Proofs.Queues

/-!
# Generators as loops

Recoding reads the multiplier and the multiplicand at computed positions of the padded words:
`Multiplier.recode` refuses those that are not there. With the trees as loops and the reduction as
loops over queues this makes generators that refuse every position without an item, every negative
difference and every pop from an empty column.

None of it is ever refused, because these generators are the ones on whole words and columns:
`Adder.Options.assembleByLoops_eq` and `Multiplier.Options.assembleByLoops_eq`.
-/

namespace Datapath

namespace Multiplier

/-! ## Recoding -/

/-- A multiplier with a zero below it and two above it. -/
def paddedMultiplier (word : List SignalId) : List SignalId :=
  Builder.falseId :: (word ++ [Builder.falseId, Builder.falseId])

/-- A multiplicand with a zero below it and one above it. -/
def paddedMultiplicand (word : List SignalId) : List SignalId :=
  Builder.falseId :: (word ++ [Builder.falseId])

/-- Adds the bit of a row at an offset. -/
def pushBitAt (multiplicand : List SignalId) (digit : Digit) (start : Nat) (matrix : Matrix)
    (offset : Nat) : Attempt Matrix := do
  let lower ← Attempt.found multiplicand[offset]?
  let upper ← Attempt.found multiplicand[offset + 1]?
  Build.push matrix (start + offset) (← selectBit lower upper digit)

/-- Adds a row of words of a given width, which are padded. -/
def recodeRow (multiplier multiplicand : List SignalId) (width : Nat) (matrix : Matrix)
    (row : Nat) : Attempt Matrix := do
  let start := 2 * row
  Build.setScope (some (rowScope row))
  let b0 ← Attempt.found multiplier[start]?
  let b1 ← Attempt.found multiplier[start + 1]?
  let b2 ← Attempt.found multiplier[start + 2]?
  let digit ← encodeDigit b0 b1 b2
  let matrix ← (List.range' 0 (width + 1)).foldlM (pushBitAt multiplicand digit start) matrix
  if row = width / 2 then
    return matrix
  else
    let notSign ← Build.inv digit.sign
    Build.pushAll matrix (corrections width row digit.sign notSign)

/-- The matrix of the recoded rows of a product, row by row. -/
def recode (multiplier multiplicand : List SignalId) : Attempt Matrix := do
  let width := multiplier.length
  if width ≠ multiplicand.length then
    Attempt.refuse .unequalWidths
  if width % 2 ≠ 0 then
    Attempt.refuse .oddWidth
  let matrix ← (List.range' 0 (width / 2 + 1)).foldlM
    (recodeRow (paddedMultiplier multiplier) (paddedMultiplicand multiplicand) width)
    (.empty (Scheme.booth.columns width))
  Build.setScope none
  Build.note (.boothMatrix width (width / 2 + 1) matrix.heights)
  return matrix

/-- The matrix of a product by a scheme, with the loops of recoding. -/
def productsByLoops (scheme : Scheme) (left right : List SignalId) : Attempt Matrix := do
  Attempt.ofExcept ((scheme.checkWidth left.length).mapError .config)
  match scheme with
  | .booth => recode left right
  | .schoolbook => schoolbookProducts left right

/-- A window consists of the bits at three consecutive positions. -/
theorem getElem?_of_windows {lowest : SignalId} {bits : List SignalId} {row b0 b1 b2 : Nat}
    (isWindow : (windows lowest bits)[row]? = some (b0, b1, b2)) :
    (lowest :: bits)[2 * row]? = some b0 ∧ (lowest :: bits)[2 * row + 1]? = some b1 ∧
      (lowest :: bits)[2 * row + 2]? = some b2 := by
  fun_induction windows lowest bits generalizing row with
  | case1 lowest first second higher ih =>
      cases row with
      | zero =>
          cases isWindow
          exact ⟨rfl, rfl, rfl⟩
      | succ row => exact ih isWindow
  | case2 lowest bits short => cases isWindow

/-- Neighbours stand at consecutive positions of the padded word. -/
theorem getElem?_of_neighbours {word : List SignalId} {offset lower upper : Nat}
    (areNeighbours : (neighbours word)[offset]? = some (lower, upper)) :
    (paddedMultiplicand word)[offset]? = some lower ∧
      (paddedMultiplicand word)[offset + 1]? = some upper := by
  rcases List.getElem?_zip_eq_some.mp areNeighbours with ⟨isLower, isUpper⟩
  have inside := (List.getElem?_eq_some_iff.mp isLower).1
  rw [paddedMultiplicand, ← List.cons_append, List.getElem?_append_left inside, List.cons_append,
    List.getElem?_cons_succ]
  exact ⟨isLower, isUpper⟩

/-- The loop over the offsets of a row is the walk along the neighbours in the multiplicand. -/
theorem foldlM_pushBitAt (multiplicand : List SignalId) (digit : Digit) (start : Nat)
    (matrix : Matrix) :
    (List.range' 0 (multiplicand.length + 1)).foldlM
        (pushBitAt (paddedMultiplicand multiplicand) digit start) matrix =
      (liftM (pushRow digit start (neighbours multiplicand) matrix) : Attempt Matrix) := by
  let walk (offset : Nat) : List (SignalId × SignalId) → Matrix → Build Matrix :=
    pushRow digit (start + offset)
  let step (offset : Nat) (pair : SignalId × SignalId) (matrix : Matrix) : Build Matrix := do
    Build.push matrix (start + offset) (← selectBit pair.1 pair.2 digit)
  have next (offset : Nat) (pair : SignalId × SignalId) (higher : List (SignalId × SignalId))
      (matrix : Matrix) :
      walk offset (pair :: higher) matrix = step offset pair matrix >>= walk (offset + 1) higher :=
    rfl
  have each (offset : Nat) (pair : SignalId × SignalId)
      (arePair : (neighbours multiplicand)[offset]? = some pair) (matrix : Matrix) :
      pushBitAt (paddedMultiplicand multiplicand) digit start matrix (0 + offset) =
        liftM (step (0 + offset) pair matrix) := by
    rcases getElem?_of_neighbours arePair with ⟨isLower, isUpper⟩
    rw [Nat.zero_add, pushBitAt, isLower, isUpper]
    rfl
  have looped := Attempt.foldlM_range' (fun _ _ => rfl) next each matrix
  rwa [Build.length_neighbours] at looped

section Rows

variable {multiplier multiplicand : List SignalId} (same : multiplier.length = multiplicand.length)

include same

theorem recodeRow_eq {row : Nat} {window : SignalId × SignalId × SignalId}
    (isWindow : (multiplierWindows multiplier)[row]? = some window) (matrix : Matrix) :
    recodeRow (paddedMultiplier multiplier) (paddedMultiplicand multiplicand) multiplier.length
        matrix row =
      liftM (boothRow multiplicand row window matrix) := by
  rcases getElem?_of_windows isWindow with ⟨isLowest, isMiddle, isHighest⟩
  rw [recodeRow, paddedMultiplier, isLowest, isMiddle, isHighest, same]
  simp only [Attempt.found, pure_bind, foldlM_pushBitAt, boothRow, Attempt.lift_bind]
  refine bind_congr fun _ => bind_congr fun digit => bind_congr fun pushed => ?_
  split <;> rfl

/-- The loop over the rows is the walk along the windows of the multiplier. -/
theorem foldlM_recodeRow (even : multiplier.length % 2 = 0) (matrix : Matrix) :
    (List.range' 0 (multiplier.length / 2 + 1)).foldlM
        (recodeRow (paddedMultiplier multiplier) (paddedMultiplicand multiplicand)
          multiplier.length) matrix =
      (liftM (boothRows multiplicand 0 (multiplierWindows multiplier) matrix) :
        Attempt Matrix) := by
  have next (row : Nat) (window : SignalId × SignalId × SignalId)
      (higher : List (SignalId × SignalId × SignalId)) (matrix : Matrix) :
      boothRows multiplicand row (window :: higher) matrix =
        boothRow multiplicand row window matrix >>= boothRows multiplicand (row + 1) higher :=
    rfl
  have each (row : Nat) (window : SignalId × SignalId × SignalId)
      (isWindow : (multiplierWindows multiplier)[row]? = some window) (matrix : Matrix) :
      recodeRow (paddedMultiplier multiplier) (paddedMultiplicand multiplicand) multiplier.length
        matrix (0 + row) = liftM (boothRow multiplicand (0 + row) window matrix) := by
    rw [Nat.zero_add]
    exact recodeRow_eq same isWindow matrix
  have count : (multiplierWindows multiplier).length = multiplier.length / 2 + 1 :=
    length_windows Builder.falseId multiplier even
  have looped := Attempt.foldlM_range' (fun _ _ => rfl) next each matrix
  rwa [count] at looped

end Rows

/-- The loops are the recursion along the windows, and refuse what it refuses. -/
theorem recode_eq_boothProducts (multiplier multiplicand : List SignalId) :
    recode multiplier multiplicand = boothProducts multiplier multiplicand := by
  by_cases same : multiplier.length = multiplicand.length
  · have sameWidth : ¬multiplier.length ≠ multiplicand.length := not_not_intro same
    by_cases even : multiplier.length % 2 = 0
    · have evenWidth : ¬multiplier.length % 2 ≠ 0 := not_not_intro even
      simp only [recode, boothProducts, if_neg sameWidth, if_neg evenWidth,
        foldlM_recodeRow same even]
    · simp only [recode, boothProducts, if_neg sameWidth, if_pos even, Attempt.refuse_bind]
  · simp only [recode, boothProducts, if_pos same, Attempt.refuse_bind]

theorem productsByLoops_eq (scheme : Scheme) (left right : List SignalId) :
    productsByLoops scheme left right = partialProducts scheme left right := by
  cases scheme with
  | booth => rw [productsByLoops, partialProducts, uncheckedProducts, recode_eq_boothProducts]
  | schoolbook => rfl

theorem lower_eq_reduce (matrix : Matrix) : lower matrix = reduce matrix :=
  Attempt.ext fun provider builder => run_lower_eq_run_reduce matrix provider builder

namespace Options

/-- Builds the multiplier with loops. -/
def assembleByLoops (options : Options) (memory : Memory) : Attempt Netlist := do
  Build.setPowered options.powered
  Build.note (.generatingMultiplier options.width options.scheme options.finalAdder
    options.multiplyAdd (← Build.providerName))
  let a ← Attempt.input memory "a" options.width
  let b ← Attempt.input memory "b" options.width
  let c ← if options.multiplyAdd then Attempt.input memory "c" (2 * options.width) else pure []
  let a ← Generator.registerStage options.registerInput Generator.inputScope a
  let b ← Generator.registerStage options.registerInput Generator.inputScope b
  let c ← Generator.registerStage options.registerInput Generator.inputScope c
  let matrix ← productsByLoops options.scheme a b
  let matrix ← Build.pushAll matrix (c.zipIdx.map fun (bit, column) => (column, bit))
  let matrix ← delayMatrix options.registerMiddle (matrix.truncate (2 * options.width))
  let (x, y) := (← lower matrix).rows
  let product ← Adder.sumByLoops x y options.finalAdder (some "final")
  let product ← Generator.registerStage options.registerOutput Generator.outputScope product
  Build.output "o" product
  let netlist ← Attempt.finish
  Attempt.ofExcept (netlist.checkPortWidth "o" (2 * options.width))
  return netlist

/-- The loops are the construction on whole words and columns. -/
theorem assembleByLoops_eq (options : Options) (memory : Memory) :
    options.assembleByLoops memory = options.assemble memory := by
  simp only [assembleByLoops, assemble, productsByLoops_eq, products_eq, lower_eq_reduce,
    Adder.sumByLoops_eq_sum, bind_assoc]

end Options

end Multiplier

/-- Builds the adder with loops. -/
def Adder.Options.assembleByLoops (options : Options) (memory : Memory) : Attempt Netlist := do
  Build.setPowered options.powered
  Build.note (.generatingAdder options.width options.algorithm (← Build.providerName))
  let a ← Attempt.input memory "a" options.width
  let b ← Attempt.input memory "b" options.width
  let a ← Generator.registerStage options.registerInput Generator.inputScope a
  let b ← Generator.registerStage options.registerInput Generator.inputScope b
  let sum ← sumByLoops a b options.algorithm (some "add")
  let sum ← Generator.registerStage options.registerOutput Generator.outputScope sum
  Build.output "o" sum
  let netlist ← Attempt.finish
  Attempt.ofExcept (netlist.checkPortWidth "o" options.width)
  return netlist

/-- The loops are the construction on whole words. -/
theorem Adder.Options.assembleByLoops_eq (options : Options) (memory : Memory) :
    options.assembleByLoops memory = options.assemble memory := by
  simp only [assembleByLoops, assemble, sumByLoops_eq_sum]

end Datapath

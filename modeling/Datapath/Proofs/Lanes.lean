import Mathlib.Algebra.Group.Nat.Defs
import Datapath.Simulation.Lanes
import Datapath.Logic

/-!
# Lanes of a carrier

A map of carriers that respects the connectives commutes with the evaluation of every primitive.
The bit of a lane is such a map from words to truth values, and the bits of all lanes determine a
word. So a statement about gates that is proved for single truth values holds in every lane.

`Primitive.evaluate_map` is the first of these facts and `Lanes.ext` the second. The file also says
when evaluation succeeds and what the adder primitives compute as numbers, where powers of two bound
the values of words: `Bits.value_ofNat` says that a word keeps a number modulo one of them.
-/

namespace Datapath

namespace Bits

theorem value_lt (digits : List Bool) : value digits < 2 ^ digits.length := by
  induction digits with
  | nil => simp [value]
  | cons digit higher ih =>
    have := digit.toNat_le
    simp only [value, List.length_cons]
    omega

theorem value_append (lower higher : List Bool) :
    value (lower ++ higher) = value lower + 2 ^ lower.length * value higher := by
  induction lower with
  | nil => simp [value]
  | cons digit lower ih =>
    simp only [List.cons_append, value, ih, List.length_cons, Nat.pow_succ]
    grind

theorem value_ofNat (width number : Nat) : value (ofNat width number) = number % 2 ^ width := by
  apply Nat.eq_of_testBit_eq
  intro position
  rw [testBit_value, Nat.testBit_mod_two_pow]
  by_cases inside : position < width <;> simp [ofNat, inside]

end Bits

namespace Logic

theorem length_rippleSum {α : Type} [Logic α] (pairs : List (α × α)) (carry : α) :
    (rippleSum pairs carry).length = pairs.length := by
  induction pairs generalizing carry with
  | nil => rfl
  | cons pair rest ih => simp [rippleSum, ih]

/-- A map of carriers that respects the connectives and the constants. -/
structure Morphism (α β : Type) [Logic α] [Logic β] where
  map : α → β
  map_and : ∀ left right, map (left &&& right) = map left &&& map right
  map_or : ∀ left right, map (left ||| right) = map left ||| map right
  map_xor : ∀ left right, map (left ^^^ right) = map left ^^^ map right
  map_complement : ∀ value, map (~~~value) = ~~~map value
  map_ofBool : ∀ value, map (ofBool value) = ofBool value

namespace Morphism

attribute [simp] map_and map_or map_xor map_complement map_ofBool

variable {α β : Type} [Logic α] [Logic β] (morphism : Morphism α β)

@[simp]
theorem map_sum (left right carry : α) :
    morphism.map (Logic.sum left right carry) =
      Logic.sum (morphism.map left) (morphism.map right) (morphism.map carry) := by
  simp [Logic.sum]

@[simp]
theorem map_carry (left right carry : α) :
    morphism.map (Logic.carry left right carry) =
      Logic.carry (morphism.map left) (morphism.map right) (morphism.map carry) := by
  simp [Logic.carry]

theorem map_rippleSum (pairs : List (α × α)) (carry : α) :
    (rippleSum pairs carry).map morphism.map =
      rippleSum (pairs.map (Prod.map morphism.map morphism.map)) (morphism.map carry) := by
  induction pairs generalizing carry with
  | nil => rfl
  | cons pair rest ih =>
      rcases pair with ⟨left, right⟩
      simp [rippleSum, ih]

end Morphism

end Logic

namespace Primitive

section Evaluation

variable {α β : Type} [Logic α] [Logic β]

theorem outputs_map (morphism : Logic.Morphism α β) (primitive : Primitive) (inputs : List α) :
    primitive.outputs (inputs.map morphism.map) =
      (primitive.outputs inputs).map (List.map morphism.map) := by
  rcases inputs with _ | ⟨a, _ | ⟨b, _ | ⟨c, _ | ⟨d, _ | ⟨e, rest⟩⟩⟩⟩⟩ <;>
    cases primitive <;> simp [outputs, Except.map, pure, Except.pure, throw, throwThe,
      MonadExceptOf.throw]

theorem drivePins_map (morphism : Logic.Morphism α β) (values : List α) (count : Nat) :
    drivePins (values.map morphism.map) count =
      (drivePins values count).map (List.map morphism.map) := by
  by_cases few : count < values.length
  · simp [drivePins, few, Except.map, throw, throwThe, MonadExceptOf.throw]
  · simp [drivePins, few, Except.map, pure, Except.pure]

theorem evaluate_map (morphism : Logic.Morphism α β) (primitive : Primitive) (inputs : List α)
    (count : Nat) :
    primitive.evaluate (inputs.map morphism.map) count =
      (primitive.evaluate inputs count).map (List.map morphism.map) := by
  by_cases isAdd : primitive = .add
  · subst primitive
    by_cases few : inputs.length < 2 * count
    · simp [evaluate, few, Except.map, throw, throwThe, MonadExceptOf.throw]
    · simp only [evaluate, List.length_map, if_neg few, pure, Except.pure, Except.map,
        Logic.Morphism.map_rippleSum, ← List.map_take, ← List.map_drop, List.zip_map,
        Logic.Morphism.map_ofBool]
  · have unfolded (γ : Type) [Logic γ] (values : List γ) :
        primitive.evaluate values count = (primitive.outputs values >>= fun driven =>
          drivePins driven count) := by
      cases primitive <;> simp [evaluate] at isAdd ⊢
    rw [unfolded, unfolded, outputs_map]
    cases primitive.outputs inputs with
    | error fault => rfl
    | ok driven => exact drivePins_map morphism driven count

/-- A gate with a legal number of pins has a value for each of its outputs. -/
theorem exists_evaluate_eq_ok {primitive : Primitive} (inputs : List α) {count : Nat}
    (legal : primitive.accepts inputs.length count = true) :
    ∃ outputs, primitive.evaluate inputs count = .ok outputs ∧ outputs.length = count := by
  by_cases isAdd : primitive = .add
  · subst primitive
    have lengths : 0 < count ∧ inputs.length = 2 * count := by
      simpa [accepts, arity] using legal
    refine ⟨_, if_neg (by omega), ?_⟩
    simp [Logic.length_rippleSum]
    omega
  · rcases inputs with _ | ⟨a, _ | ⟨b, _ | ⟨c, _ | ⟨d, _ | ⟨e, _ | ⟨f, rest⟩⟩⟩⟩⟩⟩ <;>
      cases primitive <;> simp [accepts, arity] at legal isAdd <;> subst legal <;>
      exact ⟨_, rfl, rfl⟩

end Evaluation

end Primitive

namespace Logic

/-- A full adder keeps the number of true bits. -/
theorem toNat_sum_add_carry (left right incoming : Bool) :
    (sum left right incoming).toNat + 2 * (carry left right incoming).toNat =
      left.toNat + right.toNat + incoming.toNat := by
  cases left <;> cases right <;> cases incoming <;> rfl

/-- A half adder keeps the number of true bits. -/
theorem toNat_xor_add_and (left right : Bool) :
    (left ^^ right).toNat + 2 * (left && right).toNat = left.toNat + right.toNat := by
  cases left <;> cases right <;> rfl

/-- Without a carry into it, the lowest bit of a ripple is a half adder. -/
theorem rippleSum_cons_false (left right : Bool) (rest : List (Bool × Bool)) :
    rippleSum ((left, right) :: rest) false =
      (left ^^ right) :: rippleSum rest (left && right) := by
  cases left <;> cases right <;> rfl

/-- A ripple of full adders keeps the sum of the operands up to the lost carry. -/
theorem exists_value_rippleSum (pairs : List (Bool × Bool)) (incoming : Bool) :
    ∃ lost : Bool,
      Bits.value (rippleSum pairs incoming) + 2 ^ pairs.length * lost.toNat =
        Bits.value (pairs.map (·.1)) + Bits.value (pairs.map (·.2)) + incoming.toNat := by
  induction pairs generalizing incoming with
  | nil => exact ⟨incoming, by simp [rippleSum, Bits.value]⟩
  | cons pair rest ih =>
      rcases pair with ⟨left, right⟩
      rcases ih (carry left right incoming) with ⟨lost, kept⟩
      have bit := toNat_sum_add_carry left right incoming
      refine ⟨lost, ?_⟩
      simp only [rippleSum, Bits.value, List.map_cons, List.length_cons, Nat.pow_succ]
      grind

theorem value_rippleSum (pairs : List (Bool × Bool)) :
    Bits.value (rippleSum pairs false) =
      (Bits.value (pairs.map (·.1)) + Bits.value (pairs.map (·.2))) % 2 ^ pairs.length := by
  rcases exists_value_rippleSum pairs false with ⟨lost, kept⟩
  have small := Bits.value_lt (rippleSum pairs false)
  rw [length_rippleSum] at small
  rw [← Nat.mod_eq_of_lt small, ← Nat.add_mul_mod_self_left _ _ lost.toNat, kept]
  rfl

theorem value_rippleSum_zip {left right : List Bool} (sameWidth : left.length = right.length) :
    Bits.value (rippleSum (left.zip right) false) =
      (Bits.value left + Bits.value right) % 2 ^ left.length := by
  rw [value_rippleSum, List.map_fst_zip (Nat.le_of_eq sameWidth),
    List.map_snd_zip (Nat.le_of_eq sameWidth.symm), List.length_zip, ← sameWidth, Nat.min_self]

end Logic

namespace Lanes

/-- The bit of a word in one lane. -/
def bit (lane : Fin count) : Logic.Morphism UInt64 Bool where
  map word := word.toBitVec.getLsbD lane
  map_and left right := by simp; rfl
  map_or left right := by simp; rfl
  map_xor left right := by simp; rfl
  map_complement value := by
    have inside : lane.val < 64 := lane.isLt
    rw [UInt64.toBitVec_not, BitVec.getLsbD_not, decide_eq_true inside, Bool.true_and]
    rfl
  map_ofBool value := by
    have inside : lane.val < 64 := lane.isLt
    cases value with
    | false => simp [Logic.ofBool]
    | true =>
        change (~~~(0 : UInt64)).toBitVec.getLsbD lane = true
        rw [UInt64.toBitVec_not, BitVec.getLsbD_not, decide_eq_true inside]
        simp

theorem bit_ofNat (lane : Fin count) (number : Nat) :
    (bit lane).map (UInt64.ofNat number) = number.testBit lane := by
  have inside : lane.val < 64 := lane.isLt
  change (BitVec.ofNat 64 number).getLsbD lane = _
  rw [BitVec.getLsbD_ofNat, decide_eq_true inside, Bool.true_and]

theorem ext {left right : UInt64} (agree : ∀ lane, (bit lane).map left = (bit lane).map right) :
    left = right := by
  apply UInt64.toBitVec_inj.mp
  apply BitVec.eq_of_getLsbD_eq
  intro lane inside
  exact agree ⟨lane, inside⟩

theorem list_ext {left right : List UInt64}
    (agree : ∀ lane, left.map (bit lane).map = right.map (bit lane).map) : left = right := by
  have sameLength : left.length = right.length := by
    simpa using congrArg List.length (agree ⟨0, by decide⟩)
  apply List.ext_getElem sameLength
  intro index inLeft inRight
  apply ext
  intro lane
  have here := congrArg (fun bits => bits[index]?) (agree lane)
  simpa [inLeft, inRight] using here

/-- Words carry what a primitive computes if they do so in every lane. -/
theorem evaluate_eq_ok {primitive : Primitive} {inputs outputs : List UInt64} {count : Nat}
    (legal : primitive.accepts inputs.length count = true)
    (lanes : ∀ lane, primitive.evaluate (inputs.map (bit lane).map) count =
      .ok (outputs.map (bit lane).map)) : primitive.evaluate inputs count = .ok outputs := by
  rcases Primitive.exists_evaluate_eq_ok inputs legal with ⟨computed, evaluated, _⟩
  rw [evaluated]
  refine congrArg Except.ok (list_ext fun lane => ?_)
  have mapped := primitive.evaluate_map (bit lane) inputs count
  rw [evaluated, lanes lane] at mapped
  exact (Except.ok.inj mapped).symm

end Lanes

end Datapath

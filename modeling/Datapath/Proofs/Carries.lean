import Datapath.Proofs.Contexts
import Datapath.Proofs.Outcomes

/-!
# Carries and sums in a context

A tree walk turns the groups of the single positions into the finished groups, and the sum bits are
made from both. From every builder, whatever was built before, a finished group generates a carry
just when the lowest bits of the operands have a sum that they cannot hold, and the sum bits are
those of the sum modulo the power of two that belongs to the width: `Adder.sum_adds`.
-/

namespace Datapath

open Scoped (Within within_mono)

/-- What a run promises it has computed, whatever was built before. -/
theorem Builder.Promise.computation {α : Type} [Scoped α] {provider : Provider}
    {before after : Builder} {result : α} {post : Valuation Bool → α → Prop}
    (promise : Promise provider before after result post) :
    Computation provider before after result post where
  gates := promise.moves.extension.gates
  realized := promise.moves.extension.realized
  within := promise.within
  settles := promise.moves.extension.exists_settled
  holds value _ := promise.holds value

theorem Bits.value_take_succ {digits : List Bool} {index : Nat} (inside : index < digits.length) :
    value (digits.take (index + 1)) =
      value (digits.take index) + 2 ^ index * digits[index].toNat := by
  rw [List.take_succ_eq_append_getElem inside, value_append, List.length_take,
    Nat.min_eq_left (Nat.le_of_lt inside)]
  simp [value]

namespace Adder

open Build (Meets)

variable {known : Nat} {left right : List SignalId}

/-- Whether the lowest digits of two words, so many of them, have a sum that so many digits cannot
hold. -/
def carryOut (left right : List Bool) (count : Nat) : Bool :=
  2 ^ count ≤ Bits.value (left.take count) + Bits.value (right.take count)

/-- The carry into a position is the carry out of the digits below it. -/
theorem carryInto_ofPairs {left right : List Bool} (sameWidth : left.length = right.length)
    {count : Nat} (inside : count ≤ left.length) :
    carryInto (Carry.ofPairs (left.zip right)) count = carryOut left right count := by
  induction count with
  | zero => rfl
  | succ count ih =>
      have found : (left.zip right)[count]? = some (left[count], right[count]) := by
        rw [List.getElem?_eq_getElem (by simp; omega), List.getElem_zip]
      have leftSmall := Bits.value_lt (left.take count)
      have rightSmall := Bits.value_lt (right.take count)
      rw [List.length_take, Nat.min_eq_left (by omega)] at leftSmall rightSmall
      rw [carryInto_succ, Carry.ofPairs_eq found, ih (by omega), carryOut, carryOut,
        Bits.value_take_succ inside, Bits.value_take_succ (sameWidth ▸ inside), Nat.pow_succ]
      generalize Bits.value (left.take count) = lower at *
      generalize Bits.value (right.take count) = other at *
      generalize 2 ^ count = weight at *
      cases left[count] <;> cases right[count] <;>
        simp only [Carry.ofBits, Bool.toNat_true, Bool.toNat_false] <;> grind

/-- The groups of the single positions and the groups that the walk through a tree leaves. -/
def walk (topology : Topology) (left right : List SignalId) :
    Build (List Group × Array Group) := do
  let bits ← (left.zip right).mapM fun (left, right) => bitGroup left right
  let finished ← combineRows bits.toArray (topology.schedule left.length.log2)
  return (bits, finished)

/-- Each finished group generates the carry out of all positions up to it. -/
def Finished (left right : List SignalId) (value : Valuation Bool) (finished : Array Group) :
    Prop :=
  finished.size = left.length ∧ ∀ position group, finished[position]? = some group →
    value group.generate = carryOut (left.map value) (right.map value) (position + 1)

theorem walk_meets (topology : Topology) (sameWidth : left.length = right.length)
    (power : left.length = 2 ^ left.length.log2) (left_lt : Below known left)
    (right_lt : Below known right) :
    Meets known (walk topology left right) fun value groups =>
      Finished left right value groups.2 := by
  apply (bitGroups_meets left_lt right_lt).bind
  intro bits n _ bits_lt
  have groups_lt : Within n bits.toArray := bits_lt
  apply (combineRows_meets groups_lt _).bind
  intro finished m le finished_lt
  refine Build.meets_pure (fun bound enough =>
    ⟨within_mono (Nat.le_trans le enough) bits_lt, within_mono enough finished_lt⟩) ?_
  intro value isFinished isBits
  have lengths : (left.map value).length = (right.map value).length := by simpa using sameWidth
  have width : ((left.map value).zip (right.map value)).length = 2 ^ left.length.log2 := by
    simpa [← sameWidth] using power
  have covers := combineRows_covers topology width
  rw [show bits.toArray.map (·.value value) = (bits.map (·.value value)).toArray from
    List.map_toArray, isBits] at isFinished
  rw [← isFinished, ← power] at covers
  have size : finished.size = left.length := by simpa using covers.size
  refine ⟨size, fun position group found => ?_⟩
  have inside : position < left.length := size ▸ (Array.getElem?_eq_some_iff.mp found).1
  have holds := covers.holds position inside
  rw [Array.getElem?_map, found] at holds
  have generates := congrArg Carry.generate (Option.some.inj holds)
  rw [Nat.sub_zero] at generates
  have carries : position + 1 ≤ (left.map value).length := by rwa [List.length_map]
  exact generates.trans (carryInto_ofPairs lengths carries)

/-- What is left to do after a walk that has taken so many gates: the sum bits, and no scope any
more. -/
def sumUp (topology : Topology) (width gates : Nat) (bits : List Group) (finished : Array Group) :
    Build (List SignalId) := do
  Build.note (.prefixTree (.tree topology) width width.log2 gates)
  let sums ← sumBits bits finished.toList
  Build.setScope none
  return sums

/-- The builder with a scope, if there is one to enter. -/
def entered (builder : Builder) (scope : Option String) : Builder :=
  if scope.isSome then { builder with scope } else builder

theorem run_inScope_treeSum (topology : Topology) (left right : List SignalId)
    (scope : Option String) (provider : CompleteProvider) (builder : Builder) :
    ∃ gates, Build.run (inScope scope (treeSum topology left right)) provider builder =
      let walked := Build.run (walk topology left right) provider (entered builder scope)
      Build.run (sumUp topology left.length gates walked.1.1 walked.1.2) provider walked.2 := by
  cases scope <;> exact ⟨_, rfl⟩

theorem netlist_entered (builder : Builder) (scope : Option String) :
    (entered builder scope).netlist = builder.netlist := by
  cases scope <;> rfl

theorem entered_moves (provider : Provider) (builder : Builder) (scope : Option String) :
    Builder.Moves provider True builder (entered builder scope) := by
  cases scope with
  | none => exact .refl
  | some scope => exact .single (.scope builder _)

/-- From every builder, words of one accepted width that are made of existing signals are added, and
for all values of the signals the sum bits are those of the sum modulo the power of two that belongs
to the width. A tree combines only positions that the words have, each with a lower one; after its
walk every group generates the carry out of all positions up to it, and from these groups the sum
bits are made. -/
theorem sum_adds (algorithm : Algorithm) (tag : Option String) (complete : CompleteProvider)
    {builder : Builder} (left_lt : Below builder.size left) (right_lt : Below builder.size right)
    (sameWidth : left.length = right.length) (positive : 0 < left.length)
    (power : algorithm.isTree = true → ∃ levels, left.length = 2 ^ levels) :
    ∃ sums after,
      Attempt.run (sum left right algorithm tag) complete builder = (.ok sums, after) ∧
        sums.length = left.length ∧
        (Builder.Computation complete.toProvider builder after sums fun value sums =>
          Bits.value (sums.map value) =
            (Bits.value (left.map value) + Bits.value (right.map value)) % 2 ^ left.length) ∧
        ∀ topology, algorithm = .tree topology →
          (∀ row ∈ topology.schedule left.length.log2, ∀ combination ∈ row,
            combination.source < combination.target ∧ combination.target < left.length) ∧
          ∃ bits finished walked gates,
            Build.run (walk topology left right) complete
                (entered builder (tag.map (scopeOf · algorithm))) = ((bits, finished), walked) ∧
              Build.run (sumUp topology left.length gates bits finished) complete walked =
                  (sums, after) ∧
              Builder.Computation complete.toProvider builder walked finished fun value finished =>
                Finished left right value finished := by
  have isPower (topology : Topology) (isTree : algorithm = .tree topology) :
      left.length = 2 ^ left.length.log2 := by
    rcases power (isTree ▸ rfl) with ⟨levels, width⟩
    rw [width, Nat.log2_two_pow]
  have accepted : algorithm.checkWidth left.length = .ok () := by
    cases algorithm with
    | inferred => exact if_neg (Nat.ne_of_gt positive)
    | tree topology =>
        have even : isPowerOfTwo left.length = true := (isPowerOfTwo_iff _).mpr (power rfl)
        simp only [Algorithm.checkWidth, if_neg (Nat.ne_of_gt positive), if_pos even]
        rfl
  have meets := inScope_meets (tag.map (scopeOf · algorithm))
    (acceptedSum_meets sameWidth accepted left_lt right_lt)
  have promise := meets.promise complete builder (Nat.le_refl _)
  rcases promise.computation.exists_value with ⟨someValue, isSome⟩
  have lengths := congrArg List.length isSome
  rw [List.length_map, Logic.length_rippleSum, List.length_zip, List.length_map, List.length_map,
    ← sameWidth, Nat.min_self] at lengths
  refine ⟨(Build.run (inScope _ (acceptedSum algorithm left right)) complete builder).1,
    (Build.run (inScope _ (acceptedSum algorithm left right)) complete builder).2,
    sum_performs sameWidth accepted tag complete builder, lengths,
    promise.computation.imp fun value isSum => ?_, ?_⟩
  · rw [isSum, Logic.value_rippleSum_zip (by simpa using sameWidth), List.length_map]
  · rintro topology rfl
    refine ⟨fun row isRow combination member => ?_, ?_⟩
    · rw [isPower topology rfl]
      exact topology.schedule_inside _ row isRow combination member
    · have entering := entered_moves complete.toProvider builder
        (tag.map (scopeOf · (.tree topology)))
      have walks := (walk_meets topology sameWidth (isPower topology rfl) left_lt right_lt).promise
        complete _ entering.extension.size_le
      rcases run_inScope_treeSum topology left right _ complete builder with ⟨gates, ran⟩
      refine ⟨_, _, _, gates, rfl, ran.symm, Builder.Promise.computation
        ⟨entering.trans walks.moves, walks.within.2, fun value settled => walks.holds value ?_⟩⟩
      rwa [Builder.added, netlist_entered]

/-- The sum of two bits of an input and a literal, added to a word that repeats one of the bits. -/
theorem sum_adds_repeated :
    ∃ sums after,
      Attempt.run (sum [2, 3, Builder.trueId, 2] [2, 2, 3, Builder.falseId] (.tree .brentKung)
          (some "t")) ⟨.restrictedTo Primitive.basis, by decide⟩
          ((Builder.start "sum").addInput "a" 2) = (.ok sums, after) ∧
        sums.length = 4 ∧ ∀ first second : Bool, ∃ value : Valuation Bool,
          value 2 = first ∧ value 3 = second ∧
            Gate.Settled (Builder.added ((Builder.start "sum").addInput "a" 2) after) value ∧
              Bits.value (sums.map value) = (12 * first.toNat + 6 * second.toNat + 4) % 16 := by
  let complete : CompleteProvider := ⟨.restrictedTo Primitive.basis, by decide⟩
  have left_lt : Below ((Builder.start "sum").addInput "a" 2).size [2, 3, Builder.trueId, 2] := by
    simp [Builder.start, Builder.addInput, Builder.size, Builder.trueId]
  have right_lt : Below ((Builder.start "sum").addInput "a" 2).size
      [2, 2, 3, Builder.falseId] := by
    simp [Builder.start, Builder.addInput, Builder.size, Builder.falseId]
  rcases sum_adds (.tree .brentKung) (some "t") complete left_lt right_lt rfl (by decide)
    (fun _ => ⟨2, rfl⟩) with ⟨sums, after, ran, length, computation, _⟩
  refine ⟨sums, after, ran, length, fun first second => ?_⟩
  rcases computation.exists_for_word fun index => if index = 0 then first else second with
    ⟨value, isFalse, isTrue, isWord, settled, adds⟩
  have isFirst : value 2 = first := isWord 0 Nat.two_pos
  have isSecond : value 3 = second := isWord 1 Nat.one_lt_two
  refine ⟨value, isFirst, isSecond, settled, adds.trans ?_⟩
  simp only [List.map_cons, List.map_nil, isFirst, isSecond, isTrue, isFalse]
  cases first <;> cases second <;> rfl

end Adder

end Datapath

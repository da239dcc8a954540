import Datapath.Proofs.Coherence
import Datapath.Proofs.Decomposition

/-!
# Constructions in a context

What a construction promises does not rest on what was built before it, so it holds from every
builder that has the two literals in their places, whatever its other signals and gates are: the
gates that a run adds settle for all values of the earlier signals, and whenever they are settled
the result is related to what the construction was given. `Builder.Computation` says so of one run.

Every sequence of steps from an empty netlist keeps the literals in their places.
-/

namespace Datapath

open Scoped (Within)

/-- Literals carry their values. -/
def Netlist.ShowsLiterals (netlist : Netlist) (value : Valuation Bool) : Prop :=
  ∀ (id : SignalId) (bit : Bool), netlist.signals[id]? = some (.literal bit) → value id = bit

namespace Builder

/-- The literals stand in their places. -/
structure HasLiterals (builder : Builder) : Prop where
  literalFalse : builder.netlist.signals[falseId]? = some (.literal false)
  literalTrue : builder.netlist.signals[trueId]? = some (.literal true)

section

variable {provider : Provider} {strict : Prop} {before after builder : Builder}

theorem hasLiterals_start (name : String) : (start name).HasLiterals :=
  ⟨rfl, rfl⟩

theorem HasLiterals.step (literals : before.HasLiterals)
    (step : Step provider strict before after) : after.HasLiterals := by
  cases step with
  | moves moves =>
      exact ⟨moves.extension.signal_eq_some literals.literalFalse,
        moves.extension.signal_eq_some literals.literalTrue⟩
  | input name width =>
      have kept {id : Nat} {signal : Signal} (found : before.netlist.signals[id]? = some signal) :
          (before.addInput name width).netlist.signals[id]? = some signal := by
        rw [← found]
        exact Array.getElem?_append_left (Array.getElem?_eq_some_iff.mp found).1
      exact ⟨kept literals.literalFalse, kept literals.literalTrue⟩
  | output name bits => exact ⟨literals.literalFalse, literals.literalTrue⟩
  | powered powered => exact ⟨literals.literalFalse, literals.literalTrue⟩

theorem HasLiterals.steps (literals : before.HasLiterals)
    (steps : Steps provider strict before after) : after.HasLiterals := by
  induction steps with
  | refl => exact literals
  | tail _ step ih => exact ih.step step

/-- An input port has no literals. -/
theorem showsLiterals_addInput (name port : String) (width : Nat) {value : Valuation Bool}
    (isFalse : value falseId = false) (isTrue : value trueId = true) :
    ((start name).addInput port width).netlist.ShowsLiterals value := by
  intro id bit found
  simp only [start, addInput, Array.getElem?_append] at found
  rcases id with _ | _ | id
  · cases found
    exact isFalse
  · cases found
    exact isTrue
  · simp [Array.getElem?_ofFn] at found

theorem HasLiterals.trueId_lt (literals : builder.HasLiterals) : trueId < builder.size :=
  (Array.getElem?_eq_some_iff.mp literals.literalTrue).1

theorem HasLiterals.grounds (literals : builder.HasLiterals) {value : Valuation Bool}
    (shown : builder.netlist.ShowsLiterals value) : Grounds value :=
  ⟨shown falseId false literals.literalFalse, shown trueId true literals.literalTrue⟩

end

/-- What a run from one builder to another has computed, whatever was built before. -/
structure Computation {α : Type} [Scoped α] (provider : Provider) (before after : Builder)
    (result : α) (post : Valuation Bool → α → Prop) : Prop where
  gates : after.netlist.gates.toList = before.netlist.gates.toList ++ added before after
  realized : ∀ gate ∈ added before after,
    provider.realize gate.primitive = some gate.realization
  within : Within after.size result
  /-- The values of the earlier signals are free. -/
  settles : ∀ given : Valuation Bool, ∃ value : Valuation Bool,
    (∀ id < before.size, value id = given id) ∧ Gate.Settled (added before after) value
  /-- The values of the earlier gates do not matter. -/
  holds : ∀ value, before.netlist.ShowsLiterals value → Gate.Settled (added before after) value →
    post value result

variable {α : Type} [Scoped α] {provider : Provider} {before after : Builder} {result : α}
  {post : Valuation Bool → α → Prop}

theorem Computation.imp {weaker : Valuation Bool → α → Prop}
    (computation : Computation provider before after result post)
    (implies : ∀ value, post value result → weaker value result) :
    Computation provider before after result weaker :=
  { computation with
    holds := fun value shown settled => implies value (computation.holds value shown settled) }

/-- The gates can be settled for any values of the earlier signals, in which the literals carry
theirs. -/
theorem Computation.exists_settled (computation : Computation provider before after result post)
    {given : Valuation Bool} (shown : before.netlist.ShowsLiterals given) :
    ∃ value, (∀ id < before.size, value id = given id) ∧ Gate.Settled (added before after) value ∧
      post value result := by
  rcases computation.settles given with ⟨value, kept, settled⟩
  refine ⟨value, kept, settled, computation.holds value (fun id bit found => ?_) settled⟩
  rw [kept id (Array.getElem?_eq_some_iff.mp found).1]
  exact shown id bit found

/-- Where only one input port was there before, its bits are free. -/
theorem Computation.exists_for_word {name port : String} {width : Nat}
    (computation : Computation provider ((start name).addInput port width) after result post)
    (word : Nat → Bool) :
    ∃ value, value falseId = false ∧ value trueId = true ∧
      (∀ index < width, value (index + 2) = word index) ∧
      Gate.Settled (added ((start name).addInput port width) after) value ∧ post value result := by
  let given : Valuation Bool := fun id => if id < 2 then id == trueId else word (id - 2)
  have shown : ((start name).addInput port width).netlist.ShowsLiterals given :=
    showsLiterals_addInput name port width rfl rfl
  have size : ((start name).addInput port width).size = width + 2 := by
    simp [start, addInput, Builder.size, Nat.add_comm]
  rcases computation.exists_settled shown with ⟨value, kept, settled, holds⟩
  rw [size] at kept
  refine ⟨value, kept 0 (by omega), kept 1 (by omega), fun index inside => ?_, settled, holds⟩
  have beyond : ¬index + 2 < 2 := by omega
  rw [kept (index + 2) (by omega)]
  simp only [given, if_neg beyond, Nat.add_sub_cancel]

/-- What all values agree on holds, because there are some. -/
theorem Computation.exists_value
    (computation : Computation provider before after result post) :
    ∃ value, post value result := by
  let given : Valuation Bool := fun id => before.netlist.signals[id]? == some (.literal true)
  have shown : before.netlist.ShowsLiterals given := fun id bit found => by
    cases bit <;> simp [given, found]
  rcases computation.exists_settled shown with ⟨value, _, _, holds⟩
  exact ⟨value, holds⟩

end Builder

/-- An attempt that does what a step does keeps the promise of that step in every context. -/
theorem Attempt.Performs.computation {α : Type} [Scoped α] {known : Nat} {attempt : Attempt α}
    {step : Build α} {post : Valuation Bool → α → Prop} (performs : Performs attempt step)
    (meets : Build.Meets known step fun value result => Grounds value → post value result)
    (complete : CompleteProvider) {builder : Builder} (literals : builder.HasLiterals)
    (enough : known ≤ builder.size) :
    ∃ result after, run attempt complete builder = (.ok result, after) ∧
      Builder.Computation complete.toProvider builder after result post := by
  have promise := meets.promise complete builder enough
  have extension := promise.moves.extension
  refine ⟨_, _, performs complete builder, ?_⟩
  exact
    { gates := extension.gates
      realized := extension.realized
      within := promise.within
      settles := extension.exists_settled
      holds := fun value shown settled => promise.holds value settled (literals.grounds shown) }

end Datapath

import Datapath.Proofs.Construction
import Datapath.Proofs.Settling

/-!
# Decomposition preserves meaning

Each construction step of a primitive promises what `Primitive.evaluate` computes for that
primitive, whether the provider realizes it or it is built from simpler ones. The steps are taken in
the order in which they are defined: a decomposition rests on the promises of the steps before it,
and those of the basis end every chain.

A request joins the primitives, for every list of inputs of a legal length and every provider of the
basis.
-/

namespace Datapath

open Scoped (Within within_mono)

/-- The word-level adder computes a ripple of full adders. -/
theorem Primitive.evaluate_add {left right : List Bool} (sameWidth : left.length = right.length) :
    Primitive.evaluate .add (left ++ right) left.length =
      .ok (Logic.rippleSum (left.zip right) false) := by
  have enough : ¬ (left ++ right).length < 2 * left.length := by
    rw [List.length_append]
    omega
  rw [evaluate, if_neg enough, List.take_left, List.drop_left]
  rfl

namespace Builder

variable {α : Type} [Scoped α]

/-- A gate with the provider's realization promises what its primitive computes. -/
theorem promise_place {provider : Provider} {before : Builder} {primitive : Primitive}
    {realization : Realization} {inputs : List SignalId} {outputs : Nat} {result : α}
    {post : Valuation Bool → α → Prop} (combinational : primitive.domain = .combinational)
    (realized : provider.realize primitive = some realization)
    (legal : primitive.accepts inputs.length outputs = true) (existing : Below before.size inputs)
    (within : Within (before.size + outputs) result)
    (native : ∀ value : Valuation Bool, primitive.evaluate (inputs.map value) outputs =
      .ok ((List.range' before.size outputs).map value) → post value result) :
    Promise provider before (before.place primitive realization inputs outputs) result post where
  moves := .single (.place before realized legal fun _ => existing)
  within := by rwa [size_place]
  holds value settled := by
    have carried := settled _ (by rw [added_place]; exact List.mem_singleton_self _)
      (by simpa [Gate.isCombinational] using combinational)
    exact native value (by simpa [Gate.Carries] using carried)

end Builder

namespace Build

section Gates

variable {α : Type} [Scoped α] {known : Nat}

/-- A step that places a gate or its decomposition promises what both imply. -/
theorem gateOr_meets {primitive : Primitive} {inputs : List SignalId} {outputs : Nat}
    {result : SignalId → α} {decomposition : Build α} {post : Valuation Bool → α → Prop}
    (combinational : primitive.domain = .combinational)
    (legal : primitive.accepts inputs.length outputs = true) (existing : Below known inputs)
    (within : ∀ first, Within (first + outputs) (result first))
    (native : ∀ (value : Valuation Bool) (first : Nat),
      primitive.evaluate (inputs.map value) outputs = .ok ((List.range' first outputs).map value) →
        post value (result first))
    (decomposed : Meets known decomposition post) :
    Meets known (gateOr primitive inputs outputs result decomposition) post where
  moves provider before := by
    rw [run_gateOr]
    cases realized : provider.realize primitive with
    | some realization => exact .single (.place before realized legal False.elim)
    | none => exact .head (.note before _) (decomposed.moves provider _)
  promise provider before enough := by
    rw [run_gateOr]
    cases realized : provider.realize primitive with
    | some realization =>
        exact Builder.promise_place combinational realized legal (existing.mono enough)
          (within before.size) fun value => native value before.size
    | none =>
        exact ((note_meets (.decomposing provider.name primitive)).andThen decomposed).promise
          provider before enough

theorem run_basisGate (primitive : Primitive) (member : primitive ∈ Primitive.basis)
    (inputs : List SignalId) (provider : CompleteProvider) (builder : Builder) :
    run (basisGate primitive member inputs) provider builder =
      (builder.size,
        builder.place primitive (provider.basisRealization primitive member) inputs 1) :=
  rfl

theorem realize_basis (provider : CompleteProvider) {primitive : Primitive}
    (member : primitive ∈ Primitive.basis) :
    provider.realize primitive = some (provider.basisRealization primitive member) :=
  (Option.some_get _).symm

theorem basisGate_meets {primitive : Primitive} {member : primitive ∈ Primitive.basis}
    {inputs : List SignalId} {post : Valuation Bool → SignalId → Prop}
    (combinational : primitive.domain = .combinational)
    (legal : primitive.accepts inputs.length 1 = true) (existing : Below known inputs)
    (native : ∀ (value : Valuation Bool) (first : SignalId),
      primitive.evaluate (inputs.map value) 1 = .ok [value first] → post value first) :
    Meets known (basisGate primitive member inputs) post where
  moves provider before := .single (.place before (realize_basis provider member) legal False.elim)
  promise provider before enough := by
    rw [run_basisGate]
    exact Builder.promise_place combinational (realize_basis provider member) legal
      (existing.mono enough) (Nat.lt_succ_self before.size) fun value => native value before.size

theorem and2_meets {a b : Nat} (a_lt : a < known) (b_lt : b < known) :
    Meets known (and2 a b) fun value result => value result = (value a && value b) := by
  apply basisGate_meets rfl rfl (by simp [a_lt, b_lt])
  intro value first computed
  have : [value a && value b] = [value first] := Except.ok.inj computed
  simpa using this.symm

theorem inv_meets {a : Nat} (a_lt : a < known) :
    Meets known (inv a) fun value result => value result = !value a := by
  apply basisGate_meets rfl rfl (by simp [a_lt])
  intro value first computed
  have : [!value a] = [value first] := Except.ok.inj computed
  simpa using this.symm

theorem or2_meets {a b : Nat} (a_lt : a < known) (b_lt : b < known) :
    Meets known (or2 a b) fun value result => value result = (value a || value b) := by
  refine gateOr_meets rfl rfl (by simp [a_lt, b_lt]) (fun first => Nat.lt_succ_self first) ?_ ?_
  · intro value first computed
    have : [value a || value b] = [value first] := Except.ok.inj computed
    simpa using this.symm
  · apply (inv_meets a_lt).bind
    intro (notA : Nat) n le (notA_lt : notA < n)
    apply (inv_meets (by omega)).bind
    intro (notB : Nat) m le' (notB_lt : notB < m)
    apply (and2_meets (by omega) notB_lt).bind
    intro (nor : Nat) k _ (nor_lt : nor < k)
    apply (inv_meets nor_lt).imp
    intro value result isResult isNor isNotB isNotA
    simp [isResult, isNor, isNotB, isNotA]

theorem ao21_meets {a1 a2 b1 : Nat} (a1_lt : a1 < known) (a2_lt : a2 < known)
    (b1_lt : b1 < known) :
    Meets known (ao21 a1 a2 b1) fun value result =>
      value result = (value a1 && value a2 || value b1) := by
  refine gateOr_meets rfl rfl (by simp [a1_lt, a2_lt, b1_lt]) (fun first => Nat.lt_succ_self first)
    ?_ ?_
  · intro value first computed
    have : [value a1 && value a2 || value b1] = [value first] := Except.ok.inj computed
    simpa using this.symm
  · apply (and2_meets a1_lt a2_lt).bind
    intro (both : Nat) n le (both_lt : both < n)
    apply (or2_meets both_lt (by omega)).imp
    intro value result isResult isBoth
    simp [isResult, isBoth]

theorem ao22_meets {a1 a2 b1 b2 : Nat} (a1_lt : a1 < known) (a2_lt : a2 < known)
    (b1_lt : b1 < known) (b2_lt : b2 < known) :
    Meets known (ao22 a1 a2 b1 b2) fun value result =>
      value result = (value a1 && value a2 || value b1 && value b2) := by
  refine gateOr_meets rfl rfl (by simp [a1_lt, a2_lt, b1_lt, b2_lt])
    (fun first => Nat.lt_succ_self first) ?_ ?_
  · intro value first computed
    have : [value a1 && value a2 || value b1 && value b2] = [value first] :=
      Except.ok.inj computed
    simpa using this.symm
  · apply (and2_meets b1_lt b2_lt).bind
    intro (both : Nat) n le (both_lt : both < n)
    apply (ao21_meets (by omega) (by omega) both_lt).imp
    intro value result isResult isBoth
    simp [isResult, isBoth]

theorem ao32_meets {a1 a2 a3 b1 b2 : Nat} (a1_lt : a1 < known) (a2_lt : a2 < known)
    (a3_lt : a3 < known) (b1_lt : b1 < known) (b2_lt : b2 < known) :
    Meets known (ao32 a1 a2 a3 b1 b2) fun value result =>
      value result = (value a1 && value a2 && value a3 || value b1 && value b2) := by
  refine gateOr_meets rfl rfl (by simp [a1_lt, a2_lt, a3_lt, b1_lt, b2_lt])
    (fun first => Nat.lt_succ_self first) ?_ ?_
  · intro value first computed
    have : [value a1 && value a2 && value a3 || value b1 && value b2] = [value first] :=
      Except.ok.inj computed
    simpa using this.symm
  · apply (and2_meets a1_lt a2_lt).bind
    intro (both : Nat) n le (both_lt : both < n)
    refine (ao22_meets both_lt (by omega) (by omega) (by omega)).imp
      fun value result isResult isBoth => ?_
    simp [isResult, isBoth]

theorem xor2_meets {a b : Nat} (a_lt : a < known) (b_lt : b < known) :
    Meets known (xor2 a b) fun value result => value result = (value a ^^ value b) := by
  refine gateOr_meets rfl rfl (by simp [a_lt, b_lt]) (fun first => Nat.lt_succ_self first) ?_ ?_
  · intro value first computed
    have : [value a ^^ value b] = [value first] := Except.ok.inj computed
    simpa using this.symm
  · apply (inv_meets a_lt).bind
    intro (notA : Nat) n le (notA_lt : notA < n)
    apply (inv_meets (by omega)).bind
    intro (notB : Nat) m le' (notB_lt : notB < m)
    refine (ao22_meets (by omega) notB_lt (by omega) (by omega)).imp
      fun value result isResult isNotB isNotA => ?_
    rw [isResult, isNotB, isNotA]
    cases value a <;> cases value b <;> rfl

theorem halfAdder_meets {a b : Nat} (a_lt : a < known) (b_lt : b < known) :
    Meets known (halfAdder a b) fun value adder =>
      value adder.sum = (value a ^^ value b) ∧ value adder.carry = (value a && value b) := by
  refine gateOr_meets rfl rfl (by simp [a_lt, b_lt])
    (fun first => ⟨by simp [sumFirst], by simp [sumFirst]⟩) ?_ ?_
  · intro value first computed
    have : [value a ^^ value b, value a && value b] = [value first, value (first + 1)] :=
      Except.ok.inj computed
    simp only [List.cons.injEq, and_true] at this
    exact ⟨this.1.symm, this.2.symm⟩
  · apply (xor2_meets a_lt b_lt).bind
    intro (sum : Nat) n le (sum_lt : sum < n)
    refine (and2_meets (by omega) (by omega)).bind
      fun (carry : Nat) m le' (carry_lt : carry < m) => ?_
    exact meets_pure (fun bound enough => ⟨Nat.lt_of_lt_of_le sum_lt (by omega),
      Nat.lt_of_lt_of_le carry_lt enough⟩) fun value isCarry isSum => ⟨isSum, isCarry⟩

theorem fullAdder_meets {a b c : Nat} (a_lt : a < known) (b_lt : b < known) (c_lt : c < known) :
    Meets known (fullAdder a b c) fun value adder =>
      value adder.sum = Logic.sum (value a) (value b) (value c) ∧
        value adder.carry = Logic.carry (value a) (value b) (value c) := by
  refine gateOr_meets rfl rfl (by simp [a_lt, b_lt, c_lt])
    (fun first => ⟨by simp [sumFirst], by simp [sumFirst]⟩) ?_ ?_
  · intro value first computed
    have : [Logic.sum (value a) (value b) (value c), Logic.carry (value a) (value b) (value c)] =
        [value first, value (first + 1)] := Except.ok.inj computed
    simp only [List.cons.injEq, and_true] at this
    exact ⟨this.1.symm, this.2.symm⟩
  · apply (xor2_meets a_lt b_lt).bind
    intro (half : Nat) n le (half_lt : half < n)
    apply (xor2_meets half_lt (by omega)).bind
    intro (sum : Nat) m le' (sum_lt : sum < m)
    refine (ao22_meets (by omega) (by omega) (by omega) (by omega)).bind
      fun (carry : Nat) k le'' (carry_lt : carry < k) => ?_
    refine meets_pure (fun bound enough => ⟨Nat.lt_of_lt_of_le sum_lt (by omega),
      Nat.lt_of_lt_of_le carry_lt enough⟩) fun value isCarry isSum isHalf => ?_
    rw [isSum, isCarry, isHalf]
    exact ⟨rfl, by cases value a <;> cases value b <;> cases value c <;> rfl⟩

end Gates

section Words

variable {known : Nat}

theorem fullAdders_meets {pairs : List (SignalId × SignalId)} {carry : Nat}
    (pairs_lt : Within known pairs) (carry_lt : carry < known) :
    Meets known (fullAdders pairs carry) fun value sums =>
      sums.map value = Logic.rippleSum (pairs.map (Prod.map value value)) (value carry) := by
  induction pairs generalizing known carry with
  | nil => exact meets_pure (fun bound _ => within_list_nil bound) fun _ => rfl
  | cons pair higher ih =>
      rcases pair with ⟨a, b⟩
      rcases within_list_cons.mp pairs_lt with ⟨⟨a_lt, b_lt⟩, higher_lt⟩
      apply (fullAdder_meets a_lt b_lt carry_lt).bind
      intro adder n le adder_lt
      apply (ih (within_mono le higher_lt) adder_lt.2).bind
      intro sums m le' sums_lt
      refine meets_pure (fun bound enough => within_list_cons.mpr
        ⟨Nat.lt_of_lt_of_le adder_lt.1 (by omega), within_mono enough sums_lt⟩)
        fun value isSums isAdder => ?_
      rw [List.map_cons, isSums, isAdder.1, isAdder.2]
      rfl

theorem ripple_meets {pairs : List (SignalId × SignalId)} (pairs_lt : Within known pairs) :
    Meets known (ripple pairs) fun value sums =>
      sums.map value = Logic.rippleSum (pairs.map (Prod.map value value)) false := by
  cases pairs with
  | nil => exact meets_pure (fun bound _ => within_list_nil bound) fun _ => rfl
  | cons pair higher =>
      rcases pair with ⟨a, b⟩
      rcases within_list_cons.mp pairs_lt with ⟨⟨a_lt, b_lt⟩, higher_lt⟩
      apply (halfAdder_meets a_lt b_lt).bind
      intro adder n le adder_lt
      refine (fullAdders_meets (within_mono le higher_lt) adder_lt.2).bind
        fun sums m le' sums_lt => ?_
      refine meets_pure (fun bound enough => within_list_cons.mpr
        ⟨Nat.lt_of_lt_of_le adder_lt.1 (by omega), within_mono enough sums_lt⟩)
        fun value isSums isAdder => ?_
      rw [List.map_cons, isSums, isAdder.1, isAdder.2]
      exact (Logic.rippleSum_cons_false (value a) (value b) _).symm

theorem add_meets {left right : List SignalId} (nonempty : left ≠ [])
    (sameWidth : left.length = right.length) (left_lt : Below known left)
    (right_lt : Below known right) :
    Meets known (add left right) fun value sums =>
      sums.map value = Logic.rippleSum ((left.map value).zip (right.map value)) false := by
  have positive := List.length_pos_iff.mpr nonempty
  refine gateOr_meets rfl ?_ (below_append.mpr ⟨left_lt, right_lt⟩) ?_ ?_ ?_
  · simp [Primitive.accepts, Primitive.arity, ← sameWidth, positive, Nat.two_mul]
  · intro first id member
    exact (List.mem_range'_1.mp member).2
  · intro value first computed
    have widths : (left.map value).length = (right.map value).length := by simpa using sameWidth
    have halves := Primitive.evaluate_add widths
    rw [List.length_map, ← List.map_append, computed] at halves
    exact Except.ok.inj halves
  · have pairs_lt : Within known (left.zip right) := by
      intro pair member
      exact ⟨left_lt _ (List.of_mem_zip member).1, right_lt _ (List.of_mem_zip member).2⟩
    apply (ripple_meets pairs_lt).imp
    intro value sums isSums
    rw [isSums, List.zip_map]

theorem Meets.singleton {step : Build SignalId} {post : Valuation Bool → SignalId → Prop}
    {final : Valuation Bool → List SignalId → Prop} (meets : Meets known step post)
    (implies : ∀ value result, post value result → final value [result]) :
    Meets known (step >>= fun result => pure [result]) final :=
  meets.bind fun result _ _ within => meets_pure
    (fun _ enough => within_list_cons.mpr ⟨within_mono enough within, within_list_nil _⟩)
    fun value => implies value result

theorem Meets.sumThenCarry {step : Build SumCarry} {post : Valuation Bool → SumCarry → Prop}
    {final : Valuation Bool → List SignalId → Prop} (meets : Meets known step post)
    (implies : ∀ value adder, post value adder → final value [adder.sum, adder.carry]) :
    Meets known (step >>= fun adder => pure [adder.sum, adder.carry]) final :=
  meets.bind fun adder _ _ within => meets_pure
    (fun _ enough => within_list_cons.mpr ⟨within_mono enough within.1,
      within_list_cons.mpr ⟨within_mono enough within.2, within_list_nil _⟩⟩)
    fun value => implies value adder

end Words

end Build

namespace Attempt

/-- The attempt never refuses and does what the step does. -/
def Performs {α : Type} (attempt : Attempt α) (step : Build α) : Prop :=
  ∀ (provider : CompleteProvider) (builder : Builder),
    run attempt provider builder = run (liftM step) provider builder

/-- A request with a legal number of inputs is a construction step, and its signals carry what the
primitive computes. -/
theorem request_performs {known : Nat} {primitive : Primitive} {inputs : List SignalId}
    {count : Nat} (combinational : primitive.domain = .combinational)
    (legal : primitive.accepts inputs.length count = true) (existing : Below known inputs) :
    ∃ step, Performs (request primitive inputs) step ∧
      Build.Meets known step fun value returned =>
        primitive.evaluate (inputs.map value) count = .ok (returned.map value) := by
  cases primitive with
  | and2 =>
      rcases inputs with _ | ⟨a, _ | ⟨b, _ | ⟨extra, rest⟩⟩⟩ <;>
        simp [Primitive.accepts, Primitive.arity] at legal
      subst legal
      simp only [below_cons, below_nil, and_true] at existing
      rcases existing with ⟨a_lt, b_lt⟩
      refine ⟨_, fun _ _ => rfl,
        (Build.and2_meets a_lt b_lt).singleton fun value result is => ?_⟩
      simp only [List.map_cons, List.map_nil, is]
      rfl
  | or2 =>
      rcases inputs with _ | ⟨a, _ | ⟨b, _ | ⟨extra, rest⟩⟩⟩ <;>
        simp [Primitive.accepts, Primitive.arity] at legal
      subst legal
      simp only [below_cons, below_nil, and_true] at existing
      rcases existing with ⟨a_lt, b_lt⟩
      refine ⟨_, fun _ _ => rfl,
        (Build.or2_meets a_lt b_lt).singleton fun value result is => ?_⟩
      simp only [List.map_cons, List.map_nil, is]
      rfl
  | xor2 =>
      rcases inputs with _ | ⟨a, _ | ⟨b, _ | ⟨extra, rest⟩⟩⟩ <;>
        simp [Primitive.accepts, Primitive.arity] at legal
      subst legal
      simp only [below_cons, below_nil, and_true] at existing
      rcases existing with ⟨a_lt, b_lt⟩
      refine ⟨_, fun _ _ => rfl,
        (Build.xor2_meets a_lt b_lt).singleton fun value result is => ?_⟩
      simp only [List.map_cons, List.map_nil, is]
      rfl
  | inv =>
      rcases inputs with _ | ⟨a, _ | ⟨extra, rest⟩⟩ <;>
        simp [Primitive.accepts, Primitive.arity] at legal
      subst legal
      simp only [below_cons, below_nil, and_true] at existing
      refine ⟨_, fun _ _ => rfl,
        (Build.inv_meets existing).singleton fun value result is => ?_⟩
      simp only [List.map_cons, List.map_nil, is]
      rfl
  | halfAdder =>
      rcases inputs with _ | ⟨a, _ | ⟨b, _ | ⟨extra, rest⟩⟩⟩ <;>
        simp [Primitive.accepts, Primitive.arity] at legal
      subst legal
      simp only [below_cons, below_nil, and_true] at existing
      rcases existing with ⟨a_lt, b_lt⟩
      refine ⟨_, fun _ _ => rfl,
        (Build.halfAdder_meets a_lt b_lt).sumThenCarry fun value adder is => ?_⟩
      simp only [List.map_cons, List.map_nil, is]
      rfl
  | fullAdder =>
      rcases inputs with _ | ⟨a, _ | ⟨b, _ | ⟨c, _ | ⟨extra, rest⟩⟩⟩⟩ <;>
        simp [Primitive.accepts, Primitive.arity] at legal
      subst legal
      simp only [below_cons, below_nil, and_true] at existing
      rcases existing with ⟨a_lt, b_lt, c_lt⟩
      refine ⟨_, fun _ _ => rfl,
        (Build.fullAdder_meets a_lt b_lt c_lt).sumThenCarry fun value adder is => ?_⟩
      simp only [List.map_cons, List.map_nil, is]
      rfl
  | ao21 =>
      rcases inputs with _ | ⟨a1, _ | ⟨a2, _ | ⟨b1, _ | ⟨extra, rest⟩⟩⟩⟩ <;>
        simp [Primitive.accepts, Primitive.arity] at legal
      subst legal
      simp only [below_cons, below_nil, and_true] at existing
      rcases existing with ⟨a1_lt, a2_lt, b1_lt⟩
      refine ⟨_, fun _ _ => rfl,
        (Build.ao21_meets a1_lt a2_lt b1_lt).singleton fun value result is => ?_⟩
      simp only [List.map_cons, List.map_nil, is]
      rfl
  | ao22 =>
      rcases inputs with _ | ⟨a1, _ | ⟨a2, _ | ⟨b1, _ | ⟨b2, _ | ⟨extra, rest⟩⟩⟩⟩⟩ <;>
        simp [Primitive.accepts, Primitive.arity] at legal
      subst legal
      simp only [below_cons, below_nil, and_true] at existing
      rcases existing with ⟨a1_lt, a2_lt, b1_lt, b2_lt⟩
      refine ⟨_, fun _ _ => rfl,
        (Build.ao22_meets a1_lt a2_lt b1_lt b2_lt).singleton fun value result is => ?_⟩
      simp only [List.map_cons, List.map_nil, is]
      rfl
  | ao32 =>
      rcases inputs with _ | ⟨a1, _ | ⟨a2, _ | ⟨a3, _ | ⟨b1, _ | ⟨b2, _ | ⟨extra, rest⟩⟩⟩⟩⟩⟩ <;>
        simp [Primitive.accepts, Primitive.arity] at legal
      subst legal
      simp only [below_cons, below_nil, and_true] at existing
      rcases existing with ⟨a1_lt, a2_lt, a3_lt, b1_lt, b2_lt⟩
      refine ⟨_, fun _ _ => rfl,
        (Build.ao32_meets a1_lt a2_lt a3_lt b1_lt b2_lt).singleton fun value result is => ?_⟩
      simp only [List.map_cons, List.map_nil, is]
      rfl
  | add =>
      have lengths : 0 < count ∧ inputs.length = 2 * count := by
        simpa [Primitive.accepts, Primitive.arity] using legal
      have half : inputs.length / 2 = count := by omega
      have accepted : (inputs.isEmpty || inputs.length % 2 = 1) = false := by
        have nonempty : inputs ≠ [] := List.ne_nil_of_length_pos (by omega)
        have even : inputs.length % 2 = 0 := by omega
        simp [nonempty, even]
      refine ⟨Build.add (inputs.take count) (inputs.drop count), fun provider builder => ?_, ?_⟩
      · rw [request, accepted, half]
        rfl
      · refine (Build.add_meets ?_ ?_ ?_ ?_).imp fun value returned is => ?_
        · exact List.ne_nil_of_length_pos (by simp; omega)
        · simp
          omega
        · exact fun id member => existing id (List.mem_of_mem_take member)
        · exact fun id member => existing id (List.mem_of_mem_drop member)
        · rw [is, List.map_take, List.map_drop, Primitive.evaluate,
            if_neg (by simp; omega)]
          rfl
  | dff => cases combinational

theorem performs_lift {α : Type} (step : Build α) : Performs (liftM step) step :=
  fun _ _ => rfl

theorem performs_pure {α : Type} (result : α) : Performs (pure result) (pure result) :=
  fun _ _ => rfl

theorem Performs.bind {α β : Type} {attempt : Attempt α} {step : Build α}
    {next : α → Attempt β} {rest : α → Build β} (first : Performs attempt step)
    (second : ∀ result, Performs (next result) (rest result)) :
    Performs (attempt >>= next) (step >>= rest) := by
  intro provider builder
  rw [run_bind, first provider builder, run_lift]
  exact second _ provider _

theorem add_performs {left right : List SignalId} (nonempty : left ≠ [])
    (sameWidth : left.length = right.length) :
    Performs (add left right) (Build.add left right) := by
  have positive := List.length_pos_iff.mpr nonempty
  have half : (left ++ right).length / 2 = left.length := by
    rw [List.length_append]
    omega
  have accepted : ((left ++ right).isEmpty || (left ++ right).length % 2 = 1) = false := by
    have even : (left.length + right.length) % 2 = 0 := by omega
    simp [nonempty, even]
  intro provider builder
  have requested : request .add (left ++ right) = liftM (Build.add left right) := by
    rw [request, accepted, half]
    simp only [Bool.false_eq_true, if_false, List.take_left, List.drop_left]
  rw [add, if_neg (by simpa using sameWidth), requested]

/-- A request of a combinational primitive for existing signals of a legal number succeeds. The
gates that it adds carry the provider's realizations, they settle in order for all values of the
signals, and whenever they are settled the returned signals carry what the primitive computes. -/
theorem request_computes {provider : Provider} {complete : CompleteProvider}
    (accepted : provider.complete = .ok complete) (builder : Builder) {primitive : Primitive}
    (combinational : primitive.domain = .combinational) {inputs : List SignalId} {count : Nat}
    (legal : primitive.accepts inputs.length count = true)
    (existing : Below builder.size inputs) :
    ∃ returned after gates,
      run (request primitive inputs) complete builder = (.ok returned, after) ∧
        returned.length = count ∧ Below after.size returned ∧
        after.netlist.gates.toList = builder.netlist.gates.toList ++ gates ∧
        (∀ gate ∈ gates, provider.realize gate.primitive = some gate.realization) ∧
        (∀ values : Array UInt64, values.size = after.size →
          ∃ settled computed, gates.foldlM Simulator.settleGate values = .ok settled ∧
            (∀ id < builder.size, settled[id]? = values[id]?) ∧
            (inputs.mapM (Simulator.read values) >>= (primitive.evaluate · count)) =
              .ok computed ∧
            returned.mapM (Simulator.read settled) = .ok computed) ∧
        ∀ value : Valuation UInt64, Gate.Settled gates value →
          primitive.evaluate (inputs.map value) count = .ok (returned.map value) := by
  rcases request_performs combinational legal existing with ⟨step, performs, meets⟩
  have promise := meets.promise complete builder (Nat.le_refl _)
  have ran := performs complete builder
  rw [run_lift] at ran
  generalize (Build.run step complete builder).1 = returned at promise ran
  generalize (Build.run step complete builder).2 = after at promise ran
  have extension := promise.moves.extension
  have computes (value : Valuation UInt64)
      (settled : Gate.Settled (Builder.added builder after) value) :
      primitive.evaluate (inputs.map value) count = .ok (returned.map value) := by
    apply Lanes.evaluate_eq_ok (by simpa using legal)
    intro lane
    rw [List.map_map, List.map_map]
    exact promise.holds _ (settled.map (Lanes.bit lane))
  have settles (values : Array UInt64) (size : values.size = after.size) :
      ∃ settled, (Builder.added builder after).foldlM Simulator.settleGate values = .ok settled ∧
        Simulator.Frame (List.range' builder.size (after.size - builder.size)) values settled ∧
          Gate.Settled (Builder.added builder after) (Simulator.valuation settled) := by
    rcases Simulator.exists_settleGates_eq_ok values extension.legal
      (size ▸ extension.inside trivial)
      (extension.sequenced trivial) with ⟨settled, isSettled, frame, carries⟩
    rw [extension.drives] at frame
    exact ⟨settled, isSettled, frame, fun gate member _ => carries gate member⟩
  refine ⟨returned, after, Builder.added builder after, ran, ?_, promise.within, extension.gates,
    ?_, fun values size => ?_, computes⟩
  · rcases settles (Array.replicate after.size 0) Array.size_replicate with ⟨settled, _, _, holds⟩
    rcases Primitive.exists_evaluate_eq_ok (inputs.map (Simulator.valuation settled))
      (by simpa using legal) with ⟨computed, evaluated, length⟩
    rw [computes _ holds] at evaluated
    rw [← length, ← Except.ok.inj evaluated, List.length_map]
  · rw [← Provider.toProvider_of_complete accepted]
    exact extension.realized
  · rcases settles values size with ⟨settled, isSettled, frame, holds⟩
    have kept : ∀ id < builder.size, settled[id]? = values[id]? := by
      intro id old
      apply frame.kept
      rw [List.mem_range'_1]
      omega
    have sameInputs :
        inputs.map (Simulator.valuation values) = inputs.map (Simulator.valuation settled) :=
      List.map_congr_left fun id member =>
        (Simulator.valuation_eq_of_getElem? (kept id (existing id member))).symm
    refine ⟨settled, returned.map (Simulator.valuation settled), isSettled, kept, ?_, ?_⟩
    · rw [Simulator.mapM_read_eq_ok (existing.mono (size ▸ extension.size_le)), sameInputs]
      exact computes _ holds
    · exact Simulator.mapM_read_eq_ok (frame.size ▸ size ▸ promise.within)

/-- An exclusive disjunction of the literals, from the basis alone, is true in every lane. -/
theorem request_computes_xor2 :
    ∃ complete returned after,
      (Provider.restrictedTo Primitive.basis).complete = .ok complete ∧
        run (request .xor2 [Builder.falseId, Builder.trueId]) complete (.start "xor") =
            (.ok returned, after) ∧ returned.length = 1 ∧
        ∀ values : Array UInt64, values.size = after.size → values[Builder.falseId]? = some 0 →
          values[Builder.trueId]? = some 0xFFFFFFFFFFFFFFFF →
            ∃ settled,
              after.netlist.gates.toList.foldlM Simulator.settleGate values = .ok settled ∧
                returned.mapM (Simulator.read settled) = .ok [0xFFFFFFFFFFFFFFFF] := by
  have accepted : (Provider.restrictedTo Primitive.basis).complete =
      .ok ⟨.restrictedTo Primitive.basis, by decide⟩ := rfl
  have combinational : Primitive.xor2.domain = .combinational := rfl
  have legal : Primitive.xor2.accepts [Builder.falseId, Builder.trueId].length 1 = true := rfl
  have existing : Below (Builder.start "xor").size [Builder.falseId, Builder.trueId] := by
    simp [Builder.start, Builder.size, Builder.falseId, Builder.trueId]
  rcases request_computes accepted (.start "xor") combinational legal existing with
    ⟨returned, after, gates, ran, length, _, appended, _, settles, _⟩
  refine ⟨_, returned, after, accepted, ran, length, fun values size isFalse isTrue => ?_⟩
  rcases settles values size with ⟨settled, computed, isSettled, _, isComputed, shown⟩
  have inputs : [Builder.falseId, Builder.trueId].mapM (Simulator.read values) =
      .ok [0, 0xFFFFFFFFFFFFFFFF] := by
    simp only [List.mapM_cons, List.mapM_nil, Simulator.read, isFalse, isTrue]
    rfl
  rw [inputs] at isComputed
  refine ⟨settled, ?_, shown.trans isComputed.symm⟩
  rw [appended]
  exact isSettled

end Attempt

end Datapath

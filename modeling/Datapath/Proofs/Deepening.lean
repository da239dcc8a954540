import Datapath.Proofs.Generation
import Datapath.Proofs.Paths

/-!
# Depths that construction steps bring about

`Build.Deepens` is the specification of a step with regard to depths. The step adds gates, and
whenever depths are right for these gates, they agree with what it returns, and no signal that these
gates drive is deeper than some number. It holds from every builder and for all depths of what was
there before. Steps are put together by `Deepens.bind`: depths that are right for the gates of both
parts are right for those of each, and the deepest signal is the deeper one of the two.

A primitive that the provider has is one gate, which drives signals one deeper than the deepest
signal it reads.
-/

namespace Datapath

/-- The depths are right for what the combinational ones of some gates drive. -/
def Gate.Measured (gates : List Gate) (depth : SignalId → Nat) : Prop :=
  ∀ gate ∈ gates, gate.isCombinational = true → ∀ id ∈ gate.outputs,
    depth id = 1 + (gate.inputs.map depth).foldl max 0

theorem Gate.measured_append {first second : List Gate} {depth : SignalId → Nat} :
    Measured (first ++ second) depth ↔ Measured first depth ∧ Measured second depth :=
  List.forall_mem_append

/-- The deepest of all signals is as deep as a bound that no driven signal exceeds and some signal
reaches. -/
theorem Netlist.Measured.foldl_eq {netlist : Netlist} {depths : Array Nat}
    (measured : netlist.Measured (depthAt depths)) {bound : Nat}
    (bounded : ∀ gate ∈ netlist.gates.toList, ∀ id ∈ gate.outputs, depthAt depths id ≤ bound)
    {deepest : SignalId} (reached : depthAt depths deepest = bound) :
    depths.toList.foldl max 0 = bound := by
  refine Nat.le_antisymm ?_ (reached ▸ depthAt_le depths deepest)
  refine foldl_max_le_iff.mpr ⟨Nat.zero_le bound, fun item member => ?_⟩
  rcases List.mem_iff_getElem?.mp member with ⟨id, found⟩
  rw [Array.getElem?_toList] at found
  have inside := (Array.getElem?_eq_some_iff.mp found).1
  rw [← Option.some.inj ((getElem?_eq_depthAt inside).symm.trans found)]
  by_cases driven : ∃ gate ∈ netlist.gates.toList, gate.isCombinational = true ∧ id ∈ gate.outputs
  · rcases driven with ⟨gate, isGate, _, output⟩
    exact bounded gate isGate id output
  · rw [measured.undriven id fun gate isGate combinational output =>
      driven ⟨gate, isGate, combinational, output⟩]
    exact Nat.zero_le bound

/-- The bits of the input ports are not deep at all. -/
theorem Builder.Sound.depth_input {builder : Builder} (sound : builder.Sound)
    {depth : SignalId → Nat} (measured : builder.netlist.Measured depth) {port : Port}
    (member : port ∈ builder.netlist.inputs) {id : SignalId} (bit : id ∈ port.bits) :
    depth id = 0 :=
  measured.undriven id fun _ isGate _ =>
    sound.inputs.not_driven sound.runnable.toDrivable member bit isGate

namespace Build

variable {α β : Type} {provider : CompleteProvider}

/-- The step adds gates. Whenever depths are right for these, they agree with its result and with
some number that no signal which these gates drive is deeper than. -/
def Deepens (provider : CompleteProvider) (step : Build α)
    (post : (SignalId → Nat) → Nat → α → Prop) : Prop :=
  ∀ before : Builder, ∃ gates : List Gate,
    (run step provider before).2.netlist.gates.toList = before.netlist.gates.toList ++ gates ∧
      ∀ depth, Gate.Measured gates depth → ∃ reached,
        (∀ gate ∈ gates, ∀ id ∈ gate.outputs, depth id ≤ reached) ∧
          post depth reached (run step provider before).1

variable {post : (SignalId → Nat) → Nat → α → Prop} {final : (SignalId → Nat) → Nat → β → Prop}

theorem Deepens.imp {step : Build α} {weaker : (SignalId → Nat) → Nat → α → Prop}
    (deepens : Deepens provider step post)
    (implies : ∀ depth reached result, post depth reached result → weaker depth reached result) :
    Deepens provider step weaker := by
  intro before
  rcases deepens before with ⟨gates, appended, holds⟩
  refine ⟨gates, appended, fun depth measured => ?_⟩
  rcases holds depth measured with ⟨reached, bounded, agrees⟩
  exact ⟨reached, bounded, implies _ _ _ agrees⟩

theorem Deepens.bind {step : Build α} {next : α → Build β} (first : Deepens provider step post)
    (rest : ∀ result, Deepens provider (next result) fun depth more last =>
      ∀ reached, post depth reached result → final depth (max reached more) last) :
    Deepens provider (step >>= next) final := by
  intro before
  rcases first before with ⟨gates, appended, holds⟩
  rcases rest _ (run step provider before).2 with ⟨more, appendedMore, holdsLast⟩
  refine ⟨gates ++ more, ?_, fun depth measured => ?_⟩
  · rw [run_bind, appendedMore, appended, List.append_assoc]
  · rw [Gate.measured_append] at measured
    rcases holds depth measured.1 with ⟨reached, bounded, agrees⟩
    rcases holdsLast depth measured.2 with ⟨later, boundedLater, implied⟩
    refine ⟨max reached later, ?_, implied reached agrees⟩
    rw [List.forall_mem_append]
    exact ⟨fun gate member id output =>
        Nat.le_trans (bounded gate member id output) (Nat.le_max_left _ _),
      fun gate member id output =>
        Nat.le_trans (boundedLater gate member id output) (Nat.le_max_right _ _)⟩

theorem deepens_pure {result : α} (holds : ∀ depth, post depth 0 result) :
    Deepens provider (pure result) post :=
  fun _ => ⟨[], (List.append_nil _).symm, fun depth _ => ⟨0, nofun, holds depth⟩⟩

/-- A step that adds no gate may come first. -/
theorem Deepens.after {step : Build α} {next : α → Build β}
    (still : ∀ before : Builder,
      (run step provider before).2.netlist.gates = before.netlist.gates)
    (rest : ∀ result, Deepens provider (next result) final) :
    Deepens provider (step >>= next) final := by
  intro before
  rcases rest (run step provider before).1 (run step provider before).2 with
    ⟨gates, appended, holds⟩
  refine ⟨gates, ?_, holds⟩
  rw [run_bind, appended, still before]

/-- Steps for the items of a list, each of which has a depth of its own that the step stays
within. -/
theorem Deepens.mapM {ι τ : Type} {step : ι → Build α} {items : List ι}
    {abstract : (SignalId → Nat) → α → τ} {compute : (SignalId → Nat) → ι → τ}
    {level : (SignalId → Nat) → ι → Nat}
    (each : ∀ item, Deepens provider (step item) fun depth reached result =>
      abstract depth result = compute depth item ∧ reached ≤ level depth item) :
    Deepens provider (items.mapM step) fun depth reached results =>
      results.map (abstract depth) = items.map (compute depth) ∧
        ∀ bound, (∀ item ∈ items, level depth item ≤ bound) → reached ≤ bound := by
  induction items with
  | nil =>
      rw [List.mapM_nil]
      exact deepens_pure fun _ => ⟨rfl, fun bound _ => Nat.zero_le bound⟩
  | cons item items ih =>
      rw [List.mapM_cons]
      refine (each item).bind fun result => ih.bind fun results => deepens_pure ?_
      intro depth later rest reached here
      rw [List.map_cons, List.map_cons, here.1, rest.1]
      refine ⟨rfl, fun bound fits => ?_⟩
      rw [List.forall_mem_cons] at fits
      have first := Nat.le_trans here.2 fits.1
      have others := rest.2 bound fits.2
      omega

/-! ## Native gates -/

/-- A step that is one gate makes what this drives one deeper than what it reads. -/
theorem deepens_of_run_eq_place {step : Build α} {primitive : Primitive}
    (combinational : primitive.domain = .combinational) {realization : Realization}
    {inputs : List SignalId} {outputs : Nat} {result : SignalId → α}
    (ran : ∀ before : Builder, run step provider before =
      (result before.size, before.place primitive realization inputs outputs))
    (holds : ∀ depth first,
      (∀ id ∈ List.range' first outputs, depth id = 1 + (inputs.map depth).foldl max 0) →
        post depth (1 + (inputs.map depth).foldl max 0) (result first)) :
    Deepens provider step post := by
  intro before
  rw [ran before]
  refine ⟨_, Array.toList_push, fun depth measured => ?_⟩
  have driven := measured _ (List.mem_singleton_self _) (decide_eq_true combinational)
  refine ⟨_, ?_, holds depth before.size driven⟩
  rw [List.forall_mem_singleton]
  exact fun id output => Nat.le_of_eq (driven id output)

theorem gateOr_deepens {primitive : Primitive} (combinational : primitive.domain = .combinational)
    (native : (provider.realize primitive).isSome) {inputs : List SignalId} {outputs : Nat}
    {result : SignalId → α} {decomposition : Build α}
    (holds : ∀ depth first,
      (∀ id ∈ List.range' first outputs, depth id = 1 + (inputs.map depth).foldl max 0) →
        post depth (1 + (inputs.map depth).foldl max 0) (result first)) :
    Deepens provider (gateOr primitive inputs outputs result decomposition) post := by
  rcases Option.isSome_iff_exists.mp native with ⟨realization, realized⟩
  have ran (before : Builder) :
      run (gateOr primitive inputs outputs result decomposition) provider before =
        (result before.size, before.place primitive realization inputs outputs) := by
    rw [run_gateOr, realized]
  exact deepens_of_run_eq_place combinational ran holds

section Gates

variable (a b c : SignalId)

theorem and2_deepens : Deepens provider (and2 a b) fun depth reached id =>
    depth id = 1 + max (depth a) (depth b) ∧ reached ≤ 1 + max (depth a) (depth b) := by
  have ran (before : Builder) : run (and2 a b) provider before =
      (id before.size, before.place .and2 (provider.basisRealization .and2 (by decide)) [a, b] 1) :=
    run_basisGate _ _ _ _ _
  refine deepens_of_run_eq_place rfl ran fun depth first driven => ?_
  simpa using driven

theorem ao21_deepens (native : (provider.realize .ao21).isSome) :
    Deepens provider (ao21 a b c) fun depth reached id =>
      depth id = 1 + max (max (depth a) (depth b)) (depth c) ∧
        reached ≤ 1 + max (max (depth a) (depth b)) (depth c) := by
  refine gateOr_deepens rfl native fun depth first driven => ?_
  simpa using driven

theorem xor2_deepens (native : (provider.realize .xor2).isSome) :
    Deepens provider (xor2 a b) fun depth reached id =>
      depth id = 1 + max (depth a) (depth b) ∧ reached ≤ 1 + max (depth a) (depth b) := by
  refine gateOr_deepens rfl native fun depth first driven => ?_
  simpa using driven

theorem halfAdder_deepens (native : (provider.realize .halfAdder).isSome) :
    Deepens provider (halfAdder a b) fun depth reached adder =>
      let level := 1 + max (depth a) (depth b)
      (depth adder.sum = level ∧ depth adder.carry = level) ∧ reached ≤ level := by
  refine gateOr_deepens rfl native fun depth first driven => ?_
  simp only [List.map_cons, List.map_nil, List.foldl_cons, List.foldl_nil, Nat.zero_max] at driven ⊢
  exact ⟨⟨driven first (by simp), driven (first + 1) (by simp)⟩, Nat.le_refl _⟩

end Gates

end Build

/-- An attempt that does what a step does adds the same gates. -/
theorem Attempt.Performs.gates {α : Type} {attempt : Attempt α} {step : Build α}
    {provider : CompleteProvider} {post : (SignalId → Nat) → Nat → α → Prop}
    (performs : Performs attempt step) (deepens : Build.Deepens provider step post)
    {before after : Builder} {result : α}
    (ran : run attempt provider before = (.ok result, after)) :
    ∃ gates : List Gate,
      after.netlist.gates.toList = before.netlist.gates.toList ++ gates ∧
        ∀ depth, Gate.Measured gates depth → ∃ reached,
          (∀ gate ∈ gates, ∀ id ∈ gate.outputs, depth id ≤ reached) ∧
            post depth reached result := by
  rw [performs provider before, run_lift] at ran
  cases ran
  exact deepens before

end Datapath

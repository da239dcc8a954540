import Std.Data.String.ToNat
import Datapath.Proofs.AdderCounts
import Datapath.Proofs.Contexts
import Datapath.Proofs.Depths

/-!
# Stages as layers of adders

Where the provider has both adders, each adder of a reduction is one gate. A stage takes bits from
the front of a column and puts sums and carries at its end, and its target is so near the height
that the bits it began with are enough: with at most half a target of carries coming in, a column
hands on at most half a target. So no adder of a stage reads an output of the same stage, and each
stage adds one to the depths: `Multiplier.reduce_deepens_by_stages`.

The wires a stage adds carry its number as their scope, so that the netlist itself says which stage
a signal comes from.
-/

namespace Datapath

namespace Builder

/-- Only adders over given signals have been added, and their outputs carry the scope. -/
structure Layer (sources : List SignalId) (before after : Builder) : Prop where
  scope : after.scope = before.scope
  signals : ∃ count, after.netlist.signals.toList =
    before.netlist.signals.toList ++ List.replicate count (.wire before.scope)
  gates : ∃ more, after.netlist.gates.toList = before.netlist.gates.toList ++ more ∧
    ∀ gate ∈ more, (gate.primitive = .halfAdder ∨ gate.primitive = .fullAdder) ∧
      gate.inputs ⊆ sources ∧ ∀ id ∈ gate.outputs, before.size ≤ id ∧ id < after.size

variable {sources : List SignalId} {before middle after : Builder}

theorem layer_refl (builder : Builder) : Layer sources builder builder where
  scope := rfl
  signals := ⟨0, by simp⟩
  gates := ⟨[], by simp⟩

theorem Layer.size_le (layer : Layer sources before after) : before.size ≤ after.size := by
  rcases layer.signals with ⟨count, appended⟩
  have lengths := congrArg List.length appended
  simp only [List.length_append, Array.length_toList] at lengths
  simp only [size]
  omega

theorem Layer.trans (first : Layer sources before middle) (second : Layer sources middle after) :
    Layer sources before after where
  scope := second.scope.trans first.scope
  signals := by
    rcases first.signals with ⟨count, appended⟩
    rcases second.signals with ⟨more, moreAppended⟩
    refine ⟨count + more, ?_⟩
    rw [moreAppended, appended, first.scope, List.append_assoc, List.replicate_append_replicate]
  gates := by
    have firstLe := first.size_le
    have secondLe := second.size_le
    rcases first.gates with ⟨gates, appended, each⟩
    rcases second.gates with ⟨more, moreAppended, eachLater⟩
    refine ⟨gates ++ more, by rw [moreAppended, appended, List.append_assoc], fun gate member => ?_⟩
    rcases List.mem_append.mp member with early | late
    · rcases each gate early with ⟨adder, inputs, outputs⟩
      exact ⟨adder, inputs, fun id output =>
        ⟨(outputs id output).1, Nat.lt_of_lt_of_le (outputs id output).2 secondLe⟩⟩
    · rcases eachLater gate late with ⟨adder, inputs, outputs⟩
      exact ⟨adder, inputs, fun id output =>
        ⟨Nat.le_trans firstLe (outputs id output).1, (outputs id output).2⟩⟩

/-- What is in place stays. -/
theorem Layer.signal_eq_some (layer : Layer sources before after) {id : SignalId}
    {signal : Signal} (found : before.netlist.signals[id]? = some signal) :
    after.netlist.signals[id]? = some signal := by
  rcases layer.signals with ⟨count, appended⟩
  rw [← Array.getElem?_toList] at found ⊢
  rw [appended, List.getElem?_append_left (List.getElem?_eq_some_iff.mp found).1, found]

theorem Layer.signal_of_le (layer : Layer sources before after) {id : Nat}
    (new : before.size ≤ id) (inside : id < after.size) :
    after.netlist.signals[id]? = some (.wire before.scope) := by
  rcases layer.signals with ⟨count, appended⟩
  have lengths := congrArg List.length appended
  simp only [List.length_append, Array.length_toList, List.length_replicate] at lengths
  simp only [size] at new inside
  rw [← Array.getElem?_toList, appended, List.getElem?_append_right (by simpa using new),
    List.getElem?_replicate_of_lt (by simp; omega)]

theorem layer_log (builder : Builder) (log : Log) :
    Layer sources builder { builder with log } where
  scope := rfl
  signals := ⟨0, by simp⟩
  gates := ⟨[], by simp⟩

theorem layer_place (builder : Builder) {primitive : Primitive}
    (isAdder : primitive = .halfAdder ∨ primitive = .fullAdder) (realization : Realization)
    {inputs : List SignalId} (taken : inputs ⊆ sources) :
    Layer sources builder (builder.place primitive realization inputs 2) where
  scope := rfl
  signals := ⟨2, by simp [place]⟩
  gates := by
    refine ⟨[{ name := builder.gateName primitive
               primitive, inputs, realization
               outputs := List.range' builder.size 2 }], by simp [place, size], ?_⟩
    rw [List.forall_mem_singleton, size_place]
    exact ⟨isAdder, taken, fun id output => List.mem_range'_1.mp output⟩

/-- The bits are among given ones or have been added. -/
def Yields (given : List SignalId) (before after : Builder) (bits : List SignalId) : Prop :=
  ∀ bit ∈ bits, bit ∈ given ∨ before.size ≤ bit ∧ bit < after.size

variable {given enough bits more : List SignalId}

theorem yields_of_subset (subset : bits ⊆ given) : Yields given before after bits :=
  fun _ member => .inl (subset member)

theorem Yields.append (first : Yields given before after bits)
    (second : Yields given before after more) : Yields given before after (bits ++ more) :=
  fun bit member => (List.mem_append.mp member).elim (first bit) (second bit)

theorem Yields.mono (yields : Yields given before after bits) (given_sub : given ⊆ enough)
    (fewer : more ⊆ bits) : Yields enough before after more :=
  fun bit member => (yields bit (fewer member)).imp_left (given_sub ·)

theorem Yields.later (yields : Yields given before middle bits)
    (layer : Layer sources middle after) : Yields given before after bits :=
  fun bit member => (yields bit member).imp_right fun new =>
    ⟨new.1, Nat.lt_of_lt_of_le new.2 layer.size_le⟩

/-- What follows may use what has been added. -/
theorem Yields.trans (first : Yields given before middle bits) (layer : Layer sources before middle)
    (later : Layer sources middle after) (second : Yields (given ++ bits) middle after more) :
    Yields given before after (bits ++ more) := by
  refine (first.later later).append fun bit member => ?_
  rcases second bit member with known | new
  · rcases List.mem_append.mp known with isGiven | early
    · exact .inl isGiven
    · exact first.later later bit early
  · exact .inr ⟨Nat.le_trans layer.size_le new.1, new.2⟩

end Builder

namespace Build

open Multiplier Builder

section Native

variable {provider : CompleteProvider} {half full : Realization}

theorem run_halfAdder (native : provider.realize .halfAdder = some half) (a b : SignalId)
    (builder : Builder) :
    run (halfAdder a b) provider builder =
      (sumFirst builder.size, builder.place .halfAdder half [a, b] 2) := by
  rw [halfAdder, run_gateOr, native]

theorem run_fullAdder (native : provider.realize .fullAdder = some full) (a b c : SignalId)
    (builder : Builder) :
    run (fullAdder a b c) provider builder =
      (sumFirst builder.size, builder.place .fullAdder full [a, b, c] 2) := by
  rw [fullAdder, run_gateOr, native]

theorem noteLost_layer (provider : CompleteProvider) (lost : Option Nat) (sources : List SignalId)
    (builder : Builder) : Layer sources builder (run (noteLost lost) provider builder).2 := by
  cases lost with
  | none => exact layer_refl builder
  | some column => exact layer_log builder _

/-- An adder whose carry may be lost. -/
theorem place_layer (provider : CompleteProvider) (lost : Option Nat)
    {sources inputs : List SignalId} (taken : inputs ⊆ sources) {primitive : Primitive}
    (isAdder : primitive = .halfAdder ∨ primitive = .fullAdder) (realization : Realization)
    (builder : Builder) :
    let placed := builder.place primitive realization inputs 2
    let after := (run (noteLost lost) provider placed).2
    Layer sources builder after ∧ Yields [] builder after [builder.size, builder.size + 1] := by
  have noted := noteLost_layer provider lost sources
    (builder.place primitive realization inputs 2)
  refine ⟨(layer_place builder isAdder realization taken).trans noted, .later ?_ noted⟩
  intro bit member
  rw [size_place]
  simp only [List.mem_cons, List.not_mem_nil, or_false] at member
  rcases member with rfl | rfl
  · exact .inr ⟨Nat.le_refl _, Nat.lt_add_of_pos_right Nat.zero_lt_two⟩
  · exact .inr ⟨Nat.le_succ _, Nat.lt_succ_self _⟩

theorem exists_of_append_eq {taken rest kept fresh : List SignalId}
    (split : taken ++ rest = kept ++ fresh) (le : taken.length ≤ kept.length) :
    ∃ others, kept = taken ++ others ∧ rest = others ++ fresh := by
  have isPrefix : taken <+: kept := List.prefix_of_prefix_length_le
    (List.prefix_append taken rest) (split ▸ List.prefix_append kept fresh) le
  rcases isPrefix with ⟨others, rfl⟩
  exact ⟨others, rfl, List.append_cancel_left (split.trans (List.append_assoc _ _ _))⟩

variable (halfAdder : provider.realize .halfAdder = some half)
  (fullAdder : provider.realize .fullAdder = some full)

include halfAdder fullAdder

/-- A column that has bits enough of its own uses up none of those behind them. -/
theorem compress_layer (lost : Option Nat) {excess : Nat} {bits kept fresh sources : List SignalId}
    (split : bits = kept ++ fresh) (taken : kept ⊆ sources)
    (enough : 3 * (excess / 2) + 2 * (excess % 2) ≤ kept.length) (builder : Builder) :
    let ran := run (compress lost excess bits) provider builder
    Layer sources builder ran.2 ∧ Yields bits builder ran.2 (ran.1.1 ++ ran.1.2) := by
  fun_induction compress lost excess bits generalizing kept fresh builder with
  | case1 more a b c rest ih =>
      have three : [a, b, c].length ≤ kept.length := by
        simp only [List.length_cons, List.length_nil]
        omega
      rcases exists_of_append_eq (show [a, b, c] ++ rest = kept ++ fresh from split) three with
        ⟨others, rfl, rfl⟩
      simp only [List.append_subset] at taken
      simp only [List.length_append, List.length_cons, List.length_nil] at enough
      simp only [run_bind, run_fullAdder fullAdder, run_pure]
      rcases place_layer provider lost taken.1 (.inr rfl) full builder with
        ⟨here, outputs⟩
      generalize (run (noteLost lost) provider
        (builder.place .fullAdder full [a, b, c] 2)).2 = middle at here outputs ⊢
      rcases ih (sumFirst builder.size) (List.append_assoc others fresh _) taken.2 (by omega)
        middle with ⟨layer, yields⟩
      have remaining := yields.mono (show _ ⊆ a :: b :: c :: (others ++ fresh) ++
        [builder.size, builder.size + 1] by grind [sumFirst]) (List.Subset.refl _)
      have all := (outputs.mono (List.nil_subset _) (List.Subset.refl _)).trans here layer remaining
      exact ⟨here.trans layer, all.mono (List.Subset.refl _) (by grind [sumFirst])⟩
  | case2 a b rest =>
      have two : [a, b].length ≤ kept.length := by
        simp only [List.length_cons, List.length_nil]
        omega
      rcases exists_of_append_eq (show [a, b] ++ rest = kept ++ fresh from split) two with
        ⟨others, rfl, rfl⟩
      simp only [List.append_subset] at taken
      simp only [run_bind, run_halfAdder halfAdder, run_pure]
      rcases place_layer provider lost taken.1 (.inl rfl) half builder with
        ⟨here, outputs⟩
      generalize (run (noteLost lost) provider
        (builder.place .halfAdder half [a, b] 2)).2 = after at here outputs ⊢
      have known : Yields (a :: b :: (others ++ fresh)) builder after (others ++ fresh) :=
        yields_of_subset (by grind)
      exact ⟨here, (known.append (outputs.mono (List.nil_subset _) (List.Subset.refl _))).mono
        (List.Subset.refl _) (by grind [sumFirst])⟩
  | case3 excess bits notFull notHalf =>
      exact ⟨layer_refl builder, yields_of_subset (by simp)⟩

/-- The bits of columns within reach of a target are enough for a stage: with at most half the
target of carries coming in, a column hands on at most half the target. -/
theorem reduceColumns_layer {target : Nat} (proper : 2 ≤ target) (position : Nat)
    {carries sources : List SignalId} (few : carries.length ≤ target / 2)
    {columns : List (List SignalId)} (taken : ∀ column ∈ columns, column ⊆ sources)
    (near : ∀ column ∈ columns, column.length ≤ 3 * target / 2) (builder : Builder) :
    let ran := run (reduceColumns target position carries columns) provider builder
    Layer sources builder ran.2 ∧
      Yields (columns.flatten ++ carries) builder ran.2 ran.1.1.flatten ∧
      ∀ column ∈ ran.1.1, column.length ≤ target := by
  induction columns generalizing position carries builder with
  | nil => exact ⟨layer_refl builder, yields_of_subset (List.nil_subset _), nofun⟩
  | cons column higher ih =>
      rw [List.forall_mem_cons] at taken near
      have length : (column ++ carries).length = column.length + carries.length :=
        List.length_append
      simp only [reduceColumns, run_bind, run_pure]
      generalize (if higher.isEmpty then some (position + 1) else none) = lost
      generalize surplus : (column ++ carries).length - target = excess
      have here := compress_layer halfAdder fullAdder lost
        (show column ++ carries = column ++ carries from rfl) taken.1
        (show 3 * (excess / 2) + 2 * (excess % 2) ≤ column.length by omega) builder
      have lengths := compress_counts lost
        (show excess = 0 ∨ excess < (column ++ carries).length by omega) provider builder
      generalize run (compress lost excess (column ++ carries)) provider builder = middle
        at here lengths ⊢
      rcases middle with ⟨⟨reduced, outgoing⟩, middle⟩
      rcases here with ⟨layer, yields⟩
      rcases lengths with ⟨_, _, kept, handed, _⟩
      dsimp only at layer yields kept handed ⊢
      have fewer : outgoing.length ≤ target / 2 := by omega
      rcases ih (position + 1) fewer taken.2 near.2 middle with ⟨later, rest, low⟩
      refine ⟨layer.trans later, ?_, List.forall_mem_cons.mpr ⟨by omega, low⟩⟩
      have remaining := rest.mono (show _ ⊆ (column :: higher).flatten ++ carries ++
        (reduced ++ outgoing) by grind) (List.Subset.refl _)
      have all := (yields.mono (by grind) (List.Subset.refl _)).trans layer later remaining
      exact all.mono (List.Subset.refl _) (by grind)

end Native

end Build

namespace Multiplier

theorem stageScope_inj {stage other : Nat} (same : stageScope stage = stageScope other) :
    stage = other :=
  Nat.repr_inj.mp ((String.append_right_inj _).mp same)

/-- A stage may read the signal: it is a bit of the matrix that is reduced, or it has been added
since then and carries the scope of an earlier stage. -/
def Available (matrix : Matrix) (known : Nat) (netlist : Netlist) (stage : Nat) (id : SignalId) :
    Prop :=
  id ∈ matrix.bits ∨ known ≤ id ∧ ∃ earlier < stage,
    netlist.signals[id]? = some (.wire (some (stageScope earlier)))

/-- The gate is an adder of a stage, which reads only what was there before the stage. -/
structure InStage (matrix : Matrix) (known : Nat) (netlist : Netlist) (stage : Nat) (gate : Gate) :
    Prop where
  adder : gate.primitive = .halfAdder ∨ gate.primitive = .fullAdder
  inputs : ∀ id ∈ gate.inputs, Available matrix known netlist stage id
  outputs : ∀ id ∈ gate.outputs,
    netlist.signals[id]? = some (.wire (some (stageScope stage)))

theorem InStage.isCombinational {matrix : Matrix} {known stage : Nat} {netlist : Netlist}
    {gate : Gate} (inStage : InStage matrix known netlist stage gate) :
    gate.isCombinational = true := by
  rw [Gate.isCombinational]
  rcases inStage.adder with half | full
  · rw [half]
    rfl
  · rw [full]
    rfl

/-- A gate belongs to the stage that its outputs name. -/
theorem InStage.stage_eq {matrix : Matrix} {known stage other id : Nat} {netlist : Netlist}
    {gate : Gate} (inStage : InStage matrix known netlist stage gate) (output : id ∈ gate.outputs)
    (found : netlist.signals[id]? = some (.wire (some (stageScope other)))) : stage = other := by
  have label := (inStage.outputs id output).symm.trans found
  simp only [Option.some.injEq, Signal.wire.injEq] at label
  exact stageScope_inj label

/-- The stages up to a number have added gates, and bits are what the next may read. -/
structure Staged (matrix : Matrix) (known stages : Nat) (before after : Builder)
    (bits : List SignalId) : Prop where
  size_le : before.size ≤ after.size
  kept : ∀ (id : Nat) (signal : Signal), before.netlist.signals[id]? = some signal →
    after.netlist.signals[id]? = some signal
  gates : ∃ more, after.netlist.gates.toList = before.netlist.gates.toList ++ more ∧
    ∀ gate ∈ more, ∃ stage < stages, InStage matrix known after.netlist stage gate
  bits : ∀ bit ∈ bits, Available matrix known after.netlist stages bit

variable {matrix : Matrix} {known stage stages : Nat} {before after builder : Builder}

theorem Available.mono {id : Nat} {earlier later : Netlist}
    (available : Available matrix known earlier stage id) (le : stage ≤ stages)
    (kept : ∀ (id : Nat) (signal : Signal), earlier.signals[id]? = some signal →
      later.signals[id]? = some signal) : Available matrix known later stages id :=
  available.imp_right fun ⟨new, number, lt, found⟩ =>
    ⟨new, number, Nat.lt_of_lt_of_le lt le, kept id _ found⟩

theorem InStage.mono {gate : Gate} {earlier later : Netlist}
    (inStage : InStage matrix known earlier stage gate)
    (kept : ∀ (id : Nat) (signal : Signal), earlier.signals[id]? = some signal →
      later.signals[id]? = some signal) : InStage matrix known later stage gate where
  adder := inStage.adder
  inputs id pin := (inStage.inputs id pin).mono (Nat.le_refl stage) kept
  outputs id output := kept id _ (inStage.outputs id output)

theorem Staged.trans {middle : Builder} {bits more : List SignalId}
    (first : Staged matrix known stage before middle bits)
    (second : Staged matrix known stages middle after more) (le : stage ≤ stages) :
    Staged matrix known stages before after more where
  size_le := Nat.le_trans first.size_le second.size_le
  kept id signal found := second.kept id signal (first.kept id signal found)
  gates := by
    rcases first.gates with ⟨gates, appended, each⟩
    rcases second.gates with ⟨later, moreAppended, eachLater⟩
    refine ⟨gates ++ later, by rw [moreAppended, appended, List.append_assoc],
      fun gate member => ?_⟩
    rcases List.mem_append.mp member with early | late
    · rcases each gate early with ⟨number, lt, inStage⟩
      exact ⟨number, Nat.lt_of_lt_of_le lt le, inStage.mono second.kept⟩
    · exact eachLater gate late
  bits := second.bits

theorem Staged.inStage {bits : List SignalId}
    (staged : Staged matrix known stages before after bits) {gate : Gate}
    (isAdded : gate ∈ Builder.added before after) :
    ∃ stage < stages, InStage matrix known after.netlist stage gate := by
  rcases staged.gates with ⟨more, appended, each⟩
  exact each gate (Builder.added_eq appended ▸ isAdded)

/-- A layer over available bits is a stage. -/
theorem staged_of_layer {sources bits : List SignalId} (enough : known ≤ builder.size)
    (available : ∀ bit ∈ sources, Available matrix known builder.netlist stage bit)
    (layer : Builder.Layer sources { builder with scope := some (stageScope stage) } after)
    (yields : Builder.Yields sources { builder with scope := some (stageScope stage) } after bits) :
    Staged matrix known (stage + 1) builder after bits := by
  have kept (id : Nat) (signal : Signal) (found : builder.netlist.signals[id]? = some signal) :
      after.netlist.signals[id]? = some signal := layer.signal_eq_some found
  refine ⟨layer.size_le, kept, ?_, fun bit member => ?_⟩
  · rcases layer.gates with ⟨more, appended, each⟩
    refine ⟨more, appended, fun gate member => ⟨stage, Nat.lt_succ_self stage, ?_⟩⟩
    rcases each gate member with ⟨adder, inputs, outputs⟩
    exact
      { adder
        inputs := fun id pin => (available id (inputs pin)).mono (Nat.le_refl stage) kept
        outputs := fun id output => layer.signal_of_le (outputs id output).1 (outputs id output).2 }
  · rcases yields bit member with isSource | new
    · exact (available bit isSource).mono (Nat.le_succ stage) kept
    · exact .inr ⟨Nat.le_trans enough new.1, stage, Nat.lt_succ_self stage,
        layer.signal_of_le new.1 new.2⟩

end Multiplier

namespace Build

open Multiplier Builder

section Native

variable {provider : CompleteProvider} {half full : Realization}
  (halfAdder : provider.realize .halfAdder = some half)
  (fullAdder : provider.realize .fullAdder = some full)

include halfAdder fullAdder

theorem reduceStages_staged {matrix start : Matrix} {known height stage : Nat} {targets : List Nat}
    (chain : (height :: targets).IsChain Descends)
    (low : ∀ column ∈ matrix.columns, column.length ≤ height) (builder : Builder)
    (enough : known ≤ builder.size)
    (available : ∀ bit ∈ matrix.bits, Available start known builder.netlist stage bit) :
    let ran := run (reduceStages stage targets matrix) provider builder
    Staged start known (stage + targets.length) builder ran.2 ran.1.1.bits := by
  induction targets generalizing matrix height stage builder with
  | nil =>
      refine ⟨Nat.le_refl _, fun _ _ => id, ⟨[], ?_, nofun⟩, available⟩
      exact (List.append_nil _).symm
  | cons target targets ih =>
      rcases List.isChain_cons_cons.mp chain with ⟨⟨proper, _, near⟩, rest⟩
      let opened : Builder := { builder with scope := some (stageScope stage) }
      have layered := reduceColumns_layer halfAdder fullAdder proper 0
        (show ([] : List SignalId).length ≤ target / 2 from Nat.zero_le _)
        (fun column member bit isBit => show bit ∈ matrix.bits from
          List.mem_flatten.mpr ⟨column, member, isBit⟩)
        (fun column member => Nat.le_trans (low column member) near) opened
      have unfolded : run (reduceStages stage (target :: targets) matrix) provider builder =
          let first := run (reduceColumns target 0 [] matrix.columns) provider opened
          let noted : Builder := { first.2 with
            log := first.2.log.push (.daddaStage stage (Matrix.heights ⟨first.1.1⟩)) }
          let later := run (reduceStages (stage + 1) targets ⟨first.1.1⟩) provider noted
          ((later.1.1, first.1.2.add later.1.2), later.2) := rfl
      rw [unfolded]
      generalize run (reduceColumns target 0 [] matrix.columns) provider opened = first at layered ⊢
      rcases first with ⟨⟨columns, tally⟩, middle⟩
      rcases layered with ⟨layer, yields, reduced⟩
      dsimp only at layer yields reduced ⊢
      let noted : Builder := { middle with
        log := middle.log.push (.daddaStage stage (Matrix.heights ⟨columns⟩)) }
      have note : Layer matrix.bits middle noted := layer_log middle _
      rw [List.append_nil] at yields
      have here : Staged start known (stage + 1) builder noted (Matrix.bits ⟨columns⟩) :=
        staged_of_layer enough available (layer.trans note) (yields.later note)
      have later := ih rest reduced noted (Nat.le_trans enough here.size_le) here.bits
      have count : stage + (target :: targets).length = stage + 1 + targets.length := by
        rw [List.length_cons]
        omega
      rw [count]
      exact here.trans later (Nat.le_add_right _ _)

theorem reduceTo_staged {matrix : Matrix} {targets : List Nat}
    (listed : stageTargets matrix.maxHeight = .ok targets) (builder : Builder) :
    let ran := run (reduceTo targets matrix) provider builder
    Staged matrix builder.size targets.length builder ran.2 ran.1.bits := by
  have available (bit : Nat) (member : bit ∈ matrix.bits) :
      Available matrix builder.size builder.netlist 0 bit := .inl member
  have staged := reduceStages_staged halfAdder fullAdder (stageTargets_isChain listed)
    (fun column => Matrix.length_le_maxHeight)
    { builder with log := builder.log.push (.daddaSchedule matrix.maxHeight targets) }
    (Nat.le_refl builder.size) available
  rw [Nat.zero_add] at staged
  exact ⟨staged.size_le, staged.kept, staged.gates, staged.bits⟩

end Native

end Build

namespace Multiplier

open Builder (added)

/-- What a stage may read is no deeper than the bits of the matrix and the stages before it. -/
theorem Available.depth_le {provider : Provider} {matrix : Matrix} {before after : Builder}
    {stages bound : Nat} {bits : List SignalId} {depth : SignalId → Nat}
    (extension : Builder.Extension provider True before after)
    (staged : Staged matrix before.size stages before after bits)
    (measured : after.netlist.Measured depth) (shallow : ∀ bit ∈ matrix.bits, depth bit ≤ bound)
    {stage id : Nat} (available : Available matrix before.size after.netlist stage id) :
    depth id ≤ bound + stage := by
  induction id using Nat.strong_induction_on generalizing stage with
  | _ id ih =>
      rcases available with isBit | ⟨new, earlier, lt, found⟩
      · exact Nat.le_trans (shallow id isBit) (Nat.le_add_right bound stage)
      · have isNew : id ∈ (added before after).flatMap (·.outputs) := by
          have inside : id < after.size := (Array.getElem?_eq_some_iff.mp found).1
          rw [extension.drives, List.mem_range'_1]
          omega
        rcases List.mem_flatMap.mp isNew with ⟨gate, isAdded, output⟩
        rcases staged.inStage isAdded with ⟨number, _, inStage⟩
        have same : number = earlier := inStage.stage_eq output found
        subst same
        have member : gate ∈ after.netlist.gates.toList := by
          rw [extension.gates]
          exact List.mem_append_right _ isAdded
        have inputs : (gate.inputs.map depth).foldl max 0 ≤ bound + number := by
          refine foldl_max_le_iff.mpr ⟨Nat.zero_le _, fun level isLevel => ?_⟩
          rcases List.mem_map.mp isLevel with ⟨input, pin, rfl⟩
          exact ih input (extension.readsBelow trivial gate isAdded id output input pin)
            (inStage.inputs input pin)
        rw [measured.driven gate member inStage.isCombinational id output]
        omega

theorem Available.lt_size {matrix : Matrix} {known stage id : Nat} {builder : Builder}
    (available : Available matrix known builder.netlist stage id)
    (existing : ∀ bit ∈ matrix.bits, bit < builder.size) : id < builder.size := by
  rcases available with isBit | ⟨_, _, _, found⟩
  · exact existing id isBit
  · exact (Array.getElem?_eq_some_iff.mp found).1

theorem Matrix.mem_rows {matrix : Matrix} {bit : SignalId}
    (member : bit ∈ matrix.rows.1 ++ matrix.rows.2) :
    bit = Builder.falseId ∨ bit ∈ matrix.bits := by
  have each (index : Nat) (isRow : bit ∈ matrix.columns.map (·[index]?.getD Builder.falseId)) :
      bit = Builder.falseId ∨ bit ∈ matrix.bits := by
    rcases List.mem_map.mp isRow with ⟨column, isColumn, rfl⟩
    cases found : column[index]? with
    | none => exact .inl rfl
    | some id => exact .inr (List.mem_flatten.mpr ⟨column, isColumn, List.mem_of_getElem? found⟩)
  exact (List.mem_append.mp member).elim (each 0) (each 1)

/-- Where the provider has both adders, a reduction to columns of at most two bits makes signals
deeper by one for each stage at most. If no bit of the matrix is deeper than a bound, no bit of the
two rows is deeper than the bound and the number of stages together, and no earlier depth changes.
For an adder of a stage reads only bits of the matrix and what earlier stages have added, so none
reads an output of its own stage. -/
theorem reduce_deepens_by_stages (complete : CompleteProvider) {half full : Realization}
    (halfAdder : complete.realize .halfAdder = some half)
    (fullAdder : complete.realize .fullAdder = some full) {builder : Builder}
    (literals : builder.HasLiterals) {matrix : Matrix} {targets : List Nat}
    (listed : stageTargets matrix.maxHeight = .ok targets) {depths : Array Nat}
    (found : builder.netlist.signalDepths = .ok depths) {bound : Nat}
    (shallow : ∀ bit ∈ matrix.bits, ∃ depth ≤ bound, depths[bit]? = some depth) :
    ∃ reduced after later,
      Attempt.run (lower matrix) complete builder = (.ok reduced, after) ∧
        Attempt.run (reduce matrix) complete builder = (.ok reduced, after) ∧
        (∀ column ∈ reduced.columns, column.length ≤ 2) ∧
        after.netlist.signalDepths = .ok later ∧
        (∀ id < builder.size, later[id]? = depths[id]?) ∧
        (∀ bit ∈ reduced.rows.1 ++ reduced.rows.2,
          ∃ depth ≤ bound + targets.length, later[bit]? = some depth) ∧
        ∀ gate ∈ added builder after, ∃ stage < targets.length,
          InStage matrix builder.size after.netlist stage gate ∧
            ∀ other ∈ added builder after,
              InStage matrix builder.size after.netlist stage other →
                gate.inputs.Disjoint other.outputs := by
  rcases Netlist.measured_of_signalDepths found with ⟨size, measuredBefore⟩
  have existing (bit : Nat) (member : bit ∈ matrix.bits) : bit < builder.size := by
    rcases shallow bit member with ⟨depth, _, isDepth⟩
    exact Nat.lt_of_lt_of_eq (Array.getElem?_eq_some_iff.mp isDepth).1 size
  have matrix_lt : Scoped.Within builder.size matrix := fun column isColumn bit isBit =>
    existing bit (List.mem_flatten.mpr ⟨column, isColumn, isBit⟩)
  have promise := (reduceTo_meets matrix_lt listed).promise complete builder (Nat.le_refl _)
  have staged := Build.reduceTo_staged halfAdder fullAdder listed builder
  have ran := (reduce_performs_reduceTo listed complete builder).trans
    (Attempt.run_lift complete builder _)
  generalize Build.run (reduceTo targets matrix) complete builder = result at promise staged ran
  rcases result with ⟨reduced, after⟩
  dsimp only at promise staged ran
  rcases promise.exists_value literals.trueId_lt with ⟨_, _, _, twoHigh⟩
  have extension := promise.moves.extension
  rcases extension.signalDepths found with ⟨later, foundLater, kept⟩
  rcases Netlist.measured_of_signalDepths foundLater with ⟨laterSize, measured⟩
  have stillShallow (bit : Nat) (member : bit ∈ matrix.bits) :
      Netlist.depthAt later bit ≤ bound := by
    rcases shallow bit member with ⟨depth, le, isDepth⟩
    rw [← kept bit (existing bit member)] at isDepth
    rwa [Netlist.depthAt, Array.getD_eq_getD_getElem?, isDepth]
  refine ⟨reduced, after, later, (run_lower_eq_run_reduce matrix complete builder).trans ran, ran,
    twoHigh, foundLater, kept, fun bit member => ?_, fun gate isAdded => ?_⟩
  · rcases Matrix.mem_rows member with rfl | isBit
    · have drivable := (Netlist.acyclic_of_signalDepths found).1
      have source : Netlist.depthAt depths Builder.falseId = 0 := by
        refine measuredBefore.undriven _ fun gate isGate _ output => ?_
        rcases drivable.wires gate isGate _ output with ⟨label, isWire⟩
        cases literals.literalFalse.symm.trans isWire
      have falseId_lt : Builder.falseId < builder.size :=
        (Array.getElem?_eq_some_iff.mp literals.literalFalse).1
      refine ⟨0, Nat.zero_le _, ?_⟩
      rw [kept _ falseId_lt, Netlist.getElem?_eq_depthAt (size ▸ falseId_lt), source]
    · have available := staged.bits bit isBit
      have inside := available.lt_size fun bit member =>
        Nat.lt_of_lt_of_le (existing bit member) staged.size_le
      exact ⟨_, available.depth_le extension staged measured stillShallow,
        Netlist.getElem?_eq_depthAt (laterSize ▸ inside)⟩
  · rcases staged.inStage isAdded with ⟨stage, lt, inStage⟩
    refine ⟨stage, lt, inStage, fun other otherAdded sameStage id pin output => ?_⟩
    rcases inStage.inputs id pin with isBit | ⟨_, earlier, isEarlier, label⟩
    · exact absurd (existing id isBit)
        (Nat.not_lt_of_le (extension.drives_new otherAdded output).1)
    · exact Nat.ne_of_gt isEarlier (sameStage.stage_eq output label)

/-- A column of five bits, one of them the output of an inverter and two of them literals, with a
column above it. -/
theorem reduce_deepens_by_stages_inverter :
    ∃ reduced after later,
      Attempt.run (lower ⟨[[4, 2, Builder.trueId, Builder.falseId, 4], [3]]⟩)
          ⟨.inferred, by decide⟩
          (((Builder.start "sum").addInput "a" 2).place .inv .inferred [2] 1) =
        (.ok reduced, after) ∧
      after.netlist.signalDepths = .ok later ∧
        ∀ bit ∈ reduced.rows.1 ++ reduced.rows.2, ∃ depth ≤ 1 + 3, later[bit]? = some depth := by
  let complete : CompleteProvider := ⟨.inferred, by decide⟩
  have literals :
      (((Builder.start "sum").addInput "a" 2).place .inv .inferred [2] 1).HasLiterals :=
    ⟨rfl, rfl⟩
  have listed : stageTargets (Matrix.maxHeight
      ⟨[[4, 2, Builder.trueId, Builder.falseId, 4], [3]]⟩) = .ok [4, 3, 2] := by
    cbv
  have found : (((Builder.start "sum").addInput "a" 2).place .inv .inferred
      [2] 1).netlist.signalDepths = .ok #[0, 0, 0, 0, 1] := rfl
  have shallow : ∀ bit ∈ Matrix.bits ⟨[[4, 2, Builder.trueId, Builder.falseId, 4], [3]]⟩,
      ∃ depth ≤ 1, #[0, 0, 0, 0, 1][bit]? = some depth := by
    decide
  rcases reduce_deepens_by_stages complete rfl rfl literals listed found shallow with
    ⟨reduced, after, later, ran, _, _, foundLater, _, rows, _⟩
  exact ⟨reduced, after, later, ran, foundLater, rows⟩

end Multiplier

end Datapath

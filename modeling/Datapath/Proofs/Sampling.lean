import Mathlib.Data.Finset.Card
import Datapath.Proofs.Combinational
import Datapath.Proofs.Outcomes

/-!
# What the registers of generated netlists read

Registers come up in the register stages of a generator only. A stage of a word reads its bits, a
stage of a matrix its distinct bits that are not literals. So no register is spare: none reads a
literal, and no two read the same signal (`Netlist.SamplesApart`), since the bits of the input ports
differ, the bits of the matrix are no bits of the input ports once these are registered, and the
result is made of new signals. What the stages read also tells how many registers there are:
`Generator.registers_needed`.
-/

namespace Datapath

/-- Every register reads one signal. None of these signals is a literal, and no two are the same. -/
structure Netlist.SamplesApart (netlist : Netlist) : Prop where
  single : ∀ gate ∈ netlist.gates.toList, gate.isRegister = true → ∃ id, gate.inputs = [id]
  varying : ∀ id ∈ netlist.sampled, netlist.literalAt id = false
  apart : netlist.sampled.Nodup

namespace Builder

variable {before after : Builder} {ids : List SignalId}

/-- A signal that was added is no literal. -/
theorem Samples.literalAt_of_size_le (samples : before.Samples after ids) {id : SignalId}
    (new : before.size ≤ id) : after.netlist.literalAt id = false := by
  rw [samples.literalAt, Netlist.literalAt, Array.getElem?_eq_none new]
  rfl

/-- From a builder without gates, the signals that the added registers read are all that registers
read. -/
theorem Samples.samplesApart (samples : before.Samples after ids)
    (noGates : before.netlist.gates = #[])
    (varying : ∀ id ∈ ids, before.netlist.literalAt id = false) (apart : ids.Nodup) :
    after.netlist.SamplesApart ∧ after.netlist.registerCount = ids.length := by
  have registers : (after.netlist.gates.toList.filter (·.isRegister)).map (·.inputs) =
      ids.map fun id => [id] := by
    rw [samples.registers, noGates]
    rfl
  have sampled : after.netlist.sampled = ids := by
    rw [Netlist.sampled, List.flatMap_def, registers, ← List.flatMap_def, List.flatMap_singleton']
  refine ⟨⟨fun gate member isRegister => ?_, ?_, ?_⟩, ?_⟩
  · have isInputs : gate.inputs ∈ ids.map fun id => [id] := by
      rw [← registers]
      exact List.mem_map_of_mem (List.mem_filter.mpr ⟨member, isRegister⟩)
    rcases List.mem_map.mp isInputs with ⟨id, _, same⟩
    exact ⟨id, same.symm⟩
  · rw [sampled, samples.literalAt]
    exact varying
  · rwa [sampled]
  · have counts := congrArg List.length registers
    rw [List.length_map, List.length_map] at counts
    rw [Netlist.registerCount, ← Array.countP_toList, List.countP_eq_length_filter]
    exact counts

namespace Opened

variable {opened built : Builder} {ports : List Port} (isOpened : opened.Opened ports)

include isOpened

theorem below_bits : Below opened.size (ports.flatMap (·.bits)) := by
  intro id bit
  rcases List.mem_flatMap.mp bit with ⟨port, member, bit⟩
  exact isOpened.lt member id bit

theorem nodup_bits : (ports.flatMap (·.bits)).Nodup := by
  rw [← isOpened.inputs]
  exact isOpened.sound.inputs.distinct

theorem literalAt_bits : ∀ id ∈ ports.flatMap (·.bits), opened.netlist.literalAt id = false := by
  rw [← isOpened.inputs]
  intro id bit
  rcases List.mem_flatMap.mp bit with ⟨port, member, bit⟩
  rcases isOpened.sound.inputs.sources port member id bit with ⟨name, index, found⟩
  rw [Netlist.literalAt, found]
  rfl

/-- What is late and no literal is new. -/
theorem size_le_of_late {id : SignalId} (late : Late opened.size id)
    (varying : opened.netlist.literalAt id = false) : opened.size ≤ id := by
  rcases late with first | new
  · have constant : opened.netlist.literalAt id = true := by
      rcases Nat.le_one_iff_eq_zero_or_eq_one.mp first with rfl | rfl
      · rw [Netlist.literalAt, show opened.netlist.signals[0]? = _ from isOpened.sound.literalFalse]
        rfl
      · rw [Netlist.literalAt, show opened.netlist.signals[1]? = _ from isOpened.sound.literalTrue]
        rfl
    rw [constant] at varying
    cases varying
  · exact new

/-- Registers of the input ports, of signals in between and of a result made of new signals are not
spare, unless what is between names a literal or the input ports again. -/
theorem samplesApart {input output : Bool} {middle result : List SignalId} {bound upper : Nat}
    (samples : opened.Samples built ((if input then ports.flatMap (·.bits) else []) ++
      (middle ++ if output then result else [])))
    (distinct : middle.Nodup) (existing : Below bound middle)
    (varying : ∀ id ∈ middle, opened.netlist.literalAt id = false)
    (apart : input = true → ∀ id ∈ middle, opened.size ≤ id) (le : opened.size ≤ bound)
    (rising : Rising bound upper result) :
    built.netlist.SamplesApart ∧ built.netlist.registerCount =
      (if input then (ports.flatMap (·.bits)).length else 0) + middle.length +
        if output then result.length else 0 := by
  have resultNodup : result.Nodup := rising.increasing.imp Nat.ne_of_lt
  have resultVarying : ∀ id ∈ result, opened.netlist.literalAt id = false := fun id member =>
    (Samples.refl opened).literalAt_of_size_le (Nat.le_trans le (rising.fresh id member).1)
  refine (samples.samplesApart isOpened.gates ?_ ?_).imp_right fun count => ?_
  · intro id member
    simp only [List.mem_append, List.mem_ite_nil_right] at member
    rcases member with ⟨_, isBit⟩ | isMiddle | ⟨_, isResult⟩
    · exact isOpened.literalAt_bits id isBit
    · exact varying id isMiddle
    · exact resultVarying id isResult
  · refine List.nodup_append.mpr ⟨?_, List.nodup_append.mpr ⟨distinct, ?_, ?_⟩, ?_⟩
    · cases input with
      | false => exact List.nodup_nil
      | true => exact isOpened.nodup_bits
    · cases output with
      | false => exact List.nodup_nil
      | true => exact resultNodup
    · intro id isMiddle other isResult
      have isResult := (List.mem_ite_nil_right.mp isResult).2
      have above := (rising.fresh other isResult).1
      exact Nat.ne_of_lt (Nat.lt_of_lt_of_le (existing id isMiddle) above)
    · intro id isBit other isLater
      rcases List.mem_ite_nil_right.mp isBit with ⟨isInput, isBit⟩
      have above : opened.size ≤ other := by
        rcases List.mem_append.mp isLater with isMiddle | isResult
        · exact apart isInput other isMiddle
        · exact Nat.le_trans le (rising.fresh other (List.mem_ite_nil_right.mp isResult).2).1
      exact Nat.ne_of_lt (Nat.lt_of_lt_of_le (isOpened.below_bits id isBit) above)
  · rw [count]
    cases input <;> cases output <;> simp [Nat.add_assoc]

end Opened

end Builder

namespace Attempt

variable {provider : CompleteProvider} {before after : Builder}

/-- A run that succeeds between register stages. -/
theorem Produces.eq_ok {α : Type} {attempt : Attempt α} {post : Nat → α → Prop} {lower : Nat}
    (produces : Produces lower attempt post) (enough : lower ≤ before.size) {result : α}
    (ran : run attempt provider before = (.ok result, after)) :
    before.Samples after [] ∧ post after.size result := by
  rcases produces provider before enough with ⟨moves, holds⟩
  rw [ran] at moves holds
  exact ⟨moves.samples, holds result rfl⟩

theorem register_samples {id q : SignalId}
    (ran : run (register id) provider before = (.ok q, after)) :
    before.Samples after ([id].filter fun id => !before.netlist.literalAt id) ∧ id < after.size ∧
      (before.netlist.literalAt id = false → before.size ≤ q) := by
  rcases register_eq_ok ran with
    ⟨value, found, rfl, rfl⟩ | ⟨⟨signal, found, varies⟩, rfl, realization, _, rfl⟩
  · have constant : after.netlist.literalAt q = true := by
      rw [Netlist.literalAt, found]
      rfl
    refine ⟨?_, (Array.getElem?_eq_some_iff.mp found).1, by simp [constant]⟩
    simpa [constant] using Builder.Samples.refl after
  · have varying : before.netlist.literalAt id = false := by
      rw [Netlist.literalAt, found]
      exact varies
    have placed : before.Samples (before.place .dff realization [id] 1) [id] :=
      Builder.samples_place before realization 1 rfl
    refine ⟨by simpa [varying] using placed, ?_, fun _ => Nat.le_refl _⟩
    exact Nat.lt_of_lt_of_le (Array.getElem?_eq_some_iff.mp found).1 placed.size_le

/-- The registers of a word read its bits that are not literals. -/
theorem registerWord_samples {word registered : List SignalId}
    (ran : run (registerWord word) provider before = (.ok registered, after)) :
    before.Samples after (word.filter fun id => !before.netlist.literalAt id) ∧
      Below after.size word ∧
      ((∀ id ∈ word, before.netlist.literalAt id = false) → ∀ q ∈ registered, before.size ≤ q) := by
  induction word generalizing before registered with
  | nil =>
      cases ran
      exact ⟨.refl _, below_nil _, fun _ => nofun⟩
  | cons id word ih =>
      rcases registerWord_cons_eq_ok ran with ⟨q, middle, rest, first, second, rfl⟩
      rcases register_samples first with ⟨samples, existing, new⟩
      rcases ih second with ⟨moreSamples, allExisting, allNew⟩
      rw [samples.literalAt] at moreSamples allNew
      refine ⟨?_, below_cons.mpr ⟨Nat.lt_of_lt_of_le existing moreSamples.size_le, allExisting⟩,
        fun varying => ?_⟩
      · rw [← List.singleton_append, List.filter_append]
        exact samples.trans moreSamples
      · rw [List.forall_mem_cons] at varying ⊢
        exact ⟨new varying.1, fun other member =>
          Nat.le_trans samples.size_le (allNew varying.2 other member)⟩

end Attempt

open Builder (Samples)

/-- A register stage reads its word, if it is enabled, and what it returns is new. -/
theorem Generator.registerStage_samples {provider : CompleteProvider} {before after : Builder}
    {enabled : Bool} {scope : String} {word registered : List SignalId}
    (varying : ∀ id ∈ word, before.netlist.literalAt id = false)
    (ran : Attempt.run (registerStage enabled scope word) provider before =
      (.ok registered, after)) :
    before.Samples after (if enabled then word else []) ∧ registered.length = word.length ∧
      (enabled = true → ∀ q ∈ registered, before.size ≤ q) := by
  cases enabled with
  | false =>
      cases ran
      exact ⟨.refl before, rfl, nofun⟩
  | true =>
      rcases Attempt.run_bind_eq_ok ran with ⟨_, entered, enters, ran⟩
      rcases Attempt.run_bind_eq_ok ran with ⟨result, middle, registers, ran⟩
      rcases Attempt.run_bind_eq_ok ran with ⟨_, left, leaves, ran⟩
      cases enters
      cases leaves
      cases ran
      rcases Attempt.registerWord_samples registers with ⟨samples, _, new⟩
      have all : word.filter (fun id => !before.netlist.literalAt id) = word :=
        List.filter_eq_self.mpr fun id member => by simp [varying id member]
      refine ⟨?_, Attempt.length_registerWord registers, fun _ => new varying⟩
      rw [if_pos rfl, ← all]
      exact { samples with }

namespace Multiplier

namespace Matrix

/-- What the register stage of a matrix reads, if it is enabled: the distinct bits of the matrix
that are not literals. -/
def stageBits (enabled : Bool) (matrix : Matrix) (literal : SignalId → Bool) : List SignalId :=
  if enabled then matrix.distinctBits.filter fun id => !literal id else []

variable {enabled : Bool} {matrix : Matrix} {literal : SignalId → Bool}

theorem mem_stageBits {id : SignalId} : id ∈ matrix.stageBits enabled literal ↔
    enabled = true ∧ id ∈ matrix.bits ∧ literal id = false := by
  simp [stageBits, mem_distinctBits]

theorem nodup_stageBits : (matrix.stageBits enabled literal).Nodup := by
  cases enabled with
  | false => exact List.nodup_nil
  | true => exact matrix.nodup_distinctBits.filter _

theorem length_stageBits : (matrix.stageBits enabled literal).length =
    if enabled then (matrix.bits.toFinset.filter fun id => literal id = false).card else 0 := by
  rw [← List.toFinset_card_of_nodup nodup_stageBits, ← Finset.card_empty (α := SignalId),
    ← apply_ite Finset.card]
  congr 1
  ext id
  cases enabled <;> simp [mem_stageBits]

end Matrix

theorem delayMatrix_samples {provider : CompleteProvider} {before after : Builder}
    {enabled : Bool} {matrix delayed : Matrix}
    (ran : Attempt.run (delayMatrix enabled matrix) provider before = (.ok delayed, after)) :
    before.Samples after (matrix.stageBits enabled before.netlist.literalAt) ∧
      Below after.size (matrix.stageBits enabled before.netlist.literalAt) := by
  cases enabled with
  | false =>
      cases ran
      exact ⟨.refl before, below_nil _⟩
  | true =>
      rcases Attempt.run_bind_eq_ok ran with ⟨_, entered, enters, ran⟩
      rcases Attempt.run_bind_eq_ok ran with ⟨result, middle, registers, ran⟩
      rcases Attempt.run_bind_eq_ok registers with ⟨_, last, registers, finishes⟩
      rcases Attempt.run_bind_eq_ok ran with ⟨_, left, leaves, ran⟩
      cases enters
      cases finishes
      cases leaves
      cases ran
      rcases Attempt.registerWord_samples registers with ⟨samples, existing, _⟩
      exact ⟨{ samples with }, fun id member => existing id (List.mem_filter.mp member).1⟩

end Multiplier

/-- The registers of a generated adder. -/
theorem Adder.Options.registers_of_generate {options : Options} {provider : Provider}
    {memory : Memory} {netlist : Netlist}
    (generated : options.generate provider memory = .ok netlist) :
    netlist.SamplesApart ∧ netlist.registerCount =
      options.width * (2 * options.registerInput.toNat + options.registerOutput.toNat) := by
  rcases exists_opening generated with ⟨_, _, builder, a, b, _, _, opening⟩
  have openedB := opening.opened
  rcases Attempt.run_bind_eq_ok opening.ran with ⟨shown, built, staged, delivered⟩
  rcases Attempt.run_bind_eq_ok staged with ⟨left, withLeft, stageA, staged⟩
  rcases Attempt.run_bind_eq_ok staged with ⟨right, withRight, stageB, staged⟩
  rcases Attempt.run_bind_eq_ok staged with ⟨sum, withSum, summed, stageOut⟩
  have varying := openedB.literalAt_bits
  simp only [List.flatMap_cons, List.flatMap_nil, List.append_nil, List.forall_mem_append]
    at varying
  rcases Generator.registerStage_samples varying.1 stageA with ⟨samplesA, _, _⟩
  rcases Generator.registerStage_samples (samplesA.literalAt ▸ varying.2) stageB with
    ⟨samplesB, _, _⟩
  rcases (produces_sum withRight.size left right options.algorithm (by decide)).eq_ok
    (Nat.le_refl _) summed with ⟨samplesSum, rising⟩
  rcases Generator.registerStage_samples (fun id member =>
    samplesSum.literalAt_of_size_le (rising.fresh id member).1) stageOut with
    ⟨samplesOut, widthOut, _⟩
  have samples := (samplesA.trans samplesB).trans (samplesSum.trans samplesOut)
  rcases Attempt.deliver_eq_ok (samples.outputs.trans openedB.outputs) delivered with
    ⟨rfl, isWidth⟩
  have read : builder.Samples built
      ((if options.registerInput then [(⟨"a", a⟩ : Port), ⟨"b", b⟩].flatMap (·.bits) else []) ++
        ([] ++ if options.registerOutput then sum else [])) := by
    cases registered : options.registerInput <;> simpa [registered] using samples
  rcases openedB.samplesApart read List.nodup_nil (below_nil _) nofun (fun _ => nofun)
    (samplesA.trans samplesB).size_le rising with ⟨apart, count⟩
  refine ⟨⟨apart.single, apart.varying, apart.apart⟩, count.trans ?_⟩
  have width : sum.length = options.width := widthOut.symm.trans isWidth
  cases options.registerInput <;> cases options.registerOutput <;>
    simp [opening.widthA, opening.widthB, width] <;> omega

namespace Multiplier.Options

/-- The assembly up to the matrix of the product and the addend, before its registers if it gets
any. -/
def formation (options : Options) (memory : Memory) : Attempt Matrix := do
  Build.setPowered options.powered
  Build.note (.generatingMultiplier options.width options.scheme options.finalAdder
    options.multiplyAdd (← Build.providerName))
  let a ← Attempt.input memory "a" options.width
  let b ← Attempt.input memory "b" options.width
  let c ← (if options.multiplyAdd then Attempt.input memory "c" (2 * options.width) else pure [])
  let a ← Generator.registerStage options.registerInput Generator.inputScope a
  let b ← Generator.registerStage options.registerInput Generator.inputScope b
  let c ← Generator.registerStage options.registerInput Generator.inputScope c
  let matrix ← partialProducts options.scheme a b
  let matrix ← Build.pushAll matrix (c.zipIdx.map fun (bit, column) => (column, bit))
  return matrix.truncate (2 * options.width)

/-- An assembly forms its matrix, and then delays, reduces, sums and delivers it. -/
theorem assemble_eq_formation (options : Options) (memory : Memory) :
    options.assemble memory = options.formation memory >>= fun matrix =>
      delayMatrix options.registerMiddle matrix >>= fun matrix => reduce matrix >>= fun reduced =>
        Adder.sum reduced.rows.1 reduced.rows.2 options.finalAdder (some "final") >>= fun product =>
          Generator.registerStage options.registerOutput Generator.outputScope product >>=
            Attempt.deliver "o" (2 * options.width) := by
  rw [assemble_eq]
  simp only [formation, staged, products_eq, bind_assoc, pure_bind]

theorem flatMap_ports (options : Options) {a b c : List SignalId}
    (noAddend : options.multiplyAdd = false → c = []) :
    (options.ports a b c).flatMap (·.bits) = a ++ (b ++ c) := by
  cases added : options.multiplyAdd with
  | false => simp [ports, added, noAddend added]
  | true => simp [ports, added]

/-- From registered operands comes a matrix without the signals before them. -/
theorem produces_formed {bound lower : Nat} (le : bound ≤ lower) (options : Options)
    {left addend : List SignalId} (lateLeft : ∀ id ∈ left, Late bound id)
    (lateAddend : ∀ id ∈ addend, Late bound id) (right : List SignalId) :
    Attempt.Produces lower (do
      let matrix ← partialProducts options.scheme left right
      let matrix ← Build.pushAll matrix (addend.zipIdx.map fun (bit, column) => (column, bit))
      return matrix.truncate (2 * options.width)) fun _ matrix => matrix.AllLate bound := by
  have lateEntries : ∀ entry ∈ addend.zipIdx.map (fun (bit, column) => (column, bit)),
      Late bound entry.2 := by
    intro entry member
    have bit := List.mem_map_of_mem (f := (·.2)) member
    rw [map_snd_swap_zipIdx] at bit
    exact lateAddend entry.2 bit
  refine (produces_partialProducts le options.scheme lateLeft right).bind
    fun products n _ productsLate => ?_
  exact (Attempt.produces_lift (produces_pushAll n productsLate lateEntries)).bind
    fun pushed m _ pushedLate =>
      Attempt.produces_pure fun _ _ => pushedLate.truncate (2 * options.width)

/-- Until the matrix is there, registers read the bits of the input ports, and then the matrix has
none of these. -/
theorem formation_eq_ok {options : Options} {memory : Memory} {complete : CompleteProvider}
    {name : String} {matrix : Matrix} {formed : Builder}
    (ran : Attempt.run (options.formation memory) complete (.start name) = (.ok matrix, formed)) :
    ∃ (opened : Builder) (ports : List Port), opened.Opened ports ∧
      (ports.flatMap (·.bits)).length =
        (if options.multiplyAdd then 4 * options.width else 2 * options.width) ∧
      opened.Samples formed (if options.registerInput then ports.flatMap (·.bits) else []) ∧
      (options.registerInput = true → matrix.AllLate opened.size) := by
  rcases Generator.opening_eq_ok ran with ⟨opened, isOpened, ran⟩
  rcases Attempt.run_bind_eq_ok ran with ⟨a, withA, inputA, ran⟩
  rcases Attempt.run_bind_eq_ok ran with ⟨b, withB, inputB, ran⟩
  rcases Attempt.run_bind_eq_ok ran with ⟨c, withC, inputC, ran⟩
  rcases Attempt.input_opened isOpened inputA with ⟨openedA, widthA⟩
  rcases Attempt.input_opened openedA inputB with ⟨openedB, widthB⟩
  rcases addend_opened openedB inputC with ⟨openedAll, _, widthC⟩
  have openedC : withC.Opened (options.ports a b c) := openedAll
  have bits : (options.ports a b c).flatMap (·.bits) = a ++ (b ++ c) :=
    options.flatMap_ports fun added =>
      List.eq_nil_of_length_eq_zero (by simpa [added] using widthC)
  rcases Attempt.run_bind_eq_ok ran with ⟨left, withLeft, stageA, ran⟩
  rcases Attempt.run_bind_eq_ok ran with ⟨right, withRight, stageB, ran⟩
  rcases Attempt.run_bind_eq_ok ran with ⟨addend, withAddend, stageC, ran⟩
  have varying := openedC.literalAt_bits
  rw [bits] at varying
  simp only [List.forall_mem_append] at varying
  rcases Generator.registerStage_samples varying.1 stageA with ⟨samplesA, _, newA⟩
  rcases Generator.registerStage_samples (samplesA.literalAt ▸ varying.2.1) stageB with
    ⟨samplesB, _, newB⟩
  have samplesAB := samplesA.trans samplesB
  rcases Generator.registerStage_samples (samplesAB.literalAt ▸ varying.2.2) stageC with
    ⟨samplesC, _, newC⟩
  have samplesABC := samplesAB.trans samplesC
  -- Without registers the operands are the bits of the input ports, and the bound says nothing.
  let bound := if options.registerInput then withC.size else 0
  have bound_le : bound ≤ withC.size := by
    cases registered : options.registerInput <;> simp [bound, registered]
  have late {start : Nat} {word : List SignalId} (le : withC.size ≤ start)
      (new : options.registerInput = true → ∀ q ∈ word, start ≤ q) : ∀ q ∈ word, Late bound q := by
    intro q member
    right
    cases registered : options.registerInput with
    | false => simp [bound, registered]
    | true => simpa [bound, registered] using Nat.le_trans le (new registered q member)
  rcases (produces_formed (Nat.le_trans bound_le samplesABC.size_le) options
    (late (Nat.le_refl _) newA) (late samplesAB.size_le newC) right).eq_ok (Nat.le_refl _) ran with
    ⟨samplesFormed, allLate⟩
  refine ⟨withC, options.ports a b c, openedC, ?_, ?_, fun registered => ?_⟩
  · rw [bits, List.length_append, List.length_append, widthA, widthB, widthC]
    split <;> omega
  · have samples := samplesABC.trans samplesFormed
    rw [bits]
    cases registered : options.registerInput <;> simpa [registered] using samples
  · simpa [bound, registered] using allLate

/-- The registers of a generated multiplier. -/
theorem registers_of_generate {options : Options} {provider : Provider} {memory : Memory}
    {netlist : Netlist} (generated : options.generate provider memory = .ok netlist) :
    netlist.SamplesApart ∧ ∃ complete matrix formed, provider.complete = .ok complete ∧
      Attempt.run (options.formation memory) complete (.start options.name) =
        (.ok matrix, formed) ∧
      netlist.literalAt = formed.netlist.literalAt ∧
      netlist.registerCount =
        (if options.registerInput then
          if options.multiplyAdd then 4 * options.width else 2 * options.width else 0) +
        (if options.registerMiddle then
          (matrix.bits.toFinset.filter fun id => netlist.literalAt id = false).card else 0) +
        if options.registerOutput then 2 * options.width else 0 := by
  rcases Generator.generate_eq_ok generated with ⟨complete, after, _, isComplete, ran⟩
  rw [assemble_eq_formation] at ran
  rcases Attempt.run_bind_eq_ok ran with ⟨matrix, formed, forms, ran⟩
  rcases Attempt.run_bind_eq_ok ran with ⟨delayed, withMiddle, delays, ran⟩
  rcases Attempt.run_bind_eq_ok ran with ⟨reduced, withReduced, reduces, ran⟩
  rcases Attempt.run_bind_eq_ok ran with ⟨product, withProduct, sums, ran⟩
  rcases Attempt.run_bind_eq_ok ran with ⟨shown, built, stageOut, delivered⟩
  rcases formation_eq_ok forms with ⟨opened, ports, isOpened, bits, samplesFormed, allLate⟩
  rcases delayMatrix_samples delays with ⟨samplesMiddle, existing⟩
  rw [samplesFormed.literalAt] at samplesMiddle existing
  rcases (produces_reduce withMiddle.size delayed).eq_ok (Nat.le_refl _) reduces with
    ⟨samplesReduced, _⟩
  rcases (Adder.produces_sum withReduced.size _ _ options.finalAdder (by decide)).eq_ok
    (Nat.le_refl _) sums with ⟨samplesSum, rising⟩
  rcases Generator.registerStage_samples (fun id member =>
    samplesSum.literalAt_of_size_le (rising.fresh id member).1) stageOut with
    ⟨samplesOut, widthOut, _⟩
  have samples := samplesFormed.trans
    (samplesMiddle.trans (samplesReduced.trans (samplesSum.trans samplesOut)))
  rcases Attempt.deliver_eq_ok (samples.outputs.trans isOpened.outputs) delivered with
    ⟨rfl, isWidth⟩
  have read : opened.Samples built
      ((if options.registerInput then ports.flatMap (·.bits) else []) ++
        (matrix.stageBits options.registerMiddle opened.netlist.literalAt ++
          if options.registerOutput then product else [])) := by
    simpa using samples
  have apart (registered : options.registerInput = true) (id : SignalId)
      (member : id ∈ matrix.stageBits options.registerMiddle opened.netlist.literalAt) :
      opened.size ≤ id :=
    isOpened.size_le_of_late (allLate registered id (Matrix.mem_stageBits.mp member).2.1)
      (Matrix.mem_stageBits.mp member).2.2
  rcases isOpened.samplesApart read Matrix.nodup_stageBits
    (existing.mono samplesReduced.size_le) (fun id member => (Matrix.mem_stageBits.mp member).2.2)
    apart (samplesFormed.trans (samplesMiddle.trans samplesReduced)).size_le rising with
    ⟨samplesApart, count⟩
  have same : (built.addOutput "o" shown).netlist.literalAt = opened.netlist.literalAt :=
    samples.literalAt
  refine ⟨⟨samplesApart.single, samplesApart.varying, samplesApart.apart⟩, complete, matrix, formed,
    isComplete, forms, same.trans samplesFormed.literalAt.symm, count.trans ?_⟩
  have width : product.length = 2 * options.width := widthOut.symm.trans isWidth
  rw [same, bits, width, Matrix.length_stageBits]

end Multiplier.Options

/-- No register of a generated netlist reads a literal, and no two read the same signal. An adder
has a register for each bit of a word that passes an enabled stage. So has a multiplier, except that
its middle stage has one for each signal that stands in the matrix and is no literal. -/
theorem Generator.registers_needed :
    (∀ (options : Adder.Options) (provider : Provider) (memory : Memory) (netlist : Netlist),
      options.generate provider memory = .ok netlist →
        netlist.SamplesApart ∧ netlist.registerCount =
          options.width * (2 * options.registerInput.toNat + options.registerOutput.toNat)) ∧
    ∀ (options : Multiplier.Options) (provider : Provider) (memory : Memory) (netlist : Netlist),
      options.generate provider memory = .ok netlist →
        netlist.SamplesApart ∧ ∃ complete matrix formed, provider.complete = .ok complete ∧
          Attempt.run (options.formation memory) complete (.start options.name) =
            (.ok matrix, formed) ∧
          netlist.literalAt = formed.netlist.literalAt ∧
          netlist.registerCount =
            (if options.registerInput then
              if options.multiplyAdd then 4 * options.width else 2 * options.width else 0) +
            (if options.registerMiddle then
              (matrix.bits.toFinset.filter fun id => netlist.literalAt id = false).card else 0) +
            if options.registerOutput then 2 * options.width else 0 :=
  ⟨fun _ _ _ _ => Adder.Options.registers_of_generate,
    fun _ _ _ _ => Multiplier.Options.registers_of_generate⟩

/-- A registered adder of two bits, and a recoded multiplier of eight bits with a middle stage. The
matrix of the multiplier has five rows, of nine bits except that one of them is cut off, and four
signs with their complements. One of the signs stands in it three times, and there are literals. -/
theorem Generator.registers_needed_staged :
    (∃ netlist, Adder.Options.generate { width := 2, registerInput := true, registerOutput := true }
        (.restrictedTo Primitive.basis) = .ok netlist ∧
      netlist.SamplesApart ∧ netlist.registerCount = 6) ∧
    ∃ netlist, Multiplier.Options.generate { width := 8, registerMiddle := true } .inferred
        .unbounded = .ok netlist ∧
      netlist.SamplesApart ∧ netlist.registerCount = 52 := by
  let adder : Adder.Options := { width := 2, registerInput := true, registerOutput := true }
  let multiplier : Multiplier.Options := { width := 8, registerMiddle := true }
  constructor
  · have adds : (adder.generate (.restrictedTo Primitive.basis)).isOk = true := by decide +kernel
    cases generated : adder.generate (.restrictedTo Primitive.basis) with
    | error error =>
        rw [generated] at adds
        cases adds
    | ok netlist =>
        rcases registers_needed.1 adder _ .machine netlist generated with ⟨apart, count⟩
        exact ⟨netlist, rfl, apart, count⟩
  · have accepted : multiplier.check = .ok () := by decide +kernel
    rcases multiplier.assemble_succeeds accepted (by decide) ⟨.inferred, by decide⟩ multiplier.name
      with ⟨netlist, after, assembled, _⟩
    have generated : multiplier.generate .inferred .unbounded = .ok netlist := by
      change (Generator.generate _ _ _ _).1 = _
      rw [Generator.generate, accepted]
      exact congrArg Prod.fst assembled
    rcases registers_needed.2 multiplier .inferred .unbounded netlist generated with
      ⟨apart, complete, matrix, formed, isComplete, forms, sameLiterals, count⟩
    let run := Attempt.run (multiplier.formation .unbounded) ⟨.inferred, by decide⟩
      (.start multiplier.name)
    have distinct : (run.1.toOption.map fun matrix =>
        (matrix.bits.toFinset.filter fun id => run.2.netlist.literalAt id = false).card) =
          some 52 := by
      decide +kernel
    cases isComplete
    have isRun : run = (.ok matrix, formed) := forms
    rw [isRun] at distinct
    refine ⟨netlist, generated, apart, count.trans ?_⟩
    rw [sameLiterals]
    simpa [multiplier] using Option.some.inj distinct

end Datapath

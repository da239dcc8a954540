import Mathlib.Data.List.Nodup
import Datapath.Proofs.Growth
import Datapath.Simulation.Simulator

/-!
# Settling and clocking

The values that a simulator holds are a valuation, `Simulator.valuation`. Reading and writing
existing signals succeeds, and `Simulator.Frame` says which signals a write leaves alone.

Gates are in sequence when none drives what an earlier one reads or drives. Settling such gates in
order succeeds, changes their outputs only, and ends in a valuation in which each of them carries
what its primitive computes: a later gate cannot spoil an earlier one. Likewise a clock edge moves
the input of each register to its output.
-/

namespace Datapath

namespace Gate

/-- All pins of the gate come before a bound. -/
def Inside (bound : Nat) (gate : Gate) : Prop :=
  Below bound gate.inputs ∧ Below bound gate.outputs

/-- The gate drives each of its outputs once and reads none of them. -/
def Loose (gate : Gate) : Prop :=
  gate.outputs.Nodup ∧ gate.outputs.Disjoint gate.inputs

/-- A later gate drives nothing that this one reads or drives. -/
def Spared (gate later : Gate) : Prop :=
  later.outputs.Disjoint gate.inputs ∧ later.outputs.Disjoint gate.outputs

/-- Each gate of the list spares what the gates before it read and drive. -/
def Sequenced (gates : List Gate) : Prop :=
  (∀ gate ∈ gates, gate.Loose) ∧ gates.Pairwise Spared

/-- Gates that drive consecutive signals, in order, and read only earlier ones are in sequence. -/
theorem sequenced_of_readsBelow {gates : List Gate} {start count : Nat}
    (legal : ∀ gate ∈ gates, gate.Legal) (readsBelow : ∀ gate ∈ gates, gate.ReadsBelow)
    (drives : gates.flatMap (·.outputs) = List.range' start count) : Sequenced gates := by
  have increasing : (gates.flatMap (·.outputs)).Pairwise (· < ·) := by
    rw [drives]
    exact List.pairwise_lt_range' _ (by omega)
  rcases List.pairwise_flatMap.mp increasing with ⟨within, across⟩
  refine ⟨fun gate member => ⟨?_, fun id driven read => ?_⟩, ?_⟩
  · exact (within gate member).imp Nat.ne_of_lt
  · exact Nat.lt_irrefl id (readsBelow gate member id driven id read)
  · refine across.imp_of_mem fun {gate later} member _ ahead => ⟨?_, ?_⟩
    · intro id driven read
      rcases exists_output (legal gate member) with ⟨output, drivesOutput⟩
      have readBefore := readsBelow gate member output drivesOutput id read
      have drivenAfter := ahead output drivesOutput id driven
      exact Nat.lt_asymm readBefore drivenAfter
    · intro id driven drivenBefore
      exact Nat.lt_irrefl id (ahead id drivenBefore id driven)

theorem Carries.congr {α : Type} [Logic α] {gate : Gate} {before after before' after' : Valuation α}
    (carries : gate.Carries before after) (sameInputs : ∀ id ∈ gate.inputs, before' id = before id)
    (sameOutputs : ∀ id ∈ gate.outputs, after' id = after id) : gate.Carries before' after' := by
  rw [Carries, List.map_congr_left sameInputs, List.map_congr_left sameOutputs]
  exact carries

end Gate

namespace Simulator

variable {α : Type}

/-- One array of values differs from another at given signals only. -/
structure Frame (changed : List SignalId) (before after : Array α) : Prop where
  size : after.size = before.size
  kept : ∀ id ∉ changed, after[id]? = before[id]?

namespace Frame

theorem refl (values : Array α) : Frame [] values values :=
  ⟨rfl, fun _ _ => rfl⟩

theorem trans {first second : List SignalId} {before middle after : Array α}
    (start : Frame first before middle) (rest : Frame second middle after) :
    Frame (first ++ second) before after where
  size := rest.size.trans start.size
  kept id unchanged := by
    simp only [List.mem_append, not_or] at unchanged
    rw [rest.kept id unchanged.2, start.kept id unchanged.1]

end Frame

theorem writeAll_cons {values : Array α} {id : SignalId} (existing : id < values.size) (value : α)
    (entries : List (SignalId × α)) :
    writeAll values ((id, value) :: entries) =
      writeAll (values.setIfInBounds id value) entries := by
  have first : write values id value = .ok (values.setIfInBounds id value) :=
    if_pos existing
  change (write values id value >>= fun values => writeAll values entries) = _
  rw [first]
  rfl

section Valuation

variable [Logic α]

/-- The value of every signal; false where there is no signal. -/
def valuation (values : Array α) : Valuation α :=
  fun id => values.getD id (Logic.ofBool false)

theorem valuation_eq_of_getElem? {before after : Array α} {id : SignalId}
    (same : after[id]? = before[id]?) : valuation after id = valuation before id := by
  simp only [valuation, Array.getD_eq_getD_getElem?, same]

theorem Frame.valuation_eq {changed : List SignalId} {before after : Array α}
    (frame : Frame changed before after) {id : SignalId} (unchanged : id ∉ changed) :
    valuation after id = valuation before id :=
  valuation_eq_of_getElem? (frame.kept id unchanged)

theorem read_eq_ok {values : Array α} {id : SignalId} (existing : id < values.size) :
    read values id = .ok (valuation values id) := by
  simp [read, valuation, existing, pure, Except.pure]

theorem mapM_read_eq_ok {values : Array α} {ids : List SignalId}
    (existing : Below values.size ids) :
    ids.mapM (read values) = .ok (ids.map (valuation values)) := by
  induction ids with
  | nil => rfl
  | cons id ids ih =>
      rcases below_cons.mp existing with ⟨here, rest⟩
      rw [List.mapM_cons, read_eq_ok here, ih rest]
      rfl

/-- Writing to existing signals succeeds, and signals that are named once get their values. -/
theorem exists_writeAll_eq_ok (entries : List (SignalId × α)) (values : Array α)
    (existing : Below values.size (entries.map (·.1))) (distinct : (entries.map (·.1)).Nodup) :
    ∃ after, writeAll values entries = .ok after ∧ Frame (entries.map (·.1)) values after ∧
      ∀ entry ∈ entries, valuation after entry.1 = entry.2 := by
  induction entries generalizing values with
  | nil => exact ⟨values, rfl, .refl values, by simp⟩
  | cons entry entries ih =>
      rcases entry with ⟨id, value⟩
      simp only [List.map_cons, below_cons, List.nodup_cons] at existing distinct
      have sizes : (values.setIfInBounds id value).size = values.size := by
        simp
      rcases ih (values.setIfInBounds id value) (sizes ▸ existing.2) distinct.2 with
        ⟨after, written, frame, values_eq⟩
      refine ⟨after, ?_, ⟨frame.size.trans sizes, fun other unchanged => ?_⟩, ?_⟩
      · rw [writeAll_cons existing.1, written]
      · simp only [List.map_cons, List.mem_cons, not_or] at unchanged
        rw [frame.kept other unchanged.2, Array.getElem?_setIfInBounds_ne (Ne.symm unchanged.1)]
      · intro other member
        rcases List.mem_cons.mp member with rfl | later
        · rw [frame.valuation_eq distinct.1]
          simp [valuation, existing.1]
        · exact values_eq other later

theorem exists_writeAll_zip_eq_ok {ids : List SignalId} {written : List α} {values : Array α}
    (existing : Below values.size ids) (distinct : ids.Nodup)
    (sameLength : ids.length = written.length) :
    ∃ after, writeAll values (ids.zip written) = .ok after ∧ Frame ids values after ∧
      ids.map (valuation after) = written := by
  have names : (ids.zip written).map (·.1) = ids := List.map_fst_zip (by omega)
  rcases exists_writeAll_eq_ok (ids.zip written) values
    (names.symm ▸ existing) (names.symm ▸ distinct) with ⟨after, isWritten, frame, values_eq⟩
  refine ⟨after, isWritten, names ▸ frame, ?_⟩
  calc ids.map (valuation after)
      = ((ids.zip written).map (·.1)).map (valuation after) := by rw [names]
    _ = (ids.zip written).map (·.2) := by
        rw [List.map_map]
        exact List.map_congr_left values_eq
    _ = written := List.map_snd_zip (by omega)

theorem exists_settleGate_eq_ok {gate : Gate} {values : Array α} (legal : gate.Legal)
    (inside : gate.Inside values.size) (loose : gate.Loose) :
    ∃ after, settleGate values gate = .ok after ∧ Frame gate.outputs values after ∧
      gate.Carries (valuation after) (valuation after) := by
  rcases Primitive.exists_evaluate_eq_ok (gate.inputs.map (valuation values))
    (by simpa [Gate.Legal] using legal) with ⟨computed, evaluated, length⟩
  rcases exists_writeAll_zip_eq_ok inside.2 loose.1 length.symm with
    ⟨after, written, frame, values_eq⟩
  refine ⟨after, ?_, frame, ?_⟩
  · rw [settleGate, mapM_read_eq_ok inside.1]
    change (gate.primitive.evaluate _ _ >>= fun outputs => _) = _
    rw [evaluated]
    exact written
  · have carried : gate.Carries (valuation values) (valuation after) := by
      rw [Gate.Carries, evaluated, values_eq]
    exact carried.congr (fun id member => frame.valuation_eq fun driven => loose.2 driven member)
      fun _ _ => rfl

/-- Settling legal gates in sequence succeeds and makes each carry what it computes. -/
theorem exists_settleGates_eq_ok {gates : List Gate} (values : Array α)
    (legal : ∀ gate ∈ gates, gate.Legal) (inside : ∀ gate ∈ gates, gate.Inside values.size)
    (sequenced : Gate.Sequenced gates) :
    ∃ after, gates.foldlM settleGate values = .ok after ∧
      Frame (gates.flatMap (·.outputs)) values after ∧
      ∀ gate ∈ gates, gate.Carries (valuation after) (valuation after) := by
  induction gates generalizing values with
  | nil => exact ⟨values, rfl, .refl values, by simp⟩
  | cons gate gates ih =>
      simp only [List.forall_mem_cons] at legal inside
      rcases sequenced with ⟨loose, ordered⟩
      rw [List.forall_mem_cons] at loose
      rw [List.pairwise_cons] at ordered
      rcases exists_settleGate_eq_ok legal.1 inside.1 loose.1 with
        ⟨middle, settled, frame, carried⟩
      rcases ih middle legal.2 (frame.size ▸ inside.2) ⟨loose.2, ordered.2⟩ with
        ⟨after, settledRest, frameRest, carriedRest⟩
      refine ⟨after, ?_, frame.trans frameRest, ?_⟩
      · rw [List.foldlM_cons, settled]
        exact settledRest
      · have untouched (pins : List SignalId)
            (spared : ∀ later ∈ gates, later.outputs.Disjoint pins) :
            ∀ id ∈ pins, valuation after id = valuation middle id := by
          intro id pin
          apply frameRest.valuation_eq
          intro driven
          rcases List.mem_flatMap.mp driven with ⟨later, member, drives⟩
          exact spared later member drives pin
        rw [List.forall_mem_cons]
        exact ⟨carried.congr (untouched _ fun later member => (ordered.1 later member).1)
          (untouched _ fun later member => (ordered.1 later member).2), carriedRest⟩

theorem exists_sampled {registers : List Gate} {values : Array α}
    (legal : ∀ gate ∈ registers, gate.Legal)
    (areRegisters : ∀ gate ∈ registers, gate.isRegister = true)
    (inside : ∀ gate ∈ registers, gate.Inside values.size) :
    ∃ sampled, registers.mapM (sampleRegister values) = .ok sampled ∧
      sampled.map (·.1) = registers.flatMap (·.outputs) ∧
        ∀ gate ∈ registers, ∃ entry ∈ sampled,
          gate.outputs = [entry.1] ∧ gate.inputs.map (valuation values) = [entry.2] := by
  induction registers with
  | nil => exact ⟨[], rfl, rfl, by simp⟩
  | cons gate registers ih =>
      simp only [List.forall_mem_cons] at legal areRegisters inside
      rcases Gate.exists_pins_of_isRegister legal.1 areRegisters.1 with
        ⟨d, q, isInputs, isOutputs⟩
      have existing : d < values.size := inside.1.1 d (by simp [isInputs])
      have here : sampleRegister values gate = .ok (q, valuation values d) := by
        simp only [sampleRegister, firstPin, isInputs, isOutputs]
        change (read values d >>= fun value => _) = _
        rw [read_eq_ok existing]
        rfl
      rcases ih legal.2 areRegisters.2 inside.2 with ⟨sampled, isSampled, keys, entries⟩
      refine ⟨(q, valuation values d) :: sampled, ?_, ?_, ?_⟩
      · rw [List.mapM_cons, here, isSampled]
        rfl
      · simp [isOutputs, keys]
      · rw [List.forall_mem_cons]
        refine ⟨⟨_, List.mem_cons_self, isOutputs, by simp [isInputs]⟩, fun other member => ?_⟩
        rcases entries other member with ⟨entry, isEntry, pins⟩
        exact ⟨entry, List.mem_cons_of_mem _ isEntry, pins⟩

/-- A clock edge succeeds and moves the input of each register to its output. -/
theorem exists_clocked {registers : List Gate} {values : Array α}
    (legal : ∀ gate ∈ registers, gate.Legal)
    (areRegisters : ∀ gate ∈ registers, gate.isRegister = true)
    (inside : ∀ gate ∈ registers, gate.Inside values.size)
    (distinct : (registers.flatMap (·.outputs)).Nodup) :
    ∃ sampled after, registers.mapM (sampleRegister values) = .ok sampled ∧
      writeAll values sampled = .ok after ∧ Frame (registers.flatMap (·.outputs)) values after ∧
        ∀ gate ∈ registers, gate.Carries (valuation values) (valuation after) := by
  rcases exists_sampled legal areRegisters inside with ⟨sampled, isSampled, keys, entries⟩
  have existing : Below values.size (registers.flatMap (·.outputs)) := by
    intro id driven
    rcases List.mem_flatMap.mp driven with ⟨gate, member, drives⟩
    exact (inside gate member).2 id drives
  rcases exists_writeAll_eq_ok sampled values (keys ▸ existing) (keys ▸ distinct) with
    ⟨after, written, frame, values_eq⟩
  refine ⟨sampled, after, isSampled, written, keys ▸ frame, fun gate member => ?_⟩
  rcases entries gate member with ⟨entry, isEntry, isOutputs, isInputs⟩
  rw [Gate.Carries, isInputs, isOutputs, (gate.isRegister_iff).mp (areRegisters gate member),
    List.map_singleton, values_eq entry isEntry]
  rfl

end Valuation

end Simulator

namespace Builder.Extension

variable {provider : Provider} {strict : Prop} {before after : Builder}

theorem sequenced (extension : Extension provider strict before after) (strictly : strict) :
    Gate.Sequenced (added before after) :=
  Gate.sequenced_of_readsBelow extension.legal (extension.readsBelow strictly) extension.drives

theorem inside (extension : Extension provider strict before after) (strictly : strict) :
    ∀ gate ∈ added before after, gate.Inside after.size := by
  intro gate member
  have outputs_lt : Below after.size gate.outputs := by
    intro id driven
    have drivenByAdded : id ∈ (added before after).flatMap (·.outputs) :=
      List.mem_flatMap.mpr ⟨gate, member, driven⟩
    rw [extension.drives, List.mem_range'_1] at drivenByAdded
    have := extension.size_le
    omega
  rcases Gate.exists_output (extension.legal gate member) with ⟨output, driven⟩
  exact ⟨(extension.readsBelow strictly gate member output driven).mono
    (Nat.le_of_lt (outputs_lt output driven)), outputs_lt⟩

/-- Gates that only read what is there settle for all values of the earlier signals. -/
theorem exists_settled {α : Type} [Logic α] (extension : Extension provider True before after)
    (given : Valuation α) :
    ∃ value : Valuation α, (∀ id < before.size, value id = given id) ∧
      Gate.Settled (added before after) value := by
  let start : Array α := Array.ofFn fun id : Fin after.size => given id
  have size : start.size = after.size := Array.size_ofFn
  rcases Simulator.exists_settleGates_eq_ok start extension.legal
    (size.symm ▸ extension.inside trivial) (extension.sequenced trivial) with
    ⟨values, _, frame, carries⟩
  refine ⟨Simulator.valuation values, fun id existing => ?_, fun gate member _ =>
    carries gate member⟩
  have undriven : id ∉ (added before after).flatMap (·.outputs) := by
    rw [extension.drives]
    intro driven
    exact absurd existing (Nat.not_lt_of_le (List.mem_range'_1.mp driven).1)
  have inside : id < after.size := Nat.lt_of_lt_of_le existing extension.size_le
  rw [frame.valuation_eq undriven]
  simp [Simulator.valuation, start, inside]

end Builder.Extension

end Datapath

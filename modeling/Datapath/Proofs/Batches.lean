import Datapath.Proofs.Images
import Datapath.Proofs.Independence

/-!
# Batches of samples

A netlist responds to one sample of each of its inputs as its simulator of truth values does:
`Netlist.respond`. A simulation of many samples gives the response to each, no matter how it shares
them out among batches and lanes. Nothing is asked of the netlist. Where it keeps a simulation from
a result it does so for all samples alike, since two samples can share a batch:
`Netlist.respond_eq_error`. The main result is `Netlist.batching_invisible`.
-/

namespace Datapath

theorem Lanes.unpack_eq {words : List UInt64} {samples : Nat} (few : samples ≤ count) :
    unpack words samples =
      if words.length > 128 then .error .wideWord
      else .ok ((List.range samples).map (sample words)) := by
  have room : Memory.machine.fits samples Memory.sampleBytes = true := by
    refine decide_eq_true ?_
    simp only [count, Memory.sampleBytes] at few ⊢
    omega
  have used : (decide (samples > count) && !words.isEmpty) = false := by
    rw [decide_eq_false (Nat.not_lt_of_le few), Bool.false_and]
  rw [unpack, used, Memory.check, if_pos room]
  rfl

/-- The positions of the samples of a batch among all samples. -/
def Lanes.positions (total batch : Nat) : List Nat :=
  List.range' (count * batch) (min (count * batch + count) total - count * batch)

/-- The batches share out the positions. -/
theorem Lanes.flatten_positions (total batches : Nat) :
    ((List.range batches).map (positions total)).flatten =
      List.range (min total (count * batches)) := by
  induction batches with
  | zero => simp
  | succ batches ih =>
      rw [List.range_succ, List.map_append, List.flatten_append, ih, List.map_singleton,
        List.flatten_singleton, positions, List.range_eq_range', List.range_eq_range',
        Nat.mul_add_one]
      by_cases inside : count * batches ≤ total
      · have joined := @List.range'_append_1 0 (count * batches)
          (min (count * batches + count) total - count * batches)
        rw [Nat.zero_add] at joined
        rw [Nat.min_eq_right inside, joined]
        congr 1
        omega
      · rw [Nat.sub_eq_zero_of_le (by omega), List.range'_zero, List.append_nil]
        congr 1
        omega

namespace Simulator

/-- Gives the bits of an input port those of a sample. -/
def setSample (simulator : Simulator Bool) (name : String) (sample : Sample) :
    Except Error (Simulator Bool) :=
  match simulator.netlist.inputPort? name with
  | none => throw (.netlist (.unknownPort name))
  | some port =>
    simulator.setInput name ((List.range port.width).map fun index => sample.getLsbD index)

/-- The value of an output port as a sample. -/
def sample (simulator : Simulator Bool) (name : String) : Except Error Sample := do
  let bits ← simulator.output name
  if bits.length > 128 then
    throw (.fault .wideWord)
  else
    return BitVec.ofNat 128 (Bits.value bits)

variable {simulator : Simulator UInt64} {name : String}

theorem setSamples_image {batch : List Sample} (few : batch.length ≤ Lanes.count)
    (lane : Fin Lanes.count) :
    (simulator.setSamples name batch).map (image (Lanes.bit lane)) =
      (simulator.image (Lanes.bit lane)).setSample name (batch.getD lane 0) := by
  rw [setSamples, if_neg (Nat.not_lt_of_le few), setSample, image]
  cases simulator.netlist.inputPort? name with
  | none => rfl
  | some port =>
      dsimp only
      rw [← Lanes.bit_words, Lanes.pack_eq_ok few]
      exact setInput_image (Lanes.bit lane) simulator name (Lanes.words batch port.width)

theorem samples_eq {count : Nat} (few : count ≤ Lanes.count) :
    simulator.samples name count = (simulator.output name >>= fun words =>
      if words.length > 128 then .error (.fault .wideWord)
      else .ok ((List.range count).map (Lanes.sample words))) := by
  rw [samples]
  refine congrArg (_ >>= ·) (funext fun words => ?_)
  rw [Lanes.unpack_eq few]
  by_cases wide : words.length > 128
  · rw [if_pos wide, if_pos wide]
    rfl
  · rw [if_neg wide, if_neg wide]
    rfl

theorem length_of_samples {count : Nat} (few : count ≤ Lanes.count) {results : List Sample}
    (taken : simulator.samples name count = .ok results) : results.length = count := by
  rw [samples_eq few] at taken
  rcases Except.bind_eq_ok.mp taken with ⟨words, _, taken⟩
  by_cases wide : words.length > 128
  · rw [if_pos wide] at taken
    cases taken
  · rw [if_neg wide] at taken
    cases taken
    rw [List.length_map, List.length_range]

theorem samples_image {count : Nat} (few : count ≤ Lanes.count) (lane : Fin Lanes.count)
    (used : lane < count) :
    (simulator.samples name count).map (·[lane.val]?) =
      ((simulator.image (Lanes.bit lane)).sample name).map some := by
  rw [samples_eq few, sample, ← output_image]
  cases simulator.output name with
  | error cause => rfl
  | ok words =>
    change (if words.length > 128 then _ else _ : Except Error (List Sample)).map _ =
      Except.map some (if (words.map (Lanes.bit lane).map).length > 128 then _ else _)
    rw [List.length_map]
    by_cases wide : words.length > 128
    · rw [if_pos wide, if_pos wide]
      rfl
    · rw [if_neg wide, if_neg wide]
      simp [Except.map, pure, Except.pure, used]
      rfl

end Simulator

namespace Netlist

/-- The sample of an output port once a sample of each of some input ports has been held for as many
clock edges as the latency says. -/
def respond (netlist : Netlist) (inputs : List (String × Sample)) (output : String)
    (latency : Nat) : Except Error Sample := do
  let fresh : Simulator Bool ← Simulator.start netlist
  let loaded ← inputs.foldlM (fun simulator input => simulator.setSample input.1 input.2) fresh
  let settled ← loaded.settle
  (← cycles latency settled).sample output

namespace Stimulus

/-- The samples at one position; zero at a position that a port does not have. -/
def sampleAt (stimulus : Stimulus) (index : Nat) : List (String × Sample) :=
  stimulus.map fun port => (port.1, port.2.getD index 0)

/-- The stimulus of the samples at some positions. -/
def select (stimulus : Stimulus) (indices : List Nat) : Stimulus :=
  stimulus.map fun port => (port.1, indices.map (port.2.getD · 0))

/-- All ports have the same number of samples. -/
def Even (stimulus : Stimulus) : Prop :=
  ∀ port ∈ stimulus, port.2.length = stimulus.count

variable {stimulus : Stimulus}

theorem count_select (nonempty : stimulus ≠ []) (indices : List Nat) :
    (stimulus.select indices).count = indices.length := by
  cases stimulus with
  | nil => exact absurd rfl nonempty
  | cons port ports => exact List.length_map ..

theorem even_select (stimulus : Stimulus) (indices : List Nat) :
    (stimulus.select indices).Even := by
  intro port member
  rcases List.mem_map.mp member with ⟨origin, inside, rfl⟩
  rw [count_select (List.ne_nil_of_mem inside), List.length_map]

theorem sampleAt_select {indices : List Nat} {index : Nat} (inside : index < indices.length) :
    (stimulus.select indices).sampleAt index = stimulus.sampleAt indices[index] := by
  rw [sampleAt, select, List.map_map]
  refine List.map_congr_left fun port _ => ?_
  simp [inside]

/-- A slice of samples is a selection of consecutive positions. -/
theorem slice_eq_ok {first past : Nat} (enough : ∀ port ∈ stimulus, past ≤ port.2.length) :
    stimulus.slice first past = .ok (stimulus.select (List.range' first (past - first))) := by
  refine Except.mapM_eq_ok fun port member => ?_
  rcases port with ⟨name, samples⟩
  have inside : past ≤ samples.length := enough (name, samples) member
  dsimp only
  rw [if_neg (Nat.not_lt_of_le inside)]
  refine congrArg (fun samples => Except.ok (name, samples)) (List.ext_getElem ?_ ?_)
  · simp
    omega
  · intro index taken _
    simp only [List.length_take, List.length_drop] at taken
    have here : first + index < samples.length := by omega
    simp [here]

theorem load_image (even : stimulus.Even) (few : stimulus.count ≤ Lanes.count)
    (lane : Fin Lanes.count) (simulator : Simulator UInt64) :
    (stimulus.load simulator).map (Simulator.image (Lanes.bit lane)) =
      (stimulus.sampleAt lane).foldlM (fun simulator input => simulator.setSample input.1 input.2)
        (simulator.image (Lanes.bit lane)) := by
  refine Except.map_foldlM (fun port member simulator => ?_) simulator
  rcases port with ⟨name, samples⟩
  have length := even (name, samples) member
  dsimp only at length ⊢
  rw [if_neg (not_not_intro length)]
  exact Simulator.setSamples_image (length.symm ▸ few) lane

end Stimulus

variable (netlist : Netlist) {stimulus : Stimulus} (output : String) (latency : Nat)

/-- A batch shows in each of its lanes the response to the samples of that lane. -/
theorem simulateBatch_lane (even : stimulus.Even) (few : stimulus.count ≤ Lanes.count)
    (lane : Fin Lanes.count) (used : lane < stimulus.count) :
    (netlist.simulateBatch stimulus output latency).map (·[lane.val]?) =
      (netlist.respond (stimulus.sampleAt lane) output latency).map some := by
  change _ = some <$> netlist.respond (stimulus.sampleAt lane) output latency
  simp only [simulateBatch, if_neg (Nat.not_lt_of_le few), respond, map_bind]
  rw [← Simulator.start_image (Lanes.bit lane)]
  refine Except.map_bind fun fresh => ?_
  rw [← Stimulus.load_image even few lane]
  refine Except.map_bind fun loaded => ?_
  rw [← Simulator.settle_image, ← Except.map_liftM]
  refine Except.map_bind fun settled => ?_
  rw [← Simulator.cycles_image, ← Except.map_liftM]
  exact Except.map_bind fun last => Simulator.samples_image few lane used

theorem length_of_simulateBatch (few : stimulus.count ≤ Lanes.count) {results : List Sample}
    (simulated : netlist.simulateBatch stimulus output latency = .ok results) :
    results.length = stimulus.count := by
  rw [simulateBatch, if_neg (Nat.not_lt_of_le few)] at simulated
  rcases Except.bind_eq_ok.mp simulated with ⟨fresh, _, simulated⟩
  rcases Except.bind_eq_ok.mp simulated with ⟨loaded, _, simulated⟩
  rcases Except.bind_eq_ok.mp simulated with ⟨settled, _, simulated⟩
  rcases Except.bind_eq_ok.mp simulated with ⟨last, _, simulated⟩
  exact Simulator.length_of_samples few simulated

theorem simulateBatch_cases (even : stimulus.Even) (few : stimulus.count ≤ Lanes.count) :
    (∃ results : List Sample, results.length = stimulus.count ∧
      netlist.simulateBatch stimulus output latency = .ok results ∧
      ∀ index < stimulus.count,
        netlist.respond (stimulus.sampleAt index) output latency = .ok (results.getD index 0)) ∨
    ∃ error, netlist.simulateBatch stimulus output latency = .error error ∧
      ∀ index < stimulus.count,
        netlist.respond (stimulus.sampleAt index) output latency = .error error := by
  have lanes (index : Nat) (used : index < stimulus.count) :=
    simulateBatch_lane netlist output latency even few ⟨index, Nat.lt_of_lt_of_le used few⟩ used
  cases simulated : netlist.simulateBatch stimulus output latency with
  | ok results =>
      have length := length_of_simulateBatch netlist output latency few simulated
      refine .inl ⟨results, length, rfl, fun index used => ?_⟩
      have inside : index < results.length := length ▸ used
      apply Except.map_injective (Option.some_injective Sample)
      rw [← lanes index used, simulated]
      simp [Except.map, inside]
  | error error =>
      refine .inr ⟨error, rfl, fun index used => ?_⟩
      apply Except.map_injective (Option.some_injective Sample)
      rw [← lanes index used, simulated]
      rfl

/-- A batch of selected samples gives the response to each of them, or to none. -/
theorem simulateBatch_select_cases (nonempty : stimulus ≠ []) {indices : List Nat}
    (few : indices.length ≤ Lanes.count) :
    (∃ results : List Sample, results.length = indices.length ∧
      netlist.simulateBatch (stimulus.select indices) output latency = .ok results ∧
      ∀ index (_ : index < indices.length),
        netlist.respond (stimulus.sampleAt indices[index]) output latency =
          .ok (results.getD index 0)) ∨
    ∃ error, netlist.simulateBatch (stimulus.select indices) output latency = .error error ∧
      ∀ index ∈ indices,
        netlist.respond (stimulus.sampleAt index) output latency = .error error := by
  have count := Stimulus.count_select nonempty indices
  have even := Stimulus.even_select stimulus indices
  rcases simulateBatch_cases netlist output latency even (count ▸ few) with
    ⟨results, length, simulated, responded⟩ | ⟨error, simulated, responded⟩
  · rw [count] at length responded
    refine .inl ⟨results, length, simulated, fun index inside => ?_⟩
    rw [← Stimulus.sampleAt_select inside]
    exact responded index inside
  · rw [count] at responded
    refine .inr ⟨error, simulated, fun item member => ?_⟩
    rcases List.getElem_of_mem member with ⟨index, inside, rfl⟩
    rw [← Stimulus.sampleAt_select inside]
    exact responded index inside

theorem simulateBatch_select (nonempty : stimulus ≠ []) {indices : List Nat} (used : indices ≠ [])
    (few : indices.length ≤ Lanes.count) :
    netlist.simulateBatch (stimulus.select indices) output latency =
      indices.mapM fun index => netlist.respond (stimulus.sampleAt index) output latency := by
  rcases simulateBatch_select_cases netlist output latency nonempty few with
    ⟨results, length, simulated, responded⟩ | ⟨error, simulated, responded⟩
  · rw [simulated, eq_comm, Except.mapM_eq_ok_iff, List.forall₂_iff_get]
    refine ⟨length.symm, fun index inside inResults => ?_⟩
    rw [List.get_eq_getElem, responded index inside]
    simp [inResults]
  · rw [simulated, Except.mapM_eq_error used responded]

/-- What keeps a netlist from responding to a sample keeps it from responding to any other: both can
share a batch. -/
theorem respond_eq_error (left right : Nat) {error : Error}
    (failed : netlist.respond (stimulus.sampleAt left) output latency = .error error) :
    netlist.respond (stimulus.sampleAt right) output latency = .error error := by
  by_cases nonempty : stimulus = []
  · subst stimulus
    exact failed
  · have few : [left, right].length ≤ Lanes.count := Nat.le_of_ble_eq_true rfl
    rcases simulateBatch_select_cases netlist output latency nonempty few with
      ⟨results, _, _, responded⟩ | ⟨cause, _, responded⟩
    · have first := responded 0 Nat.zero_lt_two
      cases first.symm.trans failed
    · have first := responded left (by simp)
      cases first.symm.trans failed
      exact responded right (by simp)

/-- A simulation of many samples gives the response to each of them. -/
theorem simulateAll_eq (nonempty : stimulus ≠ []) (even : stimulus.Even) :
    netlist.simulateAll stimulus output latency = (List.range stimulus.count).mapM fun index =>
      netlist.respond (stimulus.sampleAt index) output latency := by
  have whole : min stimulus.count
      (Lanes.count * ((stimulus.count + Lanes.count - 1) / Lanes.count)) = stimulus.count := by
    simp only [Lanes.count]
    omega
  rw [← whole, ← Lanes.flatten_positions, Except.mapM_flatten, List.mapM_map]
  refine congrArg (Except.map List.flatten) (Except.mapM_congr fun batch inside => ?_)
  have enough (port) (member : port ∈ stimulus) :
      min (Lanes.count * batch + Lanes.count) stimulus.count ≤ port.2.length := by
    rw [even port member]
    exact Nat.min_le_right _ _
  dsimp only
  rw [Stimulus.slice_eq_ok enough]
  rw [List.mem_range] at inside
  have filled : 0 < (Lanes.positions stimulus.count batch).length ∧
      (Lanes.positions stimulus.count batch).length ≤ Lanes.count := by
    simp only [Lanes.positions, List.length_range', Lanes.count] at inside ⊢
    omega
  exact simulateBatch_select netlist output latency nonempty
    (List.ne_nil_of_length_pos filled.1) filled.2

/-- Batching is invisible. For any netlist, output and latency and any ports with the same number of
samples: results of a simulation of all samples are one for each, the one that a batch of this
sample alone has, and the simulation fails just when the batch of a sample alone does, no matter
which, and in the same way. -/
theorem batching_invisible (netlist : Netlist) (stimulus : Stimulus) (output : String)
    (latency count : Nat) (nonempty : stimulus ≠ [])
    (even : ∀ port ∈ stimulus, port.2.length = count) :
    (∀ results, netlist.simulateAll stimulus output latency = .ok results →
      results.length = count ∧ ∀ index < count, ∃ result, results[index]? = some result ∧
        netlist.simulateBatch (stimulus.select [index]) output latency = .ok [result]) ∧
    ∀ error, ∀ index < count, netlist.simulateAll stimulus output latency = .error error ↔
      netlist.simulateBatch (stimulus.select [index]) output latency = .error error := by
  have counts : stimulus.count = count := by
    cases stimulus with
    | nil => exact absurd rfl nonempty
    | cons port ports => exact even port List.mem_cons_self
  have all := simulateAll_eq netlist output latency nonempty fun port member =>
    (even port member).trans counts.symm
  have single (index : Nat) := simulateBatch_select netlist output latency nonempty
    (List.cons_ne_nil index []) (Nat.le_of_ble_eq_true rfl)
  have alike (error : Error) (left right : Nat) :=
    @respond_eq_error netlist stimulus output latency left right error
  simp only [all, counts, single]
  refine ⟨fun results simulated => ?_, fun error index inside => ?_⟩
  · rcases List.forall₂_iff_get.mp (Except.mapM_eq_ok_iff.mp simulated) with ⟨length, responded⟩
    rw [List.length_range] at length
    refine ⟨length.symm, fun index inside => ?_⟩
    have inResults : index < results.length := length ▸ inside
    refine ⟨results[index], List.getElem?_eq_getElem inResults, ?_⟩
    have here := responded index (by rwa [List.length_range]) inResults
    rw [List.get_eq_getElem, List.getElem_range, List.get_eq_getElem] at here
    exact Except.mapM_eq_ok_iff.mpr (.cons here .nil)
  · rw [Except.mapM_eq_error_iff (alike error) (List.mem_range.mpr inside),
      Except.mapM_eq_error_iff (alike error) (List.mem_singleton.mpr rfl)]

/-- Of sixty-five samples, the last has a batch of its own. -/
theorem batching_invisible_shiftRegister :
    ∃ results,
      Simulator.shiftRegister.simulateAll [("a", List.replicate 65 2)] "o" 2 = .ok results ∧
        results.length = 65 ∧ results[64]? = some 1 := by
  have single : Simulator.shiftRegister.simulateBatch
      (Stimulus.select [("a", List.replicate 65 2)] [64]) "o" 2 = .ok [1] := by
    decide +kernel
  rcases batching_invisible Simulator.shiftRegister [("a", List.replicate 65 2)] "o" 2 65
    (List.cons_ne_nil _ _) (by simp) with ⟨shown, failed⟩
  cases simulated : Simulator.shiftRegister.simulateAll [("a", List.replicate 65 2)] "o" 2 with
  | error error => cases single.symm.trans ((failed error 64 (by decide)).mp simulated)
  | ok results =>
      rcases shown results simulated with ⟨length, each⟩
      rcases each 64 (by decide) with ⟨result, there, alone⟩
      cases single.symm.trans alone
      exact ⟨results, rfl, length, there⟩

end Netlist

end Datapath

import Datapath.Netlist.Depth
import Datapath.Proofs.Coherence
import Datapath.Proofs.Synchronous

/-!
# Depths of signals

`Netlist.Measured` is the equation for depths: zero for what no combinational gate drives, and for
the outputs of a gate one more than the greatest depth of its inputs. Without loops it has at most
one solution. The loop that enters depths in the order of evaluation finds it, because no gate
changes the depth of what an earlier gate reads.

Gates that are added and read only what comes before them change no earlier depth.
-/

namespace Datapath

open Simulator (Frame)

namespace Netlist

/-- The function gives every signal its depth. -/
structure Measured (netlist : Netlist) (depth : SignalId → Nat) : Prop where
  driven : ∀ gate ∈ netlist.gates.toList, gate.isCombinational = true → ∀ id ∈ gate.outputs,
    depth id = 1 + (gate.inputs.map depth).foldl max 0
  undriven : ∀ id, (∀ gate ∈ netlist.gates.toList, gate.isCombinational = true →
    id ∉ gate.outputs) → depth id = 0

variable {netlist : Netlist} {depth : SignalId → Nat}

/-- Without loops there is one depth for each signal. -/
theorem Measured.unique {other : SignalId → Nat} (measured : netlist.Measured depth)
    (again : netlist.Measured other) (acyclic : WellFounded netlist.Feeds) : depth = other := by
  funext id
  induction id using signal_induction acyclic with
  | undriven id undriven => rw [measured.undriven id undriven, again.undriven id undriven]
  | driven gate member combinational agree id output =>
      rw [measured.driven gate member combinational id output,
        again.driven gate member combinational id output, List.map_congr_left agree]

/-- The depths that an array holds, zero beyond its end. -/
def depthAt (depths : Array Nat) (id : SignalId) : Nat :=
  depths.getD id 0

theorem depthAt_eq_of_frame {changed : List SignalId} {before after : Array Nat}
    (frame : Frame changed before after) {id : SignalId} (unchanged : id ∉ changed) :
    depthAt after id = depthAt before id := by
  simp only [depthAt, Array.getD_eq_getD_getElem?, frame.kept id unchanged]

theorem frame_foldl_setIfInBounds (ids : List SignalId) (value : Nat) (depths : Array Nat) :
    Frame ids depths (ids.foldl (fun depths id => depths.setIfInBounds id value) depths) := by
  induction ids generalizing depths with
  | nil => exact .refl depths
  | cons id ids ih =>
      have set : Frame [id] depths (depths.setIfInBounds id value) :=
        ⟨Array.size_setIfInBounds, fun other unchanged =>
          Array.getElem?_setIfInBounds_ne (Ne.symm (List.ne_of_not_mem_cons unchanged))⟩
      exact set.trans (ih _)

theorem depthAt_foldl_setIfInBounds {ids : List SignalId} {depths : Array Nat}
    (inside : Below depths.size ids) (value : Nat) {id : SignalId} (member : id ∈ ids) :
    depthAt (ids.foldl (fun depths id => depths.setIfInBounds id value) depths) id = value := by
  induction ids generalizing depths with
  | nil => exact absurd member List.not_mem_nil
  | cons first ids ih =>
      rcases below_cons.mp inside with ⟨first_lt, rest_lt⟩
      rw [List.foldl_cons]
      by_cases later : id ∈ ids
      · exact ih (by rwa [Array.size_setIfInBounds]) later
      · have isFirst : id = first := (List.mem_cons.mp member).resolve_right later
        subst isFirst
        rw [depthAt_eq_of_frame (frame_foldl_setIfInBounds ids value _) later]
        simp [depthAt, first_lt]

/-- Entering the depths of gates in sequence gives each of them the depth that its inputs have in
the end. -/
theorem foldl_enterDepth {gates : List Gate} {depths : Array Nat}
    (inside : ∀ gate ∈ gates, Below depths.size gate.outputs) (sequenced : Gate.Sequenced gates) :
    Frame (gates.flatMap (·.outputs)) depths (gates.foldl enterDepth depths) ∧
      ∀ gate ∈ gates, ∀ id ∈ gate.outputs, depthAt (gates.foldl enterDepth depths) id =
        1 + (gate.inputs.map (depthAt (gates.foldl enterDepth depths))).foldl max 0 := by
  induction gates generalizing depths with
  | nil => exact ⟨.refl depths, nofun⟩
  | cons gate gates ih =>
      rw [List.forall_mem_cons] at inside
      rcases sequenced with ⟨loose, ordered⟩
      rw [List.forall_mem_cons] at loose
      rw [List.pairwise_cons] at ordered
      have frame : Frame gate.outputs depths (enterDepth depths gate) :=
        frame_foldl_setIfInBounds gate.outputs _ depths
      rcases ih (frame.size ▸ inside.2) ⟨loose.2, ordered.2⟩ with ⟨frameRest, entered⟩
      rw [List.foldl_cons]
      refine ⟨frame.trans frameRest, List.forall_mem_cons.mpr ⟨fun id output => ?_, entered⟩⟩
      have untouched (pins : List SignalId)
          (spared : ∀ later ∈ gates, later.outputs.Disjoint pins) {id : SignalId}
          (pin : id ∈ pins) :
          depthAt (gates.foldl enterDepth (enterDepth depths gate)) id =
            depthAt (enterDepth depths gate) id := by
        refine depthAt_eq_of_frame frameRest fun driven => ?_
        rcases List.mem_flatMap.mp driven with ⟨later, member, drives⟩
        exact spared later member drives pin
      have inputs : gate.inputs.map (depthAt (gates.foldl enterDepth (enterDepth depths gate))) =
          gate.inputs.map (depthAt depths) := by
        refine List.map_congr_left fun input pin => ?_
        rw [untouched _ (fun later member => (ordered.1 later member).1) pin]
        exact depthAt_eq_of_frame frame fun driven => loose.1.2 driven pin
      rw [inputs, untouched _ (fun later member => (ordered.1 later member).2) output]
      exact depthAt_foldl_setIfInBounds inside.1 _ output

/-- The depths that the loop enters along an order of gates. -/
def depthsAlong (netlist : Netlist) (order : List Nat) : Array Nat :=
  (order.filterMap (netlist.gates[·]?)).foldl enterDepth (Array.replicate netlist.signals.size 0)

/-- Whatever the order of evaluation is, what the loop finds are the depths. -/
theorem measured_depthsAlong {order : List Nat} (drivable : netlist.Drivable)
    (ordered : netlist.Ordered order) :
    (netlist.depthsAlong order).size = netlist.signals.size ∧
      netlist.Measured (depthAt (netlist.depthsAlong order)) := by
  have inside : ∀ gate ∈ order.filterMap (netlist.gates[·]?),
      Below (Array.replicate netlist.signals.size 0).size gate.outputs := by
    intro gate member id output
    rw [Array.size_replicate]
    exact (drivable.wires gate (ordered.mem_gates.mp member).1 id output).lt
  rcases foldl_enterDepth inside (ordered.sequenced drivable) with ⟨frame, entered⟩
  refine ⟨frame.size.trans Array.size_replicate, ?_, fun id undriven => ?_⟩
  · intro gate member combinational
    exact entered gate (ordered.mem_gates.mpr ⟨member, combinational⟩)
  · have start : depthAt (Array.replicate netlist.signals.size 0) id = 0 := by
      rw [depthAt, Array.getD_eq_getD_getElem?, Array.getElem?_replicate]
      split <;> rfl
    refine (depthAt_eq_of_frame frame fun driven => ?_).trans start
    rcases List.mem_flatMap.mp driven with ⟨gate, member, output⟩
    rcases ordered.mem_gates.mp member with ⟨isGate, combinational⟩
    exact undriven gate isGate combinational output

theorem signalDepths_eq_ok {depths : Array Nat} : netlist.signalDepths = .ok depths ↔
    ∃ order, netlist.combinationalOrder = .ok order ∧ netlist.depthsAlong order = depths := by
  rw [signalDepths]
  cases netlist.combinationalOrder with
  | error error => exact ⟨nofun, nofun⟩
  | ok order =>
      refine ⟨fun found => ⟨order, rfl, Except.ok.inj found⟩, ?_⟩
      rintro ⟨_, ⟨⟩, rfl⟩
      rfl

/-- What the loop finds are the depths. -/
theorem measured_of_signalDepths {depths : Array Nat} (found : netlist.signalDepths = .ok depths) :
    depths.size = netlist.signals.size ∧ netlist.Measured (depthAt depths) := by
  rcases signalDepths_eq_ok.mp found with ⟨order, listed, rfl⟩
  rcases combinationalOrder_eq_ok.mp listed with ⟨drivers, accepted, _⟩
  exact measured_depthsAlong (exists_driverMap_iff.mp ⟨drivers, accepted⟩)
    (ordered_of_combinationalOrder listed)

theorem getElem?_eq_depthAt {depths : Array Nat} {id : SignalId} (inside : id < depths.size) :
    depths[id]? = some (depthAt depths id) := by
  simp [depthAt, inside]

/-- What can be ordered has depths. -/
theorem exists_signalDepths_iff :
    (∃ depths, netlist.signalDepths = .ok depths) ↔
      ∃ order, netlist.combinationalOrder = .ok order := by
  simp only [signalDepths_eq_ok]
  exact ⟨fun ⟨_, order, listed, _⟩ => ⟨order, listed⟩,
    fun ⟨order, listed⟩ => ⟨_, order, listed, rfl⟩⟩

/-- Where depths are found, the netlist is drivable and without loops, and its combinational gates
read what exists. -/
theorem acyclic_of_signalDepths {depths : Array Nat} (found : netlist.signalDepths = .ok depths) :
    netlist.Drivable ∧ WellFounded netlist.Feeds ∧
      ∀ gate ∈ netlist.gates.toList, gate.isCombinational = true →
        Below netlist.signals.size gate.inputs := by
  rcases exists_signalDepths_iff.mp ⟨depths, found⟩ with ⟨order, listed⟩
  rcases combinationalOrder_eq_ok.mp listed with ⟨drivers, accepted, existing, _⟩
  refine ⟨exists_driverMap_iff.mp ⟨drivers, accepted⟩,
    (ordered_of_combinationalOrder listed).wellFounded, fun gate member combinational => ?_⟩
  rcases List.mem_iff_getElem?.mp member with ⟨index, isGate⟩
  rw [Array.getElem?_toList] at isGate
  exact existing (gate, index) (mem_combinationalGates.mpr ⟨isGate, combinational⟩)

end Netlist

namespace Builder.Extension

variable {provider : Provider} {strict : Prop} {before after : Builder}

theorem drives_new (extension : Extension provider strict before after) {gate : Gate}
    (member : gate ∈ added before after) {id : SignalId} (output : id ∈ gate.outputs) :
    before.size ≤ id ∧ after.netlist.IsWire id := by
  have isNew : id ∈ List.range' before.size (after.size - before.size) := by
    rw [← extension.drives]
    exact List.mem_flatMap.mpr ⟨gate, member, output⟩
  refine ⟨(List.mem_range'_1.mp isNew).1, Netlist.mem_wires.mp ?_⟩
  rw [extension.wires_eq]
  exact List.mem_append_right _ isNew

theorem drivable (extension : Extension provider strict before after)
    (drivable : before.netlist.Drivable) : after.netlist.Drivable where
  wires gate member id output := by
    rw [extension.gates] at member
    rcases List.mem_append.mp member with old | new
    · rcases drivable.wires gate old id output with ⟨label, found⟩
      exact ⟨label, extension.signal_eq_some found⟩
    · exact (extension.drives_new new output).2
  once := by
    rw [extension.gates, List.flatMap_append, extension.drives]
    refine List.nodup_append.mpr ⟨drivable.once, List.nodup_range', ?_⟩
    rintro id old other new rfl
    rcases List.mem_flatMap.mp old with ⟨gate, member, output⟩
    exact absurd (List.mem_range'_1.mp new).1
      (Nat.not_le_of_lt (drivable.wires gate member id output).lt)

theorem gate_of_lt (extension : Extension provider strict before after) {index : Nat}
    (inside : index < before.netlist.gates.size) :
    after.netlist.gates[index]? = before.netlist.gates[index]? := by
  rw [← Array.getElem?_toList, ← Array.getElem?_toList, extension.gates,
    List.getElem?_append_left (by simpa using inside)]

theorem mem_added (extension : Extension provider strict before after) {index : Nat} {gate : Gate}
    (found : after.netlist.gates[index]? = some gate)
    (outside : ¬ index < before.netlist.gates.size) : gate ∈ added before after := by
  rw [← Array.getElem?_toList, extension.gates,
    List.getElem?_append_right (by simpa using outside)] at found
  exact List.mem_of_getElem? found

section

variable (extension : Extension provider True before after)
  (acyclic : WellFounded before.netlist.Feeds)
  (existing : ∀ gate ∈ before.netlist.gates.toList, gate.isCombinational = true →
    Below before.netlist.signals.size gate.inputs)

include extension acyclic existing

/-- A gate of the earlier netlist is fed by gates of that netlist, as before. -/
theorem acc_of_lt (index : Nat) :
    index < before.netlist.gates.size → Acc after.netlist.Feeds index := by
  induction index using acyclic.induction with
  | _ index ih =>
      refine fun inside => ⟨_, fun driver feeds => ?_⟩
      rcases feeds with ⟨⟨same, foundSame, follows⟩, gate, found, combinational, id, pin, other,
        foundOther, output⟩
      rw [foundSame] at foundOther
      cases foundOther
      rw [extension.gate_of_lt inside] at found
      have member := List.mem_of_getElem? (Array.getElem?_toList.trans found)
      have id_lt := existing gate member combinational id pin
      have insideDriver : driver < before.netlist.gates.size := by
        by_contra outside
        exact absurd id_lt
          (Nat.not_lt_of_le (extension.drives_new (extension.mem_added foundSame outside) output).1)
      rw [extension.gate_of_lt insideDriver] at foundSame
      exact ih driver ⟨⟨same, foundSame, follows⟩, gate, found, combinational, id, pin, same,
        foundSame, output⟩ insideDriver

/-- What an added gate reads comes before all that it drives, so no loop closes through it. -/
theorem wellFounded : WellFounded after.netlist.Feeds := by
  have drives (id : SignalId) : ∀ (index : Nat) (gate : Gate),
      after.netlist.gates[index]? = some gate → id ∈ gate.outputs →
        Acc after.netlist.Feeds index := by
    induction id using Nat.strong_induction_on with
    | _ id ih =>
        intro index gate found output
        by_cases inside : index < before.netlist.gates.size
        · exact extension.acc_of_lt acyclic existing index inside
        · refine ⟨_, fun driver feeds => ?_⟩
          rcases feeds.2 with ⟨same, foundSame, _, input, pin, other, foundOther, drives⟩
          rw [found] at foundSame
          cases foundSame
          have new := extension.mem_added found inside
          have lt := extension.readsBelow trivial gate new id output input pin
          exact ih input lt driver other foundOther drives
  refine ⟨fun index => ⟨_, fun driver feeds => ?_⟩⟩
  rcases feeds.2 with ⟨_, _, _, input, _, other, foundOther, output⟩
  exact drives input driver other foundOther output

end

/-- Added gates that read only what comes before them leave the earlier depths as they are. -/
theorem signalDepths (extension : Extension provider True before after) {depths : Array Nat}
    (found : before.netlist.signalDepths = .ok depths) :
    ∃ later, after.netlist.signalDepths = .ok later ∧
      ∀ id < before.size, later[id]? = depths[id]? := by
  rcases Netlist.acyclic_of_signalDepths found with ⟨drivable, acyclic, existing⟩
  rcases Netlist.measured_of_signalDepths found with ⟨size, measured⟩
  have stillExisting : ∀ gate ∈ after.netlist.gates.toList, gate.isCombinational = true →
      Below after.netlist.signals.size gate.inputs := by
    intro gate member combinational
    rw [extension.gates] at member
    rcases List.mem_append.mp member with old | new
    · exact (existing gate old combinational).mono extension.size_le
    · exact (extension.inside trivial gate new).1
  rcases Netlist.exists_signalDepths_iff.mpr (Netlist.exists_combinationalOrder
    (extension.drivable drivable) stillExisting (extension.wellFounded acyclic existing)) with
    ⟨later, foundLater⟩
  rcases Netlist.measured_of_signalDepths foundLater with ⟨laterSize, measuredLater⟩
  have restricted : before.netlist.Measured
      fun id => if id < before.size then Netlist.depthAt later id else 0 := by
    constructor
    · intro gate member combinational id output
      have isLater : gate ∈ after.netlist.gates.toList := by
        rw [extension.gates]
        exact List.mem_append_left _ member
      have id_lt : id < before.size := (drivable.wires gate member id output).lt
      rw [if_pos id_lt, measuredLater.driven gate isLater combinational id output]
      refine congrArg (1 + List.foldl max 0 ·) (List.map_congr_left fun input pin => ?_)
      exact (if_pos (existing gate member combinational input pin)).symm
    · intro id undriven
      split
      · next id_lt =>
          refine measuredLater.undriven id fun gate member combinational output => ?_
          rw [extension.gates] at member
          rcases List.mem_append.mp member with old | new
          · exact undriven gate old combinational output
          · exact absurd id_lt (Nat.not_lt_of_le (extension.drives_new new output).1)
      · rfl
  have same := measured.unique restricted acyclic
  refine ⟨later, foundLater, fun id id_lt => ?_⟩
  have laterInside : id < later.size := laterSize ▸ Nat.lt_of_lt_of_le id_lt extension.size_le
  rw [Netlist.getElem?_eq_depthAt laterInside, Netlist.getElem?_eq_depthAt (size ▸ id_lt), same]
  exact congrArg some (if_pos id_lt).symm

end Builder.Extension

end Datapath

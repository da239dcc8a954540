import Mathlib.Data.Set.Insert
import Mathlib.Order.Bounds.Basic
import Datapath.Generator.Adder
import Datapath.Netlist.Summary
import Datapath.Proofs.Depths
import Datapath.Proofs.Refinement

/-!
# Paths through gates

`Netlist.Path` leads from a signal to another through combinational gates, each of which reads the
signal where the path before it ends. The depth of a signal is the number of gates on the longest
path to it: `Netlist.signalDepths_longest`. A path knows nothing of the order in which gates are
evaluated or listed, so neither order changes a depth.

What a summary reports is the longest path of the whole netlist. Whether that is the longest path
between a source and a sink depends on where the longest paths end: `Netlist.summary_depth` says
when it is, and `Netlist.summary_depth_unread` is an adder for which it is not, because the carry
out of its highest position is not read.
-/

namespace Datapath

theorem foldl_max_mem {items : List Nat} (some : items ≠ []) : items.foldl max 0 ∈ items := by
  cases items with
  | nil => exact absurd rfl some
  | cons item items =>
      rw [List.foldl_cons, Nat.zero_max]
      exact List.max?_mem List.max?_cons'

theorem le_foldl_max {items : List Nat} {item : Nat} (member : item ∈ items) :
    item ≤ items.foldl max 0 :=
  (foldl_max_le_iff.mp (Nat.le_refl _)).2 item member

theorem Except.toOption_eq_some {ε α : Type} {result : Except ε α} {value : α} :
    result.toOption = some value ↔ result = .ok value := by
  cases result <;> simp [Except.toOption]

namespace Netlist

/-- The combinational gates at some positions lead from one signal to another: the first of them
reads the one, each of the others reads an output of the gate before it, and the last drives the
other. -/
inductive Path (netlist : Netlist) (start : SignalId) : List Nat → SignalId → Prop where
  | nil : Path netlist start [] start
  | snoc {path : List Nat} {index : Nat} {gate : Gate} {input id : SignalId}
      (earlier : Path netlist start path input) (found : netlist.gates[index]? = some gate)
      (combinational : gate.isCombinational = true) (pin : input ∈ gate.inputs)
      (output : id ∈ gate.outputs) : Path netlist start (path ++ [index]) id

/-- The numbers of gates on the paths to a signal. -/
def pathLengths (netlist : Netlist) (id : SignalId) : Set Nat :=
  {length | ∃ start path, netlist.Path start path id ∧ path.length = length}

/-- The signal is there before any combinational gate: it is an input, a literal or what a register
drives. -/
def IsSource (netlist : Netlist) (id : SignalId) : Prop :=
  (∃ port bit, netlist.signals[id]? = some (.input port bit)) ∨
    (∃ value, netlist.signals[id]? = some (.literal value)) ∨ netlist.Registered id

/-- The numbers of gates on the paths from a source to a sink. -/
def spanLengths (netlist : Netlist) : Set Nat :=
  {length | ∃ source path, ∃ sink ∈ netlist.sinks, netlist.IsSource source ∧
    netlist.Path source path sink ∧ path.length = length}

variable {netlist : Netlist} {depth : SignalId → Nat}

theorem Path.start_mem_reads {start id : SignalId} {path : List Nat}
    (leads : netlist.Path start path id) (read : id ∈ netlist.reads) : start ∈ netlist.reads := by
  induction leads with
  | nil => exact read
  | snoc earlier found combinational pin output ih =>
      have member := List.mem_of_getElem? (Array.getElem?_toList.trans found)
      exact ih (mem_reads.mpr (.inl ⟨_, member, pin⟩))

theorem mem_reads_of_mem_sinks {id : SignalId} (sink : id ∈ netlist.sinks) :
    id ∈ netlist.reads := by
  rcases List.mem_append.mp sink with sampled | shown
  · rcases List.mem_flatMap.mp sampled with ⟨gate, isRegister, pin⟩
    exact mem_reads.mpr (.inl ⟨gate, (List.mem_filter.mp isRegister).1, pin⟩)
  · exact List.mem_append_right _ shown

/-! ## Depths are lengths of paths -/

namespace Measured

variable (measured : netlist.Measured depth)

include measured

/-- Each gate of a path adds at least one to the depth. -/
theorem add_length_le {start id : SignalId} {path : List Nat}
    (leads : netlist.Path start path id) : depth start + path.length ≤ depth id := by
  induction leads with
  | nil => exact Nat.le_refl _
  | snoc earlier found combinational pin output ih =>
      have member := List.mem_of_getElem? (Array.getElem?_toList.trans found)
      have le := le_foldl_max (List.mem_map_of_mem (f := depth) pin)
      rw [measured.driven _ member combinational _ output, List.length_append,
        List.length_singleton]
      omega

theorem le_of_mem_pathLengths {id : SignalId} {length : Nat}
    (isLength : length ∈ netlist.pathLengths id) : length ≤ depth id := by
  rcases isLength with ⟨start, path, leads, rfl⟩
  have le := measured.add_length_le leads
  omega

/-- A path to the deepest input of a gate goes on to its outputs. -/
theorem mem_pathLengths (acyclic : WellFounded netlist.Feeds)
    (legal : ∀ gate ∈ netlist.gates.toList, gate.Legal) (id : SignalId) :
    depth id ∈ netlist.pathLengths id := by
  induction id using signal_induction acyclic with
  | undriven id undriven => exact ⟨id, [], .nil, (measured.undriven id undriven).symm⟩
  | driven gate member combinational reached id output =>
      rcases Gate.exists_input (legal gate member) with ⟨input, pin⟩
      have some : gate.inputs.map depth ≠ [] := List.ne_nil_of_mem (List.mem_map_of_mem pin)
      rcases List.mem_map.mp (foldl_max_mem some) with ⟨deepest, isPin, isDepth⟩
      rcases reached deepest isPin with ⟨start, path, leads, length⟩
      rcases List.mem_iff_getElem?.mp member with ⟨index, found⟩
      rw [Array.getElem?_toList] at found
      refine ⟨start, path ++ [index], .snoc leads found combinational isPin output, ?_⟩
      rw [measured.driven gate member combinational id output, ← isDepth, List.length_append,
        List.length_singleton, length, Nat.add_comm]

theorem isGreatest (acyclic : WellFounded netlist.Feeds)
    (legal : ∀ gate ∈ netlist.gates.toList, gate.Legal) (id : SignalId) :
    IsGreatest (netlist.pathLengths id) (depth id) :=
  ⟨measured.mem_pathLengths acyclic legal id, fun _ => measured.le_of_mem_pathLengths⟩

/-- Where signals have depths no gate feeds itself, because the depths grow from gate to gate. -/
theorem wellFounded : WellFounded netlist.Feeds := by
  let level (index : Nat) : Nat :=
    netlist.gates[index]?.elim 0 fun gate => 1 + (gate.inputs.map depth).foldl max 0
  have grows {driver reader : Nat} (feeds : netlist.Feeds driver reader) :
      level driver < level reader := by
    rcases feeds with
      ⟨⟨gate, found, combinational⟩, other, foundOther, _, id, pin, _, again, output⟩
    cases found.symm.trans again
    have member := List.mem_of_getElem? (Array.getElem?_toList.trans found)
    have le := le_foldl_max (List.mem_map_of_mem (f := depth) pin)
    rw [measured.driven gate member combinational id output] at le
    simp only [level, found, foundOther, Option.elim_some]
    omega
  exact Subrelation.wf grows (InvImage.wf level Nat.lt_wfRel.wf)

end Measured

/-! ## Independence of order -/

theorem depths_ext {depths others : Array Nat} (size : depths.size = netlist.signals.size)
    (sizeOther : others.size = netlist.signals.size) (same : depthAt depths = depthAt others) :
    depths = others := by
  refine Array.ext (size.trans sizeOther.symm) fun id inside insideOther => ?_
  have here := congrFun same id
  simpa [depthAt, inside, insideOther] using here

section Relisted

variable {other : Netlist} (signals : other.signals = netlist.signals)
  (gates : other.gates.toList.Perm netlist.gates.toList)

include gates in
theorem Measured.relist (measured : netlist.Measured depth) : other.Measured depth where
  driven gate member := measured.driven gate (gates.mem_iff.mp member)
  undriven id undriven := measured.undriven id fun gate member =>
    undriven gate (gates.mem_iff.mpr member)

include signals gates in
theorem Drivable.relist (drivable : netlist.Drivable) : other.Drivable where
  wires gate member id output := by
    rw [IsWire, signals]
    exact drivable.wires gate (gates.mem_iff.mp member) id output
  once := (gates.flatMap_right _).nodup_iff.mpr drivable.once

include signals gates in
/-- The same gates in another order have the same depths. -/
theorem signalDepths_relist {depths : Array Nat} (found : netlist.signalDepths = .ok depths) :
    other.signalDepths = .ok depths := by
  rcases acyclic_of_signalDepths found with ⟨drivable, _, existing⟩
  rcases measured_of_signalDepths found with ⟨size, measured⟩
  have measuredOther := measured.relist gates
  have ordered := exists_combinationalOrder (drivable.relist signals gates)
    (fun gate member => signals ▸ existing gate (gates.mem_iff.mp member))
    measuredOther.wellFounded
  rcases exists_signalDepths_iff.mpr ordered with ⟨others, foundOther⟩
  rcases measured_of_signalDepths foundOther with ⟨sizeOther, isMeasured⟩
  rw [foundOther, depths_ext (signals ▸ sizeOther) size
    (isMeasured.unique measuredOther measuredOther.wellFounded)]

end Relisted

theorem IsSource.undriven {id : SignalId} (source : netlist.IsSource id)
    (drivable : netlist.Drivable) : ∀ gate ∈ netlist.gates.toList, gate.isCombinational = true →
      id ∉ gate.outputs := by
  intro gate member combinational output
  rcases drivable.wires gate member id output with ⟨label, isWire⟩
  rcases source with ⟨port, bit, found⟩ | ⟨value, found⟩ | ⟨register, isGate, isRegister, drives⟩
  · cases found.symm.trans isWire
  · cases found.symm.trans isWire
  · exact drivable.not_driven_of_register isGate isRegister drives gate member combinational output

/-- What is read has a driver, so if no combinational gate drives it, it is there before them. -/
theorem Supplied.isSource {id : SignalId} (supplied : netlist.Supplied id)
    (undriven : ∀ gate ∈ netlist.gates.toList, gate.isCombinational = true → id ∉ gate.outputs) :
    netlist.IsSource id := by
  have exist : ∃ signal, netlist.signals[id]? = some signal :=
    ⟨_, Array.getElem?_eq_getElem supplied.1⟩
  rcases exist with ⟨signal, found⟩
  cases signal with
  | input port bit => exact .inl ⟨port, bit, found⟩
  | literal value => exact .inr (.inl ⟨value, found⟩)
  | wire label =>
      rcases supplied.2 ⟨label, found⟩ with ⟨index, gate, isGate, output⟩
      have member := List.mem_of_getElem? (Array.getElem?_toList.trans isGate)
      refine .inr (.inr ⟨gate, member, ?_, output⟩)
      rw [Gate.isRegister_eq_not_isCombinational, Bool.not_eq_true', ← Bool.not_eq_true]
      exact fun combinational => undriven gate member combinational output

/-- The depths that are found for a netlist without loops are the lengths of the longest paths, and
zero for an input, a literal, the output of a register and a wire without driver. They are the same
along every order of evaluation, and however the gates are listed. -/
theorem signalDepths_longest (checked : netlist.checkDrivers = .ok ())
    (loopFree : netlist.LoopFree) :
    ∃ depths, netlist.signalDepths = .ok depths ∧ depths.size = netlist.signals.size ∧
      (∀ id < netlist.signals.size, ∃ depth, depths[id]? = some depth ∧
        IsGreatest (netlist.pathLengths id) depth ∧
        (netlist.IsSource id ∨ (∀ index, ¬ netlist.Drives index id) → depth = 0)) ∧
      (∀ order, netlist.Ordered order → netlist.depthsAlong order = depths) ∧
      ∀ other : Netlist, other.signals = netlist.signals →
        other.gates.toList.Perm netlist.gates.toList → other.signalDepths = .ok depths := by
  have runnable := runnable_of_checkDrivers checked loopFree
  rcases exists_signalDepths_iff.mpr runnable.ordered with ⟨depths, found⟩
  rcases measured_of_signalDepths found with ⟨size, measured⟩
  refine ⟨depths, found, size, fun id inside => ?_, fun order ordered => ?_,
    fun other signals gates => signalDepths_relist signals gates found⟩
  · refine ⟨depthAt depths id, getElem?_eq_depthAt (size ▸ inside),
      measured.isGreatest loopFree.wellFounded runnable.legal id, fun shallow => ?_⟩
    refine measured.undriven id fun gate member combinational output => ?_
    rcases shallow with source | undriven
    · exact source.undriven runnable.toDrivable gate member combinational output
    · rcases List.mem_iff_getElem?.mp member with ⟨index, isGate⟩
      exact undriven index ⟨gate, Array.getElem?_toList.symm.trans isGate, output⟩
  · rcases measured_depthsAlong runnable.toDrivable ordered with ⟨sizeAlong, measuredAlong⟩
    exact depths_ext sizeAlong size (measuredAlong.unique measured loopFree.wellFounded)

/-- A reader that is listed before the gate with two outputs that drives it. -/
def crossed : Netlist where
  name := "crossed"
  inputs := [⟨"a", [0]⟩, ⟨"b", [1]⟩]
  outputs := [⟨"o", [4]⟩]
  signals := #[.input "a" 0, .input "b" 0, .wire none, .wire none, .wire none]
  gates := #[⟨"xor2_0", .xor2, [2, 3], [4], .inferred⟩,
    ⟨"ha_1", .halfAdder, [0, 1], [2, 3], .inferred⟩]

theorem signalDepths_longest_crossed :
    IsGreatest (crossed.pathLengths 4) 2 ∧
      ({ crossed with gates := crossed.gates.reverse } : Netlist).signalDepths =
        .ok #[0, 0, 1, 1, 2] := by
  have listed : crossed.combinationalOrder = .ok [1, 0] := by decide +kernel
  have computed : crossed.signalDepths = .ok #[0, 0, 1, 1, 2] := by decide +kernel
  have checked : crossed.checkDrivers = .ok () := rfl
  rcases signalDepths_longest checked (loopFree_of_combinationalOrder listed) with
    ⟨depths, found, _, longest, _, relisted⟩
  cases computed.symm.trans found
  rcases longest 4 (by decide) with ⟨depth, isDepth, isGreatest, _⟩
  cases isDepth
  exact ⟨isGreatest, relisted _ rfl (by simp)⟩

/-! ## What a summary reports -/

/-- The longest path from a source to a sink is as long as the deepest sink is deep. -/
theorem Accepted.isGreatest_spanLengths (accepted : netlist.Accepted)
    (acyclic : WellFounded netlist.Feeds) (measured : netlist.Measured depth) :
    IsGreatest (insert 0 netlist.spanLengths) ((netlist.sinks.map depth).foldl max 0) := by
  constructor
  · by_cases none : netlist.sinks = []
    · rw [none]
      exact Set.mem_insert 0 _
    · have some : netlist.sinks.map depth ≠ [] := fun empty => none (List.map_eq_nil_iff.mp empty)
      rcases List.mem_map.mp (foldl_max_mem some) with ⟨sink, isSink, isDepth⟩
      rcases measured.mem_pathLengths acyclic accepted.legal sink with ⟨start, path, leads, length⟩
      have le := measured.add_length_le leads
      have read := leads.start_mem_reads (mem_reads_of_mem_sinks isSink)
      have supplied := accepted.supplied start read
      refine Set.mem_insert_of_mem _ ⟨start, path, sink, isSink, ?_, leads, length.trans isDepth⟩
      refine supplied.isSource fun gate member combinational output => ?_
      rw [measured.driven gate member combinational start output] at le
      omega
  · rintro length (rfl | ⟨source, path, sink, isSink, _, leads, rfl⟩)
    · exact Nat.zero_le _
    · exact Nat.le_trans (measured.le_of_mem_pathLengths ⟨source, path, leads, rfl⟩)
        (le_foldl_max (List.mem_map_of_mem isSink))

/-- A gate one of whose outputs is read does not end a longest path, unless that output is a
sink. -/
theorem exists_sink_of_read (legal : ∀ gate ∈ netlist.gates.toList, gate.Legal) {longest : Nat}
    (isGreatest : IsGreatest {length | ∃ id, length ∈ netlist.pathLengths id} longest)
    (read : ∀ gate ∈ netlist.gates.toList, gate.isCombinational = true →
      ∃ id ∈ gate.outputs, id ∈ netlist.reads) :
    longest = 0 ∨ ∃ sink ∈ netlist.sinks, longest ∈ netlist.pathLengths sink := by
  rcases isGreatest.1 with ⟨id, start, path, leads, rfl⟩
  cases leads with
  | nil => exact .inl rfl
  | @snoc path index gate input id earlier found combinational pin output =>
      have member := List.mem_of_getElem? (Array.getElem?_toList.trans found)
      rcases read gate member combinational with ⟨other, drives, isRead⟩
      have leads : netlist.Path start (path ++ [index]) other :=
        .snoc earlier found combinational pin drives
      refine .inr ⟨other, ?_, start, _, leads, rfl⟩
      rcases mem_reads.mp isRead with ⟨reader, isReader, reads⟩ | byPort
      · refine List.mem_append_left _ (List.mem_flatMap.mpr ⟨reader, ?_, reads⟩)
        refine List.mem_filter.mpr ⟨isReader, ?_⟩
        rw [Gate.isRegister_eq_not_isCombinational, Bool.not_eq_true', ← Bool.not_eq_true]
        intro follows
        rcases Gate.exists_output (legal reader isReader) with ⟨next, drivesNext⟩
        rcases List.mem_iff_getElem?.mp isReader with ⟨position, isAt⟩
        rw [Array.getElem?_toList] at isAt
        have longer := isGreatest.2 ⟨next, start, _, .snoc leads isAt follows reads drivesNext, rfl⟩
        rw [List.length_append, List.length_singleton] at longer
        exact Nat.not_succ_le_self _ longer
      · exact List.mem_append_right _ (List.mem_flatMap.mpr byPort)

theorem depthAt_le (depths : Array Nat) (id : SignalId) :
    depthAt depths id ≤ depths.toList.foldl max 0 := by
  by_cases inside : id < depths.size
  · exact le_foldl_max (List.mem_of_getElem?
      (Array.getElem?_toList.trans (getElem?_eq_depthAt inside)))
  · rw [depthAt, Array.getD_eq_getD_getElem?, Array.getElem?_eq_none (Nat.le_of_not_lt inside)]
    exact Nat.zero_le _

/-- The longest path of a netlist is as long as its deepest signal is deep. -/
theorem Measured.isGreatest_foldl {depths : Array Nat}
    (measured : netlist.Measured (depthAt depths)) (acyclic : WellFounded netlist.Feeds)
    (legal : ∀ gate ∈ netlist.gates.toList, gate.Legal) :
    IsGreatest {length | ∃ id, length ∈ netlist.pathLengths id} (depths.toList.foldl max 0) := by
  refine ⟨?_, fun length ⟨id, isLength⟩ =>
    Nat.le_trans (measured.le_of_mem_pathLengths isLength) (depthAt_le depths id)⟩
  by_cases none : depths.toList = []
  · rw [none]
    exact ⟨0, 0, [], .nil, rfl⟩
  · rcases List.mem_iff_getElem?.mp (foldl_max_mem none) with ⟨id, isDeepest⟩
    rw [Array.getElem?_toList] at isDeepest
    have inside := (Array.getElem?_eq_some_iff.mp isDeepest).1
    rw [Option.some.inj (isDeepest.symm.trans (getElem?_eq_depthAt inside))]
    exact ⟨id, measured.mem_pathLengths acyclic legal id⟩

/-- Some sink is as deep as anything just where a path of that length ends at a sink. -/
theorem Measured.foldl_sinks_eq_iff (measured : netlist.Measured depth)
    (acyclic : WellFounded netlist.Feeds) (legal : ∀ gate ∈ netlist.gates.toList, gate.Legal)
    {deepest : Nat} (le : (netlist.sinks.map depth).foldl max 0 ≤ deepest) :
    (netlist.sinks.map depth).foldl max 0 = deepest ↔
      deepest = 0 ∨ ∃ sink ∈ netlist.sinks, deepest ∈ netlist.pathLengths sink := by
  constructor
  · rintro rfl
    by_cases none : netlist.sinks.map depth = []
    · exact .inl (by rw [none]; rfl)
    · rcases List.mem_map.mp (foldl_max_mem none) with ⟨sink, isSink, isDeepest⟩
      exact .inr ⟨sink, isSink, isDeepest ▸ measured.mem_pathLengths acyclic legal sink⟩
  · rintro (rfl | ⟨sink, isSink, isLength⟩)
    · exact Nat.le_zero.mp le
    · exact Nat.le_antisymm le (Nat.le_trans (measured.le_of_mem_pathLengths isLength)
        (le_foldl_max (List.mem_map_of_mem isSink)))

theorem summary_eq_ok {depths : Array Nat} (found : netlist.signalDepths = .ok depths) :
    ∃ summary, netlist.summary = .ok summary ∧ summary.depth = depths.toList.foldl max 0 := by
  rw [summary, Netlist.depth, found]
  exact ⟨_, rfl, (Array.foldl_toList _).symm⟩

/-- The depth in the summary is the length of the longest path, wherever it ends. So it is at least
the length of the longest path from a source to a sink, and the same just where one of the longest
paths ends at a sink; that is so where every combinational gate has an output that is read. -/
theorem summary_depth (checked : netlist.checkDrivers = .ok ()) (loopFree : netlist.LoopFree) :
    ∃ summary spanned, netlist.summary = .ok summary ∧
      IsGreatest {length | ∃ id, length ∈ netlist.pathLengths id} summary.depth ∧
      IsGreatest (insert 0 netlist.spanLengths) spanned ∧ spanned ≤ summary.depth ∧
      (spanned = summary.depth ↔
        summary.depth = 0 ∨ ∃ sink ∈ netlist.sinks, summary.depth ∈ netlist.pathLengths sink) ∧
      ((∀ gate ∈ netlist.gates.toList, gate.isCombinational = true →
        ∃ id ∈ gate.outputs, id ∈ netlist.reads) → spanned = summary.depth) := by
  have accepted := checkDrivers_eq_ok.mp checked
  have runnable := runnable_of_checkDrivers checked loopFree
  have acyclic := loopFree.wellFounded
  rcases exists_signalDepths_iff.mpr runnable.ordered with ⟨depths, found⟩
  rcases measured_of_signalDepths found with ⟨_, measured⟩
  have isGreatest := measured.isGreatest_foldl acyclic accepted.legal
  rcases summary_eq_ok found with ⟨summary, reported, isDepth⟩
  rw [← isDepth] at isGreatest
  have le : (netlist.sinks.map (depthAt depths)).foldl max 0 ≤ summary.depth := by
    refine foldl_max_le_iff.mpr ⟨Nat.zero_le _, fun depth isSinkDepth => ?_⟩
    rcases List.mem_map.mp isSinkDepth with ⟨sink, _, rfl⟩
    exact isDepth ▸ depthAt_le depths sink
  have agree := measured.foldl_sinks_eq_iff acyclic accepted.legal le
  exact ⟨summary, _, reported, isGreatest, accepted.isGreatest_spanLengths acyclic measured, le,
    agree, fun read => agree.mpr (exists_sink_of_read accepted.legal isGreatest read)⟩

theorem summary_depth_crossed :
    ∃ summary, crossed.summary = .ok summary ∧
      IsGreatest (insert 0 crossed.spanLengths) summary.depth := by
  have listed : crossed.combinationalOrder = .ok [1, 0] := by decide +kernel
  have read : ∀ gate ∈ crossed.gates.toList, gate.isCombinational = true →
      ∃ id ∈ gate.outputs, id ∈ crossed.reads := by
    decide
  have checked : crossed.checkDrivers = .ok () := rfl
  rcases summary_depth checked (loopFree_of_combinationalOrder listed) with
    ⟨summary, spanned, reported, _, spans, _, _, agree⟩
  exact ⟨summary, reported, agree read ▸ spans⟩

/-- Two bits are added without native `ao21` gates. Nothing reads the carry out of the higher one,
at the end of five gates, whereas two gates lead to either bit of the sum. -/
theorem summary_depth_unread :
    ∃ netlist summary, Adder.Options.generate { width := 2 }
        (.restrictedTo [.and2, .inv, .dff, .xor2]) = .ok netlist ∧
      netlist.checkDrivers = .ok () ∧ netlist.LoopFree ∧ netlist.summary = .ok summary ∧
      summary.depth = 5 ∧ IsGreatest (insert 0 netlist.spanLengths) 2 := by
  let measures (netlist : Netlist) : Option (Nat × Nat) :=
    netlist.checkDrivers.toOption.bind fun _ => netlist.signalDepths.toOption.map fun depths =>
      (depths.toList.foldl max 0, (netlist.sinks.map (depthAt depths)).foldl max 0)
  have computed : (Adder.Options.generate { width := 2 }
      (.restrictedTo [.and2, .inv, .dff, .xor2])).toOption.bind measures = some (5, 2) := by
    decide +kernel
  rcases Option.bind_eq_some_iff.mp computed with ⟨netlist, generated, computed⟩
  rcases Option.bind_eq_some_iff.mp computed with ⟨_, checked, computed⟩
  rcases Option.map_eq_some_iff.mp computed with ⟨depths, found, computed⟩
  rw [Except.toOption_eq_some] at generated checked found
  rcases Prod.mk.inj computed with ⟨reported, spanned⟩
  rcases summary_eq_ok found with ⟨summary, isSummary, isDepth⟩
  rcases exists_signalDepths_iff.mp ⟨depths, found⟩ with ⟨order, listed⟩
  refine ⟨netlist, summary, generated, checked, loopFree_of_combinationalOrder listed, isSummary,
    isDepth.trans reported, ?_⟩
  have spans := (checkDrivers_eq_ok.mp checked).isGreatest_spanLengths
    (acyclic_of_signalDepths found).2.1 (measured_of_signalDepths found).2
  rwa [spanned] at spans

end Netlist

end Datapath

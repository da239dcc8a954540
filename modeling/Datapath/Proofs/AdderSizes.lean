import Datapath.Proofs.AdderDepths

/-!
# Sizes of generated adders

`Build.Places` is the specification of a step with regard to the primitives of the gates that it
adds. Where every gate of a prefix tree is native, a sum is one half adder for each position, a
conjunction and an and-or gate for each combination, and an exclusive disjunction for each position
but the lowest.

The combinations are counted row by row. Each row of a span misses as many positions as the span is
long; of these rows, only the odd half counts where only odd targets do. On the way up every row has
half as many combinations as the one before, and on the way down each has one less than on the way
up: `Adder.unregistered_size`.
-/

namespace Datapath

namespace Build

variable {α β : Type} {provider : CompleteProvider}

/-- The step adds gates, and their primitives, in the order of the gates, agree with its result. -/
def Places (provider : CompleteProvider) (step : Build α) (post : α → List Primitive → Prop) :
    Prop :=
  ∀ before : Builder, ∃ gates : List Gate,
    (run step provider before).2.netlist.gates.toList = before.netlist.gates.toList ++ gates ∧
      post (run step provider before).1 (gates.map (·.primitive))

variable {post : α → List Primitive → Prop} {final : β → List Primitive → Prop}

theorem Places.imp {step : Build α} {weaker : α → List Primitive → Prop}
    (places : Places provider step post)
    (implies : ∀ result placed, post result placed → weaker result placed) :
    Places provider step weaker := by
  intro before
  rcases places before with ⟨gates, appended, holds⟩
  exact ⟨gates, appended, implies _ _ holds⟩

theorem Places.bind {step : Build α} {next : α → Build β} (first : Places provider step post)
    (rest : ∀ result placed, post result placed →
      Places provider (next result) fun last more => final last (placed ++ more)) :
    Places provider (step >>= next) final := by
  intro before
  rcases first before with ⟨gates, appended, holds⟩
  rcases rest _ _ holds (run step provider before).2 with ⟨more, appendedMore, holdsLast⟩
  refine ⟨gates ++ more, ?_, ?_⟩
  · rw [run_bind, appendedMore, appended, List.append_assoc]
  · rw [List.map_append]
    exact holdsLast

theorem places_pure {result : α} (holds : post result []) : Places provider (pure result) post :=
  fun _ => ⟨[], (List.append_nil _).symm, holds⟩

/-- A step that adds no gate may come first. -/
theorem Places.after {step : Build α} {next : α → Build β}
    (still : ∀ before : Builder,
      (run step provider before).2.netlist.gates = before.netlist.gates)
    (rest : ∀ result, Places provider (next result) final) :
    Places provider (step >>= next) final := by
  intro before
  rcases rest (run step provider before).1 (run step provider before).2 with
    ⟨gates, appended, holds⟩
  refine ⟨gates, ?_, holds⟩
  rw [run_bind, appended, still before]

/-- Steps for the items of a list, each of which adds the same gates. -/
theorem Places.mapM {ι : Type} {step : ι → Build α} {each : List Primitive}
    (places : ∀ item, Places provider (step item) fun _ placed => placed = each)
    (items : List ι) :
    Places provider (items.mapM step) fun results placed =>
      results.length = items.length ∧ placed = (List.replicate items.length each).flatten := by
  induction items with
  | nil =>
      rw [List.mapM_nil]
      exact places_pure ⟨rfl, rfl⟩
  | cons item items ih =>
      rw [List.mapM_cons]
      refine (places item).bind fun result first here => ih.bind fun results rest there =>
        places_pure ?_
      rw [here, there.2, List.append_nil, List.length_cons, List.length_cons, there.1,
        List.replicate_succ, List.flatten_cons]
      exact ⟨rfl, rfl⟩

theorem and2_places (a b : SignalId) :
    Places provider (and2 a b) fun _ placed => placed = [.and2] := by
  intro before
  rw [and2, run_basisGate]
  exact ⟨_, Array.toList_push, rfl⟩

/-- A primitive that the provider has is one gate. -/
theorem gateOr_places {primitive : Primitive} (native : (provider.realize primitive).isSome)
    (inputs : List SignalId) (outputs : Nat) (result : SignalId → α) (decomposition : Build α) :
    Places provider (gateOr primitive inputs outputs result decomposition) fun _ placed =>
      placed = [primitive] := by
  rcases Option.isSome_iff_exists.mp native with ⟨realization, realized⟩
  intro before
  rw [run_gateOr, realized]
  exact ⟨_, Array.toList_push, rfl⟩

end Build

namespace Adder

open Build (Places)

namespace Topology

/-- The number of combinations in a tree over two to the power of `levels` positions. -/
def combinationCount (topology : Topology) (levels : Nat) : Nat :=
  match topology with
  | .brentKung => 2 * 2 ^ levels - 2 - levels
  | .koggeStone => levels * 2 ^ levels + 1 - 2 ^ levels
  | .hanCarlson => levels * 2 ^ levels / 2

variable {levels done : Nat}

theorem length_spanRow (width span : Nat) : (spanRow width span).length = width - span := by
  simp [spanRow]

theorem length_spanRows (le : done ≤ levels) :
    (((List.range done).map (2 ^ ·)).map (spanRow (2 ^ levels))).flatten.length + 2 ^ done =
      done * 2 ^ levels + 1 := by
  induction done with
  | zero => simp
  | succ done ih =>
      have fits : 2 ^ done ≤ 2 ^ levels := Nat.pow_le_pow_right Nat.two_pos (by omega)
      have before := ih (by omega)
      simp only [List.range_succ, List.map_append, List.flatten_append, List.length_append,
        List.map_cons, List.map_nil, List.flatten_singleton, length_spanRow, Nat.pow_succ,
        Nat.succ_mul]
      omega

/-- The numbers of a range that become odd when they are moved up. -/
theorem countP_odd (count start : Nat) :
    (List.range count).countP (fun index => (index + start) % 2 = 1) =
      (count + start) / 2 - start / 2 := by
  induction count with
  | zero => simp
  | succ count ih =>
      rw [List.range_succ, List.countP_append, ih, List.countP_singleton]
      by_cases odd : (count + start) % 2 = 1 <;> simp only [odd] <;> simp <;> omega

theorem length_oddTargets {width span : Nat} (fits : span ≤ width) :
    (oddTargets (spanRow width span)).length = width / 2 - span / 2 := by
  have counted := countP_odd (width - span) span
  rw [Nat.sub_add_cancel fits, List.countP_eq_length_filter] at counted
  simpa [oddTargets, spanRow, List.filter_map, Function.comp_def, List.filter_reverse] using counted

theorem two_pow_succ_half (levels : Nat) : 2 ^ (levels + 1) / 2 = 2 ^ levels := by
  rw [Nat.pow_succ, Nat.mul_div_cancel _ Nat.two_pos]

theorem length_oddRows (le : done ≤ levels) :
    (((List.range (done + 1)).map (2 ^ ·)).map
        fun span => oddTargets (spanRow (2 ^ (levels + 1)) span)).flatten.length + 2 ^ done =
      (done + 1) * 2 ^ levels + 1 := by
  induction done with
  | zero => simp [length_oddTargets Nat.one_le_two_pow, two_pow_succ_half]
  | succ done ih =>
      have fits : 2 ^ (done + 1) ≤ 2 ^ (levels + 1) := Nat.pow_le_pow_right Nat.two_pos (by omega)
      have halves : 2 ^ done ≤ 2 ^ levels := Nat.pow_le_pow_right Nat.two_pos (by omega)
      have before := ih (by omega)
      have doubled : 2 ^ (done + 1) = 2 ^ done + 2 ^ done := by rw [Nat.pow_succ]; omega
      have product : (done + 1 + 1) * 2 ^ levels = (done + 1) * 2 ^ levels + 2 ^ levels :=
        Nat.succ_mul _ _
      rw [List.range_succ]
      simp only [List.map_append, List.flatten_append, List.length_append, List.map_cons,
        List.map_nil, List.flatten_singleton, length_oddTargets fits, two_pow_succ_half]
      omega

theorem length_evenRow (width : Nat) : (evenRow width).length = width / 2 - 1 := by
  simp [evenRow]

/-- The blocks of two half strides. -/
theorem two_pow_div_stride (inside : done < levels) :
    2 ^ levels / (2 * 2 ^ done) = 2 ^ (levels - (done + 1)) := by
  rw [Nat.mul_comm, ← Nat.pow_succ, Nat.pow_div inside Nat.two_pos]

theorem two_pow_sub_succ (inside : done < levels) :
    2 ^ (levels - done) = 2 * 2 ^ (levels - (done + 1)) := by
  rw [Nat.mul_comm, ← Nat.pow_succ]
  congr 1
  omega

theorem length_upRows (le : done ≤ levels) :
    (((List.range done).map (2 ^ ·)).map (upRow (2 ^ levels))).flatten.length +
      2 ^ (levels - done) = 2 ^ levels := by
  induction done with
  | zero => simp
  | succ done ih =>
      have before := ih (by omega)
      rw [two_pow_sub_succ le] at before
      rw [List.range_succ]
      simp only [List.map_append, List.flatten_append, List.length_append, List.map_cons,
        List.map_nil, List.flatten_singleton, upRow, List.length_map, List.length_reverse,
        List.length_range, two_pow_div_stride le] at before ⊢
      omega

theorem length_downRows (le : done ≤ levels) :
    (((List.range done).map (2 ^ ·)).reverse.map (downRow (2 ^ levels))).flatten.length + done +
      2 ^ (levels - done) = 2 ^ levels := by
  induction done with
  | zero => simp
  | succ done ih =>
      have before := ih (by omega)
      have positive : 0 < 2 ^ (levels - (done + 1)) := Nat.two_pow_pos _
      rw [two_pow_sub_succ le] at before
      rw [List.range_succ]
      simp only [List.map_append, List.reverse_append, List.map_cons, List.map_nil,
        List.reverse_singleton, List.singleton_append, List.flatten_cons, List.length_append,
        downRow, List.length_map, List.length_reverse, List.length_range,
        two_pow_div_stride le] at before ⊢
      omega

theorem length_schedule (topology : Topology) (levels : Nat) :
    (topology.schedule levels).flatten.length = topology.combinationCount levels := by
  cases topology with
  | brentKung =>
      have up := length_upRows (Nat.le_refl levels)
      have down := length_downRows (Nat.le_refl levels)
      rw [Nat.sub_self] at up down
      simp only [schedule, combinationCount, Nat.one_shiftLeft, List.flatten_append,
        List.length_append]
      omega
  | koggeStone =>
      have spans := length_spanRows (Nat.le_refl levels)
      simp only [schedule, combinationCount, Nat.one_shiftLeft]
      omega
  | hanCarlson =>
      simp only [schedule, combinationCount, Nat.one_shiftLeft, List.flatten_append,
        List.length_append, List.flatten_singleton, length_evenRow]
      cases levels with
      | zero => rfl
      | succ levels =>
          have odd := length_oddRows (Nat.le_refl levels)
          have product : (levels + 1) * 2 ^ (levels + 1) / 2 = (levels + 1) * 2 ^ levels := by
            rw [Nat.pow_succ, ← Nat.mul_assoc, Nat.mul_div_cancel _ Nat.two_pos]
          have positive : 0 < 2 ^ levels := Nat.two_pow_pos levels
          rw [two_pow_succ_half, product]
          omega

end Topology

variable {provider : CompleteProvider} {width : Nat}

theorem bitGroup_places (native : (provider.realize .halfAdder).isSome) (left right : SignalId) :
    Places provider (bitGroup left right) fun _ placed => placed = [.halfAdder] := by
  refine (Build.gateOr_places native _ _ _ _).bind fun adder placed isAdder =>
    Build.places_pure ?_
  rw [isAdder, List.append_nil]

theorem joinGroups_places (native : (provider.realize .ao21).isSome) (upper lower : Group) :
    Places provider (joinGroups upper lower) fun _ placed => placed = [.and2, .ao21] := by
  refine (Build.and2_places _ _).bind fun propagate first isFirst =>
    (Build.gateOr_places native _ _ _ _).bind fun generate second isSecond =>
      Build.places_pure ?_
  rw [isFirst, isSecond]
  rfl

theorem combine_places (native : (provider.realize .ao21).isSome) {groups : Array Group}
    {combination : Combination} (lower : combination.source < combination.target)
    (inside : combination.target < groups.size) :
    Places provider (combine groups combination) fun after placed =>
      after.size = groups.size ∧ placed = [.and2, .ao21] := by
  have foundUpper := Array.getElem?_eq_getElem inside
  have foundLower := Array.getElem?_eq_getElem (Nat.lt_trans lower inside)
  rw [combine, foundUpper, foundLower]
  refine (joinGroups_places native _ _).bind fun joined placed isJoined =>
    Places.after (fun _ => rfl) fun _ => Build.places_pure ⟨Array.size_setIfInBounds, ?_⟩
  rw [isJoined, List.append_nil]

/-- Combinations add one gate for each signal of every group that they join. -/
theorem foldlM_combine_places (native : (provider.realize .ao21).isSome) {groups : Array Group}
    {row : List Combination} (inside : ∀ combination ∈ row,
      combination.source < combination.target ∧ combination.target < groups.size) :
    Places provider (row.foldlM combine groups) fun after placed =>
      after.size = groups.size ∧
        placed = (List.replicate row.length [.and2, .ao21]).flatten := by
  induction row generalizing groups with
  | nil => exact Build.places_pure ⟨rfl, rfl⟩
  | cons first rest ih =>
      rw [List.forall_mem_cons] at inside
      rw [List.foldlM_cons]
      refine (combine_places native inside.1.1 inside.1.2).bind fun combined placed here => ?_
      rcases here with ⟨sameSize, rfl⟩
      refine (ih (sameSize ▸ inside.2)).imp fun after more there => ⟨there.1.trans sameSize, ?_⟩
      rw [there.2, List.length_cons, List.replicate_succ, List.flatten_cons]

theorem combineRows_places (native : (provider.realize .ao21).isSome) (topology : Topology)
    {levels : Nat} {groups : Array Group} (size : groups.size = 2 ^ levels) :
    Places provider (combineRows groups (topology.schedule levels)) fun after placed =>
      after.size = groups.size ∧ placed =
        (List.replicate (topology.combinationCount levels) [.and2, .ao21]).flatten := by
  rw [combineRows_eq_foldlM, ← topology.length_schedule]
  refine foldlM_combine_places native ?_
  rw [size]
  exact topology.flatten_schedule_inside levels

theorem sumBits_places (native : (provider.realize .xor2).isSome) {bits finished : List Group}
    (sameWidth : bits.length = finished.length) :
    Places provider (sumBits bits finished) fun _ placed =>
      placed = List.replicate (bits.length - 1) .xor2 := by
  cases bits with
  | nil => exact Build.places_pure rfl
  | cons lowest higher =>
      have each (pair : Group × Group) :=
        Build.gateOr_places native [pair.1.propagate, pair.2.generate] 1 id
      refine (Places.mapM (fun pair => each pair _) _).bind fun sums placed isSums =>
        Build.places_pure ?_
      have count : (higher.zip finished).length = higher.length := by
        rw [List.length_zip, ← sameWidth, List.length_cons]
        omega
      rw [isSums.2, List.append_nil, count, List.flatten_replicate_singleton]
      rfl

/-- The primitives of the gates of a sum, in their order. -/
def Topology.primitives (topology : Topology) (levels : Nat) : List Primitive :=
  List.replicate (2 ^ levels) .halfAdder ++
    ((List.replicate (topology.combinationCount levels) [.and2, .ao21]).flatten ++
      List.replicate (2 ^ levels - 1) .xor2)

theorem treeSum_places (native : provider.HasTreeGates) (topology : Topology) {levels : Nat}
    {left right : List SignalId} (leftWidth : left.length = 2 ^ levels)
    (rightWidth : right.length = 2 ^ levels) :
    Places provider (treeSum topology left right) fun _ placed =>
      placed = topology.primitives levels := by
  rw [treeSum, leftWidth, Nat.log2_two_pow]
  have halfAdder := native .halfAdder (by decide)
  have ao21 := native .ao21 (by decide)
  have xor2 := native .xor2 (by decide)
  have pairs : (left.zip right).length = 2 ^ levels := by
    rw [List.length_zip, leftWidth, rightWidth, Nat.min_self]
  have opening := Places.mapM (fun pair : SignalId × SignalId =>
    bitGroup_places halfAdder pair.1 pair.2) (left.zip right)
  refine opening.bind fun bits first isFirst => Places.after (fun _ => rfl) fun _ => ?_
  rcases isFirst with ⟨count, rfl⟩
  rw [pairs] at count ⊢
  have size : bits.toArray.size = 2 ^ levels := count
  refine (combineRows_places ao21 topology size).bind fun finished tree isTree =>
    Places.after (fun _ => rfl) fun _ => Places.after (fun _ => rfl) fun _ => ?_
  rcases isTree with ⟨sameSize, rfl⟩
  refine (sumBits_places xor2 sameSize.symm).imp fun sums last isLast => ?_
  rw [isLast, count, List.flatten_replicate_singleton]
  rfl

namespace Topology

theorem count_primitives (topology : Topology) (levels : Nat) (primitive : Primitive) :
    (topology.primitives levels).count primitive =
      match primitive with
      | .halfAdder => 2 ^ levels
      | .and2 | .ao21 => topology.combinationCount levels
      | .xor2 => 2 ^ levels - 1
      | _ => 0 := by
  rw [primitives, List.count_append, List.count_append, List.count_flatten, List.map_replicate,
    List.sum_replicate]
  cases primitive <;> simp [List.count_replicate]

end Topology

/-- The gates of a generated adder without registers are those that a sum of two words adds. -/
theorem Options.gates_of_generate {options : Options} {topology : Topology} {levels : Nat}
    (width : options.width = 2 ^ levels) (isTree : options.algorithm = .tree topology)
    (noInput : options.registerInput = false) (noOutput : options.registerOutput = false)
    {provider : Provider} {memory : Memory} {netlist : Netlist}
    (generated : options.generate provider memory = .ok netlist) :
    ∃ (complete : CompleteProvider) (before : Builder) (left right : List SignalId),
      complete.toProvider = provider ∧ left.length = 2 ^ levels ∧ right.length = 2 ^ levels ∧
        before.netlist.gates = #[] ∧
        (Build.run (treeSum topology left right) complete before).2.netlist.gates =
          netlist.gates := by
  rcases exists_opening generated with ⟨complete, _, builder, a, b, accepted, _, opening⟩
  rcases Attempt.run_bind_eq_ok opening.ran with ⟨word, built, staged, delivered⟩
  have outcome := options.staged_streams opening.lt.1 opening.lt.2 complete builder word built
    (Nat.le_refl _) staged
  rcases Attempt.deliver_eq_ok (outcome.moves.extension.outputs.trans opening.opened.outputs)
    delivered with ⟨rfl, _⟩
  have accepts : (Algorithm.tree topology).checkWidth a.length = .ok () := by
    rw [opening.widthA, ← isTree]
    exact opening.checked
  have performs := sum_performs (opening.widthA.trans opening.widthB.symm) accepts (some "add")
  rw [staged_unregistered noInput noOutput, isTree, performs, Attempt.run_lift] at staged
  cases staged
  exact ⟨complete, { builder with scope := some _ }, a, b, Provider.toProvider_of_complete accepted,
    opening.widthA.trans width, opening.widthB.trans width, opening.opened.gates, rfl⟩

/-- The gates of an adder without registers, made of native gates over two to the power of `levels`
positions, are one half adder for each position, one conjunction and one and-or gate for each
combination of its tree, one exclusive disjunction for each position but the lowest, and no others.
With `n` positions, there are `n * levels - n + 1` combinations in a Kogge-Stone tree,
`n * levels / 2` in a Han-Carlson tree and `2 * n - 2 - levels` in a Brent-Kung tree. Such an adder
is generated where the provider has the basis and there is room for the operands. -/
theorem unregistered_size {provider : Provider} (native : provider.HasTreeGates) (levels : Nat)
    (options : Options) (memory : Memory) :
    (∀ topology netlist,
      (options.unregistered topology levels).generate provider memory = .ok netlist →
        netlist.gateCount .ao21 = topology.combinationCount levels ∧
          netlist.gateCount .and2 = topology.combinationCount levels ∧
          netlist.gateCount .halfAdder = 2 ^ levels ∧
          netlist.gateCount .xor2 = 2 ^ levels - 1 ∧
          ∀ gate ∈ netlist.gates, gate.primitive ∈ [.halfAdder, .and2, .ao21, .xor2]) ∧
    (provider.lacking = [] → memory.fits (2 ^ levels) Memory.wordBytes = true →
      ∀ topology, ∃ netlist,
        (options.unregistered topology levels).generate provider memory = .ok netlist) := by
  refine ⟨fun topology netlist generated => ?_, fun lacks room topology =>
    Options.exists_generate (options.check_unregistered topology levels) lacks room⟩
  rcases Options.gates_of_generate rfl rfl rfl rfl generated with
    ⟨complete, before, left, right, rfl, leftWidth, rightWidth, empty, isNetlist⟩
  rcases treeSum_places native topology leftWidth rightWidth before with ⟨gates, appended, placed⟩
  rw [isNetlist, empty] at appended
  have isGates : netlist.gates.toList = gates := appended
  rw [← isGates] at placed
  have counted (primitive : Primitive) :
      netlist.gateCount primitive = (topology.primitives levels).count primitive := by
    rw [← placed, List.count, List.countP_map, Netlist.gateCount, ← Array.countP_toList]
    rfl
  simp only [counted, topology.count_primitives, true_and]
  intro gate member
  have isPlaced : gate.primitive ∈ topology.primitives levels :=
    placed ▸ List.mem_map_of_mem (Array.mem_toList_iff.mpr member)
  have occurs := List.count_pos_iff.mpr isPlaced
  rw [topology.count_primitives] at occurs
  revert occurs
  cases gate.primitive <;> simp

/-- Adders of sixteen bits, and one of a single bit, from gates without decomposition. -/
theorem unregistered_size_inferred :
    (∃ netlist, (({} : Options).unregistered .koggeStone 4).generate .inferred = .ok netlist ∧
      netlist.gateCount .ao21 = 49 ∧ netlist.gateCount .xor2 = 15) ∧
    (∃ netlist, (({} : Options).unregistered .hanCarlson 4).generate .inferred = .ok netlist ∧
      netlist.gateCount .ao21 = 32 ∧ netlist.gateCount .xor2 = 15) ∧
    (∃ netlist, (({} : Options).unregistered .brentKung 4).generate .inferred = .ok netlist ∧
      netlist.gateCount .ao21 = 26 ∧ netlist.gateCount .xor2 = 15) ∧
    ∃ netlist, (({} : Options).unregistered .koggeStone 0).generate .inferred = .ok netlist ∧
      netlist.gateCount .ao21 = 0 ∧ netlist.gateCount .xor2 = 0 := by
  have native : Provider.inferred.HasTreeGates := fun _ _ => rfl
  have each (topology : Topology) (levels : Nat)
      (room : Memory.machine.fits (2 ^ levels) Memory.wordBytes = true) :
      ∃ netlist, (({} : Options).unregistered topology levels).generate .inferred = .ok netlist ∧
        netlist.gateCount .ao21 = topology.combinationCount levels ∧
          netlist.gateCount .xor2 = 2 ^ levels - 1 := by
    rcases unregistered_size native levels {} .machine with ⟨sizes, succeeds⟩
    rcases succeeds rfl room topology with ⟨netlist, generated⟩
    rcases sizes topology netlist generated with ⟨ao21, _, _, xor2, _⟩
    exact ⟨netlist, generated, ao21, xor2⟩
  exact ⟨each .koggeStone 4 rfl, each .hanCarlson 4 rfl, each .brentKung 4 rfl,
    each .koggeStone 0 rfl⟩

end Adder

end Datapath

import Datapath.Proofs.Acceptance
import Datapath.Proofs.Synchronous

/-!
# The worklist and loops

The evaluation order can be found by a loop over a queue of ready gates: the first of them joins the
order, and every reader of its outputs has one count taken from it, by which it may become ready in
turn. `Worklist.drain` is that loop without a bound on its rounds; a count that is taken from a gate
which lacks nothing is refused. Each round takes a gate from the queue, and each gate that joins the
queue costs a count, so the loop ends.

The counts are those of `Placement`, so nothing is refused and the loop places what
`Placement.run` does. What is never placed are just the gates that lie on a loop or depend on one:
`Netlist.combinationalOrder_decides`.
-/

namespace Datapath

/-- The state of the loop: how many awaited pins each gate still lacks, the gates that are ready,
and the order so far. -/
structure Worklist where
  lacking : Array Nat
  queue : List Nat
  order : List Nat

namespace Worklist

/-- Takes a count from what a gate lacks; a gate that lacks nothing more is ready. Refuses a gate
that lacks nothing already. -/
def release (state : Worklist) (index : Nat) : Except Fault Worklist :=
  match state.lacking[index]? with
  | some (more + 1) => pure { state with
      lacking := state.lacking.setIfInBounds index more
      queue := if more = 0 then state.queue ++ [index] else state.queue }
  | _ => throw .overflow

/-- What is left to do. -/
def measure (state : Worklist) : Nat :=
  state.lacking.toList.sum + state.queue.length

theorem sum_set {counts : List Nat} {index more : Nat} (found : counts[index]? = some (more + 1)) :
    (counts.set index more).sum + 1 = counts.sum := by
  induction counts generalizing index with
  | nil => simp at found
  | cons count counts ih =>
      cases index with
      | zero =>
          cases found
          simp only [List.set_cons_zero, List.sum_cons]
          omega
      | succ index =>
          have rest := ih (by simpa using found)
          simp only [List.set_cons_succ, List.sum_cons]
          omega

theorem measure_release {state next : Worklist} {index : Nat}
    (released : state.release index = .ok next) : next.measure ≤ state.measure := by
  rw [release] at released
  split at released
  · next more found =>
      cases released
      have sum := sum_set (Array.getElem?_toList.trans found)
      simp only [measure, Array.toList_setIfInBounds]
      split
      · rw [List.length_append, List.length_singleton]
        omega
      · omega
  · cases released

theorem measure_foldlM_release {readers : List Nat} {state next : Worklist}
    (released : readers.foldlM release state = .ok next) : next.measure ≤ state.measure := by
  induction readers generalizing state with
  | nil =>
      cases released
      exact Nat.le_refl _
  | cons reader readers ih =>
      rw [List.foldlM_cons] at released
      cases first : state.release reader with
      | error fault =>
          rw [first] at released
          cases released
      | ok middle =>
          rw [first] at released
          exact Nat.le_trans (ih released) (measure_release first)

/-- Moves ready gates to the order until there are none. -/
def drain (readersOf : Nat → List Nat) (state : Worklist) : Except Fault (List Nat) :=
  match _ : state.queue with
  | [] => pure state.order
  | index :: queue =>
    match _ : (readersOf index).foldlM release
        { state with queue, order := state.order ++ [index] } with
    | .ok next => drain readersOf next
    | .error fault => throw fault
termination_by state.measure
decreasing_by
  rename_i nonempty released
  have le := measure_foldlM_release released
  simp only [measure, nonempty, List.length_cons] at le ⊢
  omega

/-- The state in which the first part of what is placed has left the queue. -/
def ofPlacement (placement : Placement) (queue order : List Nat) : Worklist where
  lacking := placement.lacking
  queue := queue
  order := order

theorem release_ofPlacement {placement : Placement} {index : Nat} (queue order : List Nat)
    (lacks : 0 < placement.lack index) :
    (ofPlacement placement queue order).release index =
      .ok (ofPlacement (placement.supply index)
        (queue ++ if placement.lack index = 1 then [index] else []) order) := by
  have existing : index < placement.lacking.size := by
    by_contra outside
    simp [Placement.lack, outside] at lacks
  have found : placement.lacking[index]? = some (placement.lack index) := by
    simp [Placement.lack, existing]
  rw [release, Placement.supply, ofPlacement, found]
  generalize placement.lack index = lack at lacks
  rcases lack with _ | _ | more
  · cases lacks
  · rfl
  · simp [ofPlacement, pure, Except.pure]

/-- Taking counts is supplying, as long as the gates lack what is taken. -/
theorem foldlM_release_ofPlacement {readers : List Nat} (queue order : List Nat)
    {placement : Placement} (placed : placement.placed.toList = order ++ queue)
    (enough : ∀ index, readers.count index ≤ placement.lack index) :
    ∃ later, (readers.foldl Placement.supply placement).placed.toList = order ++ later ∧
      readers.foldlM release (ofPlacement placement queue order) =
        .ok (ofPlacement (readers.foldl Placement.supply placement) later order) := by
  induction readers generalizing placement queue with
  | nil => exact ⟨queue, placed, rfl⟩
  | cons reader readers ih =>
      have lacks : 0 < placement.lack reader := by
        have := enough reader
        rw [List.count_cons_self] at this
        omega
      rcases Placement.supply_eq lacks with ⟨lack_eq, placed_eq⟩
      rw [placed, List.append_assoc] at placed_eq
      have stillEnough (index : Nat) :
          readers.count index ≤ (placement.supply reader).lack index := by
        have := enough index
        rw [lack_eq]
        split
        · next same =>
            subst same
            rw [List.count_cons_self] at this
            omega
        · next other => rwa [List.count_cons_of_ne (Ne.symm other)] at this
      rcases ih _ placed_eq stillEnough with ⟨later, placedLater, released⟩
      refine ⟨later, placedLater, ?_⟩
      rw [List.foldlM_cons, release_ofPlacement queue order lacks]
      exact released

/-- With fuel for every node, the loop places what the bounded one does, and refuses nothing. -/
theorem drain_ofPlacement {node : Nat → Prop} {awaiting readersOf : Nat → List Nat} {size : Nat}
    (idle : ∀ other, ¬ node other → awaiting other = [])
    (counted : ∀ index, node index → ∀ reader,
      (readersOf index).count reader = (awaiting reader).count index)
    (node_lt : ∀ index, node index → index < size)
    {fuel : Nat} {order queue : List Nat} {placement : Placement}
    (progress : Placement.Progress node awaiting order queue placement)
    (fueled : size ≤ order.length + fuel) :
    drain readersOf (ofPlacement placement queue order) =
      .ok (Placement.run readersOf fuel order.length placement).placed.toList := by
  induction fuel generalizing order queue placement with
  | zero =>
      have empty : queue = [] := by
        have few : (order ++ queue).length ≤ (List.range size).length := by
          refine (List.subperm_of_subset progress.distinct fun index member => ?_).length_le
          exact List.mem_range.mpr (node_lt index ((progress.mem_iff index).mp member).1)
        rw [List.length_append, List.length_range] at few
        exact List.length_eq_zero_iff.mp (by omega)
      subst empty
      rw [drain, Placement.run, progress.placed, List.append_nil]
      rfl
  | succ fuel ih =>
      have head : placement.placed[order.length]? = queue.head? := by
        rw [← Array.getElem?_toList, progress.placed, List.getElem?_append_right (Nat.le_refl _),
          Nat.sub_self, List.head?_eq_getElem?]
      rw [Placement.run, head]
      cases queue with
      | nil =>
          rw [drain]
          simp only [ofPlacement, List.head?_nil, progress.placed, List.append_nil]
          rfl
      | cons index queue =>
          have isNode : node index := ((progress.mem_iff index).mp (by simp)).1
          have here := counted index isNode
          rcases progress.supply idle here with ⟨queue', next⟩
          have placed : placement.placed.toList = order ++ [index] ++ queue := by
            simp [progress.placed]
          have enough (reader : Nat) :
              (readersOf index).count reader ≤ placement.lack reader := by
            rw [progress.lack_eq here]
            omega
          rcases foldlM_release_ofPlacement queue _ placed enough with ⟨later, placed, released⟩
          have same : later = queue' := List.append_cancel_left (placed.symm.trans next.placed)
          subst same
          have length : (order ++ [index]).length = order.length + 1 := by simp
          have rest := ih next (by omega)
          rw [length] at rest
          rw [List.head?_cons, ← rest, drain]
          split
          · next empty => cases empty
          · next first others isQueue =>
              cases isQueue
              split
              · next state ran =>
                  rw [show state = _ from Except.ok.inj (ran.symm.trans released)]
              · next fault ran => cases released.symm.trans ran

end Worklist

namespace Netlist

variable {netlist : Netlist} {drivers : DriverMap}

/-- The order that the loop finds. The gates that await nothing are ready at its start. -/
def worklistOrder (netlist : Netlist) (drivers : DriverMap) : Except Fault (List Nat) :=
  Worklist.drain (netlist.readersOfGate (netlist.readers drivers))
    { lacking := (netlist.initialPlacement drivers).lacking
      queue := (netlist.initialPlacement drivers).placed.toList
      order := [] }

theorem worklistOrder_eq (accepted : netlist.driverMap = .ok drivers) :
    netlist.worklistOrder drivers = .ok (netlist.placedGates drivers) := by
  have node_lt (index : Nat) (isNode : netlist.IsNode index) : index < netlist.gates.size := by
    rcases isNode with ⟨gate, found, _⟩
    exact (Array.getElem?_eq_some_iff.mp found).1
  refine Worklist.drain_ofPlacement (fun other notNode => ?_)
    (fun index isNode => count_readersOfGate accepted isNode) node_lt
    (progress_initialPlacement netlist drivers) (by simp)
  rw [awaiting, awaitedPins_of_not_isNode notNode, List.filterMap_nil]

/-- From a gate that meets a loop there is a way back without end. -/
theorem Stuck.not_acc {index : Nat} (stuck : netlist.Stuck index) : ¬ Acc netlist.Feeds index := by
  rcases stuck with ⟨looped, loop, reach⟩
  intro accessible
  have ahead : Acc netlist.Feeds looped := by
    clear loop
    induction reach using Relation.ReflTransGen.head_induction_on with
    | refl => exact accessible
    | head feeds _ ih => exact ih.inv feeds
  have endless (index : Nat) (ends : Acc (Relation.TransGen netlist.Feeds) index) :
      ¬ Relation.TransGen netlist.Feeds index index := by
    induction ends with
    | intro index _ ih => exact fun loop => ih index loop loop
  exact endless looped ahead.transGen loop

theorem Stuck.isNode {index : Nat} (stuck : netlist.Stuck index) : netlist.IsNode index := by
  rcases stuck with ⟨looped, loop, reach⟩
  rcases Relation.TransGen.tail'_iff.mp (loop.trans_left reach) with
    ⟨_, _, _, gate, found, isComb, _⟩
  exact ⟨gate, found, isComb⟩

/-- Just the gates that meet no loop are placed. -/
theorem mem_placedGates (accepted : netlist.driverMap = .ok drivers) {index : Nat} :
    index ∈ netlist.placedGates drivers ↔ netlist.IsNode index ∧ ¬ netlist.Stuck index := by
  rcases placedGates_closed accepted with ⟨_, follows, mem_iff⟩
  constructor
  · intro placed
    refine ⟨((mem_iff index).mp placed).1, fun stuck => stuck.not_acc ?_⟩
    have accessible (before : List Nat) : ∀ after, netlist.placedGates drivers = before ++ after →
        ∀ index ∈ before, Acc netlist.Feeds index := by
      induction before using List.reverseRecOn with
      | nil => exact fun _ _ _ member => absurd member List.not_mem_nil
      | append_singleton before last ih =>
          intro after split index member
          rw [List.append_assoc, List.singleton_append] at split
          rcases List.mem_append.mp member with earlier | isLast
          · exact ih _ split index earlier
          · rw [List.mem_singleton.mp isLast]
            exact ⟨_, fun driver feeds =>
              ih _ split driver (follows before last after split driver feeds)⟩
    exact accessible _ [] (List.append_nil _).symm index placed
  · rintro ⟨isNode, free⟩
    induction acc_of_not_stuck free with
    | intro index _ ih =>
        refine (mem_iff index).mpr ⟨isNode, fun driver feeds => ih driver feeds feeds.1 ?_⟩
        rintro ⟨looped, loop, reach⟩
        exact free ⟨looped, loop, reach.tail feeds⟩

/-- The gates that are never placed. -/
theorem exists_unplaced (accepted : netlist.driverMap = .ok drivers) :
    ∃ stuck : List Nat, stuck.Nodup ∧ (∀ index, index ∈ stuck ↔ netlist.Stuck index) ∧
      (netlist.placedGates drivers).length + stuck.length = netlist.combinationalGates.length := by
  let nodes := netlist.combinationalGates.map (·.2)
  have distinct : nodes.Nodup := nodup_map_snd_combinationalGates netlist
  have mem_nodes (index : Nat) : index ∈ nodes ↔ netlist.IsNode index := by
    simp [nodes, mem_combinationalGates, IsNode]
  have placed : (nodes.filter (· ∈ netlist.placedGates drivers)).Perm
      (netlist.placedGates drivers) := by
    refine (List.perm_ext_iff_of_nodup (distinct.filter _) (placedGates_closed accepted).1).mpr ?_
    intro index
    rw [List.mem_filter, mem_nodes, decide_eq_true_iff, and_iff_right_iff_imp]
    exact fun isPlaced => ((mem_placedGates accepted).mp isPlaced).1
  refine ⟨nodes.filter fun index => !decide (index ∈ netlist.placedGates drivers),
    distinct.filter _, fun index => ?_, ?_⟩
  · rw [List.mem_filter, mem_nodes, Bool.not_eq_true', decide_eq_false_iff_not,
      mem_placedGates accepted]
    constructor
    · rintro ⟨isNode, notPlaced⟩
      by_contra free
      exact notPlaced ⟨isNode, free⟩
    · exact fun stuck => ⟨stuck.isNode, fun isPlaced => isPlaced.2 stuck⟩
  · rw [← placed.length_eq, ← List.length_eq_length_filter_add]
    exact List.length_map _

/-- The ordering of a netlist with a driver map, in which all gates read signals that exist, is
decided by its loops. The loop over ready gates ends and takes no count from a gate that lacks
nothing, and what it places is the order, if that is every combinational gate. That is so just when
no combinational gate depends on itself; the order then has every combinational gate once, no
register, and each gate after those that feed it. Otherwise the error counts the gates that lie on a
loop or depend on one. -/
theorem combinationalOrder_decides (accepted : netlist.driverMap = .ok drivers)
    (existing : ∀ gate ∈ netlist.gates.toList, Below netlist.signals.size gate.inputs) :
    (∃ placed, netlist.worklistOrder drivers = .ok placed ∧
      netlist.combinationalOrder =
        if placed.length = netlist.combinationalGates.length then .ok placed
        else .error (.netlist
          (.combinationalLoop (netlist.combinationalGates.length - placed.length)))) ∧
      ((∃ order, netlist.combinationalOrder = .ok order) ↔ netlist.LoopFree) ∧
      (∀ order, netlist.combinationalOrder = .ok order → netlist.Ordered order) ∧
      (¬ netlist.LoopFree → ∃ stuck : List Nat, stuck.Nodup ∧
        (∀ index, index ∈ stuck ↔ netlist.Stuck index) ∧
        netlist.combinationalOrder = .error (.netlist (.combinationalLoop stuck.length))) := by
  have checked (entry : Gate × Nat) (member : entry ∈ netlist.combinationalGates) :
      Below netlist.signals.size entry.1.inputs := by
    have found := (mem_combinationalGates.mp member).1
    exact existing entry.1 (List.mem_of_getElem? (Array.getElem?_toList.trans found))
  have decided := combinationalOrder_eq_placedGates accepted checked
  refine ⟨⟨_, worklistOrder_eq accepted, decided⟩, ⟨?_, fun loopFree => ?_⟩,
    fun order => ordered_of_combinationalOrder, fun loops => ?_⟩
  · rintro ⟨order, found⟩
    exact loopFree_of_combinationalOrder found
  · exact exists_combinationalOrder (exists_driverMap_iff.mp ⟨drivers, accepted⟩)
      (fun gate member _ => existing gate member) loopFree.wellFounded
  · rcases exists_unplaced accepted with ⟨stuck, distinct, mem_stuck, total⟩
    refine ⟨stuck, distinct, mem_stuck, ?_⟩
    have some : stuck ≠ [] := by
      rintro rfl
      refine loops fun index loop => ?_
      exact absurd ((mem_stuck index).mpr ⟨index, loop, .refl⟩) List.not_mem_nil
    have positive : 0 < stuck.length := List.length_pos_iff.mpr some
    rw [decided, if_neg (by omega),
      show netlist.combinationalGates.length - _ = stuck.length by omega]

/-- Two gates that read each other, one that reads the second, and one that reads the input. -/
def tangled : Netlist where
  name := "tangled"
  inputs := [⟨"a", [0]⟩]
  outputs := [⟨"o", [3, 4]⟩]
  signals := #[.input "a" 0, .wire none, .wire none, .wire none, .wire none]
  gates := #[⟨"and2_0", .and2, [0, 2], [1], .inferred⟩, ⟨"inv_1", .inv, [1], [2], .inferred⟩,
    ⟨"inv_2", .inv, [2], [3], .inferred⟩, ⟨"inv_3", .inv, [0], [4], .inferred⟩]
  clock := none

theorem combinationalOrder_decides_tangled :
    ∃ stuck : List Nat, stuck.Nodup ∧ (∀ index, index ∈ stuck ↔ tangled.Stuck index) ∧
      tangled.combinationalOrder = .error (.netlist (.combinationalLoop stuck.length)) := by
  have accepted : tangled.driverMap = .ok #[none, some 0, some 1, some 2, some 3] := rfl
  have existing : ∀ gate ∈ tangled.gates.toList, Below tangled.signals.size gate.inputs := by
    simp [tangled]
  have forth : tangled.Feeds 0 1 :=
    ⟨⟨_, rfl, rfl⟩, _, rfl, rfl, 1, by decide, _, rfl, by decide⟩
  have back : tangled.Feeds 1 0 :=
    ⟨⟨_, rfl, rfl⟩, _, rfl, rfl, 2, by decide, _, rfl, by decide⟩
  have loops : ¬ tangled.LoopFree := fun free => free 0 (.head forth (.single back))
  exact (combinationalOrder_decides accepted existing).2.2.2 loops

end Netlist

end Datapath

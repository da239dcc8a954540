import Datapath.Proofs.Drivers
import Datapath.Proofs.Placement

/-!
# The evaluation order

The combinational gates of a netlist await each other as the driver map says. The readers that the
ordering collects for a gate are counted as often as they await it, so the general account of
placing applies: an order that is found has every combinational gate once and after those that feed
it, and an order is found whenever feeding is well founded.
-/

namespace Datapath

namespace Netlist

/-- The position is that of a combinational gate. -/
def IsNode (netlist : Netlist) (index : Nat) : Prop :=
  ∃ gate, netlist.gates[index]? = some gate ∧ gate.isCombinational = true

/-- One combinational gate drives an input of another. -/
def Feeds (netlist : Netlist) (driver reader : Nat) : Prop :=
  netlist.IsNode driver ∧ ∃ gate, netlist.gates[reader]? = some gate ∧
    gate.isCombinational = true ∧ ∃ id ∈ gate.inputs, netlist.Drives driver id

/-- The list has every combinational gate once, after those that feed it. -/
structure Ordered (netlist : Netlist) (order : List Nat) : Prop where
  distinct : order.Nodup
  mem_iff : ∀ index, index ∈ order ↔ netlist.IsNode index
  follows : ∀ before index after, order = before ++ index :: after →
    ∀ driver, netlist.Feeds driver index → driver ∈ before

/-- What the gate at a position awaits, as input pins. -/
def awaitedPins (netlist : Netlist) (drivers : DriverMap) (index : Nat) : List SignalId :=
  match netlist.gates[index]? with
  | some gate => if gate.isCombinational then netlist.awaitedInputs drivers gate else []
  | none => []

/-- What the gate at a position awaits, as positions of gates. -/
def awaiting (netlist : Netlist) (drivers : DriverMap) (index : Nat) : List Nat :=
  (netlist.awaitedPins drivers index).filterMap drivers.driver?

section Readers

variable {netlist : Netlist} {drivers : DriverMap}

theorem mem_combinationalGates {gate : Gate} {index : Nat} :
    (gate, index) ∈ netlist.combinationalGates ↔
      netlist.gates[index]? = some gate ∧ gate.isCombinational = true := by
  simp [combinationalGates, indexedGates, List.mk_mem_zipIdx_iff_getElem?]

theorem nodup_map_snd_combinationalGates (netlist : Netlist) :
    (netlist.combinationalGates.map (·.2)).Nodup := by
  have all : (netlist.indexedGates.map (·.2)).Nodup := by
    simp only [indexedGates, List.zipIdx_map_snd]
    exact List.nodup_range'
  exact all.sublist (List.filter_sublist.map _)

theorem awaitedPins_of_mem {gate : Gate} {index : Nat}
    (member : (gate, index) ∈ netlist.combinationalGates) :
    netlist.awaitedPins drivers index = netlist.awaitedInputs drivers gate := by
  rcases mem_combinationalGates.mp member with ⟨found, combinational⟩
  rw [awaitedPins, found]
  exact if_pos combinational

theorem awaitedPins_of_not_isNode {index : Nat} (other : ¬ netlist.IsNode index) :
    netlist.awaitedPins drivers index = [] := by
  rw [awaitedPins]
  split
  · rename_i gate found
    exact if_neg fun combinational => other ⟨gate, found, combinational⟩
  · rfl

/-- Entering a gate among the readers of its awaited pins. -/
def enterReader (index : Nat) (pins : List SignalId) (readers : Array (List Nat)) :
    Array (List Nat) :=
  pins.foldr (fun id readers => readers.modify id (index :: ·)) readers

@[simp]
theorem size_enterReader (index : Nat) (pins : List SignalId) (readers : Array (List Nat)) :
    (enterReader index pins readers).size = readers.size := by
  induction pins with
  | nil => rfl
  | cons pin pins ih => simpa [enterReader] using ih

theorem count_enterReader {index : Nat} {pins : List SignalId} {readers : Array (List Nat)}
    {id : SignalId} (existing : id < readers.size) (reader : Nat) :
    ((enterReader index pins readers).getD id []).count reader =
      (if reader = index then pins.count id else 0) + (readers.getD id []).count reader := by
  induction pins with
  | nil => simp [enterReader]
  | cons pin pins ih =>
      have inside : id < (enterReader index pins readers).size := by simpa using existing
      have entered : (enterReader index (pin :: pins) readers).getD id [] =
          if pin = id then index :: (enterReader index pins readers).getD id []
          else (enterReader index pins readers).getD id [] := by
        change ((enterReader index pins readers).modify pin (index :: ·)).getD id [] = _
        simp only [Array.getD_eq_getD_getElem?, Array.getElem?_modify,
          Array.getElem?_eq_getElem inside]
        by_cases same : pin = id <;> simp [same]
      rw [entered]
      by_cases samePin : pin = id
      · rw [if_pos samePin, samePin]
        by_cases sameReader : reader = index
        · rw [sameReader] at ih ⊢
          simp only [List.count_cons_self, ih, if_pos]
          omega
        · rw [List.count_cons_of_ne (Ne.symm sameReader), ih]
          simp [sameReader]
      · rw [if_neg samePin, ih, List.count_cons_of_ne samePin]

/-- Where positions are not repeated, a sum over the entries of one position has one term. -/
theorem sum_map_of_mem {entries : List (Gate × Nat)} (distinct : (entries.map (·.2)).Nodup)
    {gate : Gate} {index : Nat} (member : (gate, index) ∈ entries) (weight : Gate → Nat) :
    (entries.map fun entry => if index = entry.2 then weight entry.1 else 0).sum = weight gate := by
  induction entries with
  | nil => cases member
  | cons entry entries ih =>
      rw [List.map_cons, List.nodup_cons] at distinct
      rw [List.map_cons, List.sum_cons]
      rcases List.mem_cons.mp member with rfl | later
      · have none : (entries.map fun entry => if index = entry.2 then weight entry.1 else 0).sum =
            0 := by
          apply List.sum_eq_zero_iff_forall_eq_nat.mpr
          intro term isTerm
          rcases List.mem_map.mp isTerm with ⟨other, isOther, rfl⟩
          refine if_neg fun same => distinct.1 ?_
          exact List.mem_map.mpr ⟨other, isOther, same.symm⟩
        rw [none, if_pos rfl, Nat.add_zero]
      · rw [ih distinct.2 later, if_neg, Nat.zero_add]
        rintro same
        exact distinct.1 (List.mem_map.mpr ⟨(gate, index), later, same⟩)

theorem count_readers {id : SignalId} (existing : id < netlist.signals.size) (reader : Nat) :
    ((netlist.readers drivers).getD id []).count reader =
      (netlist.awaitedPins drivers reader).count id := by
  have counted (entries : List (Gate × Nat)) :
      let entered := entries.foldr
        (fun entry readers =>
          enterReader entry.2 (netlist.awaitedInputs drivers entry.1) readers)
        (Array.replicate netlist.signals.size [])
      entered.size = netlist.signals.size ∧
        (entered.getD id []).count reader = (entries.map fun entry =>
          if reader = entry.2 then (netlist.awaitedInputs drivers entry.1).count id
          else 0).sum := by
    induction entries with
    | nil => simp [existing]
    | cons entry entries ih =>
        rw [List.foldr_cons, List.map_cons, List.sum_cons]
        refine ⟨by rw [size_enterReader, ih.1], ?_⟩
        rw [count_enterReader (by rwa [ih.1]), ih.2]
  apply (counted netlist.combinationalGates).2.trans
  by_cases isNode : netlist.IsNode reader
  · rcases isNode with ⟨gate, found, combinational⟩
    have member := mem_combinationalGates.mpr ⟨found, combinational⟩
    rw [awaitedPins_of_mem member]
    exact sum_map_of_mem (nodup_map_snd_combinationalGates netlist) member
      fun gate => (netlist.awaitedInputs drivers gate).count id
  · rw [awaitedPins_of_not_isNode isNode, List.count_nil]
    apply List.sum_eq_zero_iff_forall_eq_nat.mpr
    intro term isTerm
    rcases List.mem_map.mp isTerm with ⟨entry, member, rfl⟩
    refine if_neg fun same => isNode ⟨entry.1, ?_⟩
    exact mem_combinationalGates.mp (same ▸ member)

/-- Pins counted output by output are counted once each. -/
theorem sum_map_count {outputs : List SignalId} (distinct : outputs.Nodup) (pins : List SignalId) :
    (outputs.map fun id => pins.count id).sum = pins.countP (· ∈ outputs) := by
  induction outputs with
  | nil => simp
  | cons output outputs ih =>
      rw [List.nodup_cons] at distinct
      rw [List.map_cons, List.sum_cons, ih distinct.2]
      clear ih
      induction pins with
      | nil => rfl
      | cons pin pins ih =>
          by_cases same : pin = output
          · subst same
            simp only [List.count_cons_self, List.countP_cons, distinct.1, List.mem_cons] at ih ⊢
            simp only [decide_false, decide_true, true_or] at ih ⊢
            simp at ih ⊢
            omega
          · simp only [List.count_cons_of_ne same, List.countP_cons, List.mem_cons, same,
              false_or] at ih ⊢
            omega

/-- The readers of a gate are counted as often as they await it. -/
theorem count_readersOfGate (accepted : netlist.driverMap = .ok drivers) {index : Nat}
    (isNode : netlist.IsNode index) (reader : Nat) :
    (netlist.readersOfGate (netlist.readers drivers) index).count reader =
      (netlist.awaiting drivers reader).count index := by
  have drivable := exists_driverMap_iff.mp ⟨drivers, accepted⟩
  rcases isNode with ⟨gate, found, _⟩
  have member : gate ∈ netlist.gates.toList :=
    List.mem_iff_getElem?.mpr ⟨index, by simpa using found⟩
  have distinct : gate.outputs.Nodup := (List.nodup_flatMap.mp drivable.once).1 gate member
  calc (netlist.readersOfGate (netlist.readers drivers) index).count reader
      = (gate.outputs.map fun id =>
          ((netlist.readers drivers).getD id []).count reader).sum := by
        rw [readersOfGate, found, List.count_flatMap]
        rfl
    _ = (gate.outputs.map fun id => (netlist.awaitedPins drivers reader).count id).sum := by
        refine congrArg List.sum (List.map_congr_left fun id driven => ?_)
        exact count_readers (drivable.wires gate member id driven).lt reader
    _ = (netlist.awaitedPins drivers reader).countP (· ∈ gate.outputs) :=
        sum_map_count distinct _
    _ = (netlist.awaiting drivers reader).count index := by
        rw [awaiting, List.count, List.countP_filterMap]
        apply List.countP_congr
        intro id _
        have driver : drivers.driver? id = some index ↔ netlist.Drives index id :=
          driver?_eq_some_iff accepted
        simp only [Drives, found, Option.some.injEq, exists_eq_left'] at driver
        rw [decide_eq_true_iff, ← driver]
        cases drivers.driver? id <;> simp

theorem mem_awaitedInputs {gate : Gate} {id : SignalId} :
    id ∈ netlist.awaitedInputs drivers gate ↔
      id ∈ gate.inputs ∧ ∃ index, drivers.driver? id = some index ∧ netlist.IsNode index := by
  rw [awaitedInputs, List.mem_filter]
  apply and_congr_right
  intro _
  cases drivers.driver? id with
  | none => simp
  | some index => cases found : netlist.gates[index]? <;> simp [IsNode, found]

theorem mem_awaitedPins {index : Nat} {id : SignalId} :
    id ∈ netlist.awaitedPins drivers index ↔
      ∃ gate, netlist.gates[index]? = some gate ∧ gate.isCombinational = true ∧
        id ∈ netlist.awaitedInputs drivers gate := by
  rw [awaitedPins]
  cases found : netlist.gates[index]? with
  | none => simp
  | some gate => by_cases combinational : gate.isCombinational = true <;> simp [combinational]

theorem mem_awaiting (accepted : netlist.driverMap = .ok drivers) {driver reader : Nat} :
    driver ∈ netlist.awaiting drivers reader ↔ netlist.Feeds driver reader := by
  simp only [awaiting, List.mem_filterMap, Feeds, mem_awaitedPins, mem_awaitedInputs,
    driver?_eq_some_iff accepted]
  constructor
  · rintro ⟨id, ⟨gate, found, combinational, reads, index, drives, isNode⟩, driver_drives⟩
    have same : index = driver := by
      rw [← driver?_eq_some_iff accepted] at drives driver_drives
      exact Option.some.inj (drives.symm.trans driver_drives)
    exact ⟨same ▸ isNode, gate, found, combinational, id, reads, driver_drives⟩
  · rintro ⟨isNode, gate, found, combinational, id, reads, drives⟩
    exact ⟨id, ⟨gate, found, combinational, reads, driver, drives, isNode⟩, drives⟩

theorem length_awaiting (index : Nat) :
    (netlist.awaiting drivers index).length = (netlist.awaitedPins drivers index).length := by
  rw [awaiting, List.length_filterMap_eq_countP, List.countP_eq_length]
  intro id member
  rcases mem_awaitedPins.mp member with ⟨gate, _, _, awaited⟩
  rcases (mem_awaitedInputs.mp awaited).2 with ⟨driver, found, _⟩
  rw [found]
  rfl

/-- Before anything is supplied, the placed gates are those that await nothing. -/
theorem progress_initialPlacement (netlist : Netlist) (drivers : DriverMap) :
    Placement.Progress netlist.IsNode (netlist.awaiting drivers) []
      (netlist.initialPlacement drivers).placed.toList (netlist.initialPlacement drivers) where
  placed := rfl
  distinct := (nodup_map_snd_combinationalGates netlist).sublist (List.filter_sublist.map _)
  lack index := by
    simp only [List.not_mem_nil, not_false_eq_true, decide_true, List.countP_true, length_awaiting]
    rw [Placement.lack, initialPlacement, awaitedPins]
    cases found : netlist.gates[index]? with
    | none => simp [found]
    | some gate => by_cases combinational : gate.isCombinational = true <;>
        simp [found, combinational]
  mem_iff index := by
    have nothing : (∀ awaited ∈ netlist.awaiting drivers index, awaited ∈ []) ↔
        netlist.awaitedPins drivers index = [] := by
      rw [← List.length_eq_zero_iff, ← length_awaiting, List.length_eq_zero_iff,
        List.eq_nil_iff_forall_not_mem]
      simp
    rw [nothing, IsNode]
    constructor
    · intro member
      rcases List.mem_map.mp member with ⟨⟨gate, position⟩, isPlaced, rfl⟩
      rcases List.mem_filter.mp isPlaced with ⟨isNode, awaitsNothing⟩
      refine ⟨⟨gate, mem_combinationalGates.mp isNode⟩, ?_⟩
      rw [awaitedPins_of_mem isNode]
      exact List.isEmpty_iff.mp awaitsNothing
    · rintro ⟨⟨gate, isNode⟩, awaitsNothing⟩
      have entry := mem_combinationalGates.mpr isNode
      rw [awaitedPins_of_mem entry] at awaitsNothing
      exact List.mem_map.mpr
        ⟨(gate, index), List.mem_filter.mpr ⟨entry, List.isEmpty_iff.mpr awaitsNothing⟩, rfl⟩
  follows before index after split := by simp at split

end Readers

section Ordering

variable {netlist : Netlist} {drivers : DriverMap}

/-- The gates that the ordering places, before it is known whether they are all. -/
def placedGates (netlist : Netlist) (drivers : DriverMap) : List Nat :=
  (Placement.run (netlist.readersOfGate (netlist.readers drivers)) netlist.gates.size 0
    (netlist.initialPlacement drivers)).placed.toList

/-- What is placed is closed: it has the nodes all of whose drivers it has, each after them. -/
theorem placedGates_closed (accepted : netlist.driverMap = .ok drivers) :
    (netlist.placedGates drivers).Nodup ∧
      (∀ before index after, netlist.placedGates drivers = before ++ index :: after →
        ∀ driver, netlist.Feeds driver index → driver ∈ before) ∧
      ∀ index, index ∈ netlist.placedGates drivers ↔ netlist.IsNode index ∧
        ∀ driver, netlist.Feeds driver index → driver ∈ netlist.placedGates drivers := by
  have idle (other : Nat) (notNode : ¬ netlist.IsNode other) :
      netlist.awaiting drivers other = [] := by
    rw [awaiting, awaitedPins_of_not_isNode notNode, List.filterMap_nil]
  have node_lt (index : Nat) (isNode : netlist.IsNode index) : index < netlist.gates.size := by
    rcases isNode with ⟨gate, found, _⟩
    exact (Array.getElem?_eq_some_iff.mp found).1
  rcases Placement.run_placed (progress_initialPlacement netlist drivers) idle
    (fun index isNode => count_readersOfGate accepted isNode) node_lt with
    ⟨order, isOrder, distinct, follows, mem_iff⟩
  simp only [mem_awaiting accepted] at mem_iff
  rw [placedGates, isOrder]
  refine ⟨distinct, fun before index after split driver feeds => ?_, mem_iff⟩
  exact follows before index after split driver ((mem_awaiting accepted).mpr feeds)

theorem forM_eq_ok {ε α : Type} {items : List α} {step : α → Except ε Unit} :
    items.forM step = .ok () ↔ ∀ item ∈ items, step item = .ok () := by
  induction items with
  | nil => simp [pure, Except.pure]
  | cons item items ih =>
      rw [List.forM_eq_forM, List.forM_cons, List.forall_mem_cons, ← ih]
      cases step item with
      | error error => simp [bind, Except.bind]
      | ok result => simp [bind, Except.bind]

theorem checkInputs_eq_ok {gate : Gate} :
    netlist.checkInputs gate = .ok () ↔ Below netlist.signals.size gate.inputs := by
  rw [checkInputs, forM_eq_ok]
  apply forall₂_congr
  intro id _
  rw [signal]
  cases found : netlist.signals[id]? with
  | none =>
      have outside : ¬ id < netlist.signals.size := by simpa using found
      simp only [outside, iff_false]
      exact nofun
  | some signal =>
      have existing := (Array.getElem?_eq_some_iff.mp found).1
      simp only [existing, iff_true]
      rfl

theorem mapError_eq_ok {ε δ α : Type} {step : Except ε α} {wrap : ε → δ} {result : α} :
    step.mapError wrap = .ok result ↔ step = .ok result := by
  cases step <;> simp [Except.mapError]

/-- Where the drivers and all that is read are known, the ordering fails only for what is left
over. -/
theorem combinationalOrder_eq_placedGates (accepted : netlist.driverMap = .ok drivers)
    (existing : ∀ entry ∈ netlist.combinationalGates,
      Below netlist.signals.size entry.1.inputs) :
    netlist.combinationalOrder =
      if (netlist.placedGates drivers).length = netlist.combinationalGates.length then
        .ok (netlist.placedGates drivers)
      else
        .error (.netlist (.combinationalLoop
          (netlist.combinationalGates.length - (netlist.placedGates drivers).length))) := by
  have inputs : (netlist.combinationalGates.forM fun entry =>
      (netlist.checkInputs entry.1).mapError Error.fault) = .ok () := by
    simpa only [forM_eq_ok, mapError_eq_ok, checkInputs_eq_ok] using existing
  have size : (Placement.run (netlist.readersOfGate (netlist.readers drivers))
      netlist.gates.size 0 (netlist.initialPlacement drivers)).placed.size =
      (netlist.placedGates drivers).length := by
    rw [placedGates, Array.length_toList]
  rw [combinationalOrder, accepted]
  change ((netlist.combinationalGates.forM fun entry =>
    (netlist.checkInputs entry.1).mapError Error.fault) >>= fun _ => _) = _
  rw [inputs]
  change (if _ = _ then _ else _) = _
  rw [size]
  rfl

/-- The ordering succeeds if the drivers and all that is read are known, and nothing is left
over. -/
theorem combinationalOrder_eq_ok {order : List Nat} :
    netlist.combinationalOrder = .ok order ↔
      ∃ drivers, netlist.driverMap = .ok drivers ∧
        (∀ entry ∈ netlist.combinationalGates, Below netlist.signals.size entry.1.inputs) ∧
        (netlist.placedGates drivers).length = netlist.combinationalGates.length ∧
        netlist.placedGates drivers = order := by
  constructor
  · intro found
    cases accepted : netlist.driverMap with
    | error error =>
        rw [combinationalOrder, accepted] at found
        cases found
    | ok drivers =>
        refine ⟨drivers, rfl, ?_⟩
        have passed : (netlist.combinationalGates.forM fun entry =>
            (netlist.checkInputs entry.1).mapError Error.fault) = .ok () := by
          rw [combinationalOrder, accepted] at found
          change ((netlist.combinationalGates.forM fun entry =>
            (netlist.checkInputs entry.1).mapError Error.fault) >>= fun _ => _) = _ at found
          cases checked : netlist.combinationalGates.forM fun entry =>
              (netlist.checkInputs entry.1).mapError Error.fault with
          | error error =>
              rw [checked] at found
              cases found
          | ok done => rfl
        have existing (entry : Gate × Nat) (member : entry ∈ netlist.combinationalGates) :
            Below netlist.signals.size entry.1.inputs :=
          checkInputs_eq_ok.mp (mapError_eq_ok.mp (forM_eq_ok.mp passed entry member))
        rw [combinationalOrder_eq_placedGates accepted existing] at found
        split at found
        · next all => exact ⟨existing, all, Except.ok.inj found⟩
        · cases found
  · rintro ⟨drivers, accepted, existing, all, rfl⟩
    rw [combinationalOrder_eq_placedGates accepted existing, if_pos all]

/-- An order that is found has every combinational gate once, after those that feed it. -/
theorem ordered_of_combinationalOrder {order : List Nat}
    (found : netlist.combinationalOrder = .ok order) : netlist.Ordered order := by
  rcases combinationalOrder_eq_ok.mp found with ⟨drivers, accepted, _, full, rfl⟩
  rcases placedGates_closed accepted with ⟨distinct, follows, mem_iff⟩
  refine ⟨distinct, fun index => ⟨fun placed => ((mem_iff index).mp placed).1, fun isNode => ?_⟩,
    follows⟩
  have isPerm : (netlist.placedGates drivers).Perm (netlist.combinationalGates.map (·.2)) := by
    refine (List.subperm_of_subset distinct fun other placed => ?_).perm_of_length_le
      (by simp [full])
    rcases ((mem_iff other).mp placed).1 with ⟨gate, isGate⟩
    exact List.mem_map.mpr ⟨(gate, other), mem_combinationalGates.mpr isGate, rfl⟩
  rcases isNode with ⟨gate, isGate⟩
  exact isPerm.mem_iff.mpr
    (List.mem_map.mpr ⟨(gate, index), mem_combinationalGates.mpr isGate, rfl⟩)

/-- Gates that do not feed themselves, however indirectly, can be ordered. -/
theorem exists_combinationalOrder (drivable : netlist.Drivable)
    (existing : ∀ gate ∈ netlist.gates.toList, gate.isCombinational = true →
      Below netlist.signals.size gate.inputs)
    (acyclic : WellFounded netlist.Feeds) : ∃ order, netlist.combinationalOrder = .ok order := by
  rcases exists_driverMap_iff.mpr drivable with ⟨drivers, accepted⟩
  rcases placedGates_closed accepted with ⟨distinct, _, mem_iff⟩
  have placed (index : Nat) : netlist.IsNode index → index ∈ netlist.placedGates drivers := by
    induction index using acyclic.induction with
    | _ index ih =>
        intro isNode
        exact (mem_iff index).mpr ⟨isNode, fun driver feeds => ih driver feeds feeds.1⟩
  have isPerm : (netlist.placedGates drivers).Perm (netlist.combinationalGates.map (·.2)) := by
    apply (List.perm_ext_iff_of_nodup distinct (nodup_map_snd_combinationalGates netlist)).mpr
    intro index
    constructor
    · intro isPlaced
      rcases ((mem_iff index).mp isPlaced).1 with ⟨gate, isGate⟩
      exact List.mem_map.mpr ⟨(gate, index), mem_combinationalGates.mpr isGate, rfl⟩
    · intro member
      rcases List.mem_map.mp member with ⟨⟨gate, position⟩, entry, rfl⟩
      exact placed position ⟨gate, mem_combinationalGates.mp entry⟩
  refine ⟨_, combinationalOrder_eq_ok.mpr ⟨drivers, accepted, fun entry member => ?_, ?_, rfl⟩⟩
  · rcases mem_combinationalGates.mp member with ⟨found, combinational⟩
    exact existing entry.1 (List.mem_iff_getElem?.mpr ⟨entry.2, by simpa using found⟩) combinational
  · simpa using isPerm.length_eq

end Ordering

end Netlist

end Datapath

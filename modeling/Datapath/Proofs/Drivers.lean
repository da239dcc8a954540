import Mathlib.Data.List.Nodup
import Datapath.Netlist.Drivers
import Datapath.Proofs.Growth

/-!
# What the driver check decides

The driver map is built by claiming the outputs of all gates one after the other, so it exists just
when every claim names a wire and none is repeated: `Netlist.Drivable`. Then a signal's driver is
the one gate that has it among its outputs.

Where moreover every gate is legal and every wire is driven, the check can only fail at a reader
that names a signal which does not exist.
-/

namespace Datapath

namespace Netlist

/-- The position names a wire. -/
def IsWire (netlist : Netlist) (id : SignalId) : Prop :=
  ∃ label, netlist.signals[id]? = some (.wire label)

theorem IsWire.lt {netlist : Netlist} {id : SignalId} (wire : netlist.IsWire id) :
    id < netlist.signals.size := by
  rcases wire with ⟨label, found⟩
  exact (Array.getElem?_eq_some_iff.mp found).1

/-- Gates drive wires only, and each of them once. -/
structure Drivable (netlist : Netlist) : Prop where
  wires : ∀ gate ∈ netlist.gates.toList, ∀ id ∈ gate.outputs, netlist.IsWire id
  once : (netlist.gates.toList.flatMap (·.outputs)).Nodup

/-- A gate's claim to drive a signal. -/
structure Claim where
  index : Nat
  gate : Gate
  id : SignalId

/-- All claims, gate by gate. -/
def claims (netlist : Netlist) : List Claim :=
  netlist.indexedGates.flatMap fun (gate, index) => gate.outputs.map fun id => { index, gate, id }

/-- Enters one claim. -/
def enterClaim (netlist : Netlist) (drivers : DriverMap) (claim : Claim) :
    Except NetlistError DriverMap :=
  netlist.claimDriver claim.index claim.gate drivers claim.id

variable {netlist : Netlist}

theorem foldlM_flatMap {m : Type → Type} [Monad m] [LawfulMonad m] {α β γ : Type}
    (items : List α) (expand : α → List β) (step : γ → β → m γ) (start : γ) :
    (items.flatMap expand).foldlM step start =
      items.foldlM (fun state item => (expand item).foldlM step state) start := by
  induction items generalizing start with
  | nil => rfl
  | cons item items ih => simp [ih]

theorem forM_flatMap {m : Type → Type} [Monad m] [LawfulMonad m] {α β : Type} (items : List α)
    (expand : α → List β) (step : β → m Unit) :
    (items.flatMap expand).forM step = items.forM fun item => (expand item).forM step := by
  induction items with
  | nil => rfl
  | cons item items ih =>
      simp only [List.forM_eq_forM] at ih
      simp [ih]

theorem forM_congr {m : Type → Type} [Monad m] {α : Type} {items : List α} {left right : α → m Unit}
    (agree : ∀ item ∈ items, left item = right item) : items.forM left = items.forM right := by
  induction items with
  | nil => rfl
  | cons item items ih =>
      rw [List.forall_mem_cons] at agree
      simp only [List.forM_eq_forM] at ih
      simp [agree.1, ih agree.2]

theorem driverMap_eq_foldlM_claims (netlist : Netlist) :
    netlist.driverMap =
      netlist.claims.foldlM netlist.enterClaim (Array.replicate netlist.signals.size none) := by
  rw [claims, foldlM_flatMap]
  simp only [List.foldlM_map]
  rfl

theorem mem_claims {claim : Claim} :
    claim ∈ netlist.claims ↔
      netlist.gates[claim.index]? = some claim.gate ∧ claim.id ∈ claim.gate.outputs := by
  rcases claim with ⟨index, gate, id⟩
  simp only [claims, indexedGates, List.mem_flatMap, List.mem_map, Prod.exists,
    List.mk_mem_zipIdx_iff_getElem?, Array.getElem?_toList, Claim.mk.injEq]
  constructor
  · rintro ⟨otherGate, otherIndex, found, otherId, member, rfl, rfl, rfl⟩
    exact ⟨found, member⟩
  · rintro ⟨found, member⟩
    exact ⟨gate, index, found, id, member, rfl, rfl, rfl⟩

theorem map_id_claims (netlist : Netlist) :
    netlist.claims.map (·.id) = netlist.gates.toList.flatMap (·.outputs) := by
  have firsts : netlist.indexedGates.map (·.1) = netlist.gates.toList := by
    simp [indexedGates]
  conv => rhs; rw [← firsts]
  simp [claims, List.map_flatMap, List.flatMap_map, Function.comp_def]

theorem driver?_setIfInBounds {drivers : DriverMap} {id other : SignalId} {index : Nat}
    (existing : id < drivers.size) :
    (show DriverMap from drivers.setIfInBounds id (some index)).driver? other =
      if other = id then some index else drivers.driver? other := by
  by_cases same : other = id
  · subst same
    simp [DriverMap.driver?, existing]
  · simp [DriverMap.driver?, same, Array.getElem?_setIfInBounds_ne (Ne.symm same)]

/-- A claim is accepted just when it names a wire that nobody has claimed. -/
theorem enterClaim_eq_ok {drivers after : DriverMap} {claim : Claim} :
    netlist.enterClaim drivers claim = .ok after ↔
      netlist.IsWire claim.id ∧ drivers.driver? claim.id = none ∧
        after = drivers.setIfInBounds claim.id (some claim.index) := by
  rw [enterClaim, claimDriver, IsWire]
  cases found : netlist.signals[claim.id]? with
  | none => simp [throw, throwThe, MonadExceptOf.throw]
  | some signal =>
      cases signal with
      | input port bit => simp [throw, throwThe, MonadExceptOf.throw]
      | literal value => simp [throw, throwThe, MonadExceptOf.throw]
      | wire label =>
          cases drivers.driver? claim.id <;>
            simp [throw, throwThe, MonadExceptOf.throw, pure, Except.pure, eq_comm]

/-- The claims that a driver map holds. -/
structure Entered (netlist : Netlist) (past : List Claim) (drivers : DriverMap) : Prop where
  size : drivers.size = netlist.signals.size
  driver_iff : ∀ id index, drivers.driver? id = some index ↔
    ∃ claim ∈ past, claim.id = id ∧ claim.index = index

namespace Entered

variable {past : List Claim} {drivers after : DriverMap} {claim : Claim}

theorem start (netlist : Netlist) :
    netlist.Entered [] (Array.replicate netlist.signals.size none) where
  size := Array.size_replicate
  driver_iff id index := by
    by_cases existing : id < netlist.signals.size <;>
      simp [DriverMap.driver?, existing]

theorem driver?_eq_none (entered : netlist.Entered past drivers) {id : SignalId} :
    drivers.driver? id = none ↔ id ∉ past.map (·.id) := by
  rw [Option.eq_none_iff_forall_ne_some]
  simp only [ne_eq, entered.driver_iff, List.mem_map]
  constructor
  · rintro free ⟨claim, member, same⟩
    exact free claim.index ⟨claim, member, same, rfl⟩
  · rintro free index ⟨claim, member, same, _⟩
    exact free ⟨claim, member, same⟩

theorem enter (entered : netlist.Entered past drivers)
    (accepted : netlist.enterClaim drivers claim = .ok after) :
    netlist.Entered (past ++ [claim]) after := by
  rcases enterClaim_eq_ok.mp accepted with ⟨wire, free, rfl⟩
  have existing : claim.id < drivers.size := entered.size ▸ wire.lt
  refine ⟨by simpa using entered.size, fun id index => ?_⟩
  rw [driver?_setIfInBounds existing]
  by_cases same : id = claim.id
  · subst same
    have unclaimed : ∀ other ∈ past, other.id ≠ claim.id := by
      simpa using entered.driver?_eq_none.mp free
    simp only [if_pos, Option.some.injEq, List.mem_append, List.mem_singleton]
    constructor
    · rintro rfl
      exact ⟨claim, .inr rfl, rfl, rfl⟩
    · rintro ⟨other, member | rfl, sameId, sameIndex⟩
      · exact absurd sameId (unclaimed other member)
      · exact sameIndex
  · rw [if_neg same, entered.driver_iff]
    constructor
    · rintro ⟨other, member, pins⟩
      exact ⟨other, List.mem_append_left _ member, pins⟩
    · rintro ⟨other, member, sameId, sameIndex⟩
      rcases List.mem_append.mp member with old | new
      · exact ⟨other, old, sameId, sameIndex⟩
      · rw [List.mem_singleton.mp new] at sameId
        exact absurd sameId.symm same

theorem of_foldlM {claims : List Claim} (entered : netlist.Entered past drivers)
    (distinct : (past.map (·.id)).Nodup)
    (accepted : claims.foldlM netlist.enterClaim drivers = .ok after) :
    (∀ claim ∈ claims, netlist.IsWire claim.id) ∧ ((past ++ claims).map (·.id)).Nodup ∧
      netlist.Entered (past ++ claims) after := by
  induction claims generalizing past drivers with
  | nil =>
      cases accepted
      simpa using ⟨distinct, entered⟩
  | cons claim claims ih =>
      rw [List.foldlM_cons] at accepted
      cases first : netlist.enterClaim drivers claim with
      | error error =>
          rw [first] at accepted
          cases accepted
      | ok middle =>
          rw [first] at accepted
          rcases enterClaim_eq_ok.mp first with ⟨wire, free, _⟩
          have extended : ((past ++ [claim]).map (·.id)).Nodup := by
            rw [List.map_append, List.nodup_append]
            refine ⟨distinct, by simp, fun id old other new same => ?_⟩
            have isClaim : other = claim.id := by simpa using new
            exact entered.driver?_eq_none.mp free (isClaim ▸ same ▸ old)
          rcases ih (entered.enter first) extended accepted with ⟨wires, nodup, final⟩
          rw [List.append_assoc] at nodup final
          exact ⟨List.forall_mem_cons.mpr ⟨wire, wires⟩, nodup, final⟩

theorem exists_foldlM {claims : List Claim} (entered : netlist.Entered past drivers)
    (wires : ∀ claim ∈ claims, netlist.IsWire claim.id)
    (distinct : ((past ++ claims).map (·.id)).Nodup) :
    ∃ after, claims.foldlM netlist.enterClaim drivers = .ok after := by
  induction claims generalizing past drivers with
  | nil => exact ⟨drivers, rfl⟩
  | cons claim claims ih =>
      rw [List.forall_mem_cons] at wires
      have free : drivers.driver? claim.id = none := by
        apply entered.driver?_eq_none.mpr
        intro old
        rw [List.map_append, List.nodup_append] at distinct
        exact distinct.2.2 claim.id old claim.id (by simp) rfl
      have accepted := enterClaim_eq_ok.mpr ⟨wires.1, free, rfl⟩
      rcases ih (entered.enter accepted) wires.2 (by rwa [List.append_assoc]) with
        ⟨after, rest⟩
      exact ⟨after, by rw [List.foldlM_cons, accepted]; exact rest⟩

end Entered

/-- Which gate drives which signal, as the netlist has it. -/
def Drives (netlist : Netlist) (index : Nat) (id : SignalId) : Prop :=
  ∃ gate, netlist.gates[index]? = some gate ∧ id ∈ gate.outputs

theorem exists_drives_iff {id : SignalId} :
    (∃ index, netlist.Drives index id) ↔ ∃ gate ∈ netlist.gates.toList, id ∈ gate.outputs := by
  constructor
  · rintro ⟨index, gate, found, driven⟩
    exact ⟨gate, List.mem_of_getElem? (Array.getElem?_toList.trans found), driven⟩
  · rintro ⟨gate, member, driven⟩
    rcases List.mem_iff_getElem?.mp member with ⟨index, found⟩
    exact ⟨index, gate, Array.getElem?_toList.symm.trans found, driven⟩

/-- There is a driver map just when gates drive wires only and each once. -/
theorem exists_driverMap_iff : (∃ drivers, netlist.driverMap = .ok drivers) ↔ netlist.Drivable := by
  rw [driverMap_eq_foldlM_claims]
  constructor
  · rintro ⟨drivers, accepted⟩
    rcases (Entered.start netlist).of_foldlM List.nodup_nil accepted with ⟨wires, distinct, _⟩
    rw [List.nil_append, map_id_claims] at distinct
    refine ⟨fun gate member id driven => ?_, distinct⟩
    rcases List.mem_iff_getElem?.mp member with ⟨index, found⟩
    exact wires ⟨index, gate, id⟩ (mem_claims.mpr ⟨by simpa using found, driven⟩)
  · intro drivable
    apply (Entered.start netlist).exists_foldlM
    · intro claim member
      rcases mem_claims.mp member with ⟨found, driven⟩
      exact drivable.wires claim.gate
        (List.mem_iff_getElem?.mpr ⟨claim.index, by simpa using found⟩) claim.id driven
    · rw [List.nil_append, map_id_claims]
      exact drivable.once

/-- The driver map holds the pairs of a wire and the gate that drives it, and no others. -/
theorem driver?_eq_some_iff {drivers : DriverMap} (accepted : netlist.driverMap = .ok drivers)
    {id : SignalId} {index : Nat} : drivers.driver? id = some index ↔ netlist.Drives index id := by
  rw [driverMap_eq_foldlM_claims] at accepted
  rcases (Entered.start netlist).of_foldlM List.nodup_nil accepted with ⟨_, _, entered⟩
  rw [entered.driver_iff, List.nil_append, Drives]
  constructor
  · rintro ⟨claim, member, rfl, rfl⟩
    exact ⟨claim.gate, mem_claims.mp member⟩
  · rintro ⟨gate, found, driven⟩
    exact ⟨⟨index, gate, id⟩, mem_claims.mpr ⟨found, driven⟩, rfl, rfl⟩

/-- All that is read: by gates and then by output ports. -/
def reads (netlist : Netlist) : List SignalId :=
  netlist.gates.toList.flatMap (·.inputs) ++ netlist.outputs.flatMap (·.bits)

theorem mem_reads {id : SignalId} :
    id ∈ netlist.reads ↔ (∃ gate ∈ netlist.gates.toList, id ∈ gate.inputs) ∨
      ∃ port ∈ netlist.outputs, id ∈ port.bits := by
  simp only [reads, List.mem_append, List.mem_flatMap]

/-- What the registers read, register by register. -/
def sampled (netlist : Netlist) : List SignalId :=
  (netlist.gates.toList.filter (·.isRegister)).flatMap (·.inputs)

/-- Where signals leave the combinational gates: at the registers and at the output ports. -/
def sinks (netlist : Netlist) : List SignalId :=
  netlist.sampled ++ netlist.outputs.flatMap (·.bits)

/-- Every wire has its one driver, nothing else has one, and every gate has a legal number of
pins. -/
structure Driven (netlist : Netlist) : Prop extends netlist.Drivable where
  driven : ∀ id, netlist.IsWire id → ∃ index, netlist.Drives index id
  legal : ∀ gate ∈ netlist.gates.toList, gate.Legal

/-- Checks that a signal exists. -/
def checkExists (netlist : Netlist) (id : SignalId) : Except NetlistError Unit :=
  if id < netlist.signals.size then pure ()
  else throw (.signalOutOfBounds id netlist.signals.size)

theorem forM_checkExists (netlist : Netlist) (ids : List SignalId) :
    ids.forM netlist.checkExists =
      match ids.find? (netlist.signals.size ≤ ·) with
      | none => .ok ()
      | some id => .error (.signalOutOfBounds id netlist.signals.size) := by
  induction ids with
  | nil => rfl
  | cons id ids ih =>
      by_cases existing : id < netlist.signals.size
      · have here : netlist.checkExists id = .ok () := if_pos existing
        rw [List.find?_cons_of_neg (by simpa using existing), ← ih]
        change (netlist.checkExists id >>= fun _ => ids.forM netlist.checkExists) = _
        rw [here]
        rfl
      · have here : netlist.checkExists id = .error (.signalOutOfBounds id _) := if_neg existing
        rw [List.find?_cons_of_pos (by simpa using existing)]
        change (netlist.checkExists id >>= fun _ => ids.forM netlist.checkExists) = _
        rw [here]
        rfl

namespace Driven

variable {drivers : DriverMap}

theorem checkRead_eq (driven : netlist.Driven) (accepted : netlist.driverMap = .ok drivers)
    (reader : String) (id : SignalId) :
    netlist.checkRead drivers reader id = netlist.checkExists id := by
  rw [checkRead, checkExists]
  cases found : netlist.signals[id]? with
  | none => rw [if_neg (by simpa using found)]
  | some signal =>
      have existing := (Array.getElem?_eq_some_iff.mp found).1
      have satisfied : (signal.isWire && (drivers.driver? id).isNone) = false := by
        cases signal with
        | input port bit => rfl
        | literal value => rfl
        | wire label =>
            rcases driven.driven id ⟨label, found⟩ with ⟨index, drives⟩
            rw [(driver?_eq_some_iff accepted).mpr drives]
            rfl
      rw [if_pos existing]
      simp only [satisfied]
      rfl

theorem checkGate_eq (driven : netlist.Driven) (accepted : netlist.driverMap = .ok drivers)
    {gate : Gate} (member : gate ∈ netlist.gates.toList) :
    netlist.checkGate drivers gate = gate.inputs.forM netlist.checkExists := by
  have legal := driven.legal gate member
  rw [Gate.Legal] at legal
  rw [checkGate, legal, funext (driven.checkRead_eq accepted gate.name)]
  rfl

theorem checkOutput_eq (driven : netlist.Driven) (accepted : netlist.driverMap = .ok drivers)
    (port : Port) : netlist.checkOutput drivers port = port.bits.forM netlist.checkExists := by
  have firsts : port.bits.zipIdx.map (·.1) = port.bits := by
    simp
  conv => rhs; rw [← firsts]
  simp only [checkOutput, driven.checkRead_eq accepted, List.forM_eq_forM, List.forM_map]

/-- The check of a driven netlist fails at the first reader of a signal that does not exist. -/
theorem checkDrivers_eq (driven : netlist.Driven) :
    netlist.checkDrivers =
      match netlist.reads.find? (netlist.signals.size ≤ ·) with
      | none => .ok ()
      | some id => .error (.signalOutOfBounds id netlist.signals.size) := by
  rcases exists_driverMap_iff.mpr driven.toDrivable with ⟨drivers, accepted⟩
  have gates : netlist.gates.toList.forM (netlist.checkGate drivers) =
      (netlist.gates.toList.flatMap (·.inputs)).forM netlist.checkExists := by
    rw [forM_flatMap]
    exact forM_congr fun gate => driven.checkGate_eq accepted
  have outputs : netlist.outputs.forM (netlist.checkOutput drivers) =
      (netlist.outputs.flatMap (·.bits)).forM netlist.checkExists := by
    rw [forM_flatMap]
    exact forM_congr fun port _ => driven.checkOutput_eq accepted port
  rw [← forM_checkExists, reads, List.forM_eq_forM, List.forM_append, ← List.forM_eq_forM, ← gates,
    ← outputs, checkDrivers, accepted]
  rfl

end Driven

end Netlist

end Datapath

import Mathlib.Data.Fintype.EquivFin
import Mathlib.Order.WellFounded
import Datapath.Proofs.Coherence
import Datapath.Proofs.Simulation

/-!
# Netlists that pass the check

The driver check passes just when gates drive wires only and each once, every gate has a legal
number of pins, and all that is read exists and has a driver if it is a wire: `Netlist.Accepted`.

The check does not look for combinational loops. `Netlist.LoopFree` says that there are none, and an
accepted netlist without loops can be simulated.
-/

namespace Datapath

namespace Netlist

/-- The signal exists and does not wait for a driver. -/
def Supplied (netlist : Netlist) (id : SignalId) : Prop :=
  id < netlist.signals.size ∧ (netlist.IsWire id → ∃ index, netlist.Drives index id)

/-- What the driver check demands. -/
structure Accepted (netlist : Netlist) : Prop extends netlist.Drivable where
  legal : ∀ gate ∈ netlist.gates.toList, gate.Legal
  supplied : ∀ id ∈ netlist.reads, netlist.Supplied id

/-- No combinational gate feeds itself, however indirectly. -/
def LoopFree (netlist : Netlist) : Prop :=
  ∀ index, ¬ Relation.TransGen netlist.Feeds index index

variable {netlist : Netlist} {drivers : DriverMap}

theorem supplied_iff {id : SignalId} :
    netlist.Supplied id ↔ id < netlist.signals.size ∧
      (netlist.IsWire id → ∃ driver ∈ netlist.gates.toList, id ∈ driver.outputs) := by
  rw [Supplied, exists_drives_iff]

theorem checkRead_eq_ok (known : netlist.driverMap = .ok drivers) {reader : String}
    {id : SignalId} : netlist.checkRead drivers reader id = .ok () ↔ netlist.Supplied id := by
  rw [checkRead, Supplied, IsWire]
  simp only [← driver?_eq_some_iff known]
  cases found : netlist.signals[id]? with
  | none =>
      have outside : ¬ id < netlist.signals.size := by simpa using found
      simp [outside, throw, throwThe, MonadExceptOf.throw]
  | some signal =>
      have existing := (Array.getElem?_eq_some_iff.mp found).1
      cases signal with
      | input port bit => simp [existing, Signal.isWire, pure, Except.pure]
      | literal value => simp [existing, Signal.isWire, pure, Except.pure]
      | wire label =>
          cases drivers.driver? id <;>
            simp [existing, Signal.isWire, pure, Except.pure, throw, throwThe, MonadExceptOf.throw]

theorem checkGate_eq_ok (known : netlist.driverMap = .ok drivers) {gate : Gate} :
    netlist.checkGate drivers gate = .ok () ↔
      gate.Legal ∧ ∀ id ∈ gate.inputs, netlist.Supplied id := by
  have inputs : gate.inputs.forM (netlist.checkRead drivers gate.name) = .ok () ↔
      ∀ id ∈ gate.inputs, netlist.Supplied id := by
    rw [forM_eq_ok]
    exact forall₂_congr fun id _ => checkRead_eq_ok known
  rw [checkGate, Gate.Legal, ← inputs]
  cases gate.primitive.accepts gate.inputs.length gate.outputs.length with
  | false => simp [throw, throwThe, MonadExceptOf.throw, bind, Except.bind]
  | true => simp

theorem checkOutput_eq_ok (known : netlist.driverMap = .ok drivers) {port : Port} :
    netlist.checkOutput drivers port = .ok () ↔ ∀ id ∈ port.bits, netlist.Supplied id := by
  rw [checkOutput, forM_eq_ok]
  simp only [checkRead_eq_ok known]
  constructor
  · intro supplied id bit
    rcases List.mem_iff_getElem?.mp bit with ⟨index, found⟩
    exact supplied (id, index) (List.mk_mem_zipIdx_iff_getElem?.mpr found)
  · intro supplied entry member
    exact supplied entry.1 (List.fst_mem_of_mem_zipIdx member)

/-- The driver check passes just for the netlists that meet its demands. -/
theorem checkDrivers_eq_ok : netlist.checkDrivers = .ok () ↔ netlist.Accepted := by
  rw [checkDrivers]
  cases known : netlist.driverMap with
  | error error =>
      refine iff_of_false (fun passes => ?_) fun accepted => ?_
      · cases passes
      · rcases exists_driverMap_iff.mpr accepted.toDrivable with ⟨drivers, isKnown⟩
        rw [known] at isKnown
        cases isKnown
  | ok drivers =>
      have drivable := exists_driverMap_iff.mp ⟨drivers, known⟩
      have outputs : netlist.outputs.forM (netlist.checkOutput drivers) = .ok () ↔
          ∀ id ∈ netlist.outputs.flatMap (·.bits), netlist.Supplied id := by
        simp only [forM_eq_ok, checkOutput_eq_ok known, List.forall_mem_flatMap]
      have gates : netlist.gates.toList.forM (netlist.checkGate drivers) = .ok () ↔
          ∀ gate ∈ netlist.gates.toList, gate.Legal ∧
            ∀ id ∈ gate.inputs, netlist.Supplied id := by
        rw [forM_eq_ok]
        exact forall₂_congr fun gate _ => checkGate_eq_ok known
      have both : (do netlist.gates.toList.forM (netlist.checkGate drivers)
                      netlist.outputs.forM (netlist.checkOutput drivers)) = Except.ok () ↔
          netlist.gates.toList.forM (netlist.checkGate drivers) = .ok () ∧
            netlist.outputs.forM (netlist.checkOutput drivers) = .ok () := by
        rcases netlist.gates.toList.forM (netlist.checkGate drivers) with error | result <;>
          simp [bind, Except.bind]
      refine both.trans ?_
      rw [gates, outputs]
      constructor
      · rintro ⟨legal, supplied⟩
        refine ⟨drivable, fun gate member => (legal gate member).1, fun id read => ?_⟩
        rcases List.mem_append.mp read with byGate | byPort
        · rcases List.mem_flatMap.mp byGate with ⟨gate, member, pin⟩
          exact (legal gate member).2 id pin
        · exact supplied id byPort
      · intro accepted
        refine ⟨fun gate member => ⟨accepted.legal gate member, fun id pin => ?_⟩,
          fun id read => accepted.supplied id (List.mem_append_right _ read)⟩
        exact accepted.supplied id (mem_reads.mpr (.inl ⟨gate, member, pin⟩))

/-- The driver check passes just if gates drive wires only, no wire is among the outputs twice, each
gate has as many pins as its primitive asks for, and whatever a gate or an output port reads exists
and is put out by a gate if it is a wire. The driver map exists just if the first two hold, and then
it has the wires with the gates that put them out and nothing else. -/
theorem checkDrivers_decides (netlist : Netlist) :
    (netlist.checkDrivers = .ok () ↔
      (∀ gate ∈ netlist.gates.toList, ∀ id ∈ gate.outputs, netlist.IsWire id) ∧
      (netlist.gates.toList.flatMap (·.outputs)).Nodup ∧
      (∀ gate ∈ netlist.gates.toList,
        gate.primitive.arity = some (gate.inputs.length, gate.outputs.length) ∨
          gate.primitive = .add ∧ 0 < gate.outputs.length ∧
            gate.inputs.length = 2 * gate.outputs.length) ∧
      ∀ id, (∃ gate ∈ netlist.gates.toList, id ∈ gate.inputs) ∨
          (∃ port ∈ netlist.outputs, id ∈ port.bits) →
        id < netlist.signals.size ∧
          (netlist.IsWire id → ∃ driver ∈ netlist.gates.toList, id ∈ driver.outputs)) ∧
    ((∃ drivers, netlist.driverMap = .ok drivers) ↔
      (∀ gate ∈ netlist.gates.toList, ∀ id ∈ gate.outputs, netlist.IsWire id) ∧
      (netlist.gates.toList.flatMap (·.outputs)).Nodup) ∧
    ∀ drivers, netlist.driverMap = .ok drivers → ∀ id index,
      drivers.driver? id = some index ↔
        netlist.IsWire id ∧ ∃ gate, netlist.gates[index]? = some gate ∧ id ∈ gate.outputs := by
  refine ⟨?_, ?_, fun drivers known id index => ?_⟩
  · rw [checkDrivers_eq_ok]
    constructor
    · intro accepted
      exact ⟨accepted.wires, accepted.once,
        fun gate member => Gate.legal_iff.mp (accepted.legal gate member),
        fun id read => supplied_iff.mp (accepted.supplied id (mem_reads.mpr read))⟩
    · rintro ⟨wires, once, legal, supplied⟩
      exact ⟨⟨wires, once⟩, fun gate member => Gate.legal_iff.mpr (legal gate member),
        fun id read => supplied_iff.mpr (supplied id (mem_reads.mp read))⟩
  · rw [exists_driverMap_iff]
    exact ⟨fun drivable => ⟨drivable.wires, drivable.once⟩, fun ⟨wires, once⟩ => ⟨wires, once⟩⟩
  · rw [driver?_eq_some_iff known]
    refine ⟨fun ⟨gate, found, driven⟩ => ⟨?_, gate, found, driven⟩, And.right⟩
    exact (exists_driverMap_iff.mp ⟨drivers, known⟩).wires gate
      (List.mem_iff_getElem?.mpr ⟨index, by simpa using found⟩) id driven

/-- One half adder with its sum inverted. -/
def halved : Netlist where
  name := "halved"
  inputs := [⟨"a", [0]⟩, ⟨"b", [1]⟩]
  outputs := [⟨"o", [4, 3]⟩]
  signals := #[.input "a" 0, .input "b" 0, .wire none, .wire none, .wire none]
  gates := #[⟨"ha_0", .halfAdder, [0, 1], [2, 3], .inferred⟩, ⟨"inv_1", .inv, [2], [4], .inferred⟩]

theorem checkDrivers_decides_halved :
    halved.checkDrivers = .ok () ∧
      (show DriverMap from #[none, none, some 0, some 0, some 1]).driver? 3 = some 0 ∧
      halved.IsWire 3 ∧ ∃ gate, halved.gates[0]? = some gate ∧ 3 ∈ gate.outputs := by
  have passes : halved.checkDrivers = .ok () := by decide
  have known : halved.driverMap = .ok #[none, none, some 0, some 0, some 1] := by decide
  have found : (show DriverMap from #[none, none, some 0, some 0, some 1]).driver? 3 = some 0 := rfl
  exact ⟨passes, found, ((checkDrivers_decides halved).2.2 _ known 3 0).mp found⟩

/-- The gate lies on a loop or depends on one. -/
def Stuck (netlist : Netlist) (index : Nat) : Prop :=
  ∃ looped, Relation.TransGen netlist.Feeds looped looped ∧
    Relation.ReflTransGen netlist.Feeds looped index

/-- There are finitely many gates, so every way back from a gate ends if it does not meet a loop. -/
theorem acc_of_not_stuck {index : Nat} (free : ¬ netlist.Stuck index) :
    Acc netlist.Feeds index := by
  let reaches (first second : Fin netlist.gates.size) : Prop :=
    Relation.TransGen netlist.Feeds first second ∧ ¬ netlist.Stuck second
  have : IsTrans _ reaches := ⟨fun _ _ _ first second => ⟨first.1.trans second.1, second.2⟩⟩
  have : Std.Irrefl reaches := ⟨fun index loop => loop.2 ⟨index, loop.1, .refl⟩⟩
  have wellFounded : WellFounded reaches := Finite.wellFounded_of_trans_of_irrefl _
  have inside {driver reader : Nat} (feeds : netlist.Feeds driver reader) :
      driver < netlist.gates.size := by
    rcases feeds.1 with ⟨gate, found, _⟩
    exact (Array.getElem?_eq_some_iff.mp found).1
  have above {driver reader : Nat} (feeds : netlist.Feeds driver reader)
      (free : ¬ netlist.Stuck reader) : ¬ netlist.Stuck driver := by
    rintro ⟨looped, loop, reach⟩
    exact free ⟨looped, loop, reach.tail feeds⟩
  have accessible (index : Fin netlist.gates.size) :
      ¬ netlist.Stuck index → Acc netlist.Feeds index := by
    induction index using wellFounded.induction with
    | _ index ih =>
        exact fun free => ⟨_, fun driver feeds =>
          ih ⟨driver, inside feeds⟩ ⟨.single feeds, free⟩ (above feeds free)⟩
  exact ⟨_, fun driver feeds => accessible ⟨driver, inside feeds⟩ (above feeds free)⟩

theorem LoopFree.not_stuck (loopFree : netlist.LoopFree) (index : Nat) : ¬ netlist.Stuck index :=
  fun ⟨looped, loop, _⟩ => loopFree looped loop

theorem LoopFree.wellFounded (loopFree : netlist.LoopFree) : WellFounded netlist.Feeds :=
  ⟨fun index => acc_of_not_stuck (loopFree.not_stuck index)⟩

/-- A netlist that passes the check and has no loops can be simulated. -/
theorem runnable_of_checkDrivers (checked : netlist.checkDrivers = .ok ())
    (loopFree : netlist.LoopFree) : netlist.Runnable := by
  have accepted := checkDrivers_eq_ok.mp checked
  have existing (gate : Gate) (member : gate ∈ netlist.gates.toList) :
      Below netlist.signals.size gate.inputs := fun id pin =>
    (accepted.supplied id (mem_reads.mpr (.inl ⟨gate, member, pin⟩))).1
  exact ⟨accepted.toDrivable, accepted.legal, existing, exists_combinationalOrder
    accepted.toDrivable (fun gate member _ => existing gate member) loopFree.wellFounded⟩

end Netlist

/-- What is handed over is what has been built, and it passes the driver check. -/
theorem Attempt.accepted_of_finish {provider : CompleteProvider} {builder : Builder}
    {netlist : Netlist} (finished : (finish.run provider builder).1 = .ok netlist) :
    netlist = builder.netlist ∧ netlist.Accepted := by
  have unfolded : finish = get >>= fun builder : Builder =>
      ofExcept (builder.netlist.checkDrivers.mapError .netlist) >>= fun _ =>
        liftM (Build.note (.built builder.netlist.name builder.netlist.gates.size
          builder.netlist.signals.size)) >>= fun _ => pure builder.netlist := rfl
  rw [unfolded, run_bind, run_get] at finished
  dsimp only at finished
  rw [run_bind] at finished
  cases checked : builder.netlist.checkDrivers with
  | error cause =>
      rw [checked] at finished
      cases finished
  | ok _ =>
      rw [checked] at finished
      cases finished
      exact ⟨rfl, Netlist.checkDrivers_eq_ok.mp checked⟩

/-- Where gates read only what comes before, none feeds itself. -/
theorem Builder.Ascending.loopFree {builder : Builder} (ascending : builder.Ascending)
    (coherent : builder.Coherent) : builder.netlist.LoopFree := by
  intro index loop
  have increases : Relation.TransGen (· < ·) index index :=
    Relation.TransGen.mono (fun _ _ => ascending.lt_of_feeds coherent) _ _ loop
  rw [Relation.transGen_eq_self] at increases
  exact Nat.lt_irrefl index increases

end Datapath

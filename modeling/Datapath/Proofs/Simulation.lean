import Datapath.Proofs.Order
import Datapath.Proofs.Settling

/-!
# Runs of a simulator

A netlist is runnable when its gates are legal, drive distinct wires, read existing signals and can
be ordered. A simulator of such a netlist never fails: settling leaves all combinational gates
settled, and a clock edge moves the inputs of the registers to their outputs.

`Netlist.settledAt` is the simulator after the settling of a cycle, where each cycle sets some
inputs, settles and ends with a clock edge. `Netlist.exists_run` says that the values of a whole run
are a trace that obeys the netlist and shows what the inputs were set to.
-/

namespace Datapath

namespace Netlist

/-- Nothing keeps the netlist from being simulated. -/
structure Runnable (netlist : Netlist) : Prop extends netlist.Drivable where
  legal : ∀ gate ∈ netlist.gates.toList, gate.Legal
  existing : ∀ gate ∈ netlist.gates.toList, Below netlist.signals.size gate.inputs
  ordered : ∃ order, netlist.combinationalOrder = .ok order

variable {netlist : Netlist}

theorem Runnable.inside (runnable : netlist.Runnable) :
    ∀ gate ∈ netlist.gates.toList, gate.Inside netlist.signals.size :=
  fun gate member => ⟨runnable.existing gate member,
    fun id driven => (runnable.wires gate member id driven).lt⟩

/-- Where all that is listed is listed once, items at different positions share nothing. -/
theorem disjoint_of_nodup_flatMap {α β : Type} {items : List α} {list : α → List β}
    (once : (items.flatMap list).Nodup) {first second : Nat} {item other : α}
    (found : items[first]? = some item) (foundOther : items[second]? = some other)
    (different : first ≠ second) : (list item).Disjoint (list other) := by
  have across := List.pairwise_iff_getElem.mp (List.nodup_flatMap.mp once).2
  rcases List.getElem?_eq_some_iff.mp found with ⟨inside, rfl⟩
  rcases List.getElem?_eq_some_iff.mp foundOther with ⟨insideOther, rfl⟩
  rcases Nat.lt_or_gt_of_ne different with earlier | later
  · exact across first second inside insideOther earlier
  · exact fun value inFirst inSecond =>
      across second first insideOther inside later inSecond inFirst

theorem Drivable.disjoint (drivable : netlist.Drivable) {first second : Nat} {gate other : Gate}
    (found : netlist.gates[first]? = some gate) (foundOther : netlist.gates[second]? = some other)
    (different : first ≠ second) : gate.outputs.Disjoint other.outputs := by
  rw [← Array.getElem?_toList] at found foundOther
  exact disjoint_of_nodup_flatMap drivable.once found foundOther different

/-- What a register drives no combinational gate drives. -/
theorem Drivable.not_driven_of_register (drivable : netlist.Drivable) {gate : Gate}
    (member : gate ∈ netlist.gates.toList) (isRegister : gate.isRegister = true) {id : SignalId}
    (output : id ∈ gate.outputs) : ∀ other ∈ netlist.gates.toList, other.isCombinational = true →
      id ∉ other.outputs := by
  intro other isOther combinational outputAgain
  rcases List.mem_iff_getElem?.mp member with ⟨first, found⟩
  rcases List.mem_iff_getElem?.mp isOther with ⟨second, foundOther⟩
  refine disjoint_of_nodup_flatMap drivable.once found foundOther ?_ output outputAgain
  rintro rfl
  cases found.symm.trans foundOther
  rw [Gate.isRegister_eq_not_isCombinational, combinational] at isRegister
  cases isRegister

theorem Ordered.pairwise {order : List Nat} (ordered : netlist.Ordered order) :
    order.Pairwise fun first second => first ≠ second ∧ ¬ netlist.Feeds second first := by
  refine List.pairwise_iff_getElem.mpr fun first second inFirst inSecond lt => ⟨?_, fun feeds => ?_⟩
  · exact fun same => Nat.ne_of_lt lt ((List.Nodup.getElem_inj_iff ordered.distinct).mp same)
  · have split : order = order.take first ++ order[first] :: order.drop (first + 1) := by
      rw [List.getElem_cons_drop, List.take_append_drop]
    have before := ordered.follows _ _ _ split _ feeds
    rcases List.getElem_of_mem before with ⟨position, inside, same⟩
    rw [List.getElem_take] at same
    rw [List.length_take] at inside
    have := (List.Nodup.getElem_inj_iff ordered.distinct).mp same
    omega

theorem Ordered.not_feeds_self {order : List Nat} (ordered : netlist.Ordered order) {index : Nat}
    (member : index ∈ order) : ¬ netlist.Feeds index index := by
  intro feeds
  rcases List.append_of_mem member with ⟨before, after, split⟩
  have earlier := ordered.follows before index after split index feeds
  have distinct := ordered.distinct
  rw [split, List.nodup_append] at distinct
  exact distinct.2.2 index earlier index (by simp) rfl

theorem Ordered.sequenced {order : List Nat} (ordered : netlist.Ordered order)
    (drivable : netlist.Drivable) :
    Gate.Sequenced (order.filterMap (netlist.gates[·]?)) := by
  have isNode {index : Nat} {gate : Gate} (member : index ∈ order)
      (found : netlist.gates[index]? = some gate) : gate.isCombinational = true := by
    rcases (ordered.mem_iff index).mp member with ⟨other, foundOther, combinational⟩
    rw [found] at foundOther
    cases foundOther
    exact combinational
  constructor
  · intro gate member
    rcases List.mem_filterMap.mp member with ⟨index, placed, found⟩
    have inGates : gate ∈ netlist.gates.toList :=
      List.mem_of_getElem? (Array.getElem?_toList.trans found)
    refine ⟨(List.nodup_flatMap.mp drivable.once).1 gate inGates, fun id driven reads => ?_⟩
    apply ordered.not_feeds_self placed
    have combinational := isNode placed found
    exact ⟨⟨gate, found, combinational⟩, gate, found, combinational, id, reads, gate, found, driven⟩
  · refine List.pairwise_filterMap.mpr (ordered.pairwise.imp_of_mem ?_)
    intro first second inFirst inSecond apart gate found later foundLater
    refine ⟨fun id driven reads => ?_, ?_⟩
    · apply apart.2
      exact ⟨⟨later, foundLater, isNode inSecond foundLater⟩, gate, found, isNode inFirst found, id,
        reads, later, foundLater, driven⟩
    · exact drivable.disjoint foundLater found (Ne.symm apart.1)

theorem Ordered.mem_gates {order : List Nat} (ordered : netlist.Ordered order) {gate : Gate} :
    gate ∈ order.filterMap (netlist.gates[·]?) ↔
      gate ∈ netlist.gates.toList ∧ gate.isCombinational = true := by
  rw [List.mem_filterMap]
  constructor
  · rintro ⟨index, placed, found⟩
    rcases (ordered.mem_iff index).mp placed with ⟨other, foundOther, combinational⟩
    rw [found] at foundOther
    cases foundOther
    exact ⟨List.mem_of_getElem? (Array.getElem?_toList.trans found), combinational⟩
  · rintro ⟨member, combinational⟩
    rcases List.mem_iff_getElem?.mp member with ⟨index, found⟩
    rw [Array.getElem?_toList] at found
    exact ⟨index, (ordered.mem_iff index).mpr ⟨gate, found, combinational⟩, found⟩

end Netlist

namespace Simulator

variable {α : Type} {netlist : Netlist} {simulator : Simulator α}

/-- The simulator is one of the netlist, in any state of its values. -/
structure Runs (netlist : Netlist) (simulator : Simulator α) : Prop where
  netlist_eq : simulator.netlist = netlist
  combinational_eq : ∃ order, netlist.Ordered order ∧
    simulator.combinational = order.filterMap (netlist.gates[·]?)
  registers_eq : simulator.registers = netlist.gates.toList.filter (·.isRegister)
  size_eq : simulator.values.size = netlist.signals.size

theorem Runs.withValues (runs : simulator.Runs netlist) {changed : List SignalId}
    {values : Array α} (frame : Frame changed simulator.values values) :
    Runs netlist { simulator with values } :=
  { runs with size_eq := frame.size.trans runs.size_eq }

variable [Logic α]

/-- The literals carry their values. -/
def Literals (netlist : Netlist) (values : Array α) : Prop :=
  ∀ {id : SignalId} {value : Bool}, netlist.signals[id]? = some (.literal value) →
    valuation values id = Logic.ofBool value

theorem exists_start_eq_ok (runnable : netlist.Runnable) :
    ∃ simulator : Simulator α, start netlist = .ok simulator ∧ simulator.Runs netlist ∧
      Literals netlist simulator.values := by
  rcases runnable.ordered with ⟨order, found⟩
  refine ⟨⟨netlist, order.filterMap (netlist.gates[·]?),
    netlist.gates.toList.filter (·.isRegister), netlist.signals.map initialValue⟩, ?_, ?_, ?_⟩
  · rw [start, found]
    rfl
  · exact ⟨rfl, ⟨order, Netlist.ordered_of_combinationalOrder found, rfl⟩, rfl, Array.size_map⟩
  · intro id value literal
    simp [valuation, literal, initialValue]

/-- Settling never fails. It changes outputs of combinational gates only, and settles all gates. -/
theorem exists_settle_eq_ok (runnable : netlist.Runnable) (runs : simulator.Runs netlist) :
    ∃ values, simulator.settle = .ok { simulator with values } ∧
      Frame ((netlist.gates.toList.filter (·.isCombinational)).flatMap (·.outputs))
        simulator.values values ∧ Gate.Settled netlist.gates.toList (valuation values) := by
  rcases runs.combinational_eq with ⟨order, ordered, combinational⟩
  have member (gate : Gate) (inOrder : gate ∈ simulator.combinational) :
      gate ∈ netlist.gates.toList := by
    rw [combinational] at inOrder
    exact (ordered.mem_gates.mp inOrder).1
  have sequenced : Gate.Sequenced simulator.combinational := by
    rw [combinational]
    exact ordered.sequenced runnable.toDrivable
  rcases exists_settleGates_eq_ok simulator.values
    (fun gate inOrder => runnable.legal gate (member gate inOrder))
    (fun gate inOrder => runs.size_eq ▸ runnable.inside gate (member gate inOrder)) sequenced with
    ⟨values, settled, frame, carries⟩
  refine ⟨values, ?_, ⟨frame.size, fun id unchanged => frame.kept id fun driven => ?_⟩, ?_⟩
  · rw [settle, settled]
    rfl
  · rcases List.mem_flatMap.mp driven with ⟨gate, inOrder, drives⟩
    rw [combinational] at inOrder
    apply unchanged
    exact List.mem_flatMap.mpr ⟨gate, List.mem_filter.mpr (ordered.mem_gates.mp inOrder), drives⟩
  · intro gate isGate isCombinational
    apply carries gate
    rw [combinational]
    exact ordered.mem_gates.mpr ⟨isGate, isCombinational⟩

/-- A clock edge never fails. It changes outputs of registers only, which take what their inputs
carried. -/
theorem exists_clock_eq_ok (runnable : netlist.Runnable) (runs : simulator.Runs netlist) :
    ∃ values, simulator.clock = .ok { simulator with values } ∧
      Frame ((netlist.gates.toList.filter (·.isRegister)).flatMap (·.outputs))
        simulator.values values ∧
      ∀ gate ∈ netlist.gates.toList, gate.isRegister = true →
        gate.Carries (valuation simulator.values) (valuation values) := by
  have member (gate : Gate) (isRegister : gate ∈ simulator.registers) :
      gate ∈ netlist.gates.toList ∧ gate.isRegister = true := by
    rw [runs.registers_eq] at isRegister
    exact List.mem_filter.mp isRegister
  have distinct : (simulator.registers.flatMap (·.outputs)).Nodup := by
    rcases List.nodup_flatMap.mp runnable.once with ⟨each, across⟩
    rw [runs.registers_eq, List.nodup_flatMap]
    exact ⟨fun gate isRegister => each gate (List.mem_filter.mp isRegister).1,
      across.sublist List.filter_sublist⟩
  rcases exists_clocked (fun gate isRegister => runnable.legal gate (member gate isRegister).1)
    (fun gate isRegister => (member gate isRegister).2)
    (fun gate isRegister => runs.size_eq ▸ runnable.inside gate (member gate isRegister).1)
    distinct with ⟨sampled, values, isSampled, written, frame, carries⟩
  refine ⟨values, ?_, runs.registers_eq ▸ frame, fun gate isGate isRegister => ?_⟩
  · rw [clock, isSampled]
    change (writeAll simulator.values sampled >>= fun values => _) = _
    rw [written]
    rfl
  · apply carries gate
    rw [runs.registers_eq]
    exact List.mem_filter.mpr ⟨isGate, isRegister⟩

end Simulator

namespace Netlist

variable {α : Type}

/-- Values for some of the input ports, by name, low bit first. -/
abbrev Assignment (α : Type) := List (String × List α)

/-- The bits of the input ports are input signals, all different. -/
structure InputsDistinct (netlist : Netlist) : Prop where
  sources : ∀ port ∈ netlist.inputs, ∀ id ∈ port.bits,
    ∃ name bit, netlist.signals[id]? = some (.input name bit)
  distinct : (netlist.inputs.flatMap (·.bits)).Nodup

/-- The ports of an assignment exist, differ and have the right widths. -/
structure Fits (netlist : Netlist) (assignment : Assignment α) : Prop where
  names : (assignment.map (·.1)).Nodup
  ports : ∀ entry ∈ assignment, ∃ port, netlist.inputPort? entry.1 = some port ∧
    port.width = entry.2.length

/-- The input ports carry what is assigned to them. -/
def Shows (netlist : Netlist) (assignment : Assignment α) (value : Valuation α) : Prop :=
  ∀ entry ∈ assignment, ∀ port, netlist.inputPort? entry.1 = some port →
    port.bits.map value = entry.2

theorem mem_inputs_of_inputPort? {netlist : Netlist} {name : String} {port : Port}
    (found : netlist.inputPort? name = some port) : port ∈ netlist.inputs ∧ port.name = name :=
  ⟨List.mem_of_find?_eq_some found, by simpa using List.find?_some found⟩

/-- Items with different keys are found by them. -/
theorem find?_key_of_nodup {items : List α} {key : α → String} (keys : (items.map key).Nodup)
    {item : α} (member : item ∈ items) : items.find? (key · == key item) = some item := by
  cases found : items.find? (key · == key item) with
  | none =>
      have differs := List.find?_eq_none.mp found item member
      exact absurd (beq_self_eq_true (key item)) differs
  | some other =>
      have same := List.find?_some found
      rw [beq_iff_eq] at same
      exact congrArg some
        (List.inj_on_of_nodup_map keys (List.mem_of_find?_eq_some found) member same)

/-- Ports with different names are found by them. -/
theorem find?_name_of_nodup {ports : List Port} (names : (ports.map (·.name)).Nodup) {port : Port}
    (member : port ∈ ports) : ports.find? (·.name == port.name) = some port :=
  find?_key_of_nodup names member

namespace InputsDistinct

variable {netlist : Netlist} {port other : Port}

theorem lt (inputs : netlist.InputsDistinct) (member : port ∈ netlist.inputs) :
    Below netlist.signals.size port.bits := by
  intro id bit
  rcases inputs.sources port member id bit with ⟨name, index, found⟩
  exact (Array.getElem?_eq_some_iff.mp found).1

theorem nodup (inputs : netlist.InputsDistinct) (member : port ∈ netlist.inputs) :
    port.bits.Nodup :=
  (List.nodup_flatMap.mp inputs.distinct).1 port member

theorem disjoint (inputs : netlist.InputsDistinct) (member : port ∈ netlist.inputs)
    (memberOther : other ∈ netlist.inputs) (different : port ≠ other) :
    port.bits.Disjoint other.bits := by
  rcases List.mem_iff_getElem?.mp member with ⟨first, found⟩
  rcases List.mem_iff_getElem?.mp memberOther with ⟨second, foundOther⟩
  refine disjoint_of_nodup_flatMap inputs.distinct found foundOther fun same => different ?_
  rw [same, foundOther] at found
  exact (Option.some.inj found).symm

theorem not_driven (inputs : netlist.InputsDistinct) (drivable : netlist.Drivable)
    (member : port ∈ netlist.inputs) {id : SignalId} (bit : id ∈ port.bits) {gate : Gate}
    (isGate : gate ∈ netlist.gates.toList) : id ∉ gate.outputs := by
  intro driven
  rcases inputs.sources port member id bit with ⟨name, index, found⟩
  rcases drivable.wires gate isGate id driven with ⟨label, foundWire⟩
  rw [found] at foundWire
  cases foundWire

end InputsDistinct

end Netlist

namespace Simulator

variable {α : Type} [Logic α] {netlist : Netlist}

/-- Gives input ports their values. -/
def assign (simulator : Simulator α) (assignment : Netlist.Assignment α) :
    Except Error (Simulator α) :=
  assignment.foldlM (fun simulator (name, bits) => simulator.setInput name bits) simulator

/-- Gives input ports their values and settles. -/
def present (simulator : Simulator α) (assignment : Netlist.Assignment α) :
    Except Error (Simulator α) := do
  (← simulator.assign assignment).settle

theorem exists_setInput_eq_ok {simulator : Simulator α} (inputs : netlist.InputsDistinct)
    (runs : simulator.Runs netlist) {name : String} {port : Port}
    (found : netlist.inputPort? name = some port) {bits : List α}
    (width : port.width = bits.length) :
    ∃ values, simulator.setInput name bits = .ok { simulator with values } ∧
      Frame port.bits simulator.values values ∧ port.bits.map (valuation values) = bits := by
  have member := (Netlist.mem_inputs_of_inputPort? found).1
  rcases exists_writeAll_zip_eq_ok (runs.size_eq ▸ inputs.lt member) (inputs.nodup member)
    width with ⟨values, written, frame, values_eq⟩
  refine ⟨values, ?_, frame, values_eq⟩
  simp only [setInput, runs.netlist_eq, found, width]
  simp only [ne_eq, not_true_eq_false, if_false]
  rw [written]
  rfl

/-- Assigning values that fit never fails. It changes input ports only, which then carry them. -/
theorem exists_assign_eq_ok {simulator : Simulator α} {assignment : Netlist.Assignment α}
    (inputs : netlist.InputsDistinct) (fits : netlist.Fits assignment)
    (runs : simulator.Runs netlist) :
    ∃ values, simulator.assign assignment = .ok { simulator with values } ∧
      (∃ changed, Frame changed simulator.values values ∧
        ∀ id ∈ changed, ∃ entry ∈ assignment, ∃ port,
          netlist.inputPort? entry.1 = some port ∧ id ∈ port.bits) ∧
      netlist.Shows assignment (valuation values) := by
  induction assignment generalizing simulator with
  | nil => exact ⟨simulator.values, rfl, ⟨[], .refl _, nofun⟩, nofun⟩
  | cons entry rest ih =>
      rcases entry with ⟨name, bits⟩
      rcases fits with ⟨names, ports⟩
      rw [List.map_cons, List.nodup_cons] at names
      rw [List.forall_mem_cons] at ports
      rcases ports.1 with ⟨port, found, width⟩
      rcases exists_setInput_eq_ok inputs runs found width with ⟨middle, set, frame, shows⟩
      rcases ih ⟨names.2, ports.2⟩ (runs.withValues frame) with
        ⟨values, assigned, ⟨changed, frameRest, changed_bits⟩, showsRest⟩
      refine ⟨values, ?_, ⟨_, frame.trans frameRest, fun id member => ?_⟩, ?_⟩
      · rw [assign, List.foldlM_cons]
        change (simulator.setInput name bits >>= fun simulator => simulator.assign rest) = _
        rw [set]
        exact assigned
      · rcases List.mem_append.mp member with here | later
        · exact ⟨_, List.mem_cons_self, port, found, here⟩
        · rcases changed_bits id later with ⟨entry, isEntry, pin⟩
          exact ⟨entry, List.mem_cons_of_mem _ isEntry, pin⟩
      · intro other isOther otherPort foundOther
        rcases List.mem_cons.mp isOther with rfl | later
        · rw [found] at foundOther
          cases foundOther
          rw [← shows]
          refine List.map_congr_left fun id bit => frameRest.valuation_eq fun changedAgain => ?_
          rcases changed_bits id changedAgain with ⟨entry, isEntry, last, foundLast, lastBit⟩
          rcases Netlist.mem_inputs_of_inputPort? found with ⟨member, isName⟩
          rcases Netlist.mem_inputs_of_inputPort? foundLast with ⟨memberLast, isNameLast⟩
          refine inputs.disjoint member memberLast (fun same => names.1 ?_) bit lastBit
          rw [← isName, same, isNameLast]
          exact List.mem_map_of_mem isEntry
        · exact showsRest other later otherPort foundOther

/-- The state of a simulator after the settling of a cycle. -/
structure Presented (netlist : Netlist) (assignment : Netlist.Assignment α)
    (simulator : Simulator α) : Prop where
  runs : simulator.Runs netlist
  literals : Literals netlist simulator.values
  settled : Gate.Settled netlist.gates.toList (valuation simulator.values)
  shows : netlist.Shows assignment (valuation simulator.values)

/-- Presenting values that fit never fails, and leaves the registers alone. -/
theorem exists_present_eq_ok {simulator : Simulator α} {assignment : Netlist.Assignment α}
    (runnable : netlist.Runnable) (inputs : netlist.InputsDistinct)
    (fits : netlist.Fits assignment) (runs : simulator.Runs netlist)
    (literals : Literals netlist simulator.values) :
    ∃ presented, simulator.present assignment = .ok presented ∧
      presented.Presented netlist assignment ∧
      ∀ gate ∈ netlist.gates.toList, gate.isRegister = true →
        ∀ id ∈ gate.outputs, valuation presented.values id = valuation simulator.values id := by
  rcases exists_assign_eq_ok inputs fits runs with
    ⟨loaded, assigned, ⟨changed, frame, changed_bits⟩, shows⟩
  have loadedRuns := runs.withValues frame
  rcases exists_settle_eq_ok runnable loadedRuns with ⟨values, settled, frameSettle, holds⟩
  have isBit (id : SignalId) (member : id ∈ changed) :
      ∃ port ∈ netlist.inputs, id ∈ port.bits := by
    rcases changed_bits id member with ⟨entry, _, port, found, bit⟩
    exact ⟨port, (Netlist.mem_inputs_of_inputPort? found).1, bit⟩
  have keptBySettling (id : SignalId) (undriven : ∀ gate ∈ netlist.gates.toList,
      gate.isCombinational = true → id ∉ gate.outputs) :
    valuation values id = valuation loaded id := by
    apply frameSettle.valuation_eq
    intro driven
    rcases List.mem_flatMap.mp driven with ⟨gate, member, drives⟩
    rcases List.mem_filter.mp member with ⟨isGate, combinational⟩
    exact undriven gate isGate combinational drives
  refine ⟨_, ?_, ⟨loadedRuns.withValues frameSettle, ?_, holds, ?_⟩, ?_⟩
  · rw [present, assigned]
    change (liftM (settle { simulator with values := loaded }) : Except Error _) = _
    rw [settled]
    rfl
  · intro id value literal
    refine ((keptBySettling id ?_).trans (frame.valuation_eq ?_)).trans (literals literal)
    · intro gate isGate _ driven
      rcases runnable.wires gate isGate id driven with ⟨label, wire⟩
      rw [literal] at wire
      cases wire
    · intro member
      rcases isBit id member with ⟨port, isPort, bit⟩
      rcases inputs.sources port isPort id bit with ⟨name, index, found⟩
      rw [literal] at found
      cases found
  · intro entry isEntry port found
    rw [← shows entry isEntry port found]
    refine List.map_congr_left fun id bit => keptBySettling id fun gate isGate _ => ?_
    have isPort := (Netlist.mem_inputs_of_inputPort? found).1
    exact inputs.not_driven runnable.toDrivable isPort bit isGate
  · intro gate isGate register id driven
    refine (keptBySettling id ?_).trans (frame.valuation_eq ?_)
    · exact runnable.not_driven_of_register isGate register driven
    · intro member
      rcases isBit id member with ⟨port, isPort, bit⟩
      exact inputs.not_driven runnable.toDrivable isPort bit isGate driven

/-- From one cycle to the next nothing fails either, and the registers take over what their inputs
carried. -/
theorem Presented.exists_next {simulator : Simulator α} {assignment next : Netlist.Assignment α}
    (runnable : netlist.Runnable) (inputs : netlist.InputsDistinct) (fits : netlist.Fits next)
    (presented : simulator.Presented netlist assignment) :
    ∃ clocked later, simulator.clock = .ok clocked ∧ clocked.present next = .ok later ∧
      later.Presented netlist next ∧
      ∀ gate ∈ netlist.gates.toList, gate.isRegister = true →
        gate.Carries (valuation simulator.values) (valuation later.values) := by
  rcases exists_clock_eq_ok runnable presented.runs with ⟨values, isClocked, frame, carries⟩
  have literals : Literals netlist values := by
    intro id value literal
    refine (frame.valuation_eq fun driven => ?_).trans (presented.literals literal)
    rcases List.mem_flatMap.mp driven with ⟨gate, member, drives⟩
    rcases runnable.wires gate (List.mem_filter.mp member).1 id drives with ⟨label, wire⟩
    rw [literal] at wire
    cases wire
  rcases exists_present_eq_ok runnable inputs fits (presented.runs.withValues frame) literals with
    ⟨later, isPresented, holds, kept⟩
  refine ⟨_, later, isClocked, isPresented, holds, fun gate isGate register => ?_⟩
  exact (carries gate isGate register).congr (fun _ _ => rfl) (kept gate isGate register)

end Simulator

namespace Netlist

variable {α : Type} [Logic α] {netlist : Netlist}

/-- The simulator after the settling of a cycle. Each cycle sets inputs, settles, and ends with a
clock edge. -/
def settledAt (netlist : Netlist) (stimulus : Nat → Assignment α) :
    (cycle : Nat) → Except Error (Simulator α)
  | 0 => do
    let started : Simulator α ← Simulator.start netlist
    started.present (stimulus 0)
  | cycle + 1 => do
    let clocked ← (← netlist.settledAt stimulus cycle).clock
    clocked.present (stimulus (cycle + 1))

theorem exists_settledAt_eq_ok (runnable : netlist.Runnable) (inputs : netlist.InputsDistinct)
    {stimulus : Nat → Assignment α} (fits : ∀ cycle, netlist.Fits (stimulus cycle)) (cycle : Nat) :
    ∃ simulator, netlist.settledAt stimulus cycle = .ok simulator ∧
      simulator.Presented netlist (stimulus cycle) := by
  induction cycle with
  | zero =>
      rcases Simulator.exists_start_eq_ok (α := α) runnable with
        ⟨started, isStarted, runs, literals⟩
      rcases Simulator.exists_present_eq_ok runnable inputs (fits 0) runs literals with
        ⟨presented, isPresented, holds, _⟩
      refine ⟨presented, ?_, holds⟩
      rw [settledAt, isStarted]
      exact isPresented
  | succ cycle ih =>
      rcases ih with ⟨simulator, settled, presented⟩
      rcases presented.exists_next runnable inputs (fits (cycle + 1)) with
        ⟨clocked, later, isClocked, isPresented, holds, _⟩
      refine ⟨later, ?_, holds⟩
      rw [settledAt, settled]
      change (liftM simulator.clock >>= fun clocked => clocked.present _) = _
      rw [isClocked]
      exact isPresented

/-- The values of a run are a trace that obeys the netlist and shows what the inputs were set to. -/
theorem exists_run (runnable : netlist.Runnable) (inputs : netlist.InputsDistinct)
    {stimulus : Nat → Assignment α} (fits : ∀ cycle, netlist.Fits (stimulus cycle)) :
    ∃ trace : Nat → Valuation α, netlist.Obeys trace ∧
      (∀ cycle, netlist.Shows (stimulus cycle) (trace cycle)) ∧
      ∀ cycle, ∃ simulator, netlist.settledAt stimulus cycle = .ok simulator ∧
        simulator.Runs netlist ∧ Simulator.valuation simulator.values = trace cycle := by
  choose simulator settled presented using exists_settledAt_eq_ok runnable inputs fits
  refine ⟨fun cycle => Simulator.valuation (simulator cycle).values, ⟨?_, ?_, ?_⟩, ?_, ?_⟩
  · exact fun literal cycle => (presented cycle).literals literal
  · exact fun cycle => (presented cycle).settled
  · intro gate member register cycle
    rcases (presented cycle).exists_next runnable inputs (fits (cycle + 1)) with
      ⟨clocked, later, isClocked, isPresented, _, carries⟩
    have same : later = simulator (cycle + 1) := by
      have next := settled (cycle + 1)
      rw [settledAt, settled cycle] at next
      change (liftM (simulator cycle).clock >>= fun clocked => clocked.present _) = _ at next
      rw [isClocked] at next
      change clocked.present _ = _ at next
      rw [isPresented] at next
      exact Except.ok.inj next
    rw [← same]
    exact carries gate member register
  · exact fun cycle => (presented cycle).shows
  · exact fun cycle => ⟨simulator cycle, settled cycle, (presented cycle).runs, rfl⟩

end Netlist

end Datapath

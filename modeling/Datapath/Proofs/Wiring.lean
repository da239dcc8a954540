import Datapath.Proofs.Coherence
import Datapath.Proofs.Emission

/-!
# Wiring of modules

`Module.WellFormed` says that a module is one that a compiler accepts: its names differ, what it
uses is declared, every net and every bit of an output port is driven exactly once, and the nets
declared as registers are those that are assigned at clock edges. Which pins of a cell drive is not
in the text, so it is given for each kind of cell.

The module of every netlist that is put together as the generators do it is well formed,
`Netlist.Composed.exists_module`: the wires are the outputs of the gates, and each gate drives its
outputs and uses its pins, the clock where it is a register and the rails where there are any.
-/

namespace Datapath

open Scoped (Within)

namespace Verilog

namespace Statement

/-- The bits that the statement uses. -/
def atoms : Statement → List Atom
  | .assign target value _ => target :: value.atoms
  | .assignSum target left right _ => target ++ left ++ right
  | .clocked clock target value _ => [.net clock, target, value]
  | .cell _ _ connections => connections.map (·.2)

/-- The bits that the statement drives, given the output pins of each kind of cell. -/
def driven (outputPins : String → List String) : Statement → List Atom
  | .assign target _ _ => [target]
  | .assignSum target _ _ _ => target
  | .clocked _ target _ _ => [target]
  | .cell kind _ connections => (connections.filter (·.1 ∈ outputPins kind)).map (·.2)

/-- The name of the cell. -/
def instance? : Statement → Option String
  | .cell _ name _ => some name
  | .assign .. | .assignSum .. | .clocked .. => none

end Statement

namespace Module

/-- All names that the module declares. -/
def names (module : Module) : List String :=
  module.ports.map (·.name) ++ module.nets.map (·.name) ++
    module.statements.filterMap Statement.instance?

/-- The bits that the module drives, each as often as it is driven. -/
def driven (outputPins : String → List String) (module : Module) : List Atom :=
  module.statements.flatMap (Statement.driven outputPins)

/-- The bit is one of a declared net or port. -/
def Declares (module : Module) : Atom → Prop
  | .net name => (∃ net ∈ module.nets, net.name = name) ∨
      ∃ port ∈ module.ports, port.name = name ∧ port.highest = none
  | .bit vector index => ∃ port ∈ module.ports, port.name = vector ∧
      ∃ highest, port.highest = some highest ∧ index ≤ highest
  | .constant _ => True

/-- Names differ, what is used is declared, and nets and output bits are driven once. -/
structure WellFormed (outputPins : String → List String) (module : Module) : Prop where
  distinct : module.names.Nodup
  declared : ∀ statement ∈ module.statements, ∀ bit ∈ statement.atoms, module.Declares bit
  nets : ∀ net ∈ module.nets, (module.driven outputPins).count (.net net.name) = 1
  registers : ∀ net ∈ module.nets, net.isRegister = true ↔
    ∃ statement ∈ module.statements, ∃ clock, statement.Clocks clock net.name
  outputs : ∀ port ∈ module.ports, port.isInput = false →
    ∃ highest, port.highest = some highest ∧
      ∀ index ≤ highest, (module.driven outputPins).count (.bit port.name index) = 1
  /-- Inputs and constants are not driven. -/
  sources : ∀ bit ∈ module.driven outputPins,
    (∃ net ∈ module.nets, bit = .net net.name) ∨
      ∃ port ∈ module.ports, port.isInput = false ∧ ∃ index, bit = .bit port.name index

end Module

end Verilog

/-- The output pins of a kind of cell, as a provider binds it. -/
def Provider.outputPins (provider : Provider) (kind : String) : List String :=
  Primitive.all.flatMap fun primitive =>
    match provider.realize primitive with
    | some (.cell binding) => if binding.cell = kind then binding.outputPins else []
    | _ => []

open Verilog

namespace CellBinding

/-- All pins of the cell. -/
def pins (binding : CellBinding) : List String :=
  binding.clockPin.toList ++ binding.inputPins ++ binding.outputPins ++
    binding.powerPins.map (·.1)

/-- The cell has the pins that the primitive needs. -/
structure Fits (binding : CellBinding) (primitive : Primitive) : Prop where
  arity : primitive.arity = some (binding.inputPins.length, binding.outputPins.length)
  distinct : binding.pins.Nodup
  clock : binding.clockPin ≠ none → primitive = .dff
  rails : ∀ pin ∈ binding.powerPins, pin.2 ∈ ["VPWR", "VGND"]
  kind : IsName binding.cell
  names : ∀ pin ∈ binding.pins, IsName pin

namespace Fits

variable {binding : CellBinding} {primitive : Primitive} {pin : String}

/-- Clock and inputs are no outputs. -/
theorem not_output_of_input (fits : binding.Fits primitive)
    (isInput : pin ∈ binding.clockPin.toList ++ binding.inputPins) : pin ∉ binding.outputPins := by
  intro isOutput
  have apart := (List.nodup_append.mp (List.nodup_append.mp fits.distinct).1).2.2
  exact apart pin isInput pin isOutput rfl

/-- Supply pins are no outputs. -/
theorem not_output_of_power (fits : binding.Fits primitive)
    (isPower : pin ∈ binding.powerPins.map (·.1)) : pin ∉ binding.outputPins := by
  intro isOutput
  have apart := (List.nodup_append.mp fits.distinct).2.2
  exact apart pin (List.mem_append_right _ isOutput) pin isPower rfl

end Fits

end CellBinding

/-- Every cell that the provider binds has the pins that it needs, and its kind tells which of them
drive. -/
def Provider.Fits (provider : Provider) : Prop :=
  ∀ (primitive : Primitive) (binding : CellBinding),
    provider.realize primitive = some (.cell binding) →
      binding.Fits primitive ∧ provider.outputPins binding.cell = binding.outputPins

namespace Netlist

/-- What generators put together with a provider: gates drive the wires in order and each wire once,
they are realized as the provider says, and their names and those of the wires stay apart. -/
structure Composed (provider : Provider) (netlist : Netlist) : Prop
    extends Presentable netlist where
  drives : netlist.gates.toList.flatMap (·.outputs) = netlist.wires
  realized : ∀ gate ∈ netlist.gates.toList,
    provider.realize gate.primitive = some gate.realization
  isLabel : ∀ text, .wire (some text) ∈ netlist.signals → IsLabel text
  numbered : ∀ (number : Nat) (gate : Gate), netlist.gates.toList[number]? = some gate →
    gate.Numbered number
  clocked : ∀ gate ∈ netlist.gates.toList, gate.primitive = .dff → netlist.clock ≠ none

/-- The bit stands for a signal, for the clock or for a rail. -/
def Stands (netlist : Netlist) (bit : Atom) : Prop :=
  (∃ id < netlist.signals.size, bit = netlist.atomAt id) ∨
    (∃ name ∈ netlist.clock.toList ++ netlist.rails, bit = .net name) ∨
      ∃ value, bit = .constant value

/-- The statements are written for the gate: they drive its outputs and read its inputs. -/
structure WrittenFor (outputPins : String → List String) (netlist : Netlist) (gate : Gate)
    (statements : List Statement) : Prop where
  written : netlist.gateStatements gate = .ok statements
  driven : statements.flatMap (Statement.driven outputPins) = gate.outputs.map netlist.atomAt
  reads : gate.inputs.map netlist.atomAt ⊆ statements.flatMap Statement.atoms

/-- The statements drive the outputs of the gate, read its inputs and use what the netlist has. -/
structure Connects (outputPins : String → List String) (netlist : Netlist) (gate : Gate)
    (statements : List Statement) : Prop where
  legible : ∀ statement ∈ statements, statement.Legible
  driven : statements.flatMap (Statement.driven outputPins) = gate.outputs.map netlist.atomAt
  reads : gate.inputs.map netlist.atomAt ⊆ statements.flatMap Statement.atoms
  stands : ∀ statement ∈ statements, ∀ bit ∈ statement.atoms, netlist.Stands bit
  clocks_iff : ∀ name, (∃ statement ∈ statements, ∃ clock, statement.Clocks clock name) ↔
    isClockedAssignment gate = true ∧ .net name ∈ gate.outputs.map netlist.atomAt
  instances : (statements.filterMap Statement.instance?).Sublist [gate.name]

theorem stands_atomAt {netlist : Netlist} {ids : List SignalId}
    (existing : Below netlist.signals.size ids) :
    ∀ bit ∈ ids.map netlist.atomAt, netlist.Stands bit :=
  List.forall_mem_map.mpr fun id member => .inl ⟨id, existing id member, rfl⟩

/-- The connections of pins to existing signals. -/
def connected (netlist : Netlist) (pins : List String) (ids : List SignalId) :
    List (String × Atom) :=
  (pins.zip ids).map fun pair => (pair.1, netlist.atomAt pair.2)

theorem connections_eq_ok {netlist : Netlist} {ids : List SignalId}
    (existing : Below netlist.signals.size ids) (pins : List String) :
    netlist.connections pins ids = .ok (netlist.connected pins ids) := by
  refine Except.mapM_eq_ok fun pair member => ?_
  dsimp only
  rw [atom_eq_ok (existing pair.2 (List.of_mem_zip member).2)]
  rfl

theorem of_mem_connected {netlist : Netlist} {pins : List String} {ids : List SignalId}
    {connection : String × Atom} (member : connection ∈ netlist.connected pins ids) :
    connection.1 ∈ pins ∧ connection.2 ∈ ids.map netlist.atomAt := by
  rcases List.mem_map.mp member with ⟨pair, isPair, rfl⟩
  exact ⟨(List.of_mem_zip isPair).1, List.mem_map_of_mem (List.of_mem_zip isPair).2⟩

/-- Only the connections of output pins drive. -/
theorem filter_outputs {outputPins : List String} {before outputs after : List (String × Atom)}
    (apartBefore : ∀ connection ∈ before, connection.1 ∉ outputPins)
    (among : ∀ connection ∈ outputs, connection.1 ∈ outputPins)
    (apartAfter : ∀ connection ∈ after, connection.1 ∉ outputPins) :
    (before ++ outputs ++ after).filter (·.1 ∈ outputPins) = outputs := by
  have nothing {connections : List (String × Atom)}
      (apart : ∀ connection ∈ connections, connection.1 ∉ outputPins) :
      connections.filter (·.1 ∈ outputPins) = [] :=
    List.filter_eq_nil_iff.mpr fun connection member isOutput =>
      apart connection member (of_decide_eq_true isOutput)
  have all : outputs.filter (·.1 ∈ outputPins) = outputs :=
    List.filter_eq_self.mpr fun connection member => decide_eq_true (among connection member)
  rw [List.filter_append, List.filter_append, nothing apartBefore, nothing apartAfter, all,
    List.nil_append, List.append_nil]

theorem map_snd_connected {netlist : Netlist} {pins : List String} {ids : List SignalId}
    (lengths : pins.length = ids.length) :
    (netlist.connected pins ids).map (·.2) = ids.map netlist.atomAt := by
  rw [connected, List.map_map]
  change List.map (netlist.atomAt ∘ Prod.snd) _ = _
  rw [← List.map_map, List.map_snd_zip (Nat.le_of_eq lengths.symm)]

namespace Composed

variable {provider : Provider} {netlist : Netlist} {gate : Gate}

/-- The clock of a register is that of the netlist. -/
theorem clockText_mem (composed : netlist.Composed provider)
    (member : gate ∈ netlist.gates.toList) (isDff : gate.primitive = .dff) :
    netlist.clockText ∈ netlist.clock.toList ++ netlist.rails := by
  rcases Option.ne_none_iff_exists'.mp (composed.clocked gate member isDff) with ⟨clock, isClock⟩
  rw [clockText, isClock]
  exact List.mem_append_left _ List.mem_cons_self

theorem legible_of_stands (composed : netlist.Composed provider) {bit : Atom}
    (stands : netlist.Stands bit) : bit.Legible := by
  rcases stands with ⟨id, _, rfl⟩ | ⟨name, isScalar, rfl⟩ | ⟨value, rfl⟩
  · exact composed.legible_atomAt id
  · have listed : scalarInput name ∈ netlist.header := by
      rw [header, List.append_assoc]
      exact List.mem_append_left _ (List.mem_map_of_mem isScalar)
    exact composed.isName_header listed
  · trivial

variable (composed : netlist.Composed provider) (member : gate ∈ netlist.gates.toList)
  (outputPins : String → List String)

include composed member

theorem connects_add (isAdd : gate.primitive = .add) :
    ∃ statements, netlist.inferredStatements gate = .ok statements ∧
      netlist.Connects outputPins gate statements := by
  have inside := composed.runnable.inside gate member
  have legal := composed.runnable.legal gate member
  have written := inferredStatements_of_add inside legal isAdd
  refine ⟨_, written, composed.legible_statements member written, ?_, ?_, ?_, ?_, ?_⟩
  · exact List.flatMap_singleton ..
  · rw [List.flatMap_singleton, Statement.atoms, List.append_assoc, ← List.map_append,
      List.take_append_drop]
    exact List.subset_append_right _ _
  · rw [List.forall_mem_singleton, Statement.atoms, ← List.map_append, ← List.map_append,
      List.append_assoc, List.take_append_drop]
    exact stands_atomAt (below_append.mpr ⟨inside.2, inside.1⟩)
  · simp [Statement.Clocks, isClockedAssignment, isAdd]
  · exact List.nil_sublist _

theorem connects_register (isRegister : gate.isRegister = true)
    (inferred : gate.realization = .inferred) :
    ∃ statements, netlist.inferredStatements gate = .ok statements ∧
      netlist.Connects outputPins gate statements := by
  have inside := composed.runnable.inside gate member
  have isDff := (Gate.isRegister_iff gate).mp isRegister
  rcases inferredStatements_of_register inside (composed.runnable.legal gate member) isRegister with
    ⟨d, q, isInputs, isOutputs, written⟩
  refine ⟨_, written, composed.legible_statements member written, ?_, ?_, ?_, ?_, ?_⟩
  · rw [isOutputs]
    rfl
  · simp [isInputs, Statement.atoms]
  · rw [Gate.Inside, isInputs, isOutputs] at inside
    rw [List.forall_mem_singleton, Statement.atoms, List.forall_mem_cons]
    exact ⟨.inr (.inl ⟨_, composed.clockText_mem member isDff, rfl⟩),
      stands_atomAt (below_append.mpr ⟨inside.2, inside.1⟩)⟩
  · intro name
    simp [Statement.Clocks, isClockedAssignment, isDff, inferred, isOutputs, eq_comm]
  · exact List.nil_sublist _

theorem connects_formulas (noAdd : gate.primitive ≠ .add) (noRegister : gate.isRegister = false) :
    ∃ statements, netlist.inferredStatements gate = .ok statements ∧
      netlist.Connects outputPins gate statements := by
  have inside := composed.runnable.inside gate member
  have legal := composed.runnable.legal gate member
  rcases inferredStatements_of_formulas inside legal noAdd noRegister with
    ⟨formulas, computed, length, written⟩
  have lengths : (gate.outputs.map netlist.atomAt).length = formulas.length := by
    rw [List.length_map, length]
  refine ⟨_, written, composed.legible_statements member written, ?_, ?_, ?_, ?_, ?_⟩
  · rw [List.flatMap_map]
    change List.flatMap (fun pair : Atom × Expression => [pair.1]) _ = _
    rw [← List.map_eq_flatMap, List.map_fst_zip (Nat.le_of_eq lengths)]
  · intro bit isInput
    have inFormulas : bit ∈ formulas.flatMap Expression.atoms :=
      Primitive.subset_atoms_formulas (by simpa [Gate.Legal] using legal) noAdd computed isInput
    rw [← List.map_snd_zip (Nat.le_of_eq lengths.symm), List.flatMap_map] at inFormulas
    rcases List.mem_flatMap.mp inFormulas with ⟨pair, isPair, inside⟩
    rw [List.flatMap_map]
    exact List.mem_flatMap.mpr ⟨pair, isPair, List.mem_cons_of_mem _ inside⟩
  · intro statement isStatement
    rcases List.mem_map.mp isStatement with ⟨⟨target, formula⟩, isPair, rfl⟩
    rcases List.of_mem_zip isPair with ⟨isTarget, isFormula⟩
    refine List.forall_mem_cons.mpr ⟨stands_atomAt inside.2 target isTarget, fun bit isBit => ?_⟩
    exact stands_atomAt inside.1 bit
      (Primitive.atoms_formulas_subset computed (List.mem_flatMap.mpr ⟨formula, isFormula, isBit⟩))
  · intro name
    simp [Statement.Clocks, isClockedAssignment, gate.primitive_ne_dff noRegister]
  · rw [List.filterMap_eq_nil_iff.mpr]
    · exact List.nil_sublist _
    · exact List.forall_mem_map.mpr fun _ _ => rfl

/-- A cell is one instance. -/
theorem connects_cell {binding : CellBinding} (fits : provider.Fits)
    (isCell : gate.realization = .cell binding) :
    ∃ statement, netlist.cellStatement gate binding = .ok statement ∧
      netlist.Connects provider.outputPins gate [statement] := by
  have inside := composed.runnable.inside gate member
  rcases fits gate.primitive binding (isCell ▸ composed.realized gate member) with
    ⟨binds, outputPins⟩
  let clock := binding.clockPin.toList.map fun pin => (pin, Atom.net netlist.clockText)
  let power := if netlist.powered then
    binding.powerPins.map fun pin => (pin.1, Atom.net pin.2) else []
  let inputs := netlist.connected binding.inputPins gate.inputs
  let outputs := netlist.connected binding.outputPins gate.outputs
  have written : netlist.cellStatement gate binding =
      .ok (.cell binding.cell gate.name (clock ++ inputs ++ outputs ++ power)) := by
    rw [cellStatement, connections_eq_ok inside.1, connections_eq_ok inside.2]
    rfl
  have of_clock : ∀ connection ∈ clock, connection.1 ∈ binding.clockPin.toList ∧
      connection.2 = .net netlist.clockText ∧ gate.primitive = .dff := by
    intro connection isClock
    rcases List.mem_map.mp isClock with ⟨pin, isPin, rfl⟩
    have some : binding.clockPin ≠ none := by
      rw [Option.mem_toList.mp isPin]
      exact Option.some_ne_none pin
    exact ⟨isPin, rfl, binds.clock some⟩
  have of_power : ∀ connection ∈ power, connection.1 ∈ binding.powerPins.map (·.1) ∧
      ∃ rail ∈ netlist.rails, connection.2 = .net rail := by
    intro connection isPower
    dsimp only [power] at isPower
    split at isPower
    · rename_i powered
      rcases List.mem_map.mp isPower with ⟨pin, isPin, rfl⟩
      refine ⟨List.mem_map_of_mem isPin, pin.2, ?_, rfl⟩
      rw [Netlist.rails, if_pos powered]
      exact binds.rails pin isPin
    · cases isPower
  have connects : ∀ connection ∈ clock ++ inputs ++ outputs ++ power,
      connection.1 ∈ binding.pins ∧ netlist.Stands connection.2 := by
    rw [List.forall_mem_append, List.forall_mem_append, List.forall_mem_append]
    refine ⟨⟨⟨fun connection isClock => ?_, fun connection isInput => ?_⟩,
      fun connection isOutput => ?_⟩, fun connection isPower => ?_⟩
    · rcases of_clock connection isClock with ⟨isPin, isNet, isDff⟩
      exact ⟨by simp [CellBinding.pins, Option.mem_toList.mp isPin],
        .inr (.inl ⟨_, composed.clockText_mem member isDff, isNet⟩)⟩
    · rcases of_mem_connected isInput with ⟨isPin, isBit⟩
      exact ⟨by simp [CellBinding.pins, isPin], stands_atomAt inside.1 _ isBit⟩
    · rcases of_mem_connected isOutput with ⟨isPin, isBit⟩
      exact ⟨by simp [CellBinding.pins, isPin], stands_atomAt inside.2 _ isBit⟩
    · rcases of_power connection isPower with ⟨isPin, rail, isRail, isNet⟩
      exact ⟨List.mem_append_right _ isPin,
        .inr (.inl ⟨rail, List.mem_append_right _ isRail, isNet⟩)⟩
  have lengths : binding.inputPins.length = gate.inputs.length ∧
      binding.outputPins.length = gate.outputs.length := by
    have legal := composed.runnable.legal gate member
    rw [Gate.Legal, Primitive.accepts, binds.arity] at legal
    exact Prod.mk.inj (eq_of_beq legal)
  refine ⟨_, written, ?_, ?_, ?_, ?_, ?_, ?_⟩
  · rw [List.forall_mem_singleton]
    exact ⟨binds.kind, composed.gateNames gate member, fun connection isConnection =>
      ⟨binds.names _ (connects connection isConnection).1,
        composed.legible_of_stands (connects connection isConnection).2⟩⟩
  · rw [List.flatMap_singleton, Statement.driven, outputPins, filter_outputs,
      map_snd_connected lengths.2]
    · rw [List.forall_mem_append]
      refine ⟨fun connection isClock => ?_, fun connection isInput => ?_⟩
      · exact binds.not_output_of_input (List.mem_append_left _ (of_clock connection isClock).1)
      · exact binds.not_output_of_input (List.mem_append_right _ (of_mem_connected isInput).1)
    · exact fun connection isOutput => (of_mem_connected isOutput).1
    · exact fun connection isPower => binds.not_output_of_power (of_power connection isPower).1
  · rw [List.flatMap_singleton, Statement.atoms, ← map_snd_connected lengths.1, List.map_append,
      List.map_append, List.map_append]
    exact fun bit isInput => List.mem_append_left _ (List.mem_append_left _
      (List.mem_append_right _ isInput))
  · rw [List.forall_mem_singleton, Statement.atoms, List.forall_mem_map]
    exact fun connection isConnection => (connects connection isConnection).2
  · intro name
    simp [Statement.Clocks, isClockedAssignment, isCell]
  · exact .refl _

/-- Every gate has statements that connect it. -/
theorem exists_connects (fits : provider.Fits) :
    ∃ statements, netlist.gateStatements gate = .ok statements ∧
      netlist.Connects provider.outputPins gate statements := by
  rw [gateStatements]
  cases realized : gate.realization with
  | cell binding =>
      rcases composed.connects_cell member fits realized with ⟨statement, written, connects⟩
      refine ⟨[statement], ?_, connects⟩
      dsimp only
      rw [written]
      rfl
  | inferred =>
      by_cases isAdd : gate.primitive = .add
      · exact composed.connects_add member _ isAdd
      · cases isRegister : gate.isRegister with
        | true => exact composed.connects_register member _ isRegister realized
        | false => exact composed.connects_formulas member _ isAdd isRegister

end Composed

/-! ## The module -/

section Statements

variable {netlist : Netlist} {outputPins : String → List String} {gates : List Gate}
  {lists : List (List Statement)}
  (relate : List.Forall₂ (netlist.Connects outputPins) gates lists)

include relate

theorem driven_flatten :
    lists.flatten.flatMap (Statement.driven outputPins) =
      (gates.flatMap (·.outputs)).map netlist.atomAt := by
  induction relate with
  | nil => rfl
  | cons connects _ ih =>
      rw [List.flatten_cons, List.flatMap_append, ih, connects.driven, List.flatMap_cons,
        List.map_append]

theorem instances_flatten :
    (lists.flatten.filterMap Statement.instance?).Sublist (gates.map (·.name)) := by
  induction relate with
  | nil => exact .refl _
  | cons connects _ ih =>
      rw [List.flatten_cons, List.filterMap_append, List.map_cons]
      exact connects.instances.append ih

theorem clocks_flatten (name : String) :
    (∃ statement ∈ lists.flatten, ∃ clock, statement.Clocks clock name) ↔
      ∃ gate ∈ gates, isClockedAssignment gate = true ∧
        .net name ∈ gate.outputs.map netlist.atomAt := by
  induction relate with
  | nil => simp
  | cons connects _ ih =>
      rw [List.flatten_cons]
      simp only [List.mem_append, or_and_right, exists_or, ih, connects.clocks_iff, List.mem_cons]
      simp

end Statements

/-- The bits of an output port. -/
def portBits (port : Port) : List Atom :=
  (List.range port.width).map (.bit port.name ·)

theorem driven_shownStatements (netlist : Netlist) (outputPins : String → List String)
    (port : Port) :
    (netlist.shownStatements port).flatMap (Statement.driven outputPins) = portBits port := by
  have numbers : port.bits.zipIdx.map Prod.snd = List.range port.width := by
    rw [List.zipIdx_map_snd, List.range_eq_range', Port.width]
  rw [shownStatements, List.flatMap_map, portBits, ← numbers, List.map_map]
  exact List.map_eq_flatMap.symm

/-- All bits that the module of a netlist drives. -/
def drivenBits (netlist : Netlist) : List Atom :=
  netlist.wires.map netlist.atomAt ++ netlist.outputs.flatMap portBits

theorem mem_portBits {port : Port} {bit : Atom} :
    bit ∈ portBits port ↔ ∃ index < port.width, bit = .bit port.name index := by
  simp [portBits, eq_comm]

theorem map_name_header (netlist : Netlist) :
    netlist.header.map (·.name) = netlist.inputNames ++ netlist.outputs.map (·.name) := by
  simp [header, inputNames, Function.comp_def, scalarInput, headed]

/-- There is a net for each wire. -/
theorem map_net_netDeclarations (netlist : Netlist) :
    netlist.netDeclarations.map (fun net => Atom.net net.name) =
      netlist.wires.map netlist.atomAt := by
  let shown (id : SignalId) : Option Atom :=
    if netlist.wireAt id then some (netlist.atomAt id) else none
  have wires : netlist.wires.map netlist.atomAt =
      (List.range netlist.signals.size).filterMap shown := by
    rw [wires, ← List.filterMap_eq_filter, List.map_filterMap]
    congr 1
    funext id
    simp [shown, Option.guard]
  have positions : netlist.signals.toList.zipIdx.map Prod.snd =
      List.range netlist.signals.size := by
    rw [List.zipIdx_map_snd, List.range_eq_range', Array.length_toList]
  rw [wires, ← positions, List.filterMap_map, netDeclarations, List.map_filterMap]
  refine List.filterMap_congr fun entry listed => ?_
  rcases entry with ⟨signal, id⟩
  have found := List.mk_mem_zipIdx_iff_getElem?.mp listed
  rw [Array.getElem?_toList] at found
  cases signal <;> simp [shown, wireAt, atomAt, found, Signal.isWire, Signal.text]

/-- The names of the nets differ, as their positions do. -/
theorem nodup_nets (netlist : Netlist) : (netlist.netDeclarations.map (·.name)).Nodup := by
  have positions : netlist.signals.toList.zipIdx.Pairwise fun entry other => entry.2 ≠ other.2 := by
    rw [← List.pairwise_map, List.zipIdx_map_snd]
    exact List.nodup_range'
  refine List.pairwise_map.mpr (List.pairwise_filterMap.mpr (positions.imp ?_))
  rintro ⟨signal, id⟩ ⟨other, otherId⟩ differ net isNet otherNet isOther same
  have spelled {signal : Signal} {id : SignalId} {net : NetDeclaration}
      (isNet : (if signal.isWire then
        some ⟨netlist.clockedSignals.getD id false, signal.text id⟩ else none) = some net) :
      ∃ label, net.name = Signal.text (.wire label) id := by
    cases signal with
    | wire label => exact ⟨label, congrArg NetDeclaration.name (Option.some.inj isNet).symm⟩
    | input port bit => cases isNet
    | literal value => cases isNet
  rcases spelled isNet with ⟨label, isName⟩
  rcases spelled isOther with ⟨otherLabel, isOtherName⟩
  exact differ (Signal.eq_of_text_eq (isName.symm.trans (same.trans isOtherName)))

namespace Composed

variable {provider : Provider} {netlist : Netlist} {lists : List (List Statement)}

/-- Nothing is driven twice. -/
theorem nodup_drivenBits (composed : netlist.Composed provider) : netlist.drivenBits.Nodup := by
  have wires : (netlist.wires.map netlist.atomAt).Nodup := by
    have ascending : netlist.wires.Nodup := List.nodup_range.sublist List.filter_sublist
    refine ascending.map_on fun first isFirst second isSecond same => ?_
    rcases mem_wires.mp isFirst with ⟨label, found⟩
    rcases mem_wires.mp isSecond with ⟨other, foundOther⟩
    rw [atomAt_of_wire found, atomAt_of_wire foundOther] at same
    exact Signal.eq_of_text_eq (Atom.net.inj same)
  have outputs : (netlist.outputs.flatMap portBits).Nodup := by
    refine List.nodup_flatMap.mpr ⟨fun port _ => ?_, ?_⟩
    · exact List.nodup_range.map fun first second same => (Atom.bit.inj same).2
    · have names : netlist.outputs.Pairwise fun port other => port.name ≠ other.name :=
        List.pairwise_map.mp (List.nodup_append.mp composed.distinct).2.1
      refine names.imp fun differ bit isBit isOther => ?_
      rcases mem_portBits.mp isBit with ⟨index, _, rfl⟩
      rcases mem_portBits.mp isOther with ⟨_, _, same⟩
      exact differ (Atom.bit.inj same).1
  refine List.nodup_append.mpr ⟨wires, outputs, ?_⟩
  rintro _ isWire _ isOutput rfl
  rcases List.mem_map.mp isWire with ⟨id, member, isNet⟩
  rcases List.mem_flatMap.mp isOutput with ⟨port, _, isBit⟩
  rcases mem_wires.mp member with ⟨label, found⟩
  rcases mem_portBits.mp isBit with ⟨index, _, rfl⟩
  rw [atomAt_of_wire found] at isNet
  cases isNet

theorem driven_moduleWith (composed : netlist.Composed provider)
    (relate : List.Forall₂ (netlist.Connects provider.outputPins) netlist.gates.toList lists) :
    (netlist.moduleWith lists).driven provider.outputPins = netlist.drivenBits := by
  have outputs : ((netlist.outputs.map netlist.shownStatements).flatten).flatMap
      (Statement.driven provider.outputPins) = netlist.outputs.flatMap portBits := by
    rw [← List.flatMap_def, List.flatMap_assoc]
    exact List.flatMap_congr fun port _ => netlist.driven_shownStatements _ port
  rw [Module.driven, moduleWith, List.flatMap_append, driven_flatten relate, composed.drives,
    outputs, drivenBits]

/-- All names of the module differ: those of ports do not end in digits, and those of wires do not
end like those of gates. -/
theorem nodup_names (composed : netlist.Composed provider)
    (relate : List.Forall₂ (netlist.Connects provider.outputPins) netlist.gates.toList lists) :
    (netlist.moduleWith lists).names.Nodup := by
  have header : (netlist.header.map (·.name)).Nodup := netlist.map_name_header ▸ composed.distinct
  have noDigit : ∀ name ∈ netlist.header.map (·.name), ¬ EndsInDigit name := by
    rw [map_name_header, List.forall_mem_append, List.forall_mem_map]
    exact ⟨fun name => composed.not_endsInDigit,
      fun port member => (composed.ports port (List.mem_append_right _ member)).2.1⟩
  have instances : ((netlist.moduleWith lists).statements.filterMap Statement.instance?).Sublist
      (netlist.gates.toList.map (·.name)) := by
    have shown : ((netlist.outputs.map netlist.shownStatements).flatten).filterMap
        Statement.instance? = [] :=
      List.filterMap_eq_nil_iff.mpr (forall_mem_shown.mpr fun _ _ _ _ _ => rfl)
    rw [moduleWith, List.filterMap_append, shown, List.append_nil]
    exact instances_flatten relate
  have of_instance {name : String}
      (isInstance : name ∈ (netlist.moduleWith lists).statements.filterMap Statement.instance?) :
      ∃ (number : Nat) (gate : Gate), gate.Numbered number ∧ gate.name = name := by
    rcases List.mem_map.mp (instances.subset isInstance) with ⟨gate, member, isName⟩
    rcases List.mem_iff_getElem?.mp member with ⟨number, found⟩
    exact ⟨number, gate, composed.numbered number gate found, isName⟩
  refine List.nodup_append.mpr ⟨List.nodup_append.mpr ⟨header, netlist.nodup_nets, ?_⟩,
    (Numbered.nodup_names composed.numbered).sublist instances, ?_⟩
  · rintro name isPort _ isNet rfl
    rcases List.mem_map.mp isNet with ⟨net, declared, rfl⟩
    rcases mem_netDeclarations.mp declared with ⟨id, label, _, rfl⟩
    exact noDigit _ isPort (Signal.endsInDigit_text label id)
  · rintro name isDeclared _ isInstance rfl
    rcases of_instance isInstance with ⟨number, gate, numbered, rfl⟩
    rcases List.mem_append.mp isDeclared with isPort | isNet
    · exact noDigit _ isPort numbered.endsInDigit
    -- Wires and gates are counted separately, so their numbers may well be the same.
    · rcases List.mem_map.mp isNet with ⟨net, declared, same⟩
      rcases mem_netDeclarations.mp declared with ⟨id, label, found, rfl⟩
      refine numbered.name_ne_text (fun text isText => composed.isLabel text ?_) id same.symm
      subst isText
      exact Array.mem_of_getElem? found

/-- The nets that are declared as registers are those that are assigned at clock edges. -/
theorem isRegister_iff_clocks (composed : netlist.Composed provider)
    (relate : List.Forall₂ (netlist.Connects provider.outputPins) netlist.gates.toList lists)
    {net : NetDeclaration} (declared : net ∈ netlist.netDeclarations) :
    net.isRegister = true ↔ ∃ statement ∈ (netlist.moduleWith lists).statements,
      ∃ clock, statement.Clocks clock net.name := by
  have shown : ∀ statement ∈ (netlist.outputs.map netlist.shownStatements).flatten,
      ¬ ∃ clock, statement.Clocks clock net.name := by
    refine forall_mem_shown.mpr fun _ _ _ _ _ isClocked => ?_
    rcases isClocked with ⟨_, clocks⟩
    exact clocks
  have statements : (∃ statement ∈ (netlist.moduleWith lists).statements,
      ∃ clock, statement.Clocks clock net.name) ↔
        ∃ statement ∈ lists.flatten, ∃ clock, statement.Clocks clock net.name := by
    rw [moduleWith]
    simp only [List.mem_append, or_and_right, exists_or]
    refine or_iff_left fun isClocked => ?_
    rcases isClocked with ⟨statement, isShown, clocks⟩
    exact shown statement isShown clocks
  rcases mem_netDeclarations.mp declared with ⟨id, label, found, rfl⟩
  rw [statements, clocks_flatten relate,
    getD_clockedSignals (Array.getElem?_eq_some_iff.mp found).1]
  refine exists_congr fun gate => and_congr_right fun member => and_congr_right fun _ => ?_
  constructor
  · exact fun output => List.mem_map.mpr ⟨id, output, atomAt_of_wire found⟩
  · intro isNet
    rcases List.mem_map.mp isNet with ⟨other, output, same⟩
    rcases composed.runnable.wires gate member other output with ⟨otherLabel, isWire⟩
    rw [atomAt_of_wire isWire] at same
    exact Signal.eq_of_text_eq (Atom.net.inj same) ▸ output

theorem declares_of_stands (composed : netlist.Composed provider) (lists : List (List Statement))
    {bit : Atom} (stands : netlist.Stands bit) : (netlist.moduleWith lists).Declares bit := by
  rcases stands with ⟨id, existing, rfl⟩ | ⟨name, isScalar, rfl⟩ | ⟨value, rfl⟩
  · have found := Array.getElem?_eq_getElem existing
    rw [atomAt, found]
    cases isSignal : netlist.signals[id] with
    | literal value => trivial
    | input name index =>
        rw [isSignal] at found
        rcases composed.posted.listed id name index found with ⟨port, member, rfl, bit⟩
        have inside : index < port.width := (List.getElem?_eq_some_iff.mp bit).1
        refine ⟨headed true port, ?_, rfl, port.width - 1, rfl, by omega⟩
        exact List.mem_append_left _ (List.mem_append_right _ (List.mem_map_of_mem member))
    | wire label =>
        rw [isSignal] at found
        exact .inl ⟨_, mem_netDeclarations.mpr ⟨id, label, found, rfl⟩, rfl⟩
  · refine .inr ⟨scalarInput name, ?_, rfl, rfl⟩
    exact List.mem_append_left _ (List.mem_append_left _ (List.mem_map_of_mem isScalar))
  · trivial

/-- The bits of the output ports are declared and driven. -/
theorem exists_output {port : PortDeclaration} (isPort : port ∈ netlist.header)
    (isOutput : port.isInput = false) : ∃ output ∈ netlist.outputs, port = headed false output := by
  rcases List.mem_append.mp isPort with isInput | isHeaded
  · rcases List.mem_append.mp isInput with isScalar | isHeaded
    · rcases List.mem_map.mp isScalar with ⟨name, _, rfl⟩
      cases isOutput
    · rcases List.mem_map.mp isHeaded with ⟨input, _, rfl⟩
      cases isOutput
  · rcases List.mem_map.mp isHeaded with ⟨output, member, rfl⟩
    exact ⟨output, member, rfl⟩

/-- A netlist that has been put together has a module that consists of what is written for its gates
and output ports, can be read back and is well formed. -/
theorem exists_module (composed : netlist.Composed provider) (fits : provider.Fits) :
    ∃ lists, netlist.toVerilog = .ok (netlist.moduleWith lists) ∧
      List.Forall₂ (netlist.WrittenFor provider.outputPins) netlist.gates.toList lists ∧
      (netlist.moduleWith lists).Legible ∧
      (netlist.moduleWith lists).WellFormed provider.outputPins := by
  have each (gate : Gate) (member : gate ∈ netlist.gates.toList) :
      ∃ statements, netlist.gateStatements gate = .ok statements ∧
        netlist.gateStatements gate = .ok statements ∧
          netlist.Connects provider.outputPins gate statements :=
    (composed.exists_connects member fits).imp fun _ ⟨written, connects⟩ =>
      ⟨written, written, connects⟩
  rcases Except.exists_mapM_eq_ok each with ⟨lists, written, both⟩
  have relate : List.Forall₂ (netlist.Connects provider.outputPins) netlist.gates.toList lists :=
    both.imp fun _ _ both => both.2
  have writtenFor := both.imp fun gate statements ⟨written, connects⟩ =>
    WrittenFor.mk written connects.driven connects.reads
  have legible := (forall_mem_flatten_iff relate fun gate list connects =>
    iff_true_intro connects.legible).mpr fun _ _ => trivial
  have stands := (forall_mem_flatten_iff relate fun gate list connects =>
    iff_true_intro connects.stands).mpr fun _ _ => trivial
  have driven := composed.driven_moduleWith relate
  have nodup := composed.nodup_drivenBits
  have some {port : Port} (member : port ∈ netlist.outputs) : 0 < port.width :=
    List.length_pos_iff.mpr (composed.ports port (List.mem_append_right _ member)).2.2
  have output_mem {port : Port} (member : port ∈ netlist.outputs) {index : Nat}
      (inside : index < port.width) : .bit port.name index ∈ netlist.drivenBits :=
    List.mem_append_right _
      (List.mem_flatMap.mpr ⟨port, member, mem_portBits.mpr ⟨index, inside, rfl⟩⟩)
  refine ⟨lists, composed.toVerilog_eq_ok written, writtenFor, composed.legible_moduleWith legible,
    ?_⟩
  exact {
    distinct := composed.nodup_names relate
    declared := by
      rw [moduleWith, List.forall_mem_append, forall_mem_shown]
      refine ⟨fun statement member bit used =>
        composed.declares_of_stands lists (stands statement member bit used), ?_⟩
      intro port member index id shown
      have inside : index < port.width := (List.getElem?_eq_some_iff.mp shown).1
      have existing := composed.shown port member id (List.mem_of_getElem? shown)
      rw [Statement.atoms, Expression.atoms, List.forall_mem_cons, List.forall_mem_singleton]
      refine ⟨⟨headed false port, ?_, rfl, port.width - 1, rfl, by omega⟩, ?_⟩
      · exact List.mem_append_right _ (List.mem_map_of_mem member)
      · exact composed.declares_of_stands lists (.inl ⟨id, existing, rfl⟩)
    nets := fun net isNet => by
      rcases mem_netDeclarations.mp isNet with ⟨id, label, found, rfl⟩
      rw [driven]
      refine List.count_eq_one_of_mem nodup (List.mem_append_left _ (List.mem_map.mpr ?_))
      exact ⟨id, mem_wires.mpr ⟨label, found⟩, atomAt_of_wire found⟩
    registers := fun net isNet => composed.isRegister_iff_clocks relate isNet
    outputs := fun port isPort isOutput => by
      rcases exists_output isPort isOutput with ⟨output, member, rfl⟩
      refine ⟨output.width - 1, rfl, fun index le => ?_⟩
      have positive := some member
      rw [driven]
      exact List.count_eq_one_of_mem nodup (output_mem member (by omega))
    sources := fun bit isDriven => by
      rw [driven] at isDriven
      rcases List.mem_append.mp isDriven with isWire | isOutput
      · rcases List.mem_map.mp isWire with ⟨id, member, rfl⟩
        rcases mem_wires.mp member with ⟨label, found⟩
        exact .inl ⟨_, mem_netDeclarations.mpr ⟨id, label, found, rfl⟩, atomAt_of_wire found⟩
      · rcases List.mem_flatMap.mp isOutput with ⟨port, member, isBit⟩
        rcases mem_portBits.mp isBit with ⟨index, _, rfl⟩
        exact .inr ⟨headed false port, List.mem_append_right _ (List.mem_map_of_mem member), rfl,
          index, rfl⟩ }

end Composed

end Netlist

end Datapath

import Datapath.Proofs.Acceptance
import Datapath.Proofs.Computations
import Datapath.Proofs.Formulas
import Datapath.Proofs.Tidiness

/-!
# Netlists as equations

The module of a netlist says about environments what the netlist says about valuations. An
environment gives each signal the value of what stands for it, `Netlist.reading`; it solves the
module just when this valuation settles the gates and the output ports show it, and clocked
assignments move values as registers do: `Netlist.Meaning`. Every netlist that is printable has a
module that means it and whose text can be read back.
-/

namespace Datapath

open Verilog

/-- Where each item is described by a list, all items are described by all lists together. -/
theorem forall_mem_flatten_iff {α β : Type} {related : α → List β → Prop} {items : List α}
    {lists : List (List β)} (relate : List.Forall₂ related items lists) {holds : β → Prop}
    {describes : α → Prop} (each : ∀ item list, related item list →
      ((∀ entry ∈ list, holds entry) ↔ describes item)) :
    (∀ entry ∈ lists.flatten, holds entry) ↔ ∀ item ∈ items, describes item := by
  induction relate with
  | nil => simp
  | cons relates _ ih =>
      rw [List.flatten_cons, List.forall_mem_append, List.forall_mem_cons, each _ _ relates, ih]

theorem exists_mem_flatten {α β : Type} {related : α → List β → Prop} {items : List α}
    {lists : List (List β)} (relate : List.Forall₂ related items lists) {item : α}
    (member : item ∈ items) : ∃ list, related item list ∧ list ⊆ lists.flatten := by
  induction relate with
  | nil => cases member
  | cons relates _ ih =>
      rcases List.mem_cons.mp member with rfl | later
      · exact ⟨_, relates, List.subset_append_left _ _⟩
      · rcases ih later with ⟨list, isRelated, inside⟩
        exact ⟨list, isRelated, List.subset_append_of_subset_right _ inside⟩

theorem forall_mem_zip_iff {α β γ : Type} {left : List α} {right : List β} {first : α → γ}
    {second : β → γ} (lengths : left.length = right.length) :
    (∀ pair ∈ left.zip right, first pair.1 = second pair.2) ↔
      left.map first = right.map second := by
  rw [← List.forall₂_eq_eq_eq, List.forall₂_map_left_iff, List.forall₂_map_right_iff,
    List.forall₂_iff_zip]
  exact ⟨fun same => ⟨lengths, fun member => same _ member⟩, fun both pair => both.2⟩

namespace Primitive

variable {α : Type} [Logic α] {primitive : Primitive}

/-- Gates of fixed arity give their pins what they compute. -/
theorem evaluate_eq (noAdd : primitive ≠ .add) (inputs : List α) (count : Nat) :
    primitive.evaluate inputs count =
      (primitive.outputs inputs >>= fun driven => drivePins driven count) := by
  cases primitive with
  | add => exact absurd rfl noAdd
  | _ => rfl

end Primitive

theorem Gate.primitive_ne_dff (gate : Gate) (noRegister : gate.isRegister = false) :
    gate.primitive ≠ .dff := by
  intro isDff
  rw [(Gate.isRegister_iff gate).mpr isDff] at noRegister
  cases noRegister

/-- A word-level adder carries the sum of its operands, modulo two to its width. -/
theorem Gate.carries_iff_of_add {gate : Gate} (isAdd : gate.primitive = .add) (legal : gate.Legal)
    {before after : Valuation Bool} :
    gate.Carries before after ↔ Bits.value (gate.outputs.map after) =
      (Bits.value ((gate.inputs.map before).take gate.outputs.length) +
        Bits.value ((gate.inputs.map before).drop gate.outputs.length)) %
          2 ^ gate.outputs.length := by
  have widths := lengths_of_add isAdd legal
  let left := (gate.inputs.map before).take gate.outputs.length
  let right := (gate.inputs.map before).drop gate.outputs.length
  have isLeft : left.length = gate.outputs.length := by
    rw [List.length_take, List.length_map]
    omega
  have isRight : right.length = gate.outputs.length := by
    rw [List.length_drop, List.length_map]
    omega
  have sameWidth : left.length = right.length := isLeft.trans isRight.symm
  have computed := Primitive.evaluate_add sameWidth
  have summed := Logic.value_rippleSum_zip sameWidth
  rw [List.take_append_drop, isLeft] at computed
  rw [isLeft] at summed
  rw [Gate.Carries, isAdd, computed, Except.ok.injEq, ← summed]
  constructor
  · exact fun same => congrArg Bits.value same.symm
  · refine fun same => (Bits.value_injective ?_ same).symm
    rw [Logic.length_rippleSum, List.length_zip, ← sameWidth, Nat.min_self, isLeft, List.length_map]

namespace Netlist

/-- What stands for a signal; for a signal that does not exist, the constant false. -/
def atomAt (netlist : Netlist) (id : SignalId) : Atom :=
  match netlist.signals[id]? with
  | some (.literal value) => .constant value
  | some (.input port bit) => .bit port bit
  | some (.wire label) => .net (Signal.text (.wire label) id)
  | none => .constant false

/-- The value of what stands for each signal. -/
def reading (netlist : Netlist) (environment : Environment) : Valuation Bool :=
  fun id => (netlist.atomAt id).value environment

/-- The rails of a powered netlist. -/
def rails (netlist : Netlist) : List String :=
  if netlist.powered then ["VPWR", "VGND"] else []

/-- The names of inputs in the header. -/
def inputNames (netlist : Netlist) : List String :=
  netlist.clock.toList ++ netlist.rails ++ netlist.inputs.map (·.name)

/-- A port of the header. -/
def headed (isInput : Bool) (port : Port) : PortDeclaration where
  isInput := isInput
  name := port.name
  highest := some (port.width - 1)

/-- The ports of the header. -/
def header (netlist : Netlist) : List PortDeclaration :=
  (netlist.clock.toList ++ netlist.rails).map scalarInput ++ netlist.inputs.map (headed true) ++
    netlist.outputs.map (headed false)

/-- What the text of a netlist rests on, however its gates are realized. -/
structure Presentable (netlist : Netlist) : Prop where
  runnable : netlist.Runnable
  driven : ∀ id, netlist.IsWire id → ∃ index, netlist.Drives index id
  shown : ∀ port ∈ netlist.outputs, Below netlist.signals.size port.bits
  labels : ∀ text, .wire (some text) ∈ netlist.signals → IsStem text
  gateNames : ∀ gate ∈ netlist.gates.toList, IsName gate.name
  posted : netlist.Posted
  clock : IsName netlist.clockText ∧ ¬ EndsInDigit netlist.clockText
  ports : ∀ port ∈ netlist.inputs ++ netlist.outputs,
    IsName port.name ∧ ¬ EndsInDigit port.name ∧ port.bits ≠ []
  distinct : (netlist.inputNames ++ netlist.outputs.map (·.name)).Nodup

/-- What the text of a netlist without cells rests on. -/
structure Printable (netlist : Netlist) : Prop extends Presentable netlist where
  inferred : ∀ gate ∈ netlist.gates.toList, gate.realization = .inferred

/-- The module says what the netlist does. -/
structure Meaning (netlist : Netlist) (module : Module) : Prop where
  ports : module.ports = netlist.header
  solves_iff : ∀ environment, module.Solves environment ↔
    Gate.Settled netlist.gates.toList (netlist.reading environment) ∧
      ∀ port ∈ netlist.outputs, ∀ index id, port.bits[index]? = some id →
        environment port.name index = netlist.reading environment id
  latched_iff : ∀ before after,
    (∀ statement ∈ module.statements, statement.Latches netlist.clockText before after) ↔
      ∀ gate ∈ netlist.gates.toList, gate.isRegister = true →
        gate.outputs.map (netlist.reading after) = gate.inputs.map (netlist.reading before)
  isRegister_iff : ∀ name, module.IsRegister name ↔
    ∃ gate ∈ netlist.gates.toList, gate.isRegister = true ∧
      ∃ id ∈ gate.outputs, netlist.atomAt id = .net name
  clocked : ∀ name, module.IsRegister name →
    ∃ statement ∈ module.statements, statement.Clocks netlist.clockText name

variable {netlist : Netlist}

theorem atom_eq_ok {id : SignalId} (existing : id < netlist.signals.size) :
    netlist.atom id = .ok (netlist.atomAt id) := by
  have found := Array.getElem?_eq_getElem existing
  rw [atom, signal, atomAt, found]
  cases netlist.signals[id] <;> rfl

theorem mapM_atom_eq_ok {ids : List SignalId} (existing : Below netlist.signals.size ids) :
    ids.mapM netlist.atom = .ok (ids.map netlist.atomAt) :=
  Except.mapM_eq_ok fun id member => atom_eq_ok (existing id member)

theorem values_atomAt (ids : List SignalId) (environment : Environment) :
    (ids.map netlist.atomAt).map (·.value environment) = ids.map (netlist.reading environment) := by
  rw [List.map_map]
  rfl

theorem Presentable.legible_atomAt (presentable : netlist.Presentable) (id : SignalId) :
    (netlist.atomAt id).Legible := by
  rw [atomAt]
  cases found : netlist.signals[id]? with
  | none => trivial
  | some signal =>
      cases signal with
      | literal value => trivial
      | input name bit =>
          rcases presentable.posted.listed id name bit found with ⟨port, member, rfl, _⟩
          exact (presentable.ports port (List.mem_append_left _ member)).1
      | wire label =>
          change IsName (Signal.text (.wire label) id)
          refine Signal.isName_text (fun text isLabel => presentable.labels text ?_) id
          subst isLabel
          exact Array.mem_of_getElem? found

theorem Presentable.legible_atoms (presentable : netlist.Presentable) (ids : List SignalId) :
    ∀ bit ∈ ids.map netlist.atomAt, bit.Legible :=
  List.forall_mem_map.mpr fun id _ => presentable.legible_atomAt id

/-! ## The statements of a gate -/

section Inferred

variable {gate : Gate} (inside : gate.Inside netlist.signals.size) (legal : gate.Legal)

include inside legal

/-- A word-level adder is one assignment. -/
theorem inferredStatements_of_add (isAdd : gate.primitive = .add) :
    netlist.inferredStatements gate =
      .ok [.assignSum (gate.outputs.map netlist.atomAt)
        ((gate.inputs.take gate.outputs.length).map netlist.atomAt)
        ((gate.inputs.drop gate.outputs.length).map netlist.atomAt) gate.name] := by
  have widths := Gate.lengths_of_add isAdd legal
  have enough : ¬ (gate.inputs.map netlist.atomAt).length <
      (gate.outputs.map netlist.atomAt).length := by
    rw [List.length_map, List.length_map]
    omega
  rw [inferredStatements, mapM_atom_eq_ok inside.1, mapM_atom_eq_ok inside.2, isAdd]
  change (if _ then _ else _) = _
  rw [if_neg enough, List.length_map, ← List.map_take, ← List.map_drop]
  rfl

/-- A register is one clocked assignment. -/
theorem inferredStatements_of_register (isRegister : gate.isRegister = true) :
    ∃ d q, gate.inputs = [d] ∧ gate.outputs = [q] ∧
      netlist.inferredStatements gate =
        .ok [.clocked netlist.clockText (netlist.atomAt q) (netlist.atomAt d) gate.name] := by
  rcases Gate.exists_pins_of_isRegister legal isRegister with ⟨d, q, isInputs, isOutputs⟩
  refine ⟨d, q, isInputs, isOutputs, ?_⟩
  rw [inferredStatements, mapM_atom_eq_ok inside.1, mapM_atom_eq_ok inside.2,
    (Gate.isRegister_iff gate).mp isRegister, isInputs, isOutputs]
  rfl

/-- Any other gate is an assignment of a formula to each of its outputs. -/
theorem inferredStatements_of_formulas (noAdd : gate.primitive ≠ .add)
    (noRegister : gate.isRegister = false) :
    ∃ formulas, gate.primitive.formulas (gate.inputs.map netlist.atomAt) = .ok formulas ∧
      formulas.length = gate.outputs.length ∧
      netlist.inferredStatements gate =
        .ok (((gate.outputs.map netlist.atomAt).zip formulas).map fun (target, formula) =>
          .assign target formula (some gate.name)) := by
  have noDff := gate.primitive_ne_dff noRegister
  rcases Primitive.exists_formulas_eq_ok noAdd noDff
    (show gate.primitive.accepts (gate.inputs.map netlist.atomAt).length gate.outputs.length = true
      by simpa [Gate.Legal] using legal) with ⟨formulas, computed, length⟩
  refine ⟨formulas, computed, length, ?_⟩
  have enough : ¬ (gate.outputs.map netlist.atomAt).length < formulas.length := by
    rw [List.length_map, length]
    exact Nat.lt_irrefl _
  rw [inferredStatements, mapM_atom_eq_ok inside.1, mapM_atom_eq_ok inside.2]
  revert noAdd noDff computed
  cases gate.primitive with
  | add => exact fun noAdd => absurd rfl noAdd
  | dff => exact fun _ noDff => absurd rfl noDff
  | _ =>
      intro _ _ computed
      change (Primitive.formulas _ _ >>= fun formulas => _) = _
      rw [computed]
      exact if_neg enough

end Inferred

/-- What is written for a gate can be read. -/
theorem Presentable.legible_statements (presentable : netlist.Presentable) {gate : Gate}
    (member : gate ∈ netlist.gates.toList) {statements : List Statement}
    (written : netlist.inferredStatements gate = .ok statements) :
    ∀ statement ∈ statements, statement.Legible := by
  have inside := presentable.runnable.inside gate member
  have legal := presentable.runnable.legal gate member
  have isRemark := (presentable.gateNames gate member).isRemark
  by_cases isAdd : gate.primitive = .add
  · rw [inferredStatements_of_add inside legal isAdd] at written
    rw [← Except.ok.inj written, List.forall_mem_singleton, Statement.Legible, ← List.map_append,
      ← List.map_append]
    exact ⟨presentable.legible_atoms _, isRemark⟩
  cases isRegister : gate.isRegister with
  | true =>
      rcases inferredStatements_of_register inside legal isRegister with ⟨d, q, _, _, isWritten⟩
      rw [isWritten] at written
      rw [← Except.ok.inj written, List.forall_mem_singleton]
      exact ⟨presentable.clock.1, presentable.legible_atomAt q, presentable.legible_atomAt d,
        isRemark⟩
  | false =>
      rcases inferredStatements_of_formulas inside legal isAdd isRegister with
        ⟨formulas, computed, _, isWritten⟩
      rw [isWritten] at written
      intro statement isStatement
      rw [← Except.ok.inj written] at isStatement
      rcases List.mem_map.mp isStatement with ⟨⟨target, formula⟩, isPair, rfl⟩
      rcases List.of_mem_zip isPair with ⟨isTarget, isFormula⟩
      refine ⟨presentable.legible_atoms _ target isTarget, ?_, ?_⟩
      · refine Expression.legible_of_atoms fun bit isBit =>
          presentable.legible_atoms gate.inputs bit ?_
        exact Primitive.atoms_formulas_subset computed (List.mem_flatMap.mpr ⟨_, isFormula, isBit⟩)
      · rintro _ ⟨⟩
        exact isRemark

/-- The statements say what the gate does. -/
structure Writes (netlist : Netlist) (gate : Gate) (statements : List Statement) : Prop where
  legible : ∀ statement ∈ statements, statement.Legible
  holds_iff : ∀ environment, (∀ statement ∈ statements, statement.Holds environment) ↔
    (gate.isCombinational = true →
      gate.Carries (netlist.reading environment) (netlist.reading environment))
  latched_iff : ∀ before after,
    (∀ statement ∈ statements, statement.Latches netlist.clockText before after) ↔
      (gate.isRegister = true →
        gate.outputs.map (netlist.reading after) = gate.inputs.map (netlist.reading before))
  clocked : gate.isRegister = true → ∀ id ∈ gate.outputs, ∀ name, netlist.atomAt id = .net name →
    ∃ statement ∈ statements, statement.Clocks netlist.clockText name

variable {gate : Gate}

theorem Printable.exists_statements_add (printable : netlist.Printable)
    (member : gate ∈ netlist.gates.toList) (isAdd : gate.primitive = .add) :
    ∃ statements, netlist.inferredStatements gate = .ok statements ∧
      netlist.Writes gate statements := by
  have inside := printable.runnable.inside gate member
  have legal := printable.runnable.legal gate member
  have written := inferredStatements_of_add inside legal isAdd
  refine ⟨_, written, printable.legible_statements member written, ?_, ?_, ?_⟩
  · intro environment
    have combinational : gate.isCombinational = true := by
      simp [Gate.isCombinational, isAdd, Primitive.domain]
    rw [List.forall_mem_singleton, Statement.Holds, wordValue, wordValue, wordValue,
      values_atomAt, values_atomAt, values_atomAt, List.map_take, List.map_drop, List.length_map,
      ← Gate.carries_iff_of_add isAdd legal]
    exact ⟨fun carries _ => carries, fun carries => carries combinational⟩
  · intro before after
    have noRegister : gate.isRegister = false := by
      simp [Gate.isRegister, isAdd, Primitive.domain]
    simp [noRegister, Statement.Latches]
  · intro isRegister
    simp [Gate.isRegister, isAdd, Primitive.domain] at isRegister

theorem Printable.exists_statements_dff (printable : netlist.Printable)
    (member : gate ∈ netlist.gates.toList) (isRegister : gate.isRegister = true) :
    ∃ statements, netlist.inferredStatements gate = .ok statements ∧
      netlist.Writes gate statements := by
  have inside := printable.runnable.inside gate member
  have legal := printable.runnable.legal gate member
  rcases inferredStatements_of_register inside legal isRegister with
    ⟨d, q, isInputs, isOutputs, written⟩
  have combinational : gate.isCombinational = false := by
    have opposite := gate.isRegister_eq_not_isCombinational
    rwa [isRegister, eq_comm, Bool.not_eq_true'] at opposite
  refine ⟨_, written, printable.legible_statements member written, ?_, ?_, ?_⟩
  · simp [combinational, Statement.Holds]
  · intro before after
    rw [List.forall_mem_singleton, isInputs, isOutputs]
    constructor
    · exact fun latches _ => congrArg ([·]) (latches rfl)
    · exact fun moves _ => (List.cons_eq_cons.mp (moves isRegister)).1
  · intro _ id output name isNet
    rw [isOutputs, List.mem_singleton] at output
    exact ⟨_, List.mem_cons_self, rfl, output ▸ isNet⟩

theorem Printable.exists_statements_formulas (printable : netlist.Printable)
    (member : gate ∈ netlist.gates.toList) (noAdd : gate.primitive ≠ .add)
    (noRegister : gate.isRegister = false) :
    ∃ statements, netlist.inferredStatements gate = .ok statements ∧
      netlist.Writes gate statements := by
  have inside := printable.runnable.inside gate member
  have legal := printable.runnable.legal gate member
  have combinational : gate.isCombinational = true := by
    have opposite := gate.isRegister_eq_not_isCombinational
    rwa [noRegister, eq_comm, Bool.not_eq_false'] at opposite
  rcases inferredStatements_of_formulas inside legal noAdd noRegister with
    ⟨formulas, computed, length, written⟩
  have lengths : (gate.outputs.map netlist.atomAt).length = formulas.length := by
    rw [List.length_map, length]
  have evaluated (environment : Environment) :
      gate.primitive.evaluate (gate.inputs.map (netlist.reading environment))
        gate.outputs.length = .ok (formulas.map (·.value environment)) := by
    have inputs := Primitive.outputs_value (gate.primitive_ne_dff noRegister)
      (gate.inputs.map netlist.atomAt) environment
    rw [values_atomAt, computed] at inputs
    rw [Primitive.evaluate_eq noAdd, inputs]
    change Primitive.drivePins _ _ = _
    rw [Primitive.drivePins, List.length_map, length, if_neg (Nat.lt_irrefl _), Nat.sub_self,
      List.replicate_zero, List.append_nil]
    rfl
  let pairs := (gate.outputs.map netlist.atomAt).zip formulas
  refine ⟨_, written, printable.legible_statements member written, ?_, ?_, ?_⟩
  · intro environment
    have each : (∀ pair ∈ pairs, pair.1.value environment = pair.2.value environment) ↔ _ :=
      forall_mem_zip_iff lengths
    rw [List.forall_mem_map, Gate.Carries, evaluated, ← values_atomAt, Except.ok.injEq]
    exact each.trans ⟨fun same _ => same.symm, fun same => (same combinational).symm⟩
  · intro before after
    rw [List.forall_mem_map, noRegister]
    exact ⟨fun _ isRegister => absurd isRegister Bool.false_ne_true, fun _ _ _ => trivial⟩
  · intro isRegister
    rw [noRegister] at isRegister
    cases isRegister

/-- Every gate has statements that say what it does. -/
theorem Printable.exists_statements (printable : netlist.Printable)
    (member : gate ∈ netlist.gates.toList) :
    ∃ statements, netlist.gateStatements gate = .ok statements ∧
      netlist.Writes gate statements := by
  rw [gateStatements, printable.inferred gate member]
  by_cases isAdd : gate.primitive = .add
  · exact printable.exists_statements_add member isAdd
  · cases isRegister : gate.isRegister with
    | true => exact printable.exists_statements_dff member isRegister
    | false => exact printable.exists_statements_formulas member isAdd isRegister

/-! ## The statements of an output port -/

/-- The assignments of the bits of an output port. -/
def shownStatements (netlist : Netlist) (port : Port) : List Statement :=
  port.bits.zipIdx.map fun (id, index) =>
    .assign (.bit port.name index) (.atom (netlist.atomAt id)) none

theorem outputStatements_eq_ok {port : Port} (shown : Below netlist.signals.size port.bits) :
    netlist.outputStatements port = .ok (netlist.shownStatements port) := by
  refine Except.mapM_eq_ok fun entry member => ?_
  dsimp only
  rw [atom_eq_ok (shown entry.1 (List.fst_mem_of_mem_zipIdx member))]
  rfl

theorem forall_mem_shownStatements {port : Port} {holds : Statement → Prop} :
    (∀ statement ∈ netlist.shownStatements port, holds statement) ↔
      ∀ index id, port.bits[index]? = some id →
        holds (.assign (.bit port.name index) (.atom (netlist.atomAt id)) none) := by
  rw [shownStatements, List.forall_mem_map]
  constructor
  · exact fun all index id found => all (id, index) (List.mk_mem_zipIdx_iff_getElem?.mpr found)
  · exact fun all entry member => all entry.2 entry.1 (List.mk_mem_zipIdx_iff_getElem?.mp member)

/-! ## Declarations -/

theorem portDeclaration_eq_ok (isInput : Bool) {port : Port} (some : port.bits ≠ []) :
    portDeclaration isInput port = .ok (headed isInput port) := by
  have positive : port.width ≠ 0 := by simpa [Port.width] using some
  rcases Nat.exists_eq_succ_of_ne_zero positive with ⟨highest, isWidth⟩
  rw [portDeclaration, headed, isWidth]
  rfl

/-- Every port has a bit. -/
def PortsFilled (netlist : Netlist) : Prop :=
  ∀ port ∈ netlist.inputs ++ netlist.outputs, port.bits ≠ []

theorem Presentable.portsFilled (presentable : netlist.Presentable) : netlist.PortsFilled :=
  fun port member => (presentable.ports port member).2.2

theorem PortsFilled.portDeclarations_eq_ok (filled : netlist.PortsFilled) :
    netlist.portDeclarations = .ok netlist.header := by
  rcases List.forall_mem_append.mp filled with ⟨filledInputs, filledOutputs⟩
  have inputs : netlist.inputs.mapM (portDeclaration true) =
      .ok (netlist.inputs.map (headed true)) :=
    Except.mapM_eq_ok fun port member => portDeclaration_eq_ok true (filledInputs port member)
  have outputs : netlist.outputs.mapM (portDeclaration false) =
      .ok (netlist.outputs.map (headed false)) :=
    Except.mapM_eq_ok fun port member => portDeclaration_eq_ok false (filledOutputs port member)
  have rails : netlist.rails.map scalarInput =
      if netlist.powered then ["VPWR", "VGND"].map scalarInput else [] := by
    rw [Netlist.rails]
    split <;> rfl
  rw [portDeclarations, inputs, outputs, header, List.map_append, rails]
  rfl

/-- The header has the inputs that the netlist has. -/
theorem Meaning.isInput_iff {module : Module} (meaning : netlist.Meaning module) {name : String} :
    module.IsInput name ↔ name ∈ netlist.inputNames := by
  simp only [Module.IsInput, meaning.ports, header, inputNames, List.mem_append, List.mem_map]
  constructor
  · rintro ⟨_, (⟨scalar, isScalar, rfl⟩ | ⟨port, member, rfl⟩) | ⟨port, member, rfl⟩, isInput, rfl⟩
    · exact .inl isScalar
    · exact .inr ⟨port, member, rfl⟩
    · cases isInput
  · rintro (isScalar | ⟨port, member, rfl⟩)
    · exact ⟨_, .inl (.inl ⟨name, isScalar, rfl⟩), rfl, rfl⟩
    · exact ⟨_, .inl (.inr ⟨port, member, rfl⟩), rfl, rfl⟩

theorem Presentable.isName_header (presentable : netlist.Presentable) {port : PortDeclaration}
    (listed : port ∈ netlist.header) : IsName port.name := by
  have scalars : ∀ name ∈ netlist.clock.toList ++ netlist.rails, IsName name := by
    rw [List.forall_mem_append]
    constructor
    · intro name isClock
      have isText : netlist.clockText = name := by
        rw [clockText, Option.mem_toList.mp isClock]
        rfl
      exact isText ▸ presentable.clock.1
    · have isNames : ∀ name ∈ ["VPWR", "VGND"], IsName name := by decide
      rw [rails]
      split
      · exact isNames
      · exact nofun
  rw [header, List.mem_append, List.mem_append, List.mem_map, List.mem_map, List.mem_map] at listed
  rcases listed with (⟨name, isScalar, rfl⟩ | ⟨input, member, rfl⟩) | ⟨output, member, rfl⟩
  · exact scalars name isScalar
  · exact (presentable.ports input (List.mem_append_left _ member)).1
  · exact (presentable.ports output (List.mem_append_right _ member)).1

theorem Presentable.not_endsInDigit (presentable : netlist.Presentable) {name : String}
    (isInput : name ∈ netlist.inputNames) : ¬ EndsInDigit name := by
  rw [inputNames, List.mem_append, List.mem_append] at isInput
  rcases isInput with (isClock | isRail) | isPort
  · have isText : netlist.clockText = name := by
      rw [clockText, Option.mem_toList.mp isClock]
      rfl
    exact isText ▸ presentable.clock.2
  · rw [rails] at isRail
    have noDigit : ∀ rail ∈ ["VPWR", "VGND"], ¬ EndsInDigit rail := by decide
    split at isRail
    · exact noDigit name isRail
    · cases isRail
  · rcases List.mem_map.mp isPort with ⟨port, member, rfl⟩
    exact (presentable.ports port (List.mem_append_left _ member)).2.1

theorem getD_foldl_setIfInBounds (ids : List SignalId) (marks : Array Bool) (id : SignalId) :
    (ids.foldl (fun marks id => marks.setIfInBounds id true) marks).size = marks.size ∧
      ((ids.foldl (fun marks id => marks.setIfInBounds id true) marks).getD id false = true ↔
        marks.getD id false = true ∨ id < marks.size ∧ id ∈ ids) := by
  induction ids generalizing marks with
  | nil => simp
  | cons first rest ih =>
      have size : (marks.setIfInBounds first true).size = marks.size := Array.size_setIfInBounds
      rcases ih (marks.setIfInBounds first true) with ⟨sameSize, marked⟩
      refine ⟨sameSize.trans size, marked.trans ?_⟩
      rw [size, List.mem_cons, Array.getD_eq_getD_getElem?, Array.getElem?_setIfInBounds,
        Array.getD_eq_getD_getElem?]
      by_cases same : first = id
      · subst same
        by_cases inside : first < marks.size <;> simp [inside]
      · simp [same, Ne.symm same]

/-- The marked signals are the outputs of gates that are written as clocked assignments. -/
theorem getD_clockedSignals {id : SignalId} (existing : id < netlist.signals.size) :
    netlist.clockedSignals.getD id false = true ↔
      ∃ gate ∈ netlist.gates.toList, isClockedAssignment gate = true ∧ id ∈ gate.outputs := by
  have marked (gates : List Gate) (marks : Array Bool) (inside : id < marks.size) :
      (gates.foldl (fun marks gate =>
        if isClockedAssignment gate then
          gate.outputs.foldl (fun marks id => marks.setIfInBounds id true) marks
        else marks) marks).getD id false = true ↔ marks.getD id false = true ∨
          ∃ gate ∈ gates, isClockedAssignment gate = true ∧ id ∈ gate.outputs := by
    induction gates generalizing marks with
    | nil => simp
    | cons gate gates ih =>
        rw [List.foldl_cons]
        cases isClocked : isClockedAssignment gate with
        | false =>
            rw [if_neg Bool.false_ne_true, ih marks inside]
            simp [isClocked]
        | true =>
            rcases getD_foldl_setIfInBounds gate.outputs marks id with ⟨size, here⟩
            rw [if_pos rfl, ih _ (size ▸ inside), here]
            simp [isClocked, inside, or_assoc]
  rw [clockedSignals, ← Array.foldl_toList, marked _ _ (by simpa using existing)]
  simp [existing]

/-- The declared nets are the wires. -/
theorem mem_netDeclarations {net : NetDeclaration} :
    net ∈ netlist.netDeclarations ↔
      ∃ id label, netlist.signals[id]? = some (.wire label) ∧
        net = ⟨netlist.clockedSignals.getD id false, Signal.text (.wire label) id⟩ := by
  constructor
  · intro declared
    rcases List.mem_filterMap.mp declared with ⟨⟨signal, id⟩, listed, isNet⟩
    have found := List.mk_mem_zipIdx_iff_getElem?.mp listed
    rw [Array.getElem?_toList] at found
    cases signal with
    | input port bit => cases isNet
    | literal value => cases isNet
    | wire label => exact ⟨id, label, found, (Option.some.inj isNet).symm⟩
  · rintro ⟨id, label, found, rfl⟩
    refine List.mem_filterMap.mpr ⟨(.wire label, id), ?_, rfl⟩
    rw [List.mk_mem_zipIdx_iff_getElem?, Array.getElem?_toList]
    exact found

theorem atomAt_of_wire {id : SignalId} {label : Option String}
    (found : netlist.signals[id]? = some (.wire label)) :
    netlist.atomAt id = .net (Signal.text (.wire label) id) := by
  rw [atomAt, found]

/-- The names of the declared registers are those of the signals that registers drive. -/
theorem Printable.exists_register_net (printable : netlist.Printable) {name : String} :
    (∃ net ∈ netlist.netDeclarations, net.isRegister = true ∧ net.name = name) ↔
      ∃ gate ∈ netlist.gates.toList, gate.isRegister = true ∧
        ∃ id ∈ gate.outputs, netlist.atomAt id = .net name := by
  have isClocked (gate : Gate) (member : gate ∈ netlist.gates.toList) :
      isClockedAssignment gate = true ↔ gate.isRegister = true := by
    simp [isClockedAssignment, printable.inferred gate member, Gate.isRegister_iff]
  constructor
  · rintro ⟨net, declared, isRegister, rfl⟩
    rcases mem_netDeclarations.mp declared with ⟨id, label, found, rfl⟩
    have existing := (Array.getElem?_eq_some_iff.mp found).1
    rcases (getD_clockedSignals existing).mp isRegister with ⟨gate, member, clocked, output⟩
    exact ⟨gate, member, (isClocked gate member).mp clocked, id, output, atomAt_of_wire found⟩
  · rintro ⟨gate, member, isRegister, id, output, isNet⟩
    rcases printable.runnable.wires gate member id output with ⟨label, found⟩
    have existing := (Array.getElem?_eq_some_iff.mp found).1
    have clocked := (getD_clockedSignals existing).mpr
      ⟨gate, member, (isClocked gate member).mpr isRegister, output⟩
    exact ⟨_, mem_netDeclarations.mpr ⟨id, label, found, rfl⟩, clocked,
      Atom.net.inj ((atomAt_of_wire found).symm.trans isNet)⟩

theorem Presentable.isName_net (presentable : netlist.Presentable) {net : NetDeclaration}
    (declared : net ∈ netlist.netDeclarations) : IsName net.name := by
  rcases mem_netDeclarations.mp declared with ⟨id, label, found, rfl⟩
  have legible := presentable.legible_atomAt id
  rw [atomAt_of_wire found] at legible
  exact legible

/-! ## The module -/

/-- The module with given statements for the gates. -/
def moduleWith (netlist : Netlist) (statements : List (List Statement)) : Module where
  name := netlist.name
  ports := netlist.header
  nets := netlist.netDeclarations
  statements := statements.flatten ++ (netlist.outputs.map netlist.shownStatements).flatten

theorem PortsFilled.toVerilog_eq_ok (filled : netlist.PortsFilled)
    (existing : ∀ port ∈ netlist.outputs, Below netlist.signals.size port.bits)
    {statements : List (List Statement)}
    (written : netlist.gates.toList.mapM netlist.gateStatements = .ok statements) :
    netlist.toVerilog = .ok (netlist.moduleWith statements) := by
  have shown : netlist.outputs.mapM netlist.outputStatements =
      .ok (netlist.outputs.map netlist.shownStatements) :=
    Except.mapM_eq_ok fun port member => outputStatements_eq_ok (existing port member)
  rw [toVerilog, filled.portDeclarations_eq_ok, written, shown]
  rfl

theorem Presentable.toVerilog_eq_ok (presentable : netlist.Presentable)
    {statements : List (List Statement)}
    (written : netlist.gates.toList.mapM netlist.gateStatements = .ok statements) :
    netlist.toVerilog = .ok (netlist.moduleWith statements) :=
  presentable.portsFilled.toVerilog_eq_ok presentable.shown written

theorem forall_mem_shown {holds : Statement → Prop} :
    (∀ statement ∈ (netlist.outputs.map netlist.shownStatements).flatten, holds statement) ↔
      ∀ port ∈ netlist.outputs, ∀ index id, port.bits[index]? = some id →
        holds (.assign (.bit port.name index) (.atom (netlist.atomAt id)) none) := by
  simp only [List.forall_mem_flatten, List.forall_mem_map, forall_mem_shownStatements]

theorem Presentable.legible_moduleWith (presentable : netlist.Presentable)
    {statements : List (List Statement)}
    (legible : ∀ statement ∈ statements.flatten, statement.Legible) :
    (netlist.moduleWith statements).Legible where
  ports port := presentable.isName_header
  nets net := presentable.isName_net
  statements := by
    rw [moduleWith, List.forall_mem_append, forall_mem_shown]
    refine ⟨legible, fun port member _ id _ => ?_⟩
    exact ⟨(presentable.ports port (List.mem_append_right _ member)).1,
      presentable.legible_atomAt id, nofun⟩

/-- A netlist that is printable has a module that can be read back and says what the netlist
does. -/
theorem Printable.exists_module (printable : netlist.Printable) :
    ∃ module, netlist.toVerilog = .ok module ∧ module.name = netlist.name ∧ module.Legible ∧
      netlist.Meaning module := by
  rcases Except.exists_mapM_eq_ok fun gate member => printable.exists_statements member with
    ⟨statements, written, relate⟩
  have legible := (forall_mem_flatten_iff relate fun gate list writes =>
    iff_true_intro writes.legible).mpr fun _ _ => trivial
  refine ⟨_, printable.toVerilog_eq_ok written, rfl, printable.legible_moduleWith legible, ?_⟩
  exact {
    ports := rfl
    solves_iff := fun environment => by
      rw [Module.Solves, moduleWith, List.forall_mem_append, forall_mem_shown]
      exact and_congr_left' (forall_mem_flatten_iff relate fun gate list writes =>
        writes.holds_iff environment)
    latched_iff := fun before after => by
      rw [moduleWith, List.forall_mem_append, forall_mem_shown]
      refine (and_iff_left fun _ _ _ _ _ => trivial).trans
        (forall_mem_flatten_iff relate fun gate list writes => writes.latched_iff before after)
    isRegister_iff := fun name => printable.exists_register_net
    clocked := fun name isRegister => by
      rcases printable.exists_register_net.mp isRegister with
        ⟨gate, member, register, id, output, isNet⟩
      rcases exists_mem_flatten relate member with ⟨list, writes, inside⟩
      rcases writes.clocked register id output name isNet with ⟨statement, isStatement, clocks⟩
      exact ⟨statement, List.mem_append_left _ (inside isStatement), clocks⟩ }

end Netlist

end Datapath

import Datapath.Proofs.Emission
import Datapath.Proofs.Independence

/-!
# Environments of a netlist

Only constants, inputs and registers say what the values of a netlist are; all others follow. An
environment that solves the module of a netlist and agrees with given values on these sources,
`Netlist.Sourced`, gives the signals what settles from the values. There always is one, since
signals and the bits of output ports have places of their own: `Netlist.Printable.eq_of_place` and
`Netlist.Printable.exists_environment`.

An input port that takes a word and an edge of the clock keep the agreement with what a simulator
does at these occasions, and both can always happen.
-/

namespace Datapath

open Verilog

namespace Verilog.Atom

/-- The name and the position of a bit. -/
def place : Atom → Option (String × Nat)
  | .net name => some (name, 0)
  | .bit vector index => some (vector, index)
  | .constant _ => none

theorem value_of_place {environment : Environment} {bit : Atom} {place : String × Nat}
    (isPlace : bit.place = some place) : bit.value environment = environment place.1 place.2 := by
  cases bit <;> cases isPlace <;> rfl

theorem constant_of_place {bit : Atom} (isPlace : bit.place = none) :
    ∃ value, bit = .constant value := by
  cases bit with
  | constant value => exact ⟨value, rfl⟩
  | _ => cases isPlace

end Verilog.Atom

namespace Valuation

theorem assign_zip {α : Type} {value : Valuation α} {ids : List SignalId} {written : List α}
    (distinct : ids.Nodup) {index : Nat} {id : SignalId} {new : α} (target : ids[index]? = some id)
    (source : written[index]? = some new) : value.assign (ids.zip written) id = new := by
  induction ids generalizing value written index with
  | nil => cases target
  | cons first ids ih =>
      rcases written with _ | ⟨head, written⟩
      · cases source
      · rw [List.nodup_cons] at distinct
        cases index with
        | zero =>
            cases target
            cases source
            have later : id ∉ (ids.zip written).map (·.1) := by
              intro again
              rcases List.mem_map.mp again with ⟨entry, member, rfl⟩
              exact distinct.1 (List.of_mem_zip member).1
            exact (assign_of_notMem later).trans (Function.update_self ..)
        | succ index => exact ih distinct.2 target source

end Valuation

namespace Netlist

variable {netlist : Netlist} {module : Module}

/-! ## Sources of values -/

/-- The constants carry their values, and what does not exist is false. -/
def Firm (netlist : Netlist) (value : Valuation Bool) : Prop :=
  ∀ id constant, netlist.atomAt id = .constant constant → value id = constant

/-- Constants, inputs and registers have the values that an environment gives them. -/
structure Sourced (netlist : Netlist) (environment : Environment) (value : Valuation Bool) :
    Prop where
  firm : netlist.Firm value
  inputs : ∀ port ∈ netlist.inputs, ∀ index id, port.bits[index]? = some id →
    value id = environment port.name index
  registers : ∀ id, netlist.Registered id → value id = netlist.reading environment id

/-- A signal is a constant or does not exist, or it is the bit of an input port, or a gate drives
it. -/
theorem Printable.signal_cases (printable : netlist.Printable) (id : SignalId) :
    (¬ netlist.IsWire id ∧ ∃ constant, netlist.atomAt id = .constant constant) ∨
    (¬ netlist.IsWire id ∧ ∃ port ∈ netlist.inputs, ∃ index, port.bits[index]? = some id ∧
      netlist.atomAt id = .bit port.name index) ∨
    (∃ label, netlist.atomAt id = .net (Signal.text (.wire label) id) ∧
      ∃ gate ∈ netlist.gates.toList, id ∈ gate.outputs) := by
  have noWire {signal : Signal} (found : netlist.signals[id]? = some signal)
      (other : signal.isWire = false) : ¬ netlist.IsWire id := by
    rintro ⟨label, isWire⟩
    rw [found] at isWire
    cases isWire
    cases other
  rw [atomAt]
  cases found : netlist.signals[id]? with
  | none =>
      refine .inl ⟨?_, false, rfl⟩
      rintro ⟨label, isWire⟩
      rw [found] at isWire
      cases isWire
  | some signal =>
      cases signal with
      | literal value => exact .inl ⟨noWire found rfl, value, rfl⟩
      | input name index =>
          rcases printable.posted.listed id name index found with ⟨port, member, rfl, bit⟩
          exact .inr (.inl ⟨noWire found rfl, port, member, index, bit, rfl⟩)
      | wire label =>
          rcases printable.driven id ⟨label, found⟩ with ⟨index, gate, isGate, output⟩
          have member : gate ∈ netlist.gates.toList :=
            List.mem_of_getElem? (Array.getElem?_toList.trans isGate)
          exact .inr (.inr ⟨label, rfl, gate, member, output⟩)

theorem Printable.not_mem_outputs (printable : netlist.Printable) {id : SignalId}
    (noWire : ¬ netlist.IsWire id) {gate : Gate} (member : gate ∈ netlist.gates.toList) :
    id ∉ gate.outputs :=
  fun output => noWire (printable.runnable.wires gate member id output)

theorem Printable.atomAt_input (printable : netlist.Printable) {port : Port}
    (member : port ∈ netlist.inputs) {index : Nat} {id : SignalId}
    (bit : port.bits[index]? = some id) :
    netlist.atomAt id = .bit port.name index ∧ ¬ netlist.IsWire id := by
  have found := printable.posted.shown port member index id bit
  refine ⟨by rw [atomAt, found], ?_⟩
  rintro ⟨label, isWire⟩
  rw [found] at isWire
  cases isWire

/-- What settles from values with the sources of an environment that solves the module is what the
environment gives. -/
theorem Sourced.settlement {environment : Environment} {value : Valuation Bool}
    (sourced : netlist.Sourced environment value) (printable : netlist.Printable)
    (meaning : netlist.Meaning module) (solves : module.Solves environment) :
    netlist.Settlement value (netlist.reading environment) where
  settled := ((meaning.solves_iff environment).mp solves).1
  kept id undriven := by
    rcases printable.signal_cases id with ⟨_, constant, isConstant⟩ |
      ⟨_, port, member, index, bit, isBit⟩ | ⟨label, _, gate, member, output⟩
    · rw [sourced.firm id constant isConstant, reading, isConstant]
      rfl
    · rw [sourced.inputs port member index id bit, reading, isBit]
      rfl
    · refine (sourced.registers id ⟨gate, member, ?_, output⟩).symm
      cases combinational : gate.isCombinational with
      | true => exact absurd output (undriven gate member combinational)
      | false => rw [gate.isRegister_eq_not_isCombinational, combinational]; rfl

/-! ## Environments from values -/

/-- The signal that has a place, or that an output port shows there. -/
def holder? (netlist : Netlist) (name : String) (index : Nat) : Option SignalId :=
  ((List.range netlist.signals.size).find? fun id =>
      (netlist.atomAt id).place = some (name, index)) <|>
    (netlist.outputPort? name).bind (·.bits[index]?)

/-- The environment that shows given values; where no signal is to be shown, it is another one. -/
def showing (netlist : Netlist) (value : Valuation Bool) (elsewhere : Environment) : Environment :=
  fun name index => ((netlist.holder? name index).map value).getD (elsewhere name index)

theorem lt_of_place {id : SignalId} {place : String × Nat}
    (isPlace : (netlist.atomAt id).place = some place) : id < netlist.signals.size := by
  by_contra outside
  rw [atomAt, Array.getElem?_eq_none (Nat.le_of_not_lt outside)] at isPlace
  cases isPlace

/-- What has a place is the bit of an input port, or a wire with its name. -/
theorem Printable.place_cases (printable : netlist.Printable) {id : SignalId} {name : String}
    {index : Nat} (isPlace : (netlist.atomAt id).place = some (name, index)) :
    (∃ port ∈ netlist.inputs, port.name = name ∧ port.bits[index]? = some id) ∨
      ∃ label, name = Signal.text (.wire label) id ∧ index = 0 := by
  rcases printable.signal_cases id with ⟨_, constant, isConstant⟩ |
    ⟨_, port, member, position, bit, isBit⟩ | ⟨label, isNet, _⟩
  · rw [isConstant] at isPlace
    cases isPlace
  · rw [isBit] at isPlace
    cases isPlace
    exact .inl ⟨port, member, rfl, bit⟩
  · rw [isNet] at isPlace
    cases isPlace
    exact .inr ⟨label, rfl, rfl⟩

theorem Printable.names (printable : netlist.Printable) :
    (netlist.inputs.map (·.name)).Nodup ∧ (netlist.outputs.map (·.name)).Nodup ∧
      ∀ input ∈ netlist.inputNames, ∀ output ∈ netlist.outputs, input ≠ output.name := by
  have distinct := List.nodup_append.mp printable.distinct
  refine ⟨(List.nodup_append.mp distinct.1).2.1, distinct.2.1,
    fun input isInput output member => ?_⟩
  exact distinct.2.2 input isInput output.name (List.mem_map_of_mem member)

theorem mem_inputNames {port : Port} (member : port ∈ netlist.inputs) :
    port.name ∈ netlist.inputNames :=
  List.mem_append_right _ (List.mem_map_of_mem member)

/-- No two signals share a place. -/
theorem Printable.eq_of_place (printable : netlist.Printable) {first second : SignalId}
    {place : String × Nat} (isFirst : (netlist.atomAt first).place = some place)
    (isSecond : (netlist.atomAt second).place = some place) : first = second := by
  rcases place with ⟨name, index⟩
  have noDigit {port : Port} (member : port ∈ netlist.inputs) : ¬ EndsInDigit port.name :=
    (printable.ports port (List.mem_append_left _ member)).2.1
  rcases printable.place_cases isFirst with ⟨port, member, rfl, bit⟩ | ⟨label, rfl, rfl⟩
  · rcases printable.place_cases isSecond with ⟨other, isOther, same, otherBit⟩ | ⟨label, same, _⟩
    · cases List.inj_on_of_nodup_map printable.names.1 isOther member same
      rw [bit] at otherBit
      exact Option.some.inj otherBit
    · exact absurd (same ▸ Signal.endsInDigit_text label second) (noDigit member)
  · rcases printable.place_cases isSecond with ⟨port, member, same, _⟩ | ⟨other, same, _⟩
    · exact absurd (same ▸ Signal.endsInDigit_text label first) (noDigit member)
    · exact Signal.eq_of_text_eq same

theorem Printable.holder?_eq_some (printable : netlist.Printable) {id : SignalId} {name : String}
    {index : Nat} (isPlace : (netlist.atomAt id).place = some (name, index)) :
    netlist.holder? name index = some id := by
  rw [holder?]
  cases found : (List.range netlist.signals.size).find? fun id =>
      (netlist.atomAt id).place = some (name, index) with
  | none =>
      have isFree := List.find?_eq_none.mp found id (List.mem_range.mpr (lt_of_place isPlace))
      exact absurd (decide_eq_true isPlace) isFree
  | some other =>
      have holds := List.find?_some found
      exact congrArg some (printable.eq_of_place (of_decide_eq_true holds) isPlace)

theorem holder?_of_free {name : String} {index : Nat}
    (free : ∀ id, (netlist.atomAt id).place ≠ some (name, index)) :
    netlist.holder? name index = (netlist.outputPort? name).bind (·.bits[index]?) := by
  have noSignal : ((List.range netlist.signals.size).find? fun id =>
      (netlist.atomAt id).place = some (name, index)) = none := by
    rw [List.find?_eq_none]
    exact fun id _ holds => free id (of_decide_eq_true holds)
  rw [holder?, noSignal]
  rfl

theorem Printable.reading_showing (printable : netlist.Printable) {value : Valuation Bool}
    (firm : netlist.Firm value) (elsewhere : Environment) :
    netlist.reading (netlist.showing value elsewhere) = value := by
  funext id
  rw [reading]
  cases isPlace : (netlist.atomAt id).place with
  | some place =>
      rw [Atom.value_of_place isPlace, showing, printable.holder?_eq_some isPlace]
      rfl
  | none =>
      rcases Atom.constant_of_place isPlace with ⟨constant, isConstant⟩
      rw [isConstant, firm id constant isConstant, Atom.value]

theorem Printable.showing_output (printable : netlist.Printable) (value : Valuation Bool)
    (elsewhere : Environment) {port : Port} (member : port ∈ netlist.outputs) {index : Nat}
    {id : SignalId} (bit : port.bits[index]? = some id) :
    netlist.showing value elsewhere port.name index = value id := by
  have free (other : SignalId) : (netlist.atomAt other).place ≠ some (port.name, index) := by
    intro isPlace
    rcases printable.place_cases isPlace with ⟨input, isInput, same, _⟩ | ⟨label, same, _⟩
    · exact printable.names.2.2 _ (mem_inputNames isInput) port member same
    · exact (printable.ports port (List.mem_append_right _ member)).2.1
        (same ▸ Signal.endsInDigit_text label other)
  rw [showing, holder?_of_free free, outputPort?,
    find?_name_of_nodup printable.names.2.1 member, Option.bind_some, bit]
  rfl

theorem Printable.showing_input (printable : netlist.Printable) (value : Valuation Bool)
    (elsewhere : Environment) {name : String} (isInput : name ∈ netlist.inputNames) {index : Nat}
    (free : ∀ id, (netlist.atomAt id).place ≠ some (name, index)) :
    netlist.showing value elsewhere name index = elsewhere name index := by
  have noOutput : netlist.outputPort? name = none := by
    rw [outputPort?, List.find?_eq_none]
    intro port member same
    exact printable.names.2.2 name isInput port member (beq_iff_eq.mp same).symm
  rw [showing, holder?_of_free free, noOutput]
  rfl

theorem Printable.exists_settlement (printable : netlist.Printable) {value : Valuation Bool}
    (firm : netlist.Firm value) :
    ∃ settled, netlist.Settlement value settled ∧ netlist.Firm settled := by
  rcases Simulator.exists_start_eq_ok (α := Bool) printable.runnable with ⟨started, _, runs, _⟩
  let values : Array Bool := Array.ofFn fun id : Fin netlist.signals.size => value id
  have size : values.size = started.values.size := Array.size_ofFn.trans runs.size_eq.symm
  have same : Simulator.valuation values = value := by
    funext id
    by_cases inside : id < netlist.signals.size
    · simp [Simulator.valuation, values, inside]
    · have nothing : netlist.atomAt id = .constant false := by
        rw [atomAt, Array.getElem?_eq_none (Nat.le_of_not_lt inside)]
      rw [firm id false nothing]
      simp [Simulator.valuation, values, inside]
      rfl
  rcases Simulator.exists_settlement printable.runnable (runs.resized size) with
    ⟨settled, _, _, settlement⟩
  rw [same] at settlement
  refine ⟨_, settlement, fun id constant isConstant => ?_⟩
  rw [settlement.kept id, firm id constant isConstant]
  intro gate member _ output
  rcases printable.runnable.wires gate member id output with ⟨label, isWire⟩
  rw [atomAt, isWire] at isConstant
  cases isConstant

/-- There is an environment that solves the module and gives the sources given values; where nothing
is to be shown, inputs are as in another environment. -/
theorem Printable.exists_environment (printable : netlist.Printable)
    (meaning : netlist.Meaning module) {value : Valuation Bool} (firm : netlist.Firm value)
    (elsewhere : Environment) :
    ∃ environment, module.Solves environment ∧ netlist.Sourced environment value ∧
      ∀ name, module.IsInput name → ∀ index,
        (∃ port ∈ netlist.inputs, port.name = name ∧ ∃ id, port.bits[index]? = some id ∧
          environment name index = value id) ∨
        environment name index = elsewhere name index := by
  rcases printable.exists_settlement firm with ⟨settled, settlement, settledFirm⟩
  have shown := printable.reading_showing settledFirm elsewhere
  have inputs (port : Port) (member : port ∈ netlist.inputs) (index : Nat) (id : SignalId)
      (bit : port.bits[index]? = some id) :
      value id = netlist.showing settled elsewhere port.name index := by
    rcases printable.atomAt_input member bit with ⟨isBit, noWire⟩
    have kept := settlement.kept id fun gate isGate _ => printable.not_mem_outputs noWire isGate
    rw [← kept, ← congrFun shown id, reading, isBit]
    rfl
  refine ⟨netlist.showing settled elsewhere, ?_, ⟨firm, inputs, fun id registered => ?_⟩,
    fun name isInput index => ?_⟩
  · rw [meaning.solves_iff, shown]
    exact ⟨settlement.settled, fun port member index id bit =>
      printable.showing_output settled elsewhere member bit⟩
  · rw [shown]
    exact (settlement.registered printable.runnable.toDrivable registered).symm
  · rw [meaning.isInput_iff] at isInput
    by_cases free : ∀ id, (netlist.atomAt id).place ≠ some (name, index)
    · exact .inr (printable.showing_input settled elsewhere isInput free)
    · simp only [ne_eq, not_forall, not_not] at free
      rcases free with ⟨id, isPlace⟩
      rcases printable.place_cases isPlace with ⟨port, member, rfl, bit⟩ | ⟨label, rfl, _⟩
      · exact .inl ⟨port, member, rfl, id, bit, (inputs port member index id bit).symm⟩
      · exact absurd (Signal.endsInDigit_text label id) (printable.not_endsInDigit isInput)

/-! ## Actions -/

variable {environment after : Environment} {value : Valuation Bool}

theorem reading_of_wire {id : SignalId} {label : Option String}
    (found : netlist.signals[id]? = some (.wire label)) :
    netlist.reading environment id = environment (Signal.text (.wire label) id) 0 := by
  rw [reading, atomAt_of_wire found, Atom.value]

/-- What a register drives is a wire that is declared as a register. -/
theorem Printable.exists_declared (printable : netlist.Printable)
    (meaning : netlist.Meaning module) {id : SignalId} (registered : netlist.Registered id) :
    ∃ label, netlist.signals[id]? = some (.wire label) ∧
      module.IsRegister (Signal.text (.wire label) id) := by
  rcases registered with ⟨gate, member, isRegister, output⟩
  rcases printable.runnable.wires gate member id output with ⟨label, found⟩
  exact ⟨label, found, (meaning.isRegister_iff _).mpr
    ⟨gate, member, isRegister, id, output, atomAt_of_wire found⟩⟩

theorem firm_initial : netlist.Firm netlist.initial := by
  intro id constant isConstant
  rw [atomAt] at isConstant
  rw [initial]
  cases found : netlist.signals[id]? with
  | none =>
      rw [found] at isConstant
      cases isConstant
      rfl
  | some signal =>
      rw [found] at isConstant
      cases signal <;> cases isConstant
      rfl

/-- The inputs and the registers start false. -/
theorem Printable.sourced_initial (printable : netlist.Printable)
    (meaning : netlist.Meaning module) (starts : module.Starts environment) :
    netlist.Sourced environment netlist.initial where
  firm := firm_initial
  inputs port member index id bit := by
    rw [starts.inputs port.name (meaning.isInput_iff.mpr (mem_inputNames member)), initial,
      printable.posted.shown port member index id bit]
    rfl
  registers id registered := by
    rcases printable.exists_declared meaning registered with ⟨label, found, declared⟩
    rw [reading_of_wire found, starts.registers _ declared, initial, found]
    rfl

theorem Printable.nodup_bits (printable : netlist.Printable) {port : Port}
    (member : port ∈ netlist.inputs) : port.bits.Nodup := by
  rw [List.nodup_iff_getElem?_ne_getElem?]
  intro first second lt inside same
  have found := printable.posted.shown port member first port.bits[first]
    (List.getElem?_eq_getElem _)
  have again := printable.posted.shown port member second port.bits[first]
    (same ▸ List.getElem?_eq_getElem _)
  rw [found] at again
  cases again
  exact Nat.lt_irrefl _ lt

/-- The bits of one input port are not those of another. -/
theorem Printable.eq_of_bit (printable : netlist.Printable) {port other : Port}
    (member : port ∈ netlist.inputs) (isOther : other ∈ netlist.inputs) {index : Nat}
    {id : SignalId} (bit : port.bits[index]? = some id) (otherBit : id ∈ other.bits) :
    other = port := by
  rcases List.mem_iff_getElem?.mp otherBit with ⟨position, found⟩
  have shown := printable.posted.shown port member index id bit
  rw [printable.posted.shown other isOther position id found] at shown
  exact List.inj_on_of_nodup_map printable.names.1 isOther member
    (Signal.input.inj (Option.some.inj shown)).1

section Take

variable {port : Port} {word : List Bool}

theorem assign_of_not_bit (width : port.width = word.length) {id : SignalId}
    (other : id ∉ port.bits) : value.assign (port.bits.zip word) id = value id := by
  apply Valuation.assign_of_notMem
  rwa [List.map_fst_zip (Nat.le_of_eq width)]

theorem Printable.firm_assign (printable : netlist.Printable) (member : port ∈ netlist.inputs)
    (width : port.width = word.length) (firm : netlist.Firm value) :
    netlist.Firm (value.assign (port.bits.zip word)) := by
  intro id constant isConstant
  rw [assign_of_not_bit width, firm id constant isConstant]
  intro bit
  rcases List.mem_iff_getElem?.mp bit with ⟨index, found⟩
  rw [(printable.atomAt_input member found).1] at isConstant
  cases isConstant

theorem Printable.assign_registered (printable : netlist.Printable)
    (member : port ∈ netlist.inputs) (width : port.width = word.length) {id : SignalId}
    (registered : netlist.Registered id) : value.assign (port.bits.zip word) id = value id := by
  apply assign_of_not_bit width
  intro bit
  rcases List.mem_iff_getElem?.mp bit with ⟨index, found⟩
  rcases registered with ⟨gate, isGate, _, output⟩
  exact (printable.atomAt_input member found).2 (printable.runnable.wires gate isGate id output)

/-- When an input port takes a word, its bits are given new values. -/
theorem Printable.sourced_take (printable : netlist.Printable) (meaning : netlist.Meaning module)
    (sourced : netlist.Sourced environment value) (member : port ∈ netlist.inputs)
    (width : port.width = word.length) (takes : module.Takes port.name word environment after) :
    netlist.Sourced after (value.assign (port.bits.zip word)) where
  firm := printable.firm_assign member width sourced.firm
  inputs other isOther index id bit := by
    by_cases same : other = port
    · subst same
      have inside : index < word.length := width ▸ (List.getElem?_eq_some_iff.mp bit).1
      have source := List.getElem?_eq_getElem inside
      rw [Valuation.assign_zip (printable.nodup_bits member) bit source,
        takes.taken index _ source]
    · have noBit : id ∉ port.bits := fun bitAgain =>
        same (printable.eq_of_bit isOther member bit bitAgain).symm
      have differs : other.name ≠ port.name := fun sameName =>
        same (List.inj_on_of_nodup_map printable.names.1 isOther member sameName)
      rw [assign_of_not_bit width noBit, sourced.inputs other isOther index id bit,
        takes.inputs other.name (meaning.isInput_iff.mpr (mem_inputNames isOther)) differs]
  registers id registered := by
    rcases printable.exists_declared meaning registered with ⟨label, found, declared⟩
    rw [printable.assign_registered member width registered, sourced.registers id registered,
      reading_of_wire found, reading_of_wire found, takes.registers _ declared]

/-- Any input port can take any word of its width. -/
theorem Printable.exists_take (printable : netlist.Printable) (meaning : netlist.Meaning module)
    (sourced : netlist.Sourced environment value) (member : port ∈ netlist.inputs)
    (width : port.width = word.length) :
    ∃ after, module.Takes port.name word environment after := by
  rcases printable.exists_environment meaning
    (printable.firm_assign member width sourced.firm) environment with
    ⟨after, solves, reached, inputs⟩
  refine ⟨after, solves, fun index bit source => ?_, fun name isInput differs => ?_,
    fun name isRegister => ?_⟩
  · have inside : index < port.bits.length := by
      rw [← Port.width, width]
      exact (List.getElem?_eq_some_iff.mp source).1
    have target := List.getElem?_eq_getElem inside
    rw [← reached.inputs port member index _ target,
      Valuation.assign_zip (printable.nodup_bits member) target source]
  · funext index
    rcases inputs name isInput index with ⟨other, isOther, rfl, id, bit, isValue⟩ | same
    · have noBit : id ∉ port.bits := fun bitAgain =>
        differs (congrArg Port.name (printable.eq_of_bit isOther member bit bitAgain)).symm
      rw [isValue, assign_of_not_bit width noBit, sourced.inputs other isOther index id bit]
    · exact same
  · rcases (meaning.isRegister_iff name).mp isRegister with
      ⟨gate, isGate, register, id, output, isNet⟩
    have registered : netlist.Registered id := ⟨gate, isGate, register, output⟩
    have before := sourced.registers id registered
    have again := reached.registers id registered
    rw [printable.assign_registered member width registered, before] at again
    rw [reading, reading, isNet] at again
    exact again.symm

end Take

section Tick

variable {clocked : Valuation Bool}

theorem Printable.edge_source (printable : netlist.Printable)
    (edge : netlist.Edge value clocked) {id : SignalId} (noWire : ¬ netlist.IsWire id) :
    clocked id = value id :=
  edge.kept id fun _ member _ => printable.not_mem_outputs noWire member

theorem Printable.firm_edge (printable : netlist.Printable)
    (edge : netlist.Edge (netlist.reading environment) clocked) : netlist.Firm clocked := by
  intro id constant isConstant
  rw [printable.edge_source edge, reading, isConstant]
  · rfl
  · rintro ⟨label, found⟩
    rw [atomAt_of_wire found] at isConstant
    cases isConstant

/-- At a clock edge, registers take over what the environment gave their inputs. -/
theorem Printable.sourced_tick (printable : netlist.Printable) (meaning : netlist.Meaning module)
    (edge : netlist.Edge (netlist.reading environment) clocked)
    (ticks : module.Ticks netlist.clockText environment after) :
    netlist.Sourced after clocked where
  firm := printable.firm_edge edge
  inputs port member index id bit := by
    rcases printable.atomAt_input member bit with ⟨isBit, noWire⟩
    rw [printable.edge_source edge noWire, reading, isBit, Atom.value,
      ticks.inputs port.name (meaning.isInput_iff.mpr (mem_inputNames member))]
  registers id registered := by
    rcases registered with ⟨gate, member, isRegister, output⟩
    have latched := (meaning.latched_iff environment after).mp ticks.latched gate member isRegister
    rw [← edge.latched gate member isRegister] at latched
    exact (List.map_inj_left.mp latched id output).symm

/-- The clock can always tick. -/
theorem Printable.exists_tick (printable : netlist.Printable) (meaning : netlist.Meaning module)
    (edge : netlist.Edge (netlist.reading environment) clocked) :
    ∃ after, module.Ticks netlist.clockText environment after := by
  rcases printable.exists_environment meaning (printable.firm_edge edge) environment with
    ⟨after, solves, reached, inputs⟩
  refine ⟨after, solves, ?_, fun name isInput => ?_, fun name isRegister free => ?_⟩
  · rw [meaning.latched_iff]
    intro gate member isRegister
    rw [← edge.latched gate member isRegister]
    exact List.map_congr_left fun id output =>
      (reached.registers id ⟨gate, member, isRegister, output⟩).symm
  · funext index
    rcases inputs name isInput index with ⟨port, member, rfl, id, bit, isValue⟩ | same
    · rcases printable.atomAt_input member bit with ⟨isBit, noWire⟩
      rw [isValue, printable.edge_source edge noWire, reading, isBit, Atom.value]
    · exact same
  · rcases meaning.clocked name isRegister with ⟨statement, member, clocks⟩
    exact absurd clocks (free statement member)

end Tick

/-- A module can always start. -/
theorem Printable.exists_start (printable : netlist.Printable) (meaning : netlist.Meaning module) :
    ∃ start, module.Starts start := by
  rcases printable.exists_environment meaning firm_initial fun _ _ => false with
    ⟨start, solves, reached, inputs⟩
  refine ⟨start, solves, fun name isInput index => ?_, fun name isRegister => ?_⟩
  · rcases inputs name isInput index with ⟨port, member, rfl, id, bit, isValue⟩ | same
    · rw [isValue, initial, printable.posted.shown port member index id bit]
      rfl
    · exact same
  · rcases (meaning.isRegister_iff name).mp isRegister with
      ⟨gate, member, register, id, output, isNet⟩
    have again := reached.registers id ⟨gate, member, register, output⟩
    rcases printable.runnable.wires gate member id output with ⟨label, found⟩
    rw [initial, found, reading, isNet] at again
    exact again.symm

end Netlist

end Datapath

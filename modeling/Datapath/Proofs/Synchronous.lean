import Datapath.Proofs.Acceptance

/-!
# Synchronous semantics

What a netlist does with values of any carrier, said without an order of evaluation. When it
settles, the outputs of combinational gates become what the gates compute from the values that
result, and all other signals keep their values: `Netlist.Settlement`. At a clock edge all registers
take over at once what their inputs carried, and nothing else changes: `Netlist.Edge`. Without
combinational loops both determine the values that follow.

`Netlist.Reacts` adds the setting of an input port, and `Netlist.Behaves` follows a sequence of
commands. A simulator obeys commands in just this way, in every image of its carrier:
`Simulator.reacts_map_iff` for one command and `Simulator.behaves_map_iff` for a sequence.
-/

namespace Datapath

/-- What can be asked of a netlist whose signals have values. -/
inductive Command (α : Type) where
  /-- To give the bits of an input port their values, low bit first. -/
  | set (port : String) (bits : List α)
  | settle
  | clock
  | step
  deriving DecidableEq, Repr

/-- The command on the images of the values. -/
def Command.map {α β : Type} (image : α → β) : Command α → Command β
  | .set port bits => .set port (bits.map image)
  | .settle => .settle
  | .clock => .clock
  | .step => .step

namespace Valuation

variable {α β : Type}

/-- Gives signals new values, a later entry over an earlier one. -/
def assign (value : Valuation α) (entries : List (SignalId × α)) : Valuation α :=
  entries.foldl (fun value entry => Function.update value entry.1 entry.2) value

/-- The images of all values. -/
def map (image : α → β) (value : Valuation α) : Valuation β :=
  fun id => image (value id)

theorem map_assign (image : α → β) (value : Valuation α) (entries : List (SignalId × α)) :
    (value.assign entries).map image =
      (value.map image).assign (entries.map (Prod.map id image)) := by
  induction entries generalizing value with
  | nil => rfl
  | cons entry entries ih =>
      apply (ih (Function.update value entry.1 entry.2)).trans
      have first : (show Valuation α from Function.update value entry.1 entry.2).map image =
          Function.update (value.map image) entry.1 (image entry.2) := by
        funext id
        by_cases same : id = entry.1
        · subst same
          simp [map]
        · simp [map, same]
      rw [first]
      rfl

theorem assign_of_notMem {value : Valuation α} {entries : List (SignalId × α)} {id : SignalId}
    (other : id ∉ entries.map (·.1)) : value.assign entries id = value id := by
  induction entries generalizing value with
  | nil => rfl
  | cons entry entries ih =>
      simp only [List.map_cons, List.mem_cons, not_or] at other
      apply (ih other.2).trans
      exact Function.update_of_ne other.1 _ _

end Valuation

namespace Gate

variable {α : Type} [Logic α]

/-- A register carries what its input carried. -/
theorem carries_iff_of_isRegister {gate : Gate} (legal : gate.Legal)
    (register : gate.isRegister = true) {before after : Valuation α} :
    gate.Carries before after ↔ gate.outputs.map after = gate.inputs.map before := by
  rcases exists_pins_of_isRegister legal register with ⟨d, q, isInputs, isOutputs⟩
  rw [Carries, (isRegister_iff gate).mp register, isInputs, isOutputs]
  change Except.ok [before d] = Except.ok [after q] ↔ [after q] = [before d]
  rw [Except.ok.injEq, eq_comm]

end Gate

namespace Netlist

variable {α β : Type} [Logic α] [Logic β] {netlist : Netlist}

/-- What the values become when the combinational gates follow. The signals that no combinational
gate drives are the inputs, the literals, the outputs of registers and the wires without driver. -/
structure Settlement (netlist : Netlist) (before after : Valuation α) : Prop where
  settled : Gate.Settled netlist.gates.toList after
  kept : ∀ id, (∀ gate ∈ netlist.gates.toList, gate.isCombinational = true → id ∉ gate.outputs) →
    after id = before id

/-- What the values become at a clock edge. -/
structure Edge (netlist : Netlist) (before after : Valuation α) : Prop where
  latched : ∀ gate ∈ netlist.gates.toList, gate.isRegister = true →
    gate.outputs.map after = gate.inputs.map before
  kept : ∀ id, (∀ gate ∈ netlist.gates.toList, gate.isRegister = true → id ∉ gate.outputs) →
    after id = before id

/-- What the values become by a command. A port that does not exist or has another width is
refused, and a port of signals that do not exist cannot be set. -/
def Reacts (netlist : Netlist) (command : Command α) (before after : Valuation α) : Prop :=
  match command with
  | .set name bits =>
    match netlist.inputPort? name with
    | none => after = before
    | some port =>
      if port.width = bits.length then
        Below netlist.signals.size port.bits ∧ after = before.assign (port.bits.zip bits)
      else
        after = before
  | .settle => netlist.Settlement before after
  | .clock => netlist.Edge before after
  | .step => ∃ settled clocked, netlist.Settlement before settled ∧ netlist.Edge settled clocked ∧
      netlist.Settlement clocked after

/-- What the values become by a sequence of commands. -/
def Behaves (netlist : Netlist) : List (Command α) → Valuation α → Valuation α → Prop
  | [], before, after => after = before
  | command :: commands, before, after =>
    ∃ middle, netlist.Reacts command before middle ∧ netlist.Behaves commands middle after

/-- The values before anything has happened: all false but the true literals. -/
def initial (netlist : Netlist) : Valuation α :=
  fun id => match netlist.signals[id]? with
    | some (.literal value) => Logic.ofBool value
    | _ => Logic.ofBool false

theorem map_initial (morphism : Logic.Morphism α β) :
    (netlist.initial : Valuation α).map morphism.map = netlist.initial := by
  funext id
  rw [Valuation.map, initial, initial]
  split <;> exact morphism.map_ofBool _

/-- In an order of evaluation, whatever feeds a gate comes earlier. -/
theorem Ordered.wellFounded {order : List Nat} (ordered : netlist.Ordered order) :
    WellFounded netlist.Feeds := by
  have earlier {driver reader : Nat} (feeds : netlist.Feeds driver reader) :
      order.idxOf driver < order.idxOf reader := by
    rcases feeds.2 with ⟨gate, found, combinational, _⟩
    have placed : reader ∈ order := (ordered.mem_iff reader).mpr ⟨gate, found, combinational⟩
    rcases List.append_of_mem placed with ⟨before, after, split⟩
    have inBefore := ordered.follows before reader after split driver feeds
    have distinct := ordered.distinct
    rw [split, List.nodup_append] at distinct
    have fresh : reader ∉ before := fun old => distinct.2.2 reader old reader (by simp) rfl
    rw [split, List.idxOf_append_of_mem inBefore, List.idxOf_append_of_notMem fresh,
      List.idxOf_cons_self]
    exact Nat.lt_add_right 0 (List.idxOf_lt_length_of_mem inBefore)
  exact Subrelation.wf earlier (InvImage.wf order.idxOf Nat.lt_wfRel.wf)

theorem Runnable.wellFounded (runnable : netlist.Runnable) : WellFounded netlist.Feeds := by
  rcases runnable.ordered with ⟨order, found⟩
  exact (ordered_of_combinationalOrder found).wellFounded

/-- A signal either has no combinational driver, or is one of the outputs of a gate whose inputs are
done before. -/
theorem signal_induction (acyclic : WellFounded netlist.Feeds) {motive : SignalId → Prop}
    (undriven : ∀ id, (∀ gate ∈ netlist.gates.toList, gate.isCombinational = true →
      id ∉ gate.outputs) → motive id)
    (driven : ∀ gate ∈ netlist.gates.toList, gate.isCombinational = true →
      (∀ id ∈ gate.inputs, motive id) → ∀ id ∈ gate.outputs, motive id) (id : SignalId) :
    motive id := by
  have each (index : Nat) : ∀ gate, netlist.gates[index]? = some gate →
      gate.isCombinational = true → ∀ id ∈ gate.outputs, motive id := by
    induction index using acyclic.induction with
    | _ index ih =>
        intro gate found combinational
        have member : gate ∈ netlist.gates.toList :=
          List.mem_of_getElem? (Array.getElem?_toList.trans found)
        refine driven gate member combinational fun id pin => ?_
        by_cases source : ∃ (driver : Nat) (other : Gate), netlist.gates[driver]? = some other ∧
            other.isCombinational = true ∧ id ∈ other.outputs
        · rcases source with ⟨driver, other, foundOther, follows, output⟩
          have feeds : netlist.Feeds driver index :=
            ⟨⟨other, foundOther, follows⟩, gate, found, combinational, id, pin, other, foundOther,
              output⟩
          exact ih driver feeds other foundOther follows id output
        · refine undriven id fun other isGate follows output => source ?_
          rcases List.mem_iff_getElem?.mp isGate with ⟨driver, foundOther⟩
          exact ⟨driver, other, Array.getElem?_toList.symm.trans foundOther, follows, output⟩
  by_cases source : ∃ gate ∈ netlist.gates.toList, gate.isCombinational = true ∧ id ∈ gate.outputs
  · rcases source with ⟨gate, member, combinational, output⟩
    rcases List.mem_iff_getElem?.mp member with ⟨index, found⟩
    exact each index gate (Array.getElem?_toList.symm.trans found) combinational id output
  · simp only [not_exists, not_and] at source
    exact undriven id source

/-- What can be ordered has no loops. -/
theorem loopFree_of_combinationalOrder {order : List Nat}
    (found : netlist.combinationalOrder = .ok order) : netlist.LoopFree := by
  intro index loop
  exact (ordered_of_combinationalOrder found).wellFounded.transGen.irrefl.irrefl index loop

namespace Settlement

variable {before after other : Valuation α}

theorem map (settlement : netlist.Settlement before after) (morphism : Logic.Morphism α β) :
    netlist.Settlement (before.map morphism.map) (after.map morphism.map) where
  settled := settlement.settled.map morphism
  kept id undriven := congrArg morphism.map (settlement.kept id undriven)

/-- Gate after gate, what settles is determined by what is kept. -/
theorem unique (settlement : netlist.Settlement before after)
    (again : netlist.Settlement before other) (acyclic : WellFounded netlist.Feeds) :
    after = other := by
  funext id
  induction id using signal_induction acyclic with
  | undriven id undriven => rw [settlement.kept id undriven, again.kept id undriven]
  | driven gate member combinational agree id output =>
      have carried := settlement.settled gate member combinational
      have carriedAgain := again.settled gate member combinational
      rw [Gate.Carries, List.map_congr_left agree] at carried
      rw [Gate.Carries, carried] at carriedAgain
      exact List.map_inj_left.mp (Except.ok.inj carriedAgain) id output

end Settlement

namespace Edge

variable {before after other : Valuation α}

theorem map (edge : netlist.Edge before after) (morphism : Logic.Morphism α β) :
    netlist.Edge (before.map morphism.map) (after.map morphism.map) where
  latched gate member register := by
    have images := congrArg (List.map morphism.map) (edge.latched gate member register)
    rwa [List.map_map, List.map_map] at images
  kept id undriven := congrArg morphism.map (edge.kept id undriven)

omit [Logic α] in
theorem unique (edge : netlist.Edge before after) (again : netlist.Edge before other) :
    after = other := by
  funext id
  by_cases driven : ∃ gate ∈ netlist.gates.toList, gate.isRegister = true ∧ id ∈ gate.outputs
  · rcases driven with ⟨gate, member, register, output⟩
    have latched := edge.latched gate member register
    rw [← again.latched gate member register] at latched
    exact List.map_inj_left.mp latched id output
  · simp only [not_exists, not_and] at driven
    rw [edge.kept id driven, again.kept id driven]

end Edge

/-- Without loops a command leads to one valuation at most. -/
theorem Reacts.unique {command : Command α} {before after other : Valuation α}
    (reacts : netlist.Reacts command before after) (again : netlist.Reacts command before other)
    (acyclic : WellFounded netlist.Feeds) : after = other := by
  cases command with
  | set name bits =>
      simp only [Reacts] at reacts again
      cases found : netlist.inputPort? name with
      | none =>
          simp only [found] at reacts again
          exact reacts.trans again.symm
      | some port =>
          simp only [found] at reacts again
          by_cases width : port.width = bits.length
          · rw [if_pos width] at reacts again
            exact reacts.2.trans again.2.symm
          · rw [if_neg width] at reacts again
            exact reacts.trans again.symm
  | settle => exact Settlement.unique reacts again acyclic
  | clock => exact Edge.unique reacts again
  | step =>
      rcases reacts with ⟨settled, clocked, settles, edge, settlesAgain⟩
      rcases again with ⟨settled', clocked', settles', edge', settlesAgain'⟩
      rw [← settles.unique settles' acyclic] at edge'
      rw [← edge.unique edge'] at settlesAgain'
      exact settlesAgain.unique settlesAgain' acyclic

end Netlist

namespace Simulator

variable {α β : Type} {netlist : Netlist}

/-- What a request leaves behind. A refused one changes nothing. -/
def heed (simulator : Simulator α) :
    Except Error (Simulator α) → Except Fault (Simulator α)
  | .ok changed => .ok changed
  | .error (.fault fault) => .error fault
  | .error _ => .ok simulator

variable [Logic α] [Logic β] {simulator : Simulator α}

/-- What a command leaves behind. -/
def obey (simulator : Simulator α) : Command α → Except Fault (Simulator α)
  | .set port bits => simulator.heed (simulator.setInput port bits)
  | .settle => simulator.settle
  | .clock => simulator.clock
  | .step => simulator.step

/-- What a sequence of commands leaves behind. -/
def obeyAll (simulator : Simulator α) (commands : List (Command α)) :
    Except Fault (Simulator α) :=
  commands.foldlM obey simulator

theorem valuation_setIfInBounds {values : Array α} {id : SignalId} (existing : id < values.size)
    (value : α) :
    valuation (values.setIfInBounds id value) = Function.update (valuation values) id value := by
  funext other
  by_cases same : other = id
  · subst same
    simp [valuation, existing]
  · rw [Function.update_of_ne same]
    exact valuation_eq_of_getElem? (Array.getElem?_setIfInBounds_ne (Ne.symm same))

/-- Writing succeeds just when all signals exist, and a later entry counts over an earlier one. -/
theorem writeAll_cases (values : Array α) (entries : List (SignalId × α)) :
    (∃ after, writeAll values entries = .ok after ∧ Below values.size (entries.map (·.1)) ∧
      after.size = values.size ∧ valuation after = (valuation values).assign entries) ∨
    (writeAll values entries = .error .unknownSignal ∧
      ¬ Below values.size (entries.map (·.1))) := by
  induction entries generalizing values with
  | nil => exact .inl ⟨values, rfl, by simp [Below], rfl, rfl⟩
  | cons entry entries ih =>
      rcases entry with ⟨id, value⟩
      rw [List.map_cons, below_cons]
      by_cases existing : id < values.size
      · have size : (values.setIfInBounds id value).size = values.size := by
          simp
        rw [writeAll_cons existing]
        rcases ih (values.setIfInBounds id value) with
          ⟨after, written, below, sameSize, assigned⟩ | ⟨refused, outside⟩
        · refine .inl ⟨after, written, ⟨existing, size ▸ below⟩, sameSize.trans size, ?_⟩
          rw [assigned, valuation_setIfInBounds existing]
          rfl
        · exact .inr ⟨refused, fun below => outside (size.symm ▸ below.2)⟩
      · refine .inr ⟨?_, fun below => existing below.1⟩
        have first : write values id value = .error .unknownSignal := if_neg existing
        change (write values id value >>= fun values => writeAll values entries) = _
        rw [first]
        rfl

/-- What is written to a port's bits succeeds just when they exist. -/
theorem setInput_cases (simulator : Simulator α) {name : String} {port : Port}
    (found : simulator.netlist.inputPort? name = some port) {bits : List α}
    (width : port.width = bits.length) :
    (∃ values, simulator.setInput name bits = .ok { simulator with values } ∧
      Below simulator.values.size port.bits ∧ values.size = simulator.values.size ∧
      valuation values = (valuation simulator.values).assign (port.bits.zip bits)) ∨
    (simulator.setInput name bits = .error (.fault .unknownSignal) ∧
      ¬ Below simulator.values.size port.bits) := by
  have names : (port.bits.zip bits).map (·.1) = port.bits :=
    List.map_fst_zip (Nat.le_of_eq width)
  have unfolded : simulator.setInput name bits = (do
      let values ← writeAll simulator.values (port.bits.zip bits)
      return { simulator with values }) := by
    simp only [setInput, found, width]
    simp
  rw [unfolded]
  rcases writeAll_cases simulator.values (port.bits.zip bits) with
    ⟨values, written, below, size, assigned⟩ | ⟨refused, outside⟩
  · rw [written]
    exact .inl ⟨values, rfl, names ▸ below, size, assigned⟩
  · rw [refused]
    exact .inr ⟨rfl, names ▸ outside⟩

omit [Logic α] in
theorem Runs.resized (runs : simulator.Runs netlist) {values : Array α}
    (size : values.size = simulator.values.size) : Runs netlist { simulator with values } :=
  { runs with size_eq := size.trans runs.size_eq }

theorem exists_settlement (runnable : netlist.Runnable) (runs : simulator.Runs netlist) :
    ∃ settled, simulator.settle = .ok settled ∧ settled.Runs netlist ∧
      netlist.Settlement (valuation simulator.values) (valuation settled.values) := by
  rcases exists_settle_eq_ok runnable runs with ⟨values, isSettled, frame, settled⟩
  refine ⟨_, isSettled, runs.withValues frame, settled, fun id undriven => ?_⟩
  apply frame.valuation_eq
  intro driven
  rcases List.mem_flatMap.mp driven with ⟨gate, member, output⟩
  rcases List.mem_filter.mp member with ⟨isGate, combinational⟩
  exact undriven gate isGate combinational output

theorem exists_edge (runnable : netlist.Runnable) (runs : simulator.Runs netlist) :
    ∃ clocked, simulator.clock = .ok clocked ∧ clocked.Runs netlist ∧
      netlist.Edge (valuation simulator.values) (valuation clocked.values) := by
  rcases exists_clock_eq_ok runnable runs with ⟨values, isClocked, frame, carries⟩
  refine ⟨_, isClocked, runs.withValues frame, fun gate member register => ?_,
    fun id undriven => ?_⟩
  · exact (Gate.carries_iff_of_isRegister (runnable.legal gate member) register).mp
      (carries gate member register)
  · apply frame.valuation_eq
    intro driven
    rcases List.mem_flatMap.mp driven with ⟨gate, member, output⟩
    rcases List.mem_filter.mp member with ⟨isGate, register⟩
    exact undriven gate isGate register output

theorem exists_step (runnable : netlist.Runnable) (runs : simulator.Runs netlist) :
    ∃ next, simulator.step = .ok next ∧ next.Runs netlist ∧
      netlist.Reacts .step (valuation simulator.values) (valuation next.values) := by
  rcases exists_settlement runnable runs with ⟨settled, isSettled, settledRuns, settlement⟩
  rcases exists_edge runnable settledRuns with ⟨clocked, isClocked, clockedRuns, edge⟩
  rcases exists_settlement runnable clockedRuns with ⟨next, isNext, nextRuns, again⟩
  refine ⟨next, ?_, nextRuns, _, _, settlement, edge, again⟩
  rw [step, isSettled]
  change (settled.clock >>= fun clocked => clocked.settle) = _
  rw [isClocked]
  exact isNext

/-- A simulator obeys a command as the netlist reacts to it, or finds a port without signals. -/
theorem obey_cases (runnable : netlist.Runnable) (runs : simulator.Runs netlist)
    (command : Command α) :
    (∃ next, simulator.obey command = .ok next ∧ next.Runs netlist ∧
      netlist.Reacts command (valuation simulator.values) (valuation next.values)) ∨
    (simulator.obey command = .error .unknownSignal ∧ ∃ name bits port, command = .set name bits ∧
      netlist.inputPort? name = some port ∧ port.width = bits.length ∧
      ¬ Below netlist.signals.size port.bits) := by
  cases command with
  | settle => exact .inl (exists_settlement runnable runs)
  | clock => exact .inl (exists_edge runnable runs)
  | step => exact .inl (exists_step runnable runs)
  | set name bits =>
      cases found : netlist.inputPort? name with
      | none =>
          refine .inl ⟨simulator, ?_, runs, ?_⟩
          · rw [obey, setInput, runs.netlist_eq, found]
            rfl
          · rw [Netlist.Reacts, found]
      | some port =>
          by_cases width : port.width = bits.length
          · rw [← runs.netlist_eq] at found
            rcases simulator.setInput_cases found width with
              ⟨values, set, below, size, assigned⟩ | ⟨refused, outside⟩
            · refine .inl ⟨_, by rw [obey, set]; rfl, runs.resized size, ?_⟩
              simp only [Netlist.Reacts, ← runs.netlist_eq, found, if_pos width]
              exact ⟨runs.netlist_eq ▸ runs.size_eq ▸ below, assigned⟩
            · refine .inr ⟨by rw [obey, refused]; rfl, name, bits, port, rfl, ?_, width, ?_⟩
              · exact runs.netlist_eq ▸ found
              · exact runs.size_eq ▸ outside
          · refine .inl ⟨simulator, ?_, runs, ?_⟩
            · simp only [obey, setInput, runs.netlist_eq, found, ne_eq, width]
              rfl
            · simp only [Netlist.Reacts, found, if_neg width]

end Simulator

namespace Netlist

variable {α β : Type} [Logic α] [Logic β] {netlist : Netlist}

theorem Reacts.map {command : Command α} {before after : Valuation α}
    (reacts : netlist.Reacts command before after) (morphism : Logic.Morphism α β) :
    netlist.Reacts (command.map morphism.map) (before.map morphism.map)
      (after.map morphism.map) := by
  cases command with
  | settle => exact Settlement.map reacts morphism
  | clock => exact Edge.map reacts morphism
  | step =>
      rcases reacts with ⟨settled, clocked, settlement, edge, again⟩
      exact ⟨_, _, settlement.map morphism, edge.map morphism, again.map morphism⟩
  | set name bits =>
      simp only [Reacts, Command.map, List.length_map] at reacts ⊢
      cases found : netlist.inputPort? name with
      | none =>
          simp only [found] at reacts
          rw [reacts]
      | some port =>
          simp only [found] at reacts
          by_cases width : port.width = bits.length
          · rw [if_pos width] at reacts
            simp only [if_pos width]
            refine ⟨reacts.1, ?_⟩
            rw [reacts.2, Valuation.map_assign, List.zip_map_right]
          · rw [if_neg width] at reacts
            simp only [if_neg width]
            rw [reacts]

end Netlist

namespace Simulator

variable {α β : Type} [Logic α] [Logic β] {netlist : Netlist} {simulator : Simulator α}

/-- In every image of its carrier, a simulator obeys a command as the netlist reacts to it. -/
theorem reacts_map_iff (runnable : netlist.Runnable) (runs : simulator.Runs netlist)
    (morphism : Logic.Morphism α β) (command : Command α) (after : Valuation β) :
    netlist.Reacts (command.map morphism.map) ((valuation simulator.values).map morphism.map)
        after ↔
      ∃ next, simulator.obey command = .ok next ∧
        after = (valuation next.values).map morphism.map := by
  rcases obey_cases runnable runs command with
    ⟨next, obeyed, _, reacts⟩ | ⟨refused, name, bits, port, rfl, found, width, outside⟩
  · constructor
    · intro reactsInImage
      exact ⟨next, obeyed, reactsInImage.unique (reacts.map morphism) runnable.wellFounded⟩
    · rintro ⟨other, obeyedAgain, rfl⟩
      rw [obeyed] at obeyedAgain
      cases obeyedAgain
      exact reacts.map morphism
  · rw [refused]
    refine ⟨fun reacts => ?_, nofun⟩
    simp only [Netlist.Reacts, Command.map, found, List.length_map, if_pos width] at reacts
    exact absurd reacts.1 outside

/-- In every image of its carrier, a simulator follows a sequence of commands as the netlist
behaves. -/
theorem behaves_map_iff (runnable : netlist.Runnable) (runs : simulator.Runs netlist)
    (morphism : Logic.Morphism α β) (commands : List (Command α)) (after : Valuation β) :
    netlist.Behaves (commands.map (·.map morphism.map))
        ((valuation simulator.values).map morphism.map) after ↔
      ∃ last, simulator.obeyAll commands = .ok last ∧
        after = (valuation last.values).map morphism.map := by
  induction commands generalizing simulator with
  | nil =>
      constructor
      · exact fun same => ⟨simulator, rfl, same⟩
      · rintro ⟨last, same, rfl⟩
        cases same
        rfl
  | cons command commands ih =>
      rw [List.map_cons, Netlist.Behaves]
      simp only [reacts_map_iff runnable runs morphism, obeyAll, List.foldlM_cons]
      rcases obey_cases runnable runs command with ⟨next, obeyed, nextRuns, _⟩ | ⟨refused, _⟩
      · rw [obeyed]
        constructor
        · rintro ⟨middle, ⟨other, isOther, rfl⟩, behaves⟩
          cases isOther
          exact (ih nextRuns).mp behaves
        · intro followed
          exact ⟨_, ⟨next, rfl, rfl⟩, (ih nextRuns).mpr followed⟩
      · rw [refused]
        constructor
        · rintro ⟨middle, ⟨other, isOther, _⟩, _⟩
          cases isOther
        · rintro ⟨last, isLast, _⟩
          cases isLast

/-- A simulator starts with the values before anything has happened. -/
theorem exists_start_eq_initial (runnable : netlist.Runnable) :
    ∃ started : Simulator α, start netlist = .ok started ∧ started.Runs netlist ∧
      valuation started.values = netlist.initial := by
  rcases exists_start_eq_ok (α := α) runnable with ⟨started, isStarted, runs, _⟩
  refine ⟨started, isStarted, runs, ?_⟩
  rcases runnable.ordered with ⟨order, found⟩
  rw [start, found] at isStarted
  cases isStarted
  funext id
  rw [valuation, Netlist.initial, Array.getD_eq_getD_getElem?]
  cases foundSignal : netlist.signals[id]? with
  | none => simp [foundSignal]
  | some signal => cases signal <;> simp [foundSignal, initialValue]

/-- Values of one size are determined by what they give to the signals. -/
theorem eq_of_valuation_eq {left right : Array α} (size : left.size = right.size)
    (same : valuation left = valuation right) : left = right := by
  apply Array.ext size
  intro id inLeft inRight
  have here := congrFun same id
  simpa [valuation, inLeft, inRight] using here

end Simulator

end Datapath

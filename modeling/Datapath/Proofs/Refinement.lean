import Datapath.Proofs.Synchronous

/-!
# Calls of a simulator

A simulator of words is called with commands and with batches of samples, which stand for the words
of their lanes. Once its netlist is accepted and free of loops, no call fails that brings at most as
many samples as there are lanes, and every call does what the synchronous semantics says. So a chain
of registers delays by as many clock edges as it has registers: `Netlist.Chain.delays`.
-/

namespace Datapath

namespace Command

variable {α : Type}

/-- How many clock edges the command brings. -/
def edges : Command α → Nat
  | .clock | .step => 1
  | .set _ _ | .settle => 0

end Command

namespace Lanes

variable {samples : List Sample} {width : Nat}

/-- The words whose lanes carry the samples. -/
def words (samples : List Sample) (width : Nat) : List UInt64 :=
  (List.range width).map fun bit => UInt64.ofNat (Bits.value (samples.map (·.getLsbD bit)))

theorem word_eq_ok {bits : List Bool} (few : bits.length ≤ count) :
    word bits = .ok (UInt64.ofNat (Bits.value bits)) :=
  if_pos (Nat.lt_of_lt_of_le (Bits.value_lt bits) (Nat.pow_le_pow_right (by decide) few))

theorem pack_eq_ok (few : samples.length ≤ count) (width : Nat) :
    pack samples width = .ok (words samples width) := by
  rw [pack, words]
  induction List.range width with
  | nil => rfl
  | cons bit bits ih =>
      rw [List.mapM_cons, word_eq_ok (by simpa using few), ih]
      rfl

end Lanes

/-- A call of a simulator of words. -/
inductive Call where
  | issue (command : Command UInt64)
  /-- To give an input port one value for each of the first lanes. -/
  | samples (port : String) (batch : List Sample)
  deriving DecidableEq

namespace Call

/-- The samples of a batch have lanes. -/
def Fits : Call → Prop
  | .issue _ => True
  | .samples _ batch => batch.length ≤ Lanes.count

/-- The width of an input port, zero where there is none. -/
def width (netlist : Netlist) (name : String) : Nat :=
  (netlist.inputPort? name).elim 0 (·.width)

/-- The call with words in place of samples. -/
def spelled (netlist : Netlist) : Call → Command UInt64
  | .issue command => command
  | .samples name batch => .set name (Lanes.words batch (width netlist name))

/-- How many clock edges the call brings. -/
def edges : Call → Nat
  | .issue command => command.edges
  | .samples _ _ => 0

theorem edges_spelled (netlist : Netlist) (call : Call) :
    (call.spelled netlist).edges = call.edges := by
  cases call <;> rfl

end Call

namespace Simulator

variable {netlist : Netlist} {simulator : Simulator UInt64}

/-- What a call leaves behind. -/
def call (simulator : Simulator UInt64) : Call → Except Fault (Simulator UInt64)
  | .issue command => simulator.obey command
  | .samples name batch => simulator.heed (simulator.setSamples name batch)

/-- What a sequence of calls leaves behind. -/
def run (simulator : Simulator UInt64) (calls : List Call) : Except Fault (Simulator UInt64) :=
  calls.foldlM call simulator

theorem call_eq_obey (runs : simulator.Runs netlist) {call : Call} (fits : call.Fits) :
    simulator.call call = simulator.obey (call.spelled netlist) := by
  cases call with
  | issue command => rfl
  | samples name batch =>
      have few : ¬ batch.length > Lanes.count := Nat.not_lt_of_le fits
      rw [Simulator.call, Call.spelled, obey, setSamples, if_neg few, Call.width, ← runs.netlist_eq]
      cases found : simulator.netlist.inputPort? name with
      | none => rw [setInput, found]
      | some port =>
          dsimp only
          rw [Lanes.pack_eq_ok fits]
          rfl

theorem run_eq_obeyAll (runnable : netlist.Runnable) (runs : simulator.Runs netlist)
    {calls : List Call} (fits : ∀ call ∈ calls, call.Fits) :
    simulator.run calls = simulator.obeyAll (calls.map (·.spelled netlist)) := by
  induction calls generalizing simulator with
  | nil => rfl
  | cons call calls ih =>
      rw [List.forall_mem_cons] at fits
      rw [run, obeyAll, List.map_cons, List.foldlM_cons, List.foldlM_cons,
        call_eq_obey runs fits.1]
      rcases obey_cases runnable runs (call.spelled netlist) with
        ⟨next, obeyed, nextRuns, _⟩ | ⟨refused, _⟩
      · rw [obeyed]
        exact ih nextRuns fits.2
      · rw [refused]
        rfl

end Simulator

namespace Netlist

variable {α : Type} [Logic α] {netlist : Netlist}

/-- The bits of the input ports are input signals. -/
def InputsRead (netlist : Netlist) : Prop :=
  ∀ port ∈ netlist.inputs, ∀ id ∈ port.bits,
    ∃ name bit, netlist.signals[id]? = some (.input name bit)

/-- A number of registers in a row, each of which reads what the one before drives. -/
inductive Chain (netlist : Netlist) : Nat → SignalId → SignalId → Prop where
  | nil (id : SignalId) : Chain netlist 0 id id
  | register {length : Nat} {source middle target : SignalId} {gate : Gate}
      (chain : Chain netlist length source middle) (member : gate ∈ netlist.gates.toList)
      (isRegister : gate.isRegister = true) (input : gate.inputs = [middle])
      (output : gate.outputs = [target]) : Chain netlist (length + 1) source target

/-- A register drives the signal. -/
def Registered (netlist : Netlist) (id : SignalId) : Prop :=
  ∃ gate ∈ netlist.gates.toList, gate.isRegister = true ∧ id ∈ gate.outputs

theorem Chain.registered {length : Nat} {source target : SignalId}
    (chain : netlist.Chain (length + 1) source target) : netlist.Registered target := by
  cases chain with
  | register chain member isRegister input output =>
      exact ⟨_, member, isRegister, by simp [output]⟩

variable {before after : Valuation α}

theorem Settlement.registered (settlement : netlist.Settlement before after)
    (drivable : netlist.Drivable) {id : SignalId} (registered : netlist.Registered id) :
    after id = before id := by
  rcases registered with ⟨gate, member, isRegister, output⟩
  exact settlement.kept id (drivable.not_driven_of_register member isRegister output)

/-- Only a clock edge changes what a register drives. -/
theorem Reacts.registered {command : Command α} (reacts : netlist.Reacts command before after)
    (drivable : netlist.Drivable) (inputs : netlist.InputsRead) (quiet : command.edges = 0)
    {id : SignalId} (registered : netlist.Registered id) : after id = before id := by
  cases command with
  | clock => cases quiet
  | step => cases quiet
  | settle => exact Settlement.registered reacts drivable registered
  | set name bits =>
      simp only [Reacts] at reacts
      cases found : netlist.inputPort? name with
      | none =>
          simp only [found] at reacts
          rw [reacts]
      | some port =>
          simp only [found] at reacts
          by_cases width : port.width = bits.length
          · rw [if_pos width] at reacts
            rw [reacts.2, Valuation.assign_of_notMem]
            rw [List.map_fst_zip (Nat.le_of_eq width)]
            intro bit
            rcases registered with ⟨gate, member, _, output⟩
            rcases inputs port (mem_inputs_of_inputPort? found).1 id bit with ⟨name, index, source⟩
            rcases drivable.wires gate member id output with ⟨label, wire⟩
            rw [source] at wire
            cases wire
          · rw [if_neg width] at reacts
            rw [reacts]

theorem behaves_append {first second : List (Command α)} :
    netlist.Behaves (first ++ second) before after ↔
      ∃ middle, netlist.Behaves first before middle ∧ netlist.Behaves second middle after := by
  induction first generalizing before with
  | nil => simp [Behaves]
  | cons command commands ih =>
      simp only [List.cons_append, Behaves, ih]
      constructor
      · rintro ⟨next, reacts, middle, behaves, rest⟩
        exact ⟨middle, ⟨next, reacts, behaves⟩, rest⟩
      · rintro ⟨middle, ⟨next, reacts, behaves⟩, rest⟩
        exact ⟨next, reacts, middle, behaves, rest⟩

omit [Logic α] in
theorem Edge.moves (edge : netlist.Edge before after) {gate : Gate}
    (member : gate ∈ netlist.gates.toList) (isRegister : gate.isRegister = true)
    {source target : SignalId} (input : gate.inputs = [source]) (output : gate.outputs = [target]) :
    after target = before source := by
  have latched := edge.latched gate member isRegister
  rw [input, output] at latched
  exact List.cons_eq_cons.mp latched |>.1

/-- A chain of registers shows at its end what its source carried as many clock edges ago as it has
registers. The edges are counted from the last command backwards, one register each. -/
theorem Chain.delays (drivable : netlist.Drivable) (inputs : netlist.InputsRead) {length : Nat}
    {source target : SignalId} (chain : netlist.Chain length source target)
    {later : List (Command α)} (count : (later.map Command.edges).sum + 1 = length)
    (behaves : netlist.Behaves (.clock :: later) before after) : after target = before source := by
  induction later using List.reverseRecOn generalizing length target after with
  | nil =>
      rcases behaves with ⟨middle, edge, rfl⟩
      cases count
      cases chain with
      | register chain member isRegister input output =>
          cases chain
          exact edge.moves member isRegister input output
  | append_singleton later command ih =>
      rw [← List.cons_append, behaves_append] at behaves
      rcases behaves with ⟨middle, earlier, next, reacts, rfl⟩
      rw [List.map_append, List.sum_append, List.map_singleton, List.sum_singleton] at count
      have ofQuiet (quiet : command.edges = 0) : after target = before source := by
        rw [quiet] at count
        subst count
        rw [reacts.registered drivable inputs quiet chain.registered]
        exact ih chain rfl earlier
      cases command with
      | set name bits => exact ofQuiet rfl
      | settle => exact ofQuiet rfl
      | clock =>
          cases count
          cases chain with
          | register chain member isRegister input output =>
              rw [← ih chain rfl earlier]
              exact Edge.moves reacts member isRegister input output
      | step =>
          rcases reacts with ⟨settled, clocked, settlement, edge, again⟩
          cases count
          cases chain with
          | register chain member isRegister input output =>
              have shown : netlist.Registered target :=
                ⟨_, member, isRegister, by simp [output]⟩
              rw [again.registered drivable shown, edge.moves member isRegister input output,
                settlement.registered drivable chain.registered]
              exact ih chain rfl earlier

end Netlist

namespace Simulator

variable {netlist : Netlist} {simulator : Simulator UInt64}

/-- Where input ports have input signals, no command fails. -/
theorem exists_obey_eq_ok {α : Type} [Logic α] {simulator : Simulator α}
    (runnable : netlist.Runnable) (inputs : netlist.InputsRead)
    (runs : simulator.Runs netlist) (command : Command α) :
    ∃ next, simulator.obey command = .ok next ∧ next.Runs netlist ∧
      netlist.Reacts command (valuation simulator.values) (valuation next.values) := by
  rcases obey_cases runnable runs command with found | ⟨_, name, bits, port, _, found, _, outside⟩
  · exact found
  · refine absurd (fun id bit => ?_) outside
    rcases inputs port (Netlist.mem_inputs_of_inputPort? found).1 id bit with ⟨_, _, source⟩
    exact (Array.getElem?_eq_some_iff.mp source).1

/-- No sequence of calls fails that brings at most as many samples as there are lanes. -/
theorem exists_run_eq_ok (runnable : netlist.Runnable) (inputs : netlist.InputsRead)
    (runs : simulator.Runs netlist) {calls : List Call} (fits : ∀ call ∈ calls, call.Fits) :
    ∃ last, simulator.run calls = .ok last ∧ last.Runs netlist ∧
      netlist.Behaves (calls.map (·.spelled netlist)) (valuation simulator.values)
        (valuation last.values) := by
  induction calls generalizing simulator with
  | nil => exact ⟨simulator, rfl, runs, rfl⟩
  | cons call calls ih =>
      rw [List.forall_mem_cons] at fits
      rcases exists_obey_eq_ok runnable inputs runs (call.spelled netlist) with
        ⟨next, obeyed, nextRuns, reacts⟩
      rcases ih nextRuns fits.2 with ⟨last, followed, lastRuns, behaves⟩
      refine ⟨last, ?_, lastRuns, _, reacts, behaves⟩
      rw [run, List.foldlM_cons, call_eq_obey runs fits.1, obeyed]
      exact followed

/-- What has settled stays. -/
theorem settle_settled {settled : Simulator UInt64} (runnable : netlist.Runnable)
    (runs : simulator.Runs netlist) (isSettled : simulator.settle = .ok settled) :
    settled.settle = .ok settled := by
  rcases exists_settlement runnable runs with ⟨first, isFirst, firstRuns, settlement⟩
  rw [isSettled] at isFirst
  cases isFirst
  rcases exists_settle_eq_ok runnable firstRuns with ⟨values, isAgain, frame, _⟩
  rcases exists_settlement runnable firstRuns with ⟨again, isSecond, _, settlementAgain⟩
  rw [isAgain] at isSecond
  cases isSecond
  have still : netlist.Settlement (valuation settled.values) (valuation settled.values) :=
    ⟨settlement.settled, fun _ _ => rfl⟩
  rw [isAgain, eq_of_valuation_eq frame.size
    (settlementAgain.unique still runnable.wellFounded)]

/-- Simulation refines the synchronous semantics. For a netlist that passes the driver check, has no
combinational loop and has input signals at its input ports, a simulator starts with the initial
values, and no sequence of calls fails. After any such sequence, each command leads to the one
valuation that the semantics allows, a second settling changes nothing, and a chain of registers
delays by as many clock edges as it has registers. -/
theorem refines_synchronous (netlist : Netlist) (checked : netlist.checkDrivers = .ok ())
    (loopFree : netlist.LoopFree) (inputs : netlist.InputsRead) :
    ∃ started : Simulator UInt64, start netlist = .ok started ∧
      valuation started.values = netlist.initial ∧
      ∀ calls : List Call, (∀ call ∈ calls, call.Fits) →
        ∃ simulator, started.run calls = .ok simulator ∧
          (∀ command, ∃ next, simulator.obey command = .ok next ∧
            ∀ value, netlist.Reacts command (valuation simulator.values) value ↔
              value = valuation next.values) ∧
          (∀ settled, simulator.settle = .ok settled → settled.settle = .ok settled) ∧
          ∀ length source target, netlist.Chain length source target →
            ∀ later : List Call, (∀ call ∈ later, call.Fits) →
              (later.map Call.edges).sum + 1 = length →
              ∃ last, simulator.run (.issue .clock :: later) = .ok last ∧
                valuation last.values target = valuation simulator.values source := by
  have runnable := Netlist.runnable_of_checkDrivers checked loopFree
  rcases exists_start_eq_initial (α := UInt64) runnable with ⟨started, isStarted, runs, isInitial⟩
  refine ⟨started, isStarted, isInitial, fun calls fits => ?_⟩
  rcases exists_run_eq_ok runnable inputs runs fits with ⟨simulator, followed, simulatorRuns, _⟩
  refine ⟨simulator, followed, fun command => ?_, fun settled => settle_settled runnable
    simulatorRuns, fun length source target chain later laterFits count => ?_⟩
  · rcases exists_obey_eq_ok runnable inputs simulatorRuns command with ⟨next, obeyed, _, reacts⟩
    refine ⟨next, obeyed, fun value => ⟨fun again => ?_, ?_⟩⟩
    · exact again.unique reacts runnable.wellFounded
    · rintro rfl
      exact reacts
  · have allFit : ∀ call ∈ Call.issue .clock :: later, call.Fits :=
      List.forall_mem_cons.mpr ⟨trivial, laterFits⟩
    rcases exists_run_eq_ok runnable inputs simulatorRuns allFit with ⟨last, isLast, _, behaves⟩
    refine ⟨last, isLast, chain.delays runnable.toDrivable inputs ?_ behaves⟩
    simpa [Function.comp_def, Call.edges_spelled] using count

/-- An inverter and two registers in a row, the last of them listed first. -/
def shiftRegister : Netlist where
  name := "shift"
  inputs := [⟨"a", [0]⟩]
  outputs := [⟨"o", [3]⟩]
  signals := #[.input "a" 0, .wire none, .wire none, .wire none]
  gates := #[⟨"dff_0", .dff, [2], [3], .inferred⟩, ⟨"inv_1", .inv, [0], [1], .inferred⟩,
    ⟨"dff_2", .dff, [1], [2], .inferred⟩]
  clock := some "clk"

theorem combinationalOrder_shiftRegister : shiftRegister.combinationalOrder = .ok [1] := rfl

theorem inputsRead_shiftRegister : shiftRegister.InputsRead := by
  intro port member id bit
  rw [List.mem_singleton.mp member] at bit
  rw [List.mem_singleton.mp bit]
  exact ⟨"a", 0, rfl⟩

theorem chain_shiftRegister : shiftRegister.Chain 2 1 3 := by
  have first : shiftRegister.gates[2] ∈ shiftRegister.gates.toList := by decide
  have second : shiftRegister.gates[0] ∈ shiftRegister.gates.toList := by decide
  exact .register (.register (.nil 1) first rfl rfl rfl) second rfl rfl rfl

/-- The inverted input appears after two edges, one of them inside a step. -/
theorem refines_synchronous_shiftRegister :
    shiftRegister.checkDrivers = .ok () ∧ shiftRegister.LoopFree ∧ shiftRegister.InputsRead ∧
      ∃ started simulator last : Simulator UInt64, start shiftRegister = .ok started ∧
        started.run [.issue (.set "a" [5]), .issue .settle] = .ok simulator ∧
        simulator.run [.issue .clock, .samples "a" [1, 0, 1], .issue .step] = .ok last ∧
        valuation last.values 3 = valuation simulator.values 1 := by
  have checked : shiftRegister.checkDrivers = .ok () := rfl
  have loopFree := Netlist.loopFree_of_combinationalOrder combinationalOrder_shiftRegister
  rcases refines_synchronous shiftRegister checked loopFree inputsRead_shiftRegister with
    ⟨started, isStarted, _, every⟩
  rcases every [.issue (.set "a" [5]), .issue .settle] (by simp [Call.Fits]) with
    ⟨simulator, followed, _, _, chains⟩
  rcases chains 2 1 3 chain_shiftRegister [.samples "a" [1, 0, 1], .issue .step]
    (by simp [Call.Fits, Lanes.count]) rfl with ⟨last, isLast, shown⟩
  exact ⟨checked, loopFree, inputsRead_shiftRegister, started, simulator, last, isStarted, followed,
    isLast, shown⟩

end Simulator

end Datapath

import Datapath.Proofs.Computations
import Datapath.Proofs.Operations
import Datapath.Proofs.Synchronous
import Datapath.Proofs.Tidiness

/-!
# Evaluation by position and by name

`Netlist.evaluate` takes a word for each input port and returns a word for each output port, both in
the order of the ports. What the words mean is said by `Netlist.Carried`: the bits of the input
ports carry the words and the gates follow them.

The ports are walked by position but set and read through their names, so all ports of one name are
taken for the first of them. `Netlist.heard` says what the input ports then carry, and
`Netlist.evaluate_eq_ok` that evaluation answers for this and not for the words that were given. So
evaluation is positional where ports differ in name, and `Operation.performAll_evaluated` has all
cases for netlists that a builder handed over.
-/

namespace Datapath

namespace Valuation

variable {α : Type}

theorem assign_append (value : Valuation α) (first second : List (SignalId × α)) :
    value.assign (first ++ second) = (value.assign first).assign second :=
  List.foldl_append

/-- Signals that are named once get their values. -/
theorem map_assign_zip (value : Valuation α) {ids : List SignalId} (distinct : ids.Nodup)
    {word : List α} (width : ids.length = word.length) :
    ids.map (value.assign (ids.zip word)) = word := by
  induction ids generalizing value word with
  | nil => exact (List.length_eq_zero_iff.mp width.symm).symm
  | cons id ids ih =>
      cases word with
      | nil => cases width
      | cons bit word =>
          rw [List.nodup_cons] at distinct
          have rest := ih (Function.update value id bit) distinct.2 (Nat.succ.inj width)
          have notLater : id ∉ (ids.zip word).map (·.1) := by
            rw [List.map_fst_zip (Nat.le_of_eq (Nat.succ.inj width))]
            exact distinct.1
          have first : assign (Function.update value id bit) (ids.zip word) id = bit := by
            rw [assign_of_notMem notLater, Function.update_self]
          exact List.cons_eq_cons.mpr ⟨first, rest⟩

end Valuation

namespace Netlist

/-- The first port that has the name of a given one. -/
def namesake (ports : List Port) (port : Port) : Port :=
  (ports.find? (·.name == port.name)).getD port

/-- The word that comes last for a name among the words for some ports; all false where there is
none. -/
def lastWord (words : List (Port × List Bool)) (port : Port) : List Bool :=
  ((words.reverse.find? (·.1.name == port.name)).map (·.2)).getD (List.replicate port.width false)

/-- What the input ports carry when each is set through its name: the first of a name carries the
last word that is given to the name, the others stay false. -/
def heard (netlist : Netlist) (words : List (List Bool)) : List (List Bool) :=
  netlist.inputs.map fun port =>
    if namesake netlist.inputs port = port then lastWord (netlist.inputs.zip words) port
    else List.replicate port.width false

/-- The bits of the input ports, in order, carry the words and the gates follow. -/
structure Carried (netlist : Netlist) (words : List (List Bool)) (value : Valuation Bool) :
    Prop where
  inputs : netlist.inputs.map (·.bits.map value) = words
  literal : ∀ id constant, netlist.signals[id]? = some (.literal constant) → value id = constant
  settled : Gate.Settled netlist.gates.toList value

/-- The words determine the value of every signal, and this is it. -/
structure Determined (netlist : Netlist) (words : List (List Bool)) (value : Valuation Bool) :
    Prop extends netlist.Carried words value where
  unique : ∀ other, netlist.Carried words other → ∀ id < netlist.signals.size, other id = value id

variable {netlist : Netlist}

/-! ## Ports of one name -/

theorem find?_eq_namesake {ports : List Port} {port : Port} (member : port ∈ ports) :
    ports.find? (·.name == port.name) = some (namesake ports port) := by
  rw [namesake]
  cases found : ports.find? (·.name == port.name) with
  | none => exact absurd (beq_self_eq_true port.name) (List.find?_eq_none.mp found port member)
  | some first => rfl

theorem namesake_mem {ports : List Port} {port : Port} (member : port ∈ ports) :
    namesake ports port ∈ ports ∧ (namesake ports port).name = port.name := by
  have found := find?_eq_namesake member
  exact ⟨List.mem_of_find?_eq_some found, by simpa using List.find?_some found⟩

theorem namesake_congr {ports : List Port} {port other : Port} (member : port ∈ ports)
    (memberOther : other ∈ ports) (same : other.name = port.name) :
    namesake ports other = namesake ports port := by
  have found := find?_eq_namesake memberOther
  rw [same, find?_eq_namesake member] at found
  exact (Option.some.inj found).symm

theorem namesake_of_nodup {ports : List Port} (names : (ports.map (·.name)).Nodup) {port : Port}
    (member : port ∈ ports) : namesake ports port = port := by
  rw [namesake, find?_name_of_nodup names member]
  rfl

/-! ## What is set -/

/-- The signals that are set when words are given to ports through their names. -/
def entries (netlist : Netlist) (words : List (Port × List Bool)) : List (SignalId × Bool) :=
  words.flatMap fun pair => (namesake netlist.inputs pair.1).bits.zip pair.2

/-- The words go to input ports, and each has the width of the first port of its name. -/
def Suits (netlist : Netlist) (words : List (Port × List Bool)) : Prop :=
  ∀ pair ∈ words, pair.1 ∈ netlist.inputs ∧
    (namesake netlist.inputs pair.1).width = pair.2.length

theorem exists_of_mem_entries {words : List (Port × List Bool)} {id : SignalId}
    (set : id ∈ (netlist.entries words).map (·.1)) :
    ∃ pair ∈ words, id ∈ (namesake netlist.inputs pair.1).bits := by
  rcases List.mem_map.mp set with ⟨entry, isEntry, rfl⟩
  rcases List.mem_flatMap.mp isEntry with ⟨pair, member, inZip⟩
  exact ⟨pair, member, (List.of_mem_zip inZip).1⟩

/-- The first port of a name carries the last word that is given to the name. -/
theorem map_assign_entries (inputs : netlist.InputsDistinct) {words : List (Port × List Bool)}
    (suits : netlist.Suits words) {port : Port} (member : port ∈ netlist.inputs)
    (first : namesake netlist.inputs port = port) {value : Valuation Bool}
    (unset : ∀ id ∈ port.bits, value id = false) :
    port.bits.map (value.assign (netlist.entries words)) = lastWord words port := by
  induction words using List.reverseRecOn with
  | nil =>
      rw [lastWord]
      exact List.map_eq_replicate_iff.mpr unset
  | append_singleton words pair ih =>
      rw [Suits, List.forall_mem_append, List.forall_mem_singleton] at suits
      rcases suits with ⟨earlier, isInput, width⟩
      rw [entries, List.flatMap_append, Valuation.assign_append, List.flatMap_singleton, lastWord,
        List.reverse_append, List.reverse_singleton, List.singleton_append, List.find?_cons]
      cases same : pair.1.name == port.name with
      | true =>
          have isFirst : namesake netlist.inputs pair.1 = port :=
            (namesake_congr member isInput (eq_of_beq same)).trans first
          rw [isFirst] at width ⊢
          exact Valuation.map_assign_zip _ (inputs.nodup member) width
      | false =>
          rcases namesake_mem isInput with ⟨isPort, isName⟩
          have other : port ≠ namesake netlist.inputs pair.1 := by
            intro isPort
            rw [isPort, isName] at same
            exact absurd (beq_self_eq_true pair.1.name) (same ▸ Bool.false_ne_true)
          rw [← lastWord, ← ih earlier]
          refine List.map_congr_left fun id bit => Valuation.assign_of_notMem fun set => ?_
          rw [List.map_fst_zip (Nat.le_of_eq width)] at set
          exact inputs.disjoint member isPort other bit set

theorem heard_eq (inputs : netlist.InputsDistinct) {words : List (List Bool)}
    (suits : netlist.Suits (netlist.inputs.zip words)) {value : Valuation Bool}
    (unset : ∀ port ∈ netlist.inputs, ∀ id ∈ port.bits, value id = false) :
    netlist.inputs.map (·.bits.map (value.assign (netlist.entries (netlist.inputs.zip words)))) =
      netlist.heard words := by
  refine List.map_congr_left fun port member => ?_
  by_cases first : namesake netlist.inputs port = port
  · rw [if_pos first, map_assign_entries inputs suits member first (unset port member)]
  · rw [if_neg first]
    refine List.map_eq_replicate_iff.mpr fun id bit => ?_
    rw [Valuation.assign_of_notMem, unset port member id bit]
    intro set
    rcases exists_of_mem_entries set with ⟨pair, isPair, bitAgain⟩
    rcases namesake_mem (suits pair isPair).1 with ⟨isPort, isName⟩
    refine inputs.disjoint member isPort (fun same => first ?_) bit bitAgain
    rw [same]
    exact namesake_congr (suits pair isPair).1 isPort isName

end Netlist

namespace Simulator

variable {netlist : Netlist} {simulator : Simulator Bool} {words : List (Port × List Bool)}

/-- Gives input ports words through their names. -/
def hear (simulator : Simulator Bool) (words : List (Port × List Bool)) :
    Except Error (Simulator Bool) :=
  words.foldlM (fun simulator pair => simulator.setInput pair.1.name pair.2) simulator

theorem exists_hear_eq_ok (inputs : netlist.InputsDistinct) (runs : simulator.Runs netlist)
    (suits : netlist.Suits words) :
    ∃ heard, simulator.hear words = .ok heard ∧ heard.Runs netlist ∧
      valuation heard.values = (valuation simulator.values).assign (netlist.entries words) := by
  induction words generalizing simulator with
  | nil => exact ⟨simulator, rfl, runs, rfl⟩
  | cons pair words ih =>
      rcases List.forall_mem_cons.mp suits with ⟨⟨isInput, width⟩, later⟩
      have found : simulator.netlist.inputPort? pair.1.name =
          some (Netlist.namesake netlist.inputs pair.1) := by
        rw [runs.netlist_eq]
        exact Netlist.find?_eq_namesake isInput
      have existing := inputs.lt (Netlist.namesake_mem isInput).1
      rcases simulator.setInput_cases found width with
        ⟨values, set, _, size, assigned⟩ | ⟨_, outside⟩
      · rcases ih (runs.resized size) later with ⟨heard, isHeard, heardRuns, values_eq⟩
        refine ⟨heard, ?_, heardRuns, ?_⟩
        · rw [hear, List.foldlM_cons, set]
          exact isHeard
        · have first : netlist.entries (pair :: words) =
              (Netlist.namesake netlist.inputs pair.1).bits.zip pair.2 ++ netlist.entries words :=
            List.flatMap_cons
          rw [values_eq, assigned, first, Valuation.assign_append]
      · exact absurd (runs.size_eq.symm ▸ existing) outside

/-- The first word of another width than the port that is found for it is refused. -/
theorem hear_eq_error (inputs : netlist.InputsDistinct) (runs : simulator.Runs netlist)
    (suits : netlist.Suits words) {port : Port} (isInput : port ∈ netlist.inputs)
    {word : List Bool} (width : (Netlist.namesake netlist.inputs port).width ≠ word.length)
    (later : List (Port × List Bool)) :
    simulator.hear (words ++ (port, word) :: later) = .error (.netlist (.portWidthMismatch
      port.name (Netlist.namesake netlist.inputs port).width word.length)) := by
  rcases exists_hear_eq_ok inputs runs suits with ⟨heard, isHeard, heardRuns, _⟩
  have found : heard.netlist.inputPort? port.name =
      some (Netlist.namesake netlist.inputs port) := by
    rw [heardRuns.netlist_eq]
    exact Netlist.find?_eq_namesake isInput
  have refused : heard.setInput port.name word = .error (.netlist (.portWidthMismatch
      port.name (Netlist.namesake netlist.inputs port).width word.length)) := by
    rw [setInput, found]
    exact if_pos width
  rw [hear, List.foldlM_append, ← hear, isHeard]
  change heard.hear _ = _
  rw [hear, List.foldlM_cons, refused]
  rfl

end Simulator

namespace Netlist

variable {netlist : Netlist} {words : List (List Bool)}

/-- The words have the widths of the input ports. -/
def HasWidths (netlist : Netlist) (words : List (List Bool)) : Prop :=
  words.map List.length = netlist.inputs.map Port.width

theorem HasWidths.count (fit : netlist.HasWidths words) : words.length = netlist.inputs.length := by
  simpa using congrArg List.length fit

theorem HasWidths.length_eq (fit : netlist.HasWidths words) {pair : Port × List Bool}
    (member : pair ∈ netlist.inputs.zip words) : pair.1.width = pair.2.length := by
  rcases List.getElem_of_mem member with ⟨index, inside, rfl⟩
  rw [List.length_zip, Nat.lt_min] at inside
  have here := congrArg (fun widths => widths[index]?) fit
  simp only [List.getElem?_map, List.getElem?_eq_getElem inside.1,
    List.getElem?_eq_getElem inside.2, Option.map_some, Option.some.injEq] at here
  rw [List.getElem_zip, here]

theorem HasWidths.suits (fit : netlist.HasWidths words)
    (widths : ∀ port ∈ netlist.inputs, (namesake netlist.inputs port).width = port.width) :
    netlist.Suits (netlist.inputs.zip words) := by
  intro pair member
  have isInput := (List.of_mem_zip member).1
  exact ⟨isInput, (widths pair.1 isInput).trans (fit.length_eq member)⟩

/-- Where gates without registers drive all wires, the words determine the value of every signal. -/
theorem Carried.unique {value other : Valuation Bool} (runnable : netlist.Runnable)
    (posted : netlist.Posted)
    (driven : ∀ id, netlist.IsWire id → ∃ gate ∈ netlist.gates.toList,
      gate.isCombinational = true ∧ id ∈ gate.outputs)
    (carried : netlist.Carried words value) (again : netlist.Carried words other) (id : SignalId)
    (existing : id < netlist.signals.size) : other id = value id := by
  have shown := again.inputs.trans carried.inputs.symm
  induction id using signal_induction runnable.wellFounded with
  | undriven id undriven =>
      have found := Array.getElem?_eq_getElem existing
      cases source : netlist.signals[id] with
      | literal constant =>
          rw [source] at found
          rw [carried.literal id constant found, again.literal id constant found]
      | input name index =>
          rw [source] at found
          rcases posted.listed id name index found with ⟨port, member, _, bit⟩
          have same := List.map_inj_left.mp shown port member
          exact List.map_inj_left.mp same id (List.mem_of_getElem? bit)
      | wire label =>
          rw [source] at found
          rcases driven id ⟨label, found⟩ with ⟨gate, member, combinational, output⟩
          exact absurd output (undriven gate member combinational)
  | driven gate member combinational agree id output =>
      have inputs (id : SignalId) (pin : id ∈ gate.inputs) : other id = value id :=
        agree id pin (runnable.existing gate member id pin)
      have carries := carried.settled gate member combinational
      have carriesAgain := again.settled gate member combinational
      rw [Gate.Carries, List.map_congr_left inputs, carries] at carriesAgain
      exact (List.map_inj_left.mp (Except.ok.inj carriesAgain) id output).symm

theorem evaluate_eq (count : words.length = netlist.inputs.length) :
    netlist.evaluate words = (do
      let fresh ← Simulator.start netlist
      let loaded ← fresh.hear (netlist.inputs.zip words)
      let settled ← loaded.settle
      netlist.outputs.mapM fun port => settled.output port.name) := by
  rw [evaluate]
  exact if_pos count

/-- What the ports hear they carry when the gates have followed. -/
theorem carried_of_settlement (runnable : netlist.Runnable) (inputs : netlist.InputsDistinct)
    (suits : netlist.Suits (netlist.inputs.zip words)) {value : Valuation Bool}
    (settlement : netlist.Settlement
      (netlist.initial.assign (netlist.entries (netlist.inputs.zip words))) value) :
    netlist.Carried (netlist.heard words) value where
  inputs := by
    have unset (port : Port) (member : port ∈ netlist.inputs) (id : SignalId)
        (bit : id ∈ port.bits) : (netlist.initial : Valuation Bool) id = false := by
      rcases inputs.sources port member id bit with ⟨name, index, found⟩
      rw [initial, found]
      rfl
    rw [← heard_eq inputs suits unset]
    refine List.map_congr_left fun port member => List.map_congr_left fun id bit => ?_
    exact settlement.kept id fun gate isGate _ =>
      inputs.not_driven runnable.toDrivable member bit isGate
  literal id constant found := by
    rw [settlement.kept id fun gate member _ output => ?_, Valuation.assign_of_notMem, initial,
      found]
    · rfl
    · intro set
      rcases exists_of_mem_entries set with ⟨pair, isPair, bit⟩
      rcases inputs.sources _ (namesake_mem (suits pair isPair).1).1 id bit with ⟨_, _, isInput⟩
      rw [found] at isInput
      cases isInput
    · rcases runnable.wires gate member id output with ⟨label, isWire⟩
      rw [found] at isWire
      cases isWire
  settled := settlement.settled

/-- Evaluation answers for what the input ports hear. -/
theorem evaluate_eq_ok (runnable : netlist.Runnable) (inputs : netlist.InputsDistinct)
    (shown : ∀ port ∈ netlist.outputs, Below netlist.signals.size port.bits)
    (fit : netlist.HasWidths words)
    (widths : ∀ port ∈ netlist.inputs, (namesake netlist.inputs port).width = port.width) :
    ∃ value, netlist.Carried (netlist.heard words) value ∧ netlist.evaluate words =
      .ok (netlist.outputs.map fun port => (namesake netlist.outputs port).bits.map value) := by
  have suits := fit.suits widths
  rcases Simulator.exists_start_eq_initial (α := Bool) runnable with
    ⟨fresh, isFresh, runs, isInitial⟩
  rcases Simulator.exists_hear_eq_ok inputs runs suits with ⟨loaded, isLoaded, loadedRuns, values⟩
  rcases Simulator.exists_settlement runnable loadedRuns with
    ⟨settled, isSettled, settledRuns, settlement⟩
  rw [values, isInitial] at settlement
  refine ⟨_, carried_of_settlement runnable inputs suits settlement, ?_⟩
  have outputs : (netlist.outputs.mapM fun port => settled.output port.name) =
      .ok (netlist.outputs.map fun port =>
        (namesake netlist.outputs port).bits.map (Simulator.valuation settled.values)) := by
    refine Except.mapM_eq_ok fun port member => ?_
    have found := find?_eq_namesake member
    rcases namesake_mem member with ⟨isPort, isName⟩
    have existing := shown _ isPort
    rw [← settledRuns.size_eq] at existing
    refine Simulator.output_eq_ok ?_ existing
    rw [settledRuns.netlist_eq, outputPort?, found, ← isName]
  have follows : (liftM loaded.settle : Except Error (Simulator Bool)) = .ok settled := by
    rw [isSettled]
    rfl
  rw [evaluate_eq fit.count, Except.bind_eq_ok]
  refine ⟨fresh, isFresh, Except.bind_eq_ok.mpr ⟨loaded, isLoaded, ?_⟩⟩
  exact Except.bind_eq_ok.mpr ⟨settled, follows, outputs⟩

/-- The first input port whose name finds a port of another width is refused. -/
theorem evaluate_eq_error (runnable : netlist.Runnable) (inputs : netlist.InputsDistinct)
    (fit : netlist.HasWidths words) {earlier later : List Port} {port : Port}
    (split : netlist.inputs = earlier ++ port :: later)
    (widths : ∀ port ∈ earlier, (namesake netlist.inputs port).width = port.width)
    (mismatch : (namesake netlist.inputs port).width ≠ port.width) :
    netlist.evaluate words = .error (.netlist (.portWidthMismatch port.name
      (namesake netlist.inputs port).width port.width)) := by
  have inside : earlier.length < words.length := by
    rw [fit.count, split, List.length_append, List.length_cons]
    omega
  let told := words.take earlier.length
  have zipped : netlist.inputs.zip words = earlier.zip told ++
      (port, words[earlier.length]) :: later.zip (words.drop (earlier.length + 1)) := by
    have lengths : earlier.length = told.length := by
      rw [List.length_take, Nat.min_eq_left (Nat.le_of_lt inside)]
    rw [← List.zip_cons_cons, ← List.zip_append lengths, ← split, List.getElem_cons_drop,
      List.take_append_drop]
  have width : port.width = words[earlier.length].length :=
    fit.length_eq (zipped ▸ List.mem_append_right _ List.mem_cons_self)
  have suits : netlist.Suits (earlier.zip told) := by
    intro pair member
    have isEarlier := (List.of_mem_zip member).1
    refine ⟨split ▸ List.mem_append_left _ isEarlier, (widths pair.1 isEarlier).trans ?_⟩
    exact fit.length_eq (zipped ▸ List.mem_append_left _ member)
  have isInput : port ∈ netlist.inputs := split ▸ List.mem_append_right _ List.mem_cons_self
  rcases Simulator.exists_start_eq_initial (α := Bool) runnable with ⟨fresh, isFresh, runs, _⟩
  rw [width] at mismatch ⊢
  have refused := Simulator.hear_eq_error inputs runs suits isInput mismatch
    (later.zip (words.drop (earlier.length + 1)))
  rw [evaluate_eq fit.count, isFresh, zipped]
  change (fresh.hear _ >>= fun loaded => _) = _
  rw [refused]
  rfl

/-- What ports hear that differ in name is what they are told. -/
theorem heard_of_nodup (names : (netlist.inputs.map (·.name)).Nodup)
    (fit : netlist.HasWidths words) : netlist.heard words = words := by
  let pairs := netlist.inputs.zip words
  have ports : pairs.map (·.1) = netlist.inputs := List.map_fst_zip (Nat.le_of_eq fit.count.symm)
  have keys : (pairs.reverse.map (·.1.name)).Nodup := by
    rw [List.map_reverse, List.nodup_reverse]
    have same : pairs.map (·.1.name) = netlist.inputs.map (·.name) := by
      rw [← ports, List.map_map]
      rfl
    rwa [same]
  have each (pair : Port × List Bool) (member : pair ∈ pairs) :
      (if namesake netlist.inputs pair.1 = pair.1 then lastWord pairs pair.1
        else List.replicate pair.1.width false) = pair.2 := by
    rw [if_pos (namesake_of_nodup names (List.of_mem_zip member).1), lastWord,
      find?_key_of_nodup keys (List.mem_reverse.mpr member)]
    rfl
  calc
    netlist.heard words = (pairs.map (·.1)).map fun port =>
        if namesake netlist.inputs port = port then lastWord pairs port
        else List.replicate port.width false := by rw [ports]; rfl
    _ = pairs.map (·.2) := by rw [List.map_map]; exact List.map_congr_left each
    _ = words := List.map_snd_zip (Nat.le_of_eq fit.count)

end Netlist

namespace Builder

variable {provider : Provider} {strict : Prop} {before after builder : Builder}

/-- What every builder keeps of its input ports. -/
structure Fed (builder : Builder) : Prop where
  inputs : builder.netlist.InputsDistinct
  posted : builder.netlist.Posted

theorem fed_start (name : String) : (start name).Fed where
  inputs := (sound_start name).inputs
  posted := (tidy_start .inferred name).posted

theorem Fed.step (fed : before.Fed) (step : Step provider strict before after) : after.Fed := by
  cases step with
  | moves moves =>
      have extension := moves.extension
      rcases extension.signals with ⟨labels, signals⟩
      exact ⟨fed.inputs.extension extension, fed.posted.ofWires extension.inputs signals⟩
  | input name width => exact ⟨fed.inputs.addInput name width, fed.posted.addInput name width⟩
  | output name bits =>
      exact ⟨⟨fed.inputs.sources, fed.inputs.distinct⟩, ⟨fed.posted.shown, fed.posted.listed⟩⟩
  | powered powered =>
      exact ⟨⟨fed.inputs.sources, fed.inputs.distinct⟩, ⟨fed.posted.shown, fed.posted.listed⟩⟩

theorem Fed.steps (fed : before.Fed) (steps : Steps provider strict before after) : after.Fed := by
  induction steps with
  | refl => exact fed
  | tail _ step ih => exact ih.step step

/-- Without registers, every wire has a combinational driver. -/
theorem Coherent.exists_combinational (coherent : builder.Coherent)
    (noRegister : builder.netlist.registerCount = 0) {id : SignalId}
    (isWire : builder.netlist.IsWire id) : ∃ gate ∈ builder.netlist.gates.toList,
      gate.isCombinational = true ∧ id ∈ gate.outputs := by
  rw [← Netlist.mem_wires, ← coherent.drives, List.mem_flatMap] at isWire
  rcases isWire with ⟨gate, member, output⟩
  refine ⟨gate, member, ?_, output⟩
  have none := Array.countP_eq_zero.mp noRegister gate (Array.mem_toList_iff.mp member)
  rw [Gate.isRegister_eq_not_isCombinational] at none
  simpa using none

end Builder

namespace Operation

variable {provider : CompleteProvider} {memory : Memory} {operations : List Operation}
  {after : Builder} {netlist : Netlist}

/-- Evaluation of a netlist without registers and loops that operations of any kind have built, for
words of the widths of the input ports. Input ports are set and output ports are read through their
names: where the first port of each name has the width of the others, the answer is what the first
output port of each name shows for the words that the input ports hear, and otherwise the first port
of another width is refused. So it is what the output ports show for the words themselves where
ports differ in name. -/
theorem performAll_evaluated {name : String} {words : List (List Bool)}
    (ran : (performAll memory operations).run provider (.start name) = (.ok (), after))
    (finished : (Attempt.finish.run provider after).1 = .ok netlist)
    (noRegister : netlist.registerCount = 0) (loopFree : netlist.LoopFree)
    (fit : netlist.HasWidths words) :
    ((∀ port ∈ netlist.inputs, (Netlist.namesake netlist.inputs port).width = port.width) →
      ∃ value, netlist.Determined (netlist.heard words) value ∧
        netlist.evaluate words = .ok (netlist.outputs.map fun port =>
          (Netlist.namesake netlist.outputs port).bits.map value)) ∧
    (∀ earlier port later, netlist.inputs = earlier ++ port :: later →
      (∀ port ∈ earlier, (Netlist.namesake netlist.inputs port).width = port.width) →
      (Netlist.namesake netlist.inputs port).width ≠ port.width →
      netlist.evaluate words = .error (.netlist (.portWidthMismatch port.name
        (Netlist.namesake netlist.inputs port).width port.width))) ∧
    ((netlist.inputs.map (·.name)).Nodup → (netlist.outputs.map (·.name)).Nodup →
      ∃ value, netlist.Determined words value ∧
        netlist.evaluate words = .ok (netlist.outputs.map (·.bits.map value))) := by
  rcases Attempt.accepted_of_finish finished with ⟨rfl, accepted⟩
  have steps : Builder.Steps provider.toProvider False (.start name) after :=
    performAll_steps ran False.elim
  have fed := (Builder.fed_start name).steps steps
  have coherent := (Builder.coherent_start name).steps steps
  have runnable :=
    Netlist.runnable_of_checkDrivers (Netlist.checkDrivers_eq_ok.mpr accepted) loopFree
  have shown (port : Port) (member : port ∈ after.netlist.outputs) :
      Below after.netlist.signals.size port.bits := fun id bit =>
    (accepted.supplied id (Netlist.mem_reads.mpr (.inr ⟨port, member, bit⟩))).1
  have byName (widths : ∀ port ∈ after.netlist.inputs,
      (Netlist.namesake after.netlist.inputs port).width = port.width) :
      ∃ value, after.netlist.Determined (after.netlist.heard words) value ∧
        after.netlist.evaluate words = .ok (after.netlist.outputs.map fun port =>
          (Netlist.namesake after.netlist.outputs port).bits.map value) := by
    rcases Netlist.evaluate_eq_ok runnable fed.inputs shown fit widths with
      ⟨value, carried, evaluated⟩
    refine ⟨value, ⟨carried, fun other again => ?_⟩, evaluated⟩
    exact carried.unique runnable fed.posted
      (fun id => coherent.exists_combinational noRegister) again
  refine ⟨byName, fun earlier port later => Netlist.evaluate_eq_error runnable fed.inputs fit,
    fun names outputNames => ?_⟩
  rcases byName fun port member =>
    congrArg Port.width (Netlist.namesake_of_nodup names member) with
    ⟨value, determined, evaluated⟩
  rw [Netlist.heard_of_nodup names fit] at determined
  refine ⟨value, determined, evaluated.trans (congrArg Except.ok ?_)⟩
  exact List.map_congr_left fun port member => by
    rw [Netlist.namesake_of_nodup outputNames member]

/-- A conjunction of two ports that differ in name. -/
theorem performAll_evaluated_conjunction :
    ∃ after netlist value,
      (performAll .machine [.input "a" 1, .input "b" 1, .and2 2 3, .output "o" [4]]).run
          ⟨.inferred, fun _ _ => rfl⟩ (.start "top") = (.ok (), after) ∧
        (Attempt.finish.run ⟨.inferred, fun _ _ => rfl⟩ after).1 = .ok netlist ∧
        netlist.registerCount = 0 ∧ netlist.LoopFree ∧ netlist.Determined [[true], [true]] value ∧
        netlist.evaluate [[true], [true]] = .ok [[value 4]] := by
  let provider : CompleteProvider := ⟨.inferred, fun _ _ => rfl⟩
  let operations : List Operation :=
    [.input "a" 1, .input "b" 1, .and2 2 3, .output "o" [4]]
  let after := ((performAll .machine operations).run provider (.start "top")).2
  have ran : (performAll .machine operations).run provider (.start "top") = (.ok (), after) := rfl
  have finished : (Attempt.finish.run provider after).1 = .ok after.netlist := rfl
  have ordered : after.netlist.combinationalOrder = .ok [0] := by decide +kernel
  have loopFree := Netlist.loopFree_of_combinationalOrder ordered
  have noRegister : after.netlist.registerCount = 0 := rfl
  have fit : after.netlist.HasWidths [[true], [true]] := rfl
  have inputs : after.netlist.inputs.map (·.name) = ["a", "b"] := rfl
  have outputs : after.netlist.outputs.map (·.name) = ["o"] := rfl
  rcases (performAll_evaluated ran finished noRegister loopFree fit).2.2
    (by rw [inputs]; decide) (by rw [outputs]; decide) with ⟨value, determined, evaluated⟩
  exact ⟨after, after.netlist, value, ran, finished, noRegister, loopFree, determined, evaluated⟩

/-- Of two ports of one name the second cannot be set: it is told to carry true, and the output port
that shows it stays false. -/
theorem performAll_evaluated_repeated :
    ∃ after netlist value,
      (performAll .machine [.input "a" 1, .input "a" 1, .output "o" [3]]).run
          ⟨.inferred, fun _ _ => rfl⟩ (.start "top") = (.ok (), after) ∧
        (Attempt.finish.run ⟨.inferred, fun _ _ => rfl⟩ after).1 = .ok netlist ∧
        netlist.registerCount = 0 ∧ netlist.LoopFree ∧ netlist.HasWidths [[false], [true]] ∧
        netlist.Carried [[false], [true]] value ∧
        netlist.outputs.map (·.bits.map value) = [[true]] ∧
        netlist.evaluate [[false], [true]] = .ok [[false]] := by
  let provider : CompleteProvider := ⟨.inferred, fun _ _ => rfl⟩
  let operations : List Operation := [.input "a" 1, .input "a" 1, .output "o" [3]]
  let after := ((performAll .machine operations).run provider (.start "top")).2
  have ordered : after.netlist.combinationalOrder = .ok [] := rfl
  have evaluated : after.netlist.evaluate [[false], [true]] = .ok [[false]] := by decide +kernel
  refine ⟨after, after.netlist, fun id => id == 1 || id == 3, rfl, rfl, rfl,
    Netlist.loopFree_of_combinationalOrder ordered, rfl, ⟨rfl, ?_, nofun⟩, rfl, evaluated⟩
  intro id constant found
  rcases id with _ | _ | _ | _ | id <;> cases found <;> rfl

end Operation

end Datapath

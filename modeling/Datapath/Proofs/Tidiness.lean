import Datapath.Proofs.AdderRuns
import Datapath.Proofs.Combinational
import Datapath.Proofs.MultiplierRuns

/-!
# What generators leave in a builder

`Builder.Tidy` collects what the text of a netlist rests on: scopes, and so the labels of wires, are
made of letters, digits and underscores and do not end like the names of gates, gates are named for
their numbers and realized as the provider says, and input signals are the bits of the input ports.
Every step that the generators take keeps it: `Build.Tidies` for steps that always succeed and
`Attempt.Tidies` for the others, whether or not they do. What lies between register stages need not
be looked at, since every move that brings no register keeps it.
-/

namespace Datapath

open Verilog (IsLabel IsName)

/-- The input signals are the bits of the input ports. -/
structure Netlist.Posted (netlist : Netlist) : Prop where
  shown : ∀ port ∈ netlist.inputs, ∀ (index : Nat) (id : SignalId), port.bits[index]? = some id →
    netlist.signals[id]? = some (.input port.name index)
  listed : ∀ (id : SignalId) (name : String) (index : Nat),
    netlist.signals[id]? = some (.input name index) →
      ∃ port ∈ netlist.inputs, port.name = name ∧ port.bits[index]? = some id

/-- Wires are no input signals. -/
theorem Netlist.Posted.ofWires {before after : Netlist} (posted : before.Posted)
    {labels : List (Option String)} (ports : after.inputs = before.inputs)
    (signals : after.signals.toList = before.signals.toList ++ labels.map Signal.wire) :
    after.Posted := by
  have same {id : SignalId} {name : String} {index : Nat} :
      after.signals[id]? = some (.input name index) ↔
        before.signals[id]? = some (.input name index) := by
    rw [← Array.getElem?_toList, ← Array.getElem?_toList, signals, List.getElem?_append]
    split
    · rfl
    · rename_i outside
      rw [List.getElem?_eq_none (Nat.le_of_not_lt outside), List.getElem?_map]
      cases labels[id - before.signals.toList.length]? <;> simp
  refine ⟨fun port member index id bit => ?_, fun id name index found => ?_⟩
  · rw [ports] at member
    exact same.mpr (posted.shown port member index id bit)
  · rw [ports]
    exact posted.listed id name index (same.mp found)

/-- A new input port brings its input signals. -/
theorem Netlist.Posted.addInput {builder : Builder} (posted : builder.netlist.Posted)
    (name : String) (width : Nat) : (builder.addInput name width).netlist.Posted := by
  let signals := builder.netlist.signals
  have found (id : SignalId) : (builder.addInput name width).netlist.signals[id]? =
      if id < signals.size then signals[id]?
      else if id - signals.size < width then some (.input name (id - signals.size))
      else none := by
    change (signals ++ Array.ofFn fun bit : Fin width => Signal.input name bit)[id]? = _
    rw [Array.getElem?_append, Array.getElem?_ofFn]
    split
    · rfl
    · split <;> rfl
  have ports : (builder.addInput name width).netlist.inputs =
      builder.netlist.inputs ++ [⟨name, List.range' signals.size width⟩] := rfl
  constructor
  · intro port member index id bit
    rw [ports, List.mem_append, List.mem_singleton] at member
    rw [found]
    rcases member with old | rfl
    · have source := posted.shown port old index id bit
      rw [if_pos (Array.getElem?_eq_some_iff.mp source).1, source]
    · rcases List.getElem?_eq_some_iff.mp bit with ⟨inside, rfl⟩
      rw [List.length_range'] at inside
      simp [inside]
  · intro id portName index isInput
    rw [found] at isInput
    rw [ports]
    split at isInput
    · rcases posted.listed id portName index isInput with ⟨port, member, same, bit⟩
      exact ⟨port, List.mem_append_left _ member, same, bit⟩
    · split at isInput
      · rename_i outside inside
        cases isInput
        refine ⟨_, List.mem_append_right _ List.mem_cons_self, rfl, ?_⟩
        rw [List.getElem?_range' inside, Nat.one_mul,
          Nat.add_sub_cancel' (Nat.le_of_not_lt outside)]
      · cases isInput

namespace Builder

/-- Names are names, gates are realized, and input signals are the bits of the input ports. -/
structure Tidy (provider : Provider) (builder : Builder) : Prop where
  scope : ∀ text ∈ builder.scope, IsLabel text
  labels : ∀ text, .wire (some text) ∈ builder.netlist.signals → IsLabel text
  gateNames : ∀ gate ∈ builder.netlist.gates.toList, IsName gate.name
  numbered : ∀ (number : Nat) (gate : Gate), builder.netlist.gates.toList[number]? = some gate →
    gate.Numbered number
  realized : ∀ gate ∈ builder.netlist.gates.toList,
    provider.realize gate.primitive = some gate.realization
  clock : ∀ text ∈ builder.netlist.clock, text = clockNet
  posted : builder.netlist.Posted

variable {provider : Provider} {builder : Builder}

theorem tidy_start (provider : Provider) (name : String) : (start name).Tidy provider where
  scope := nofun
  labels text member := by simp [start] at member
  gateNames gate member := by simp [start] at member
  numbered number gate found := by simp [start] at found
  realized gate member := by simp [start] at member
  clock := nofun
  posted := by
    refine ⟨fun port member => by simp [start] at member, fun id name index found => ?_⟩
    have member := Array.mem_of_getElem? found
    simp [start] at member

theorem isName_gateName (tidy : builder.Tidy provider) (primitive : Primitive) :
    IsName (builder.gateName primitive) := by
  have isStem := Gate.isStem_stem (fun text isScope => (tidy.scope text isScope).toIsStem) primitive
  rw [gateName_eq]
  exact isStem.isName_append_toString _

theorem Tidy.place (tidy : builder.Tidy provider) {primitive : Primitive}
    {realization : Realization} (realized : provider.realize primitive = some realization)
    (inputs : List SignalId) (outputs : Nat) :
    (builder.place primitive realization inputs outputs).Tidy provider where
  scope := tidy.scope
  labels text member := by
    rcases Array.mem_append.mp member with old | new
    · exact tidy.labels text old
    · have isScope := (Array.mem_replicate.mp new).2
      exact tidy.scope text (Signal.wire.inj isScope).symm
  gateNames gate member := by
    rw [Builder.place, Array.toList_push, List.mem_append, List.mem_singleton] at member
    rcases member with old | rfl
    · exact tidy.gateNames gate old
    · exact isName_gateName tidy primitive
  numbered := numbered_place tidy.numbered primitive realization inputs outputs
  realized gate member := by
    rw [Builder.place, Array.toList_push, List.mem_append, List.mem_singleton] at member
    rcases member with old | rfl
    · exact tidy.realized gate old
    · exact realized
  clock text isClock := by
    change text ∈ clockWith builder.netlist.clock primitive at isClock
    rw [clockWith] at isClock
    split at isClock
    · cases before : builder.netlist.clock with
      | none =>
          rw [before] at isClock
          exact (Option.some.inj isClock).symm
      | some old =>
          rw [before] at isClock
          exact tidy.clock text (before.trans isClock)
    · exact tidy.clock text isClock
  posted := by
    have signals : (builder.place primitive realization inputs outputs).netlist.signals.toList =
        builder.netlist.signals.toList ++
          (List.replicate outputs builder.scope).map Signal.wire := by
      simp [Builder.place]
    exact tidy.posted.ofWires rfl signals

theorem Tidy.addInput (tidy : builder.Tidy provider) (name : String) (width : Nat) :
    (builder.addInput name width).Tidy provider where
  scope := tidy.scope
  labels text member := by
    rcases Array.mem_append.mp member with old | new
    · exact tidy.labels text old
    · rcases Array.mem_ofFn.mp new with ⟨bit, isInput⟩
      cases isInput
  gateNames := tidy.gateNames
  numbered := tidy.numbered
  realized := tidy.realized
  clock := tidy.clock
  posted := tidy.posted.addInput name width

theorem Tidy.addOutput (tidy : builder.Tidy provider) (name : String) (bits : List SignalId) :
    (builder.addOutput name bits).Tidy provider :=
  ⟨tidy.scope, tidy.labels, tidy.gateNames, tidy.numbered, tidy.realized, tidy.clock,
    ⟨tidy.posted.shown, tidy.posted.listed⟩⟩

theorem CombinationalMoves.tidy {after : Builder}
    (moves : CombinationalMoves provider builder after) (tidy : builder.Tidy provider) :
    after.Tidy provider := by
  induction moves with
  | refl => exact tidy
  | tail _ move ih =>
      cases move with
      | note event => exact { ih with }
      | scope isLabel => exact { ih with scope := isLabel }
      | place realized unclocked inputs outputs => exact ih.place realized inputs outputs

end Builder

namespace Build

variable {α : Type}

/-- The step leaves a tidy builder tidy. -/
def Tidies (step : Build α) : Prop :=
  ∀ (provider : CompleteProvider) (builder : Builder), builder.Tidy provider.toProvider →
    (run step provider builder).2.Tidy provider.toProvider

theorem tidies_note (event : Event) : Tidies (note event) :=
  fun _ _ tidy => { tidy with }

theorem tidies_providerName : Tidies providerName :=
  fun _ _ tidy => tidy

theorem tidies_setPowered (powered : Bool) : Tidies (setPowered powered) :=
  fun _ _ tidy => ⟨tidy.scope, tidy.labels, tidy.gateNames, tidy.numbered, tidy.realized,
    tidy.clock, ⟨tidy.posted.shown, tidy.posted.listed⟩⟩

theorem tidies_input (name : String) (width : Nat) : Tidies (input name width) :=
  fun _ _ tidy => tidy.addInput name width

theorem tidies_output (name : String) (bits : List SignalId) : Tidies (output name bits) :=
  fun _ _ tidy => tidy.addOutput name bits

theorem tidies_dff (d : SignalId) : Tidies (dff d) :=
  fun provider _ tidy => tidy.place (realize_basis provider _) [d] 1

end Build

/-! ## Steps that may be refused -/

namespace Attempt

variable {α β : Type}

/-- The attempt leaves a tidy builder tidy, whether or not it succeeds. -/
def Tidies (attempt : Attempt α) : Prop :=
  ∀ (provider : CompleteProvider) (builder : Builder), builder.Tidy provider.toProvider →
    (run attempt provider builder).2.Tidy provider.toProvider

theorem Produces.tidies {attempt : Attempt α} {post : Nat → α → Prop}
    (produces : Produces 0 attempt post) : Tidies attempt :=
  fun provider builder tidy => (produces provider builder (Nat.zero_le _)).1.tidy tidy

theorem tidies_pure (result : α) : Tidies (pure result) :=
  fun _ _ tidy => tidy

theorem tidies_refuse (fault : Fault) : Tidies (refuse fault : Attempt α) :=
  fun _ _ tidy => tidy

theorem tidies_ofExcept (result : Except Error α) : Tidies (ofExcept result) := by
  cases result <;> exact fun _ _ tidy => tidy

theorem tidies_lift {step : Build α} (tidies : Build.Tidies step) :
    Tidies (liftM step : Attempt α) :=
  tidies

theorem tidies_get : Tidies get :=
  fun _ _ tidy => tidy

theorem Tidies.bind {attempt : Attempt α} {next : α → Attempt β} (first : Tidies attempt)
    (rest : ∀ result, Tidies (next result)) : Tidies (attempt >>= next) := by
  intro provider builder tidy
  have middle := first provider builder tidy
  rw [run_bind]
  rcases ran : run attempt provider builder with ⟨error | result, after⟩
  · rw [ran] at middle
    exact middle
  · rw [ran] at middle
    exact rest result provider after middle

theorem tidies_mapM {ι : Type} {step : ι → Attempt α} (each : ∀ item, Tidies (step item))
    (items : List ι) : Tidies (items.mapM step) := by
  induction items with
  | nil => exact tidies_pure []
  | cons item items ih =>
      rw [List.mapM_cons]
      exact (each item).bind fun result => ih.bind fun results => tidies_pure _

theorem tidies_enterScope {scope : String} (isLabel : IsLabel scope) :
    Tidies (liftM (Build.setScope (some scope))) :=
  (produces_enterScope 0 isLabel).tidies

theorem tidies_leaveScope : Tidies (liftM (Build.setScope none)) :=
  (produces_leaveScope 0).tidies

theorem tidies_input (memory : Memory) (name : String) (width : Nat) :
    Tidies (input memory name width) :=
  (tidies_ofExcept _).bind fun _ => tidies_lift (Build.tidies_input name width)

theorem tidies_finish : Tidies finish :=
  tidies_get.bind fun _ => (tidies_ofExcept _).bind fun _ =>
    (tidies_lift (Build.tidies_note _)).bind fun _ => tidies_pure _

theorem tidies_register (id : SignalId) : Tidies (register id) := by
  have literal : Tidies (isLiteral id) := by
    refine tidies_get.bind fun builder => ?_
    split
    · exact tidies_pure _
    · exact tidies_refuse _
  refine literal.bind fun constant => ?_
  split
  · exact tidies_pure id
  · exact tidies_lift (Build.tidies_dff id)

theorem tidies_registerWord (word : List SignalId) : Tidies (registerWord word) :=
  tidies_mapM tidies_register word

theorem tidies_deliver (name : String) (width : Nat) (word : List SignalId) :
    Tidies (deliver name width word) :=
  (tidies_lift (Build.tidies_output name word)).bind fun _ => tidies_finish.bind fun _ =>
    (tidies_ofExcept _).bind fun _ => tidies_pure _

end Attempt

open Attempt (tidies_enterScope tidies_leaveScope)

theorem Generator.tidies_registerStage {scope : String} (isLabel : IsLabel scope) (enabled : Bool)
    (word : List SignalId) : Attempt.Tidies (registerStage enabled scope word) := by
  cases enabled with
  | false => exact Attempt.tidies_pure word
  | true =>
      exact (tidies_enterScope isLabel).bind fun _ => (Attempt.tidies_registerWord word).bind
        fun _ => tidies_leaveScope.bind fun _ => Attempt.tidies_pure _

/-- The opening of an assembly keeps a builder tidy, and so does what follows. -/
theorem Generator.tidies_opening {α : Type} {rest : Attempt α} (tidies : Attempt.Tidies rest)
    (powered : Bool) (event : String → Event) :
    Attempt.Tidies (liftM (Build.setPowered powered) >>= fun _ => liftM Build.providerName >>=
      fun name => liftM (Build.note (event name)) >>= fun _ => rest) :=
  (Attempt.tidies_lift (Build.tidies_setPowered _)).bind fun _ =>
    (Attempt.tidies_lift Build.tidies_providerName).bind fun _ =>
      (Attempt.tidies_lift (Build.tidies_note _)).bind fun _ => tidies

namespace Adder

theorem Options.tidies_assemble (options : Options) (memory : Memory) :
    Attempt.Tidies (options.assemble memory) := by
  have staged (a b : List SignalId) : Attempt.Tidies (options.staged a b) :=
    (Generator.tidies_registerStage (by decide) _ a).bind fun _ =>
      (Generator.tidies_registerStage (by decide) _ b).bind fun _ =>
        (produces_sum 0 _ _ _ (by decide)).tidies.bind fun _ =>
          Generator.tidies_registerStage (by decide) _ _
  rw [assemble_eq]
  exact Generator.tidies_opening ((Attempt.tidies_input _ _ _).bind fun a =>
    (Attempt.tidies_input _ _ _).bind fun b => (staged a b).bind fun sum =>
      Attempt.tidies_deliver _ _ sum) _ _

end Adder

namespace Multiplier

theorem tidies_delayMatrix (enabled : Bool) (matrix : Matrix) :
    Attempt.Tidies (delayMatrix enabled matrix) := by
  cases enabled with
  | false => exact Attempt.tidies_pure matrix
  | true =>
      exact (tidies_enterScope (by decide)).bind fun _ =>
        ((Attempt.tidies_registerWord _).bind fun _ => Attempt.tidies_pure _).bind fun _ =>
          tidies_leaveScope.bind fun _ => Attempt.tidies_pure _

namespace Options

theorem tidies_products (options : Options) (a b c : List SignalId) :
    Attempt.Tidies (options.products a b c) := by
  rw [products_eq]
  have late (id : SignalId) : Late 0 id := .inr (Nat.zero_le _)
  exact (produces_partialProducts (Nat.le_refl 0) _ (fun id _ => late id) _).tidies.bind fun _ =>
    (Attempt.produces_lift (produces_pushAll 0 (fun id _ => late id)
      fun entry _ => late entry.2)).tidies.bind fun _ => tidies_delayMatrix _ _

theorem tidies_assemble (options : Options) (memory : Memory) :
    Attempt.Tidies (options.assemble memory) := by
  have staged (a b c : List SignalId) : Attempt.Tidies (options.staged a b c) :=
    (Generator.tidies_registerStage (by decide) _ a).bind fun _ =>
      (Generator.tidies_registerStage (by decide) _ b).bind fun _ =>
        (Generator.tidies_registerStage (by decide) _ c).bind fun _ =>
          (options.tidies_products _ _ _).bind fun _ => (produces_reduce 0 _).tidies.bind fun _ =>
            (Adder.produces_sum 0 _ _ _ (by decide)).tidies.bind fun _ =>
              Generator.tidies_registerStage (by decide) _ _
  have addend : Attempt.Tidies (if options.multiplyAdd then
      Attempt.input memory "c" (2 * options.width) else pure []) := by
    split
    · exact Attempt.tidies_input _ _ _
    · exact Attempt.tidies_pure []
  rw [assemble_eq]
  exact Generator.tidies_opening ((Attempt.tidies_input _ _ _).bind fun a =>
    (Attempt.tidies_input _ _ _).bind fun b => addend.bind fun c => (staged a b c).bind
      fun product => Attempt.tidies_deliver _ _ product) _ _

end Options

end Multiplier

end Datapath

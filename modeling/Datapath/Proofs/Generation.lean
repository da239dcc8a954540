import Datapath.Proofs.Streams

/-!
# Runs of generated netlists

A generator opens with input ports, builds a word from their bits and delivers it on an output port.
Whatever it builds on the way, the finished netlist can be simulated, and in each lane the values of
a run are a trace: `Builder.Outcome.exists_run` turns what a construction does to streams into what
a simulator shows on the output port.
-/

namespace Datapath

open Scoped (Within within_mono)

namespace Lanes

/-- The number that the words of a port carry in one lane. -/
def number (lane : Fin count) (words : List UInt64) : Nat :=
  Bits.value (words.map (bit lane).map)

end Lanes

namespace Bits

/-- Words of one length that stand for one number are equal. -/
theorem value_injective {left right : List Bool} (sameLength : left.length = right.length)
    (sameValue : value left = value right) : left = right := by
  induction left generalizing right with
  | nil => exact (List.length_eq_zero_iff.mp sameLength.symm).symm
  | cons digit left ih =>
      cases right with
      | nil => cases sameLength
      | cons other right =>
          rw [value, value] at sameValue
          have digits : digit.toNat = other.toNat := by
            have := digit.toNat_le
            have := other.toNat_le
            omega
          have higher : left = right := ih (Nat.succ.inj sameLength) (by omega)
          have same : digit = other := by
            cases digit <;> cases other <;> first | rfl | cases digits
          rw [same, higher]

end Bits

theorem Lanes.eq_of_number {left right : List UInt64} (sameLength : left.length = right.length)
    (sameNumber : ∀ lane, number lane left = number lane right) : left = right := by
  apply list_ext
  intro lane
  exact Bits.value_injective (by simpa using sameLength) (sameNumber lane)

theorem Simulator.output_eq_ok {α : Type} [Logic α] {simulator : Simulator α} {name : String}
    {bits : List SignalId} (found : simulator.netlist.outputPort? name = some ⟨name, bits⟩)
    (existing : Below simulator.values.size bits) :
    simulator.output name = .ok (bits.map (valuation simulator.values)) := by
  rw [output, found]
  clear found
  change bits.mapM _ = _
  induction bits with
  | nil => rfl
  | cons id bits ih =>
      rcases below_cons.mp existing with ⟨here, rest⟩
      rw [List.mapM_cons, ih rest, read_eq_ok here]
      rfl

namespace Netlist

theorem InputsDistinct.addInput {builder : Builder} (inputs : builder.netlist.InputsDistinct)
    (name : String) (width : Nat) : (builder.addInput name width).netlist.InputsDistinct where
  sources port member id bit := by
    rcases List.mem_append.mp member with old | new
    · rcases inputs.sources port old id bit with ⟨portName, index, found⟩
      have existing := (Array.getElem?_eq_some_iff.mp found).1
      refine ⟨portName, index, ?_⟩
      rw [← found]
      exact Array.getElem?_append_left existing
    · rw [List.mem_singleton.mp new] at bit
      rcases List.mem_range'.mp bit with ⟨offset, inside, rfl⟩
      refine ⟨name, offset, ?_⟩
      simp [Builder.addInput, inside]
  distinct := by
    have appended : (builder.addInput name width).netlist.inputs.flatMap (·.bits) =
        builder.netlist.inputs.flatMap (·.bits) ++ List.range' builder.size width := by
      simp [Builder.addInput, Builder.size]
    rw [appended, List.nodup_append]
    refine ⟨inputs.distinct, List.nodup_range', fun id old other new same => ?_⟩
    rcases List.mem_flatMap.mp old with ⟨port, member, bit⟩
    have existing : id < builder.size := inputs.lt member id bit
    have fresh := (List.mem_range'_1.mp new).1
    exact Nat.ne_of_lt (Nat.lt_of_lt_of_le existing fresh) same

theorem InputsDistinct.extension {provider : Provider} {strict : Prop} {before after : Builder}
    (inputs : before.netlist.InputsDistinct)
    (extension : Builder.Extension provider strict before after) :
    after.netlist.InputsDistinct where
  sources port member id bit := by
    rw [extension.inputs] at member
    rcases inputs.sources port member id bit with ⟨name, index, found⟩
    exact ⟨name, index, extension.signal_eq_some found⟩
  distinct := by
    rw [extension.inputs]
    exact inputs.distinct

section Ports

variable {α : Type} {netlist : Netlist} {ports : List Port} {assignment : Assignment α}
  (isPort : ∀ port ∈ ports, netlist.inputPort? port.name = some port)
  (fits : assignment.map (fun entry => (entry.1, entry.2.length)) =
    ports.map fun port => (port.name, port.width))

include isPort fits

theorem entry_of_ports {index : Nat} (inside : index < assignment.length) :
    ∃ port, ports[index]? = some port ∧
      netlist.inputPort? assignment[index].1 = some port ∧
        port.width = assignment[index].2.length := by
  have here := congrArg (fun pairs => pairs[index]?) fits
  simp only [List.getElem?_map, List.getElem?_eq_getElem inside, Option.map_some] at here
  cases found : ports[index]? with
  | none =>
      rw [found] at here
      cases here
  | some port =>
      rw [found] at here
      have same := Prod.mk.inj (Option.some.inj here)
      rw [same.1, same.2]
      exact ⟨port, rfl, isPort port (List.mem_of_getElem? found), rfl⟩

/-- Values for the input ports in their order fit the netlist. -/
theorem fits_of_ports (names : (ports.map (·.name)).Nodup) : netlist.Fits assignment where
  names := by
    have sameNames : assignment.map (·.1) = ports.map (·.name) := by
      simpa [Function.comp_def] using congrArg (List.map Prod.fst) fits
    rwa [sameNames]
  ports entry member := by
    rcases List.getElem_of_mem member with ⟨index, inside, rfl⟩
    rcases entry_of_ports isPort fits inside with ⟨port, _, isInput, width⟩
    exact ⟨port, isInput, width⟩

theorem map_ports_eq {value : Valuation α} (shows : netlist.Shows assignment value) :
    ports.map (·.bits.map value) = assignment.map (·.2) := by
  have sameLength : assignment.length = ports.length := by
    simpa using congrArg List.length fits
  apply List.ext_getElem (by simp [sameLength])
  intro index inPorts inAssignment
  simp only [List.length_map] at inAssignment
  rcases entry_of_ports isPort fits inAssignment with ⟨port, found, isInput, _⟩
  rw [List.getElem_map, List.getElem_map, ← shows _ (List.getElem_mem inAssignment) port isInput,
    (List.getElem?_eq_some_iff.mp found).2]

end Ports

end Netlist

namespace Builder

variable {provider : Provider} {before after builder : Builder}

/-- What every builder keeps as long as all steps are strict. -/
structure Sound (builder : Builder) : Prop where
  coherent : builder.Coherent
  ascending : builder.Ascending
  inputs : builder.netlist.InputsDistinct
  literalFalse : builder.netlist.signals[falseId]? = some (.literal false)
  literalTrue : builder.netlist.signals[trueId]? = some (.literal true)

theorem sound_start (name : String) : (start name).Sound where
  coherent := coherent_start name
  ascending := nofun
  inputs := ⟨nofun, List.nodup_nil⟩
  literalFalse := rfl
  literalTrue := rfl

theorem Sound.addInput (sound : builder.Sound) (name : String) (width : Nat) :
    (builder.addInput name width).Sound := by
  have kept {id : Nat} {signal : Signal} (found : builder.netlist.signals[id]? = some signal) :
      (builder.addInput name width).netlist.signals[id]? = some signal := by
    rw [← found]
    exact Array.getElem?_append_left (Array.getElem?_eq_some_iff.mp found).1
  exact ⟨sound.coherent.addInput name width, sound.ascending, sound.inputs.addInput name width,
    kept sound.literalFalse, kept sound.literalTrue⟩

theorem Sound.step (sound : before.Sound) (step : Step provider True before after) :
    after.Sound := by
  have coherent := sound.coherent.step step
  have ascending := sound.ascending.steps (.single step)
  cases step with
  | moves moves =>
      have extension := moves.extension
      exact ⟨coherent, ascending, sound.inputs.extension extension,
        extension.signal_eq_some sound.literalFalse, extension.signal_eq_some sound.literalTrue⟩
  | input name width => exact sound.addInput name width
  | output name bits =>
      exact ⟨coherent, ascending, ⟨sound.inputs.sources, sound.inputs.distinct⟩, sound.literalFalse,
        sound.literalTrue⟩
  | powered powered =>
      exact ⟨coherent, ascending, ⟨sound.inputs.sources, sound.inputs.distinct⟩, sound.literalFalse,
        sound.literalTrue⟩

theorem Sound.steps (sound : before.Sound) (steps : Steps provider True before after) :
    after.Sound := by
  induction steps with
  | refl => exact sound
  | tail _ step ih => exact ih.step step

theorem Sound.runnable (sound : builder.Sound) : builder.netlist.Runnable where
  toDrivable := sound.coherent.driven.toDrivable
  legal := sound.coherent.legal
  existing := sound.ascending.below_size sound.coherent
  ordered := sound.ascending.exists_combinationalOrder sound.coherent

theorem Sound.grounded (sound : builder.Sound) {trace : Trace}
    (obeys : builder.netlist.Obeys trace) : Grounded trace :=
  fun cycle => ⟨obeys.literal sound.literalFalse cycle, obeys.literal sound.literalTrue cycle⟩

/-- A builder with some input ports, no output port and no gates. -/
structure Opened (builder : Builder) (ports : List Port) : Prop where
  sound : builder.Sound
  inputs : builder.netlist.inputs = ports
  outputs : builder.netlist.outputs = []
  gates : builder.netlist.gates = #[]

variable {ports : List Port}

theorem Opened.lt (opened : builder.Opened ports) {port : Port} (member : port ∈ ports) :
    Below builder.size port.bits := by
  rw [← opened.inputs] at member
  exact opened.sound.inputs.lt member

theorem Opened.addInput (opened : builder.Opened ports) (name : String) (width : Nat) :
    (builder.addInput name width).Opened
      (ports ++ [⟨name, List.range' builder.size width⟩]) where
  sound := opened.sound.addInput name width
  inputs := by
    rw [← opened.inputs]
    rfl
  outputs := opened.outputs
  gates := opened.gates

theorem Opened.inputPort? (opened : builder.Opened ports) (names : (ports.map (·.name)).Nodup)
    {port : Port} (member : port ∈ ports) : builder.netlist.inputPort? port.name = some port := by
  rw [Netlist.inputPort?, opened.inputs]
  exact Netlist.find?_name_of_nodup names member

/-- The only output port of a netlist shows a word that was built from its inputs: every cycle of a
run succeeds, and in each lane the port shows a trace that does to the inputs what the construction
does to streams. -/
theorem Outcome.exists_run {word : List SignalId} {post : Trace → List SignalId → Prop}
    (outcome : Outcome provider before after word post) (opened : before.Opened ports)
    (names : (ports.map (·.name)).Nodup) (name : String)
    {stimulus : Nat → Netlist.Assignment UInt64}
    (fits : ∀ cycle, (stimulus cycle).map (fun entry => (entry.1, entry.2.length)) =
      ports.map fun port => (port.name, port.width)) :
    ∃ trace : Fin Lanes.count → Trace,
      (∀ lane, post (trace lane) word ∧ ∀ cycle, ports.map (·.bits.map (trace lane cycle)) =
        (stimulus cycle).map (·.2.map (Lanes.bit lane).map)) ∧
      ∀ cycle, ∃ simulator words,
        (after.addOutput name word).netlist.settledAt stimulus cycle = .ok simulator ∧
          simulator.output name = .ok words ∧
          ∀ lane, words.map (Lanes.bit lane).map = word.map (trace lane cycle) := by
  have extension := outcome.moves.extension
  have steps : Steps provider True before (after.addOutput name word) :=
    .tail (.single (.moves outcome.moves)) (.output after name word)
  have finished := opened.sound.steps steps
  have isPort (port : Port) (member : port ∈ ports) :
      (after.addOutput name word).netlist.inputPort? port.name = some port := by
    rw [← opened.inputPort? names member, Netlist.inputPort?, Netlist.inputPort?,
      ← extension.inputs]
    rfl
  rcases Netlist.exists_run finished.runnable finished.inputs
    (fun cycle => Netlist.fits_of_ports isPort (fits cycle) names) with ⟨trace, obeys, shows, runs⟩
  refine ⟨fun lane cycle id => (Lanes.bit lane).map (trace cycle id), fun lane => ⟨?_, ?_⟩, ?_⟩
  · have obeysLane := obeys.map (Lanes.bit lane)
    have obeysAfter : after.netlist.Obeys fun cycle id => (Lanes.bit lane).map (trace cycle id) :=
      ⟨obeysLane.literal, obeysLane.settled, obeysLane.clocked⟩
    exact outcome.holds _ obeysAfter (finished.grounded obeysLane)
  · intro cycle
    have shown := congrArg (List.map (List.map (Lanes.bit lane).map))
      (Netlist.map_ports_eq isPort (fits cycle) (shows cycle))
    simpa [Function.comp_def] using shown
  · intro cycle
    rcases runs cycle with ⟨simulator, settled, simulates, values⟩
    refine ⟨simulator, word.map (trace cycle), settled, ?_, fun lane => ?_⟩
    · have found : simulator.netlist.outputPort? name = some ⟨name, word⟩ := by
        simp [simulates.netlist_eq, Netlist.outputPort?, addOutput, extension.outputs,
          opened.outputs]
      have existing : Below simulator.values.size word := by
        rw [simulates.size_eq]
        exact outcome.within
      rw [Simulator.output_eq_ok found existing, values]
    · rw [List.map_map]
      rfl

end Builder

namespace Attempt

variable {provider : CompleteProvider} {before after : Builder} {netlist : Netlist}

/-- An input port is opened with bits of its own. -/
theorem input_opened {memory : Memory} {name : String} {width : Nat} {bits : List SignalId}
    {ports : List Port} (opened : before.Opened ports)
    (ran : run (input memory name width) provider before = (.ok bits, after)) :
    after.Opened (ports ++ [⟨name, bits⟩]) ∧ bits.length = width := by
  rcases input_eq_ok ran with ⟨rfl, rfl⟩
  exact ⟨opened.addInput name width, List.length_range'⟩

theorem finish_eq_ok (ran : run finish provider before = (.ok netlist, after)) :
    netlist = before.netlist := by
  rcases run_bind_eq_ok ran with ⟨builder, middle, got, ran⟩
  cases got
  rcases run_bind_eq_ok ran with ⟨_, checked, _, ran⟩
  rcases run_bind_eq_ok ran with ⟨_, noted, _, ran⟩
  cases ran
  rfl

/-- The end of an assembly: a word becomes the output port of the finished netlist. -/
def deliver (name : String) (width : Nat) (word : List SignalId) : Attempt Netlist := do
  Build.output name word
  let netlist ← finish
  ofExcept (netlist.checkPortWidth name width)
  return netlist

theorem deliver_eq_ok {name : String} {width : Nat} {word : List SignalId}
    (noOutputs : before.netlist.outputs = [])
    (ran : run (deliver name width word) provider before = (.ok netlist, after)) :
    netlist = (before.addOutput name word).netlist ∧ word.length = width := by
  rcases run_bind_eq_ok ran with ⟨_, middle, shown, ran⟩
  cases shown
  rcases run_bind_eq_ok ran with ⟨finished, last, isFinished, ran⟩
  have isNetlist := finish_eq_ok isFinished
  subst isNetlist
  rcases run_bind_eq_ok ran with ⟨_, checked, check, ran⟩
  cases ran
  refine ⟨rfl, ?_⟩
  have found : (before.addOutput name word).netlist.outputPort? name = some ⟨name, word⟩ := by
    simp [Netlist.outputPort?, Builder.addOutput, noOutputs]
  by_contra differs
  rw [Netlist.checkPortWidth, found] at check
  change run (ofExcept (liftM (if word.length = width then pure () else throw _))) _ _ = _ at check
  rw [if_neg differs] at check
  cases check

/-- A construction whose result is delivered can be run, and in each lane the output port shows what
the construction does to the streams of the input ports. -/
theorem Streams.exists_run {staged : Attempt (List SignalId)} {name : String} {width : Nat}
    {post : Trace → List SignalId → Prop} (streams : Streams before.size staged post)
    {ports : List Port} (opened : before.Opened ports) (names : (ports.map (·.name)).Nodup)
    (ran : run (staged >>= deliver name width) provider before = (.ok netlist, after))
    {stimulus : Nat → Netlist.Assignment UInt64}
    (fits : ∀ cycle, (stimulus cycle).map (fun entry => (entry.1, entry.2.length)) =
      ports.map fun port => (port.name, port.width)) :
    ∃ (word : List SignalId) (trace : Fin Lanes.count → Trace),
      (∀ lane, post (trace lane) word ∧ ∀ cycle, ports.map (·.bits.map (trace lane cycle)) =
        (stimulus cycle).map (·.2.map (Lanes.bit lane).map)) ∧
      ∀ cycle, ∃ simulator words, netlist.settledAt stimulus cycle = .ok simulator ∧
        simulator.output name = .ok words ∧ words.length = width ∧
        ∀ lane, words.map (Lanes.bit lane).map = word.map (trace lane cycle) := by
  rcases run_bind_eq_ok ran with ⟨word, built, isBuilt, isDelivered⟩
  have outcome := streams provider before word built (Nat.le_refl _) isBuilt
  have noOutputs : built.netlist.outputs = [] :=
    outcome.moves.extension.outputs.trans opened.outputs
  rcases deliver_eq_ok noOutputs isDelivered with ⟨rfl, isWidth⟩
  rcases outcome.exists_run opened names name fits with ⟨trace, holds, runs⟩
  refine ⟨word, trace, holds, fun cycle => ?_⟩
  rcases runs cycle with ⟨simulator, words, settled, isOutput, shown⟩
  refine ⟨simulator, words, settled, isOutput, ?_, shown⟩
  have lengths := congrArg List.length (shown ⟨0, by decide⟩)
  rw [List.length_map, List.length_map, isWidth] at lengths
  exact lengths

end Attempt

namespace Generator

open Builder (Steps start)

theorem generate_eq_ok {check : Except Error Unit} {name : String} {assemble : Attempt Netlist}
    {provider : Provider} {netlist : Netlist}
    (generated : (generate check name assemble provider).1 = .ok netlist) :
    ∃ complete after, check = .ok () ∧ provider.complete = .ok complete ∧
      Attempt.run assemble complete (start name) = (.ok netlist, after) := by
  cases checked : check with
  | error error =>
      rw [checked] at generated
      cases generated
  | ok passed =>
      cases accepted : provider.complete with
      | error error =>
          rw [generate, checked, accepted] at generated
          cases generated
      | ok complete =>
          rw [generate, checked, accepted] at generated
          exact ⟨complete, _, rfl, rfl, Prod.ext generated rfl⟩

/-- An assembly opens with the choice of the supply rails and an event. -/
theorem run_opening {α : Type} (powered : Bool) (event : String → Event) (rest : Attempt α)
    (provider : CompleteProvider) (name : String) :
    ∃ opened, opened.Opened [] ∧
      Attempt.run (liftM (Build.setPowered powered) >>= fun _ =>
        liftM Build.providerName >>= fun name => liftM (Build.note (event name)) >>= fun _ => rest)
          provider (start name) = Attempt.run rest provider opened := by
  have steps : Steps provider.toProvider True (start name) _ :=
    .tail (.single (.powered (start name) powered))
      (.moves (.single (.note _ (event provider.name))))
  exact ⟨_, ⟨(Builder.sound_start name).steps steps, rfl, rfl, rfl⟩, rfl⟩

theorem opening_eq_ok {α : Type} {powered : Bool} {event : String → Event} {rest : Attempt α}
    {provider : CompleteProvider} {name : String} {after : Builder} {result : α}
    (ran : Attempt.run (liftM (Build.setPowered powered) >>= fun _ =>
      liftM Build.providerName >>= fun name => liftM (Build.note (event name)) >>= fun _ => rest)
        provider (start name) = (.ok result, after)) :
    ∃ opened, opened.Opened [] ∧ Attempt.run rest provider opened = (.ok result, after) := by
  rcases run_opening powered event rest provider name with ⟨opened, isOpened, same⟩
  exact ⟨opened, isOpened, same.symm.trans ran⟩

end Generator

end Datapath

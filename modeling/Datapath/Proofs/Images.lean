import Datapath.Proofs.Computations
import Datapath.Proofs.Lanes
import Datapath.Simulation.Stimulus

/-!
# Images of simulators

The image of a simulator under a map of carriers holds the images of its values. An image does what
its simulator does, whatever the netlist: it reaches the image of the simulator's next state, and
where the simulator fails it fails in the same way. `Simulator.cycles_image` says so for any number
of cycles, and `Simulator.start_image` that all carriers start alike. A Boolean run is thus the
image of a run over words under their lowest lane: `Netlist.evaluateWords_eq_evaluate`.
-/

namespace Datapath

namespace Simulator

section Values

variable {α β : Type} (shown : α → β)

theorem read_map (values : Array α) (id : SignalId) :
    (read values id).map shown = read (values.map shown) id := by
  cases found : values[id]? <;> simp [read, found, Except.map, pure, Except.pure, throw, throwThe,
    MonadExceptOf.throw]

theorem mapM_read_map (values : Array α) (ids : List SignalId) :
    (ids.mapM (read values)).map (List.map shown) = ids.mapM (read (values.map shown)) := by
  simp only [Except.map_mapM, read_map]

theorem write_map (values : Array α) (id : SignalId) (value : α) :
    (write values id value).map (Array.map shown) =
      write (values.map shown) id (shown value) := by
  by_cases inside : id < values.size <;> simp [write, inside, Except.map, pure, Except.pure, throw,
    throwThe, MonadExceptOf.throw]

theorem writeAll_map (values : Array α) (entries : List (SignalId × α)) :
    (writeAll values entries).map (Array.map shown) =
      writeAll (values.map shown) (entries.map (Prod.map id shown)) :=
  Except.map_foldlM (fun entry _ values => write_map shown values entry.1 entry.2) values

end Values

variable {α β : Type} [Logic α] [Logic β] (morphism : Logic.Morphism α β)

/-- The simulator with the images of its values. -/
def image (simulator : Simulator α) : Simulator β where
  netlist := simulator.netlist
  combinational := simulator.combinational
  registers := simulator.registers
  values := simulator.values.map morphism.map

theorem settleGate_map (values : Array α) (gate : Gate) :
    (settleGate values gate).map (Array.map morphism.map) =
      settleGate (values.map morphism.map) gate := by
  rw [settleGate, settleGate, ← mapM_read_map]
  refine Except.map_bind fun inputs => ?_
  rw [Primitive.evaluate_map]
  refine Except.map_bind fun outputs => ?_
  rw [writeAll_map, List.zip_map_right]

theorem settle_image (simulator : Simulator α) :
    simulator.settle.map (image morphism) = (simulator.image morphism).settle := by
  have folded : (simulator.combinational.foldlM settleGate simulator.values).map
      (Array.map morphism.map) = (simulator.combinational.map id).foldlM settleGate
        (simulator.values.map morphism.map) :=
    Except.map_foldlM (fun gate _ values => settleGate_map morphism values gate) simulator.values
  rw [List.map_id] at folded
  rw [settle, settle, image, ← folded]
  exact Except.map_bind fun values => rfl

theorem sampleRegister_map (values : Array α) (register : Gate) :
    (sampleRegister values register).map (Prod.map id morphism.map) =
      sampleRegister (values.map morphism.map) register := by
  rw [sampleRegister, sampleRegister]
  cases firstPin register.inputs with
  | error fault => rfl
  | ok input =>
      change (read values input >>= _).map _ = read (values.map morphism.map) input >>= _
      rw [← read_map]
      refine Except.map_bind fun value => ?_
      cases firstPin register.outputs <;> rfl

theorem clock_image (simulator : Simulator α) :
    simulator.clock.map (image morphism) = (simulator.image morphism).clock := by
  have sampled : (simulator.registers.mapM (sampleRegister simulator.values)).map
      (List.map (Prod.map id morphism.map)) =
        simulator.registers.mapM (sampleRegister (simulator.values.map morphism.map)) := by
    simp only [Except.map_mapM, sampleRegister_map]
  rw [clock, clock, image, ← sampled]
  refine Except.map_bind fun entries => ?_
  rw [← writeAll_map]
  exact Except.map_bind fun values => rfl

theorem step_image (simulator : Simulator α) :
    simulator.step.map (image morphism) = (simulator.image morphism).step := by
  rw [step, step, ← settle_image]
  refine Except.map_bind fun settled => ?_
  rw [← clock_image]
  exact Except.map_bind fun clocked => settle_image morphism clocked

theorem cycles_image (count : Nat) (simulator : Simulator α) :
    (Netlist.cycles count simulator).map (image morphism) =
      Netlist.cycles count (simulator.image morphism) := by
  induction count generalizing simulator with
  | zero => rfl
  | succ count ih =>
      rw [Netlist.cycles, Netlist.cycles, ← step_image]
      exact Except.map_bind ih

theorem map_initialValue (signal : Signal) :
    morphism.map (initialValue signal) = initialValue signal := by
  cases signal <;> simp [initialValue]

theorem start_image (netlist : Netlist) :
    (start netlist).map (image morphism) = start netlist := by
  rw [start, start]
  cases netlist.combinationalOrder with
  | error cause => rfl
  | ok order =>
      have values : (netlist.signals.map initialValue).map morphism.map =
          netlist.signals.map initialValue := by
        simp only [Array.map_map, Function.comp_def, map_initialValue]
      exact congrArg (fun values => Except.ok (Simulator.mk netlist _ _ values)) values

theorem setInput_image (simulator : Simulator α) (name : String) (bits : List α) :
    (simulator.setInput name bits).map (image morphism) =
      (simulator.image morphism).setInput name (bits.map morphism.map) := by
  rw [setInput, setInput, image]
  cases simulator.netlist.inputPort? name with
  | none => rfl
  | some port =>
      dsimp only
      rw [List.length_map]
      by_cases width : port.width = bits.length
      · rw [if_neg (not_not_intro width), if_neg (not_not_intro width), List.zip_map_right,
          ← writeAll_map, ← Except.map_liftM]
        exact Except.map_bind fun values => rfl
      · rw [if_pos width, if_pos width]
        rfl

theorem output_image (simulator : Simulator α) (name : String) :
    (simulator.output name).map (List.map morphism.map) =
      (simulator.image morphism).output name := by
  rw [output, output, image]
  cases simulator.netlist.outputPort? name with
  | none => rfl
  | some port => simp only [Except.map_mapM, Except.map_liftM, read_map]

end Simulator

/-! ## Evaluation in the lowest lane -/

namespace Lanes

/-- The lane whose bit is the lowest of a word. -/
def lowest : Fin count :=
  ⟨0, Nat.zero_lt_succ _⟩

/-- A word that carries a truth value in the lowest lane. -/
def ofBit (bit : Bool) : UInt64 :=
  if bit then 1 else 0

theorem bit_lowest_ofBit (value : Bool) : (bit lowest).map (ofBit value) = value := by
  cases value <;> decide

theorem bit_lowest (word : UInt64) : (bit lowest).map word = (word &&& 1 == 1) := by
  have isBit := bit_ofNat lowest word.toNat
  rw [UInt64.ofNat_toNat, show (lowest : Nat) = 0 from rfl, Nat.testBit_zero] at isBit
  rw [isBit, Bool.eq_iff_iff, decide_eq_true_iff, beq_iff_eq, ← UInt64.toNat_inj,
    UInt64.toNat_and, UInt64.toNat_one, Nat.and_one_is_mod]

end Lanes

namespace Netlist

/-- Evaluation by a simulator of words, of which only the lowest lane is used. -/
def evaluateWords (netlist : Netlist) (inputs : List (List Bool)) :
    Except Error (List (List Bool)) := do
  unless inputs.length = netlist.inputs.length do
    throw (.fault .inputCount)
  let fresh : Simulator UInt64 ← Simulator.start netlist
  let loaded ← (netlist.inputs.zip inputs).foldlM
    (fun simulator (port, bits) => simulator.setInput port.name (bits.map Lanes.ofBit)) fresh
  let settled ← loaded.settle
  netlist.outputs.mapM fun port =>
    return (← settled.output port.name).map fun word => word &&& 1 == 1

/-- Evaluation gives what the lowest lane of a simulator of words shows, and fails where that
fails. -/
theorem evaluateWords_eq_evaluate (netlist : Netlist) (inputs : List (List Bool)) :
    netlist.evaluateWords inputs = netlist.evaluate inputs := by
  let image := Simulator.image (Lanes.bit Lanes.lowest)
  let setWords (simulator : Simulator UInt64) (pair : Port × List Bool) :=
    simulator.setInput pair.1.name (pair.2.map Lanes.ofBit)
  let setBits (simulator : Simulator Bool) (pair : Port × List Bool) :=
    simulator.setInput pair.1.name pair.2
  have sets (pair : Port × List Bool) (simulator : Simulator UInt64) :
      (setWords simulator pair).map image = setBits (image simulator) (id pair) := by
    refine (Simulator.setInput_image (Lanes.bit Lanes.lowest) simulator _ _).trans ?_
    simp only [List.map_map, Function.comp_def, Lanes.bit_lowest_ofBit, List.map_id']
    rfl
  have loads (simulator : Simulator UInt64) :
      ((netlist.inputs.zip inputs).foldlM setWords simulator).map image =
        ((netlist.inputs.zip inputs).map id).foldlM setBits (image simulator) :=
    Except.map_foldlM (fun pair _ simulator => sets pair simulator) simulator
  have shows (simulator : Simulator UInt64) (port : Port) :
      (do return (← simulator.output port.name).map fun word => word &&& 1 == 1 :
        Except Error (List Bool)) = (image simulator).output port.name := by
    rw [← Simulator.output_image]
    simp only [funext Lanes.bit_lowest]
    cases simulator.output port.name <;> rfl
  rw [evaluateWords, evaluate]
  by_cases count : inputs.length = netlist.inputs.length
  · rw [if_pos count, if_pos count, ← Simulator.start_image (Lanes.bit Lanes.lowest)]
    refine Eq.trans (congrFun Except.map_id _).symm ?_
    refine Except.map_bind fun fresh => ?_
    rw [List.map_id] at loads
    refine (Except.map_bind fun loaded => ?_).trans (congrArg (· >>= _) (loads fresh))
    have settles : (liftM loaded.settle : Except Error (Simulator UInt64)).map image =
        liftM (image loaded).settle := by
      rw [Except.map_liftM, Simulator.settle_image]
    refine (Except.map_bind fun settled => ?_).trans (congrArg (· >>= _) settles)
    simp only [shows]
    exact congrFun Except.map_id _
  · rw [if_neg count, if_neg count]
    rfl

end Netlist

end Datapath

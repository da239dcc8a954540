import Datapath.Proofs.Refinement

/-!
# Independent lanes

What a simulator of words does in one lane is what the netlist does with the truth values of that
lane: `Simulator.lane_behaves_iff`. So the other lanes have no influence. Two runs whose inputs
agree in a lane agree there in all signals, whether they bring words or batches of samples, and
however many samples a batch has.
-/

namespace Datapath

theorem Lanes.bit_words (lane : Fin count) (samples : List Sample) (width : Nat) :
    (words samples width).map (bit lane).map =
      (List.range width).map fun index => (samples.getD lane 0).getLsbD index := by
  rw [words, List.map_map]
  refine List.map_congr_left fun index _ => ?_
  rw [Function.comp_apply, bit_ofNat, Bits.testBit_value, List.getD_eq_getElem?_getD,
    List.getD_eq_getElem?_getD, List.getElem?_map]
  cases samples[lane.val]? <;> simp

/-- What a call asks for in one lane. A lane beyond the samples of a batch is given zero. -/
def Call.inLane (netlist : Netlist) (lane : Fin Lanes.count) : Call → Command Bool
  | .issue command => command.map (Lanes.bit lane).map
  | .samples name batch =>
    .set name ((List.range (width netlist name)).map fun index =>
      (batch.getD lane 0).getLsbD index)

theorem Call.map_spelled (netlist : Netlist) (lane : Fin Lanes.count) (call : Call) :
    (call.spelled netlist).map (Lanes.bit lane).map = call.inLane netlist lane := by
  cases call with
  | issue command => rfl
  | samples name batch => rw [spelled, Command.map, Lanes.bit_words, inLane]

theorem Call.map_inLane (netlist : Netlist) (lane : Fin Lanes.count) (calls : List Call) :
    calls.map (·.inLane netlist lane) =
      (calls.map (·.spelled netlist)).map (·.map (Lanes.bit lane).map) := by
  rw [List.map_map]
  exact List.map_congr_left fun call _ => (Call.map_spelled netlist lane call).symm

namespace Simulator

variable {netlist : Netlist} {simulator : Simulator UInt64}

/-- The truth values that the signals have in one lane. -/
def inLane (simulator : Simulator UInt64) (lane : Fin Lanes.count) : Valuation Bool :=
  (valuation simulator.values).map (Lanes.bit lane).map

/-- A lane of a run is what the netlist does with what the calls ask for in the lane. -/
theorem lane_behaves_iff (runnable : netlist.Runnable) (runs : simulator.Runs netlist)
    {calls : List Call} (fits : ∀ call ∈ calls, call.Fits) (lane : Fin Lanes.count)
    (value : Valuation Bool) :
    netlist.Behaves (calls.map (·.inLane netlist lane)) (simulator.inLane lane) value ↔
      ∃ last, simulator.run calls = .ok last ∧ value = last.inLane lane := by
  rw [run_eq_obeyAll runnable runs fits, Call.map_inLane]
  exact behaves_map_iff runnable runs (Lanes.bit lane) _ value

/-- The lanes are independent. For a netlist that passes the driver check and has no combinational
loop, each lane of a run is the run of the netlist on truth values with the inputs of that lane, and
two runs whose inputs agree in a lane have the same values in that lane. -/
theorem lanes_independent (netlist : Netlist) (checked : netlist.checkDrivers = .ok ())
    (loopFree : netlist.LoopFree) (lane : Fin Lanes.count) :
    ∃ started : Simulator UInt64, start netlist = .ok started ∧
      ∀ calls : List Call, (∀ call ∈ calls, call.Fits) →
        (∀ value, netlist.Behaves (calls.map (·.inLane netlist lane)) netlist.initial value ↔
          ∃ last, started.run calls = .ok last ∧ value = last.inLane lane) ∧
        ∀ others : List Call, (∀ call ∈ others, call.Fits) →
          others.map (·.inLane netlist lane) = calls.map (·.inLane netlist lane) →
          ∀ last, started.run calls = .ok last →
            ∃ other, started.run others = .ok other ∧
              ∀ id, other.inLane lane id = last.inLane lane id := by
  have runnable := Netlist.runnable_of_checkDrivers checked loopFree
  rcases exists_start_eq_initial (α := UInt64) runnable with ⟨started, isStarted, runs, isInitial⟩
  have initialInLane : started.inLane lane = netlist.initial := by
    rw [inLane, isInitial, Netlist.map_initial]
  have inThisLane {calls : List Call} (fits : ∀ call ∈ calls, call.Fits) (value : Valuation Bool) :
      netlist.Behaves (calls.map (·.inLane netlist lane)) netlist.initial value ↔
        ∃ last, started.run calls = .ok last ∧ value = last.inLane lane :=
    initialInLane ▸ lane_behaves_iff runnable runs fits lane value
  refine ⟨started, isStarted, fun calls fits => ⟨inThisLane fits, ?_⟩⟩
  intro others otherFits agree last followed
  have behaves := (inThisLane fits (last.inLane lane)).mpr ⟨last, followed, rfl⟩
  rw [← agree] at behaves
  rcases (inThisLane otherFits _).mp behaves with ⟨other, otherFollowed, same⟩
  exact ⟨other, otherFollowed, fun id => (congrFun same id).symm⟩

/-- A batch of one sample and a word that is true in all lanes agree in the first lane. -/
theorem lanes_independent_shiftRegister :
    shiftRegister.checkDrivers = .ok () ∧ shiftRegister.LoopFree ∧
      ∃ started last other : Simulator UInt64, start shiftRegister = .ok started ∧
        started.run [.samples "a" [1], .issue .step] = .ok last ∧
        started.run [.issue (.set "a" [~~~0]), .issue .step] = .ok other ∧
        ∀ id, other.inLane ⟨0, by decide⟩ id = last.inLane ⟨0, by decide⟩ id := by
  have checked : shiftRegister.checkDrivers = .ok () := rfl
  have loopFree := Netlist.loopFree_of_combinationalOrder combinationalOrder_shiftRegister
  rcases lanes_independent shiftRegister checked loopFree ⟨0, by decide⟩ with
    ⟨started, isStarted, every⟩
  have fits : ∀ call ∈ [Call.samples "a" [1], .issue .step], call.Fits := by
    simp [Call.Fits, Lanes.count]
  have otherFits : ∀ call ∈ [Call.issue (.set "a" [~~~0]), .issue .step], call.Fits := by
    simp [Call.Fits]
  have runnable := Netlist.runnable_of_checkDrivers checked loopFree
  rcases exists_start_eq_ok (α := UInt64) runnable with ⟨again, isAgain, runs, _⟩
  rw [isStarted] at isAgain
  cases isAgain
  rcases exists_run_eq_ok runnable inputsRead_shiftRegister runs fits with ⟨last, followed, _⟩
  rcases (every _ fits).2 _ otherFits (by decide) last followed with ⟨other, otherFollowed, agree⟩
  exact ⟨checked, loopFree, started, last, other, isStarted, followed, otherFollowed, agree⟩

end Simulator

end Datapath

import Datapath.Simulation.Simulator

/-!
# Stimuli

Runs of a netlist on given samples of its inputs: a batch of at most one sample for each lane, or
any number of samples, batch by batch.
-/

namespace Datapath.Netlist

/-- Samples for some of a netlist's input ports. -/
abbrev Stimulus := List (String × List Sample)

namespace Stimulus

/-- How many samples the first port has; the others must have as many. -/
def count (stimulus : Stimulus) : Nat :=
  match stimulus with
  | (_, samples) :: _ => samples.length
  | [] => 0

/-- The samples from one position up to another. -/
def slice (stimulus : Stimulus) (first past : Nat) : Except Fault Stimulus :=
  stimulus.mapM fun (name, samples) =>
    if samples.length < past then
      throw .sampleCount
    else
      pure (name, (samples.drop first).take (past - first))

/-- Gives every port of a stimulus its samples. -/
def load (stimulus : Stimulus) (simulator : Simulator UInt64) : Except Error (Simulator UInt64) :=
  List.foldlM
    (fun simulator (name, samples) =>
      if samples.length ≠ stimulus.count then
        throw (.fault .sampleCount)
      else
        simulator.setSamples name samples)
    simulator stimulus

end Stimulus

/-- Repeats cycles of a simulator. -/
def cycles {α : Type} [Logic α] : Nat → Simulator α → Except Fault (Simulator α)
  | 0, simulator => pure simulator
  | more + 1, simulator => do cycles more (← simulator.step)

/-- The samples of an output port once a batch of input samples has been held for as many clock
edges as the latency says. -/
def simulateBatch (netlist : Netlist) (stimulus : Stimulus) (output : String) (latency : Nat) :
    Except Error (List Sample) := do
  if stimulus.count > Lanes.count then
    throw (.fault .sampleCount)
  let loaded ← stimulus.load (← Simulator.start netlist)
  let settled ← loaded.settle
  (← cycles latency settled).samples output stimulus.count

/-- The samples of an output port for any number of input samples. -/
def simulateAll (netlist : Netlist) (stimulus : Stimulus) (output : String) (latency : Nat) :
    Except Error (List Sample) := do
  let total := stimulus.count
  let batches ← (List.range ((total + Lanes.count - 1) / Lanes.count)).mapM fun batch => do
    let first := Lanes.count * batch
    let slice ← stimulus.slice first (min (first + Lanes.count) total)
    netlist.simulateBatch slice output latency
  return batches.flatten

end Datapath.Netlist

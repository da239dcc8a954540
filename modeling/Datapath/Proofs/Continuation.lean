import Datapath.Proofs.Generation
import Datapath.Proofs.Paths

/-!
# Netlists that are continued

Whatever is built later, what has been built stays: `Netlist.Continues` says that the signals, the
gates and the input ports of a netlist are a beginning of those of a later one, and every step of a
construction continues the netlist.

The earlier signals keep their meaning as well. A source of the earlier netlist is one of the later
netlist, and what a gate of the earlier netlist reads was there when the gate was placed. So by
induction over the earlier netlist its signals settle to the same values in both, whatever the later
gates do: `Netlist.EvaluatedAlike`.
-/

namespace Datapath

namespace Netlist

/-- The signals, the gates and the input ports of the earlier netlist are a beginning of those of
the later one. -/
structure Continues (earlier later : Netlist) : Prop where
  signals : earlier.signals.toList <+: later.signals.toList
  gates : earlier.gates.toList <+: later.gates.toList
  inputs : earlier.inputs <+: later.inputs

/-- Both netlists can be simulated. When simulators of the two agree on the sources of the earlier
netlist, that is on its inputs, its literals and what its registers drive, they settle, and then
they agree on all its signals. -/
def EvaluatedAlike (α : Type) [Logic α] (earlier later : Netlist) : Prop :=
  ∃ first second : Simulator α,
    Simulator.start earlier = .ok first ∧ Simulator.start later = .ok second ∧
      ∀ values more : Array α, values.size = earlier.signals.size →
        more.size = later.signals.size →
          (∀ id, earlier.IsSource id → more[id]? = values[id]?) →
            ∃ settled moreSettled, Simulator.settle { first with values } = .ok settled ∧
              Simulator.settle { second with values := more } = .ok moreSettled ∧
                ∀ id < earlier.signals.size, moreSettled.values[id]? = settled.values[id]?

variable {earlier middle later : Netlist} {id : SignalId}

namespace Continues

theorem refl (netlist : Netlist) : netlist.Continues netlist :=
  ⟨List.prefix_refl _, List.prefix_refl _, List.prefix_refl _⟩

theorem trans (first : earlier.Continues middle) (second : middle.Continues later) :
    earlier.Continues later :=
  ⟨first.signals.trans second.signals, first.gates.trans second.gates,
    first.inputs.trans second.inputs⟩

variable (continues : earlier.Continues later)

include continues

theorem size_le : earlier.signals.size ≤ later.signals.size := by
  simpa using continues.signals.length_le

theorem signal_eq_some {signal : Signal} (found : earlier.signals[id]? = some signal) :
    later.signals[id]? = some signal := by
  rcases continues.signals with ⟨added, appended⟩
  rw [← Array.getElem?_toList] at found ⊢
  rw [← appended, List.getElem?_append_left (List.getElem?_eq_some_iff.mp found).1, found]

theorem isSource (source : earlier.IsSource id) : later.IsSource id := by
  rcases source with ⟨port, bit, found⟩ | ⟨value, found⟩ | ⟨register, isGate, registers⟩
  · exact .inl ⟨port, bit, continues.signal_eq_some found⟩
  · exact .inr (.inl ⟨value, continues.signal_eq_some found⟩)
  · exact .inr (.inr ⟨register, continues.gates.subset isGate, registers⟩)

/-- Where two settled valuations come from the same values of the sources, no later gate has changed
what the earlier gates compute. -/
theorem settlements_agree {α : Type} [Logic α] (driven : earlier.Driven)
    (runnable : earlier.Runnable) (drivable : later.Drivable)
    {given after moreGiven moreAfter : Valuation α} (settlement : earlier.Settlement given after)
    (moreSettlement : later.Settlement moreGiven moreAfter)
    (agree : ∀ id, earlier.IsSource id → moreGiven id = given id) (id : SignalId)
    (existing : id < earlier.signals.size) : moreAfter id = after id := by
  induction id using signal_induction runnable.wellFounded with
  | undriven id undriven =>
      have source : earlier.IsSource id := Supplied.isSource ⟨existing, driven.driven id⟩ undriven
      rw [settlement.kept id undriven, moreSettlement.kept id
        ((continues.isSource source).undriven drivable), agree id source]
  | driven gate member combinational same id output =>
      have inputs (id : SignalId) (pin : id ∈ gate.inputs) : moreAfter id = after id :=
        same id pin (runnable.existing gate member id pin)
      have carried := settlement.settled gate member combinational
      have carriedLater :=
        moreSettlement.settled gate (continues.gates.subset member) combinational
      rw [Gate.Carries, List.map_congr_left inputs, carried] at carriedLater
      exact (List.map_inj_left.mp (Except.ok.inj carriedLater) id output).symm

theorem evaluatedAlike (α : Type) [Logic α] (driven : earlier.Driven) (runnable : earlier.Runnable)
    (runnableLater : later.Runnable) : EvaluatedAlike α earlier later := by
  rcases Simulator.exists_start_eq_ok (α := α) runnable with ⟨first, isFirst, runs, _⟩
  rcases Simulator.exists_start_eq_ok (α := α) runnableLater with ⟨second, isSecond, runsLater, _⟩
  refine ⟨first, second, isFirst, isSecond, fun values more size moreSize agree => ?_⟩
  rcases Simulator.exists_settlement runnable (runs.resized (size.trans runs.size_eq.symm)) with
    ⟨settled, isSettled, settledRuns, settlement⟩
  rcases Simulator.exists_settlement runnableLater
      (runsLater.resized (moreSize.trans runsLater.size_eq.symm)) with
    ⟨moreSettled, isMoreSettled, moreRuns, moreSettlement⟩
  refine ⟨settled, moreSettled, isSettled, isMoreSettled, fun id existing => ?_⟩
  have same := continues.settlements_agree driven runnable runnableLater.toDrivable settlement
    moreSettlement (fun id source => Simulator.valuation_eq_of_getElem? (agree id source)) id
    existing
  have inside : id < settled.values.size := settledRuns.size_eq ▸ existing
  have moreInside : id < moreSettled.values.size :=
    moreRuns.size_eq ▸ Nat.lt_of_lt_of_le existing continues.size_le
  simpa [Simulator.valuation, inside, moreInside] using same

end Continues

end Netlist

namespace Builder

variable {provider : Provider} {strict : Prop} {before after : Builder}

theorem Extension.continues (extension : Extension provider strict before after) :
    before.netlist.Continues after.netlist where
  signals := by
    rcases extension.signals with ⟨labels, appended⟩
    exact ⟨_, appended.symm⟩
  gates := ⟨_, extension.gates.symm⟩
  inputs := extension.inputs ▸ List.prefix_refl _

theorem Step.continues (step : Step provider strict before after) :
    before.netlist.Continues after.netlist := by
  cases step with
  | moves moves => exact moves.extension.continues
  | input name width =>
      refine ⟨?_, List.prefix_refl _, List.prefix_append _ _⟩
      rw [addInput, Array.toList_append]
      exact List.prefix_append _ _
  | output name bits => exact { Netlist.Continues.refl before.netlist with }
  | powered powered => exact { Netlist.Continues.refl before.netlist with }

theorem Steps.continues (steps : Steps provider strict before after) :
    before.netlist.Continues after.netlist := by
  induction steps with
  | refl => exact .refl before.netlist
  | tail _ step ih => exact ih.trans step.continues

/-- What is built from a sound builder leaves the meaning of its signals alone. -/
theorem Sound.evaluatedAlike (sound : before.Sound) (steps : Steps provider True before after)
    (α : Type) [Logic α] : Netlist.EvaluatedAlike α before.netlist after.netlist :=
  steps.continues.evaluatedAlike α sound.coherent.driven sound.runnable (sound.steps steps).runnable

end Builder

end Datapath

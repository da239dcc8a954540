import Datapath.Proofs.Naming
import Datapath.Proofs.Operations

/-!
# Names that tell apart

Scopes are any texts: they may be empty, end in digits, look like short names of primitives, or
change at any time. Still a gate is named for its number, which rises with every gate, also with
those that a decomposition places. So `Operation.performAll_named` says that operations of any kind
leave gates with different names and wires whose names belong to no other wire and to no input
signal.
-/

namespace Datapath

namespace Builder

variable {provider : Provider} {strict : Prop} {before after : Builder}

theorem Move.numbered (move : Move provider strict before after)
    (numbered : before.netlist.Numbered) : after.netlist.Numbered := by
  cases move with
  | note event => exact numbered
  | scope scope => exact numbered
  | place realized legal existing => exact numbered_place numbered _ _ _ _

theorem Step.numbered (step : Step provider strict before after)
    (numbered : before.netlist.Numbered) : after.netlist.Numbered := by
  cases step with
  | moves moves =>
      induction moves with
      | refl => exact numbered
      | tail _ move ih => exact move.numbered ih
  | input name width => exact numbered
  | output name bits => exact numbered
  | powered powered => exact numbered

/-- The gates of every builder are named for their numbers. -/
theorem Steps.numbered {name : String} (steps : Steps provider strict (.start name) after) :
    after.netlist.Numbered := by
  induction steps with
  | refl => exact fun number gate found => by simp [start] at found
  | tail _ step ih => exact step.numbered ih

end Builder

namespace Netlist

variable {netlist : Netlist} {id other : SignalId}

theorem signalText_of_signal {signal : Signal} (found : netlist.signals[id]? = some signal) :
    netlist.signalText id = .ok (signal.text id) := by
  rw [signalText, Netlist.signal, found]
  rfl

/-- Wires of one name are one wire. -/
theorem IsWire.eq_of_signalText_eq (isWire : netlist.IsWire id) (isOther : netlist.IsWire other)
    (same : netlist.signalText other = netlist.signalText id) : other = id := by
  rcases isWire with ⟨label, found⟩
  rcases isOther with ⟨otherLabel, foundOther⟩
  rw [signalText_of_signal found, signalText_of_signal foundOther] at same
  exact Signal.eq_of_text_eq (Except.ok.inj same)

/-- No input signal has the name of a wire. -/
theorem IsWire.signalText_ne (isWire : netlist.IsWire id) {port : String} {bit : Nat}
    (isInput : netlist.signals[other]? = some (.input port bit)) :
    netlist.signalText other ≠ netlist.signalText id := by
  intro same
  rcases isWire with ⟨label, found⟩
  rw [signalText_of_signal found, signalText_of_signal isInput] at same
  apply Signal.not_endsInDigit_bitText port bit
  rw [show Signal.bitText port bit = _ from Except.ok.inj same]
  exact Signal.endsInDigit_text label id

end Netlist

namespace Operation

open Builder (Steps)

variable {provider : CompleteProvider} {memory : Memory} {name : String}
  {operations : List Operation} {after : Builder}

/-- Whatever the scopes are: all gates that operations of any kind place have different names, and
every wire has a name that no other wire has and no input signal has. -/
theorem performAll_named
    (ran : (performAll memory operations).run provider (.start name) = (.ok (), after)) :
    let netlist := after.netlist
    (netlist.gates.toList.map (·.name)).Nodup ∧
      ∀ id label, netlist.signals[id]? = some (.wire label) →
        ∃ text, netlist.signalText id = .ok text ∧
          (∀ other otherLabel, netlist.signals[other]? = some (.wire otherLabel) →
            netlist.signalText other = .ok text → other = id) ∧
          ∀ other port bit, netlist.signals[other]? = some (.input port bit) →
            netlist.signalText other ≠ .ok text := by
  intro netlist
  have steps : Steps provider.toProvider False (.start name) after :=
    performAll_steps ran False.elim
  refine ⟨steps.numbered.nodup_names, fun id label found => ?_⟩
  have isWire : netlist.IsWire id := ⟨label, found⟩
  have isText := Netlist.signalText_of_signal found
  refine ⟨_, isText, fun other otherLabel isOther same => ?_, fun other port bit isInput => ?_⟩
  · exact isWire.eq_of_signalText_eq ⟨otherLabel, isOther⟩ (same.trans isText.symm)
  · exact isText ▸ isWire.signalText_ne isInput

/-- Scopes that are empty or end like names, a decomposition in the first, and an input port called
like the wires without a scope. -/
theorem performAll_named_scopes :
    let provider : CompleteProvider := ⟨.restrictedTo [.and2, .inv, .dff, .ao21], by decide⟩
    let operations : List Operation :=
      [.input "n" 2, .scope (some ""), .ao22 2 3 2 1, .scope (some "and2_0"), .inv 2,
        .scope (some "and2"), .register 4, .scope none, .and2 2 3]
    ∃ after, (performAll .machine operations).run provider (.start "scopes") = (.ok (), after) ∧
      after.netlist.gates.toList.map (·.name) =
        ["_and2_0", "_ao21_1", "and2_0_inv_2", "and2_dff_3", "and2_4"] ∧
      (after.netlist.gates.toList.map (·.name)).Nodup ∧
      after.netlist.signalText 8 = .ok "n8" ∧
      ∀ other port bit, after.netlist.signals[other]? = some (.input port bit) →
        after.netlist.signalText other ≠ .ok "n8" := by
  intro provider operations
  have ran : (performAll .machine operations).run provider (.start "scopes") = (.ok (), _) := rfl
  rcases performAll_named ran with ⟨distinct, named⟩
  rcases named 8 none (by decide +kernel) with ⟨text, isText, _, apart⟩
  have isName : text = "n8" := Except.ok.inj (isText.symm.trans (by decide +kernel))
  subst isName
  exact ⟨_, ran, by decide +kernel, distinct, isText, apart⟩

end Operation

end Datapath

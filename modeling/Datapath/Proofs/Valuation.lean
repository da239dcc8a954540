import Datapath.Netlist.Basic
import Datapath.Proofs.Lanes

/-!
# Valuations and traces

A valuation gives every signal a value. It settles a list of gates when every combinational gate
among them carries what its primitive computes. A trace gives every signal a value in every cycle;
it obeys a netlist when it shows the literals, settles the gates in each cycle and moves the inputs
of the registers to their outputs from each cycle to the next.

A construction only ever adds gates, so a trace that obeys the finished netlist settles whatever
was built on the way. Statements about constructions are therefore statements about every
valuation or trace of what they leave behind.
-/

namespace Datapath

/-- A value for every signal. -/
abbrev Valuation (α : Type) := SignalId → α

namespace Gate

variable {α β : Type} [Logic α] [Logic β]

/-- The gate has a legal number of pins. -/
def Legal (gate : Gate) : Prop :=
  gate.primitive.accepts gate.inputs.length gate.outputs.length = true

theorem legal_iff {gate : Gate} :
    gate.Legal ↔ gate.primitive.arity = some (gate.inputs.length, gate.outputs.length) ∨
      gate.primitive = .add ∧ 0 < gate.outputs.length ∧
        gate.inputs.length = 2 * gate.outputs.length := by
  rcases gate with ⟨name, primitive, inputs, outputs, realization⟩
  cases primitive <;> simp [Legal, Primitive.accepts, Primitive.arity]

/-- The outputs carry in one valuation what the primitive computes from the inputs in another. -/
def Carries (gate : Gate) (before after : Valuation α) : Prop :=
  gate.primitive.evaluate (gate.inputs.map before) gate.outputs.length =
    .ok (gate.outputs.map after)

theorem Carries.map {gate : Gate} {before after : Valuation α} (carries : gate.Carries before after)
    (morphism : Logic.Morphism α β) :
    gate.Carries (fun id => morphism.map (before id)) (fun id => morphism.map (after id)) := by
  have mapped := gate.primitive.evaluate_map morphism (gate.inputs.map before) gate.outputs.length
  rw [show gate.primitive.evaluate (gate.inputs.map before) gate.outputs.length = _ from carries]
    at mapped
  simpa [Carries, Except.map, Function.comp_def] using mapped

theorem isRegister_eq_not_isCombinational (gate : Gate) :
    gate.isRegister = !gate.isCombinational := by
  rcases gate with ⟨name, primitive, inputs, outputs, realization⟩
  cases primitive <;> rfl

theorem isRegister_iff (gate : Gate) : gate.isRegister = true ↔ gate.primitive = .dff := by
  rcases gate with ⟨name, primitive, inputs, outputs, realization⟩
  cases primitive <;> simp [isRegister, Primitive.domain]

theorem exists_output {gate : Gate} (legal : gate.Legal) : ∃ output, output ∈ gate.outputs := by
  refine List.exists_mem_of_length_pos (Nat.pos_of_ne_zero fun none => ?_)
  rw [Legal, none] at legal
  rcases gate with ⟨name, primitive, inputs, outputs, realization⟩
  cases primitive <;> simp [Primitive.accepts, Primitive.arity] at legal

theorem lengths_of_add {gate : Gate} (isAdd : gate.primitive = .add) (legal : gate.Legal) :
    0 < gate.outputs.length ∧ gate.inputs.length = 2 * gate.outputs.length := by
  simpa [Legal, isAdd, Primitive.accepts, Primitive.arity] using legal

theorem exists_input {gate : Gate} (legal : gate.Legal) : ∃ input, input ∈ gate.inputs := by
  refine List.exists_mem_of_length_pos (Nat.pos_of_ne_zero fun none => ?_)
  cases primitive : gate.primitive with
  | add =>
      have lengths := lengths_of_add primitive legal
      omega
  | _ => simp [Legal, primitive, none, Primitive.accepts, Primitive.arity] at legal

theorem exists_pins_of_isRegister {gate : Gate} (legal : gate.Legal)
    (register : gate.isRegister = true) : ∃ d q, gate.inputs = [d] ∧ gate.outputs = [q] := by
  rw [Legal, (isRegister_iff gate).mp register] at legal
  have lengths : 1 = gate.inputs.length ∧ 1 = gate.outputs.length := by
    simpa [Primitive.accepts, Primitive.arity] using legal
  rcases List.length_eq_one_iff.mp lengths.1.symm with ⟨d, isInputs⟩
  rcases List.length_eq_one_iff.mp lengths.2.symm with ⟨q, isOutputs⟩
  exact ⟨d, q, isInputs, isOutputs⟩

/-- Every combinational gate of a list carries what it computes. -/
def Settled (gates : List Gate) (value : Valuation α) : Prop :=
  ∀ gate ∈ gates, gate.isCombinational = true → gate.Carries value value

theorem settled_append {left right : List Gate} {value : Valuation α} :
    Settled (left ++ right) value ↔ Settled left value ∧ Settled right value := by
  constructor
  · intro settled
    exact ⟨fun gate member => settled gate (List.mem_append_left _ member),
      fun gate member => settled gate (List.mem_append_right _ member)⟩
  · rintro ⟨settledLeft, settledRight⟩ gate member
    rcases List.mem_append.mp member with inLeft | inRight
    · exact settledLeft gate inLeft
    · exact settledRight gate inRight

theorem Settled.map {gates : List Gate} {value : Valuation α} (settled : Settled gates value)
    (morphism : Logic.Morphism α β) : Settled gates fun id => morphism.map (value id) :=
  fun gate member combinational => (settled gate member combinational).map morphism

end Gate

namespace Netlist

variable {α β : Type} [Logic α] [Logic β]

/-- The trace is one of the runs of the netlist. -/
structure Obeys (netlist : Netlist) (trace : Nat → Valuation α) : Prop where
  literal : ∀ {id : SignalId} {value : Bool}, netlist.signals[id]? = some (.literal value) →
    ∀ cycle, trace cycle id = Logic.ofBool value
  settled : ∀ cycle, Gate.Settled netlist.gates.toList (trace cycle)
  clocked : ∀ gate ∈ netlist.gates.toList, gate.isRegister = true →
    ∀ cycle, gate.Carries (trace cycle) (trace (cycle + 1))

theorem Obeys.map {netlist : Netlist} {trace : Nat → Valuation α} (obeys : netlist.Obeys trace)
    (morphism : Logic.Morphism α β) :
    netlist.Obeys fun cycle id => morphism.map (trace cycle id) where
  literal found cycle := by
    rw [obeys.literal found cycle, morphism.map_ofBool]
  settled cycle := (obeys.settled cycle).map morphism
  clocked gate member register cycle := (obeys.clocked gate member register cycle).map morphism

end Netlist

end Datapath

import Datapath.Proofs.Agreement
import Datapath.Proofs.Composition

/-!
# Texts of generated netlists

What the generators make with a provider that leaves gates to synthesis is printable, as no gate is
bound to a cell. So the texts of all adders and multipliers agree with their simulation:
`Generator.texts_agree`.
-/

namespace Datapath

/-- The provider leaves every gate that it realizes to synthesis. -/
def Provider.Infers (provider : Provider) : Prop :=
  provider = .inferred ∨ ∃ supported, provider = .restrictedTo supported

theorem Provider.Infers.realization_eq {provider : Provider} (infers : provider.Infers)
    {primitive : Primitive} {realization : Realization}
    (realized : provider.realize primitive = some realization) : realization = .inferred := by
  rcases infers with rfl | ⟨supported, rfl⟩
  · exact (Option.some.inj realized).symm
  · rw [restrictedTo] at realized
    dsimp only at realized
    split at realized
    · exact (Option.some.inj realized).symm
    · cases realized

theorem Netlist.Composed.printable {provider : Provider} {netlist : Netlist}
    (composed : netlist.Composed provider) (infers : provider.Infers) : netlist.Printable :=
  { composed.toPresentable with
    inferred := fun gate member => infers.realization_eq (composed.realized gate member) }

namespace Generator

/-- For all options, and whichever primitives a provider leaves to synthesis, the text of a
generated netlist agrees with its simulation: read as equations between bits with registers that
start false, it gives every output port, after any sequence of inputs and clock edges, the bits that
a simulator gives it. -/
theorem texts_agree :
    (∀ (options : Adder.Options) (provider : Provider) (memory : Memory) (netlist : Netlist),
      provider.Infers → options.generate provider memory = .ok netlist → netlist.TextAgrees) ∧
    ∀ (options : Multiplier.Options) (provider : Provider) (memory : Memory) (netlist : Netlist),
      provider.Infers → options.generate provider memory = .ok netlist → netlist.TextAgrees :=
  ⟨fun _ _ _ _ infers generated =>
      ((Adder.Options.composed generated).printable infers).textAgrees,
    fun _ _ _ _ infers generated =>
      ((Multiplier.Options.composed generated).printable infers).textAgrees⟩

/-- A registered adder of two bits: three and two are added at the edge of the clock. -/
theorem texts_agree_registered :
    ∃ netlist text module environment,
      Adder.Options.generate { width := 2, algorithm := .inferred, registerInput := true }
        (.restrictedTo [.and2, .inv, .dff, .add]) = .ok netlist ∧
      netlist.verilogText = .ok text ∧ Verilog.Module.read netlist.name text = some module ∧
      module.Executes netlist.clockText
        [.take "a" [true, true], .take "b" [false, true], .tick] environment ∧
      (List.range 2).map (environment "o") = [true, false] := by
  let options : Adder.Options := { width := 2, algorithm := .inferred, registerInput := true }
  let provider := Provider.restrictedTo [.and2, .inv, .dff, .add]
  let calls : List Call :=
    [.samples "a" [3], .samples "b" [2], .issue .settle, .issue .clock]
  have interface : (options.generate provider).toOption.map
      (fun netlist => (netlist.inputs, netlist.outputs)) =
        some ([⟨"a", [2, 3]⟩, ⟨"b", [4, 5]⟩], [⟨"o", [10, 11]⟩]) := by
    decide +kernel
  have sums : ((options.generate provider).toOption.bind fun netlist =>
      (Simulator.start netlist : Except Error (Simulator UInt64)).toOption.bind fun started =>
        (started.run calls).toOption.bind fun last => last.settle.toOption.bind fun shown =>
          (shown.output "o").toOption) = some [1, 0] := by
    decide +kernel
  cases generated : options.generate provider with
  | error error =>
      rw [generated] at interface
      cases interface
  | ok netlist =>
      rw [generated] at interface sums
      rcases Prod.mk.inj (Option.some.inj interface) with ⟨inputs, outputs⟩
      rcases texts_agree.1 options provider .machine netlist (.inr ⟨_, rfl⟩) generated with
        ⟨text, module, written, isRead, _, started, isStarted, every⟩
      have fits : ∀ call ∈ calls, call.Fits := by simp [calls, Call.Fits, Lanes.count]
      have timely : Command.Timely false (calls.map (·.spelled netlist)) := by
        simp [calls, Call.spelled, Command.Timely, Command.settles]
      rcases every calls fits timely with ⟨last, shown, followed, isShown, agree⟩
      rcases agree ⟨0, by decide⟩ with ⟨⟨environment, executes⟩, shows⟩
      rcases shows environment executes ⟨"o", [10, 11]⟩ (by simp [outputs]) with
        ⟨words, isOutput, isWord⟩
      have isSum : words = [1, 0] := by
        simpa [isStarted, followed, isShown, isOutput, Except.toOption] using sums
      have actions : netlist.actions calls ⟨0, by decide⟩ =
          [.take "a" [true, true], .take "b" [false, true], .tick] := by
        simp [calls, Netlist.actions, Call.inLane, Call.width, Command.actions,
          Netlist.inputPort?, inputs, Port.width]
        decide
      refine ⟨netlist, text, module, environment, rfl, written, isRead, actions ▸ executes, ?_⟩
      refine isWord.symm.trans ?_
      rw [isSum]
      decide

end Generator

end Datapath

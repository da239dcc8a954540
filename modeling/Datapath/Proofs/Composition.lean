import Datapath.Proofs.Success
import Datapath.Proofs.Wiring

/-!
# Composition of generated netlists

Whatever the provider is, the generators put netlists together from the steps of a builder between
ports of one letter and at least one bit. So what they make is composed: its text can be written,
and the module of that text is wired as `Datapath.Proofs.Wiring` says.
-/

namespace Datapath

open Verilog (IsName EndsInDigit)

namespace Attempt

variable {provider : CompleteProvider} {before after : Builder} {netlist : Netlist}

theorem ofExcept_eq_ok {α : Type} {result : Except Error α} {value : α}
    (ran : run (ofExcept result) provider before = (.ok value, after)) : after = before := by
  cases result <;> cases ran
  rfl

/-- The builder that is left behind has the netlist that is handed over. -/
theorem netlist_of_deliver {name : String} {width : Nat} {word : List SignalId}
    (ran : run (deliver name width word) provider before = (.ok netlist, after)) :
    after.netlist = netlist := by
  rcases run_bind_eq_ok ran with ⟨_, middle, shown, ran⟩
  rcases run_bind_eq_ok ran with ⟨finished, last, isFinished, ran⟩
  rcases run_bind_eq_ok ran with ⟨_, checked, isChecked, ran⟩
  cases ran
  rw [ofExcept_eq_ok isChecked]
  rcases run_bind_eq_ok isFinished with ⟨builder, same, got, isFinished⟩
  cases got
  rcases run_bind_eq_ok isFinished with ⟨_, driven, isDriven, isFinished⟩
  rcases run_bind_eq_ok isFinished with ⟨_, noted, isNoted, isFinished⟩
  cases isFinished
  cases isNoted
  rw [ofExcept_eq_ok isDriven]

end Attempt

namespace Generator

variable {provider : CompleteProvider} {before after : Builder} {netlist : Netlist}
  {ports : List Port}

theorem isName_port : ∀ name ∈ ["a", "b", "c", "o"], IsName name ∧ ¬ EndsInDigit name := by
  decide

/-- What is built from input ports that are not empty is delivered as a netlist that is composed:
builders stay tidy, the clock is `clk`, and the ports have names of one letter. -/
theorem composed_of_deliver {staged : Attempt (List SignalId)} {width : Nat}
    {post : Trace → List SignalId → Prop} (streams : Attempt.Streams before.size staged post)
    (opened : before.Opened ports) (names : (ports.map (·.name)).Nodup)
    (named : ∀ port ∈ ports, port.name ∈ ["a", "b", "c"] ∧ port.bits ≠ []) (positive : width ≠ 0)
    (ran : Attempt.run (staged >>= Attempt.deliver "o" width) provider before =
      (.ok netlist, after))
    (tidy : after.Tidy provider.toProvider) : netlist.Composed provider.toProvider := by
  rcases Attempt.run_bind_eq_ok ran with ⟨word, built, isBuilt, isDelivered⟩
  have outcome := streams provider before word built (Nat.le_refl _) isBuilt
  have extension := outcome.moves.extension
  have noOutputs : built.netlist.outputs = [] := extension.outputs.trans opened.outputs
  have isNetlist := Attempt.netlist_of_deliver isDelivered
  rcases Attempt.deliver_eq_ok noOutputs isDelivered with ⟨same, isWidth⟩
  have shows : Builder.Step provider.toProvider True built (built.addOutput "o" word) :=
    .output built "o" word
  have sound := (opened.sound.step (.moves outcome.moves)).step shows
  have inputs : netlist.inputs = ports := by
    rw [same]
    exact extension.inputs.trans opened.inputs
  have outputs : netlist.outputs = [⟨"o", word⟩] := by
    rw [same, Builder.addOutput, noOutputs]
    rfl
  have isClock : netlist.clock = none ∨ netlist.clock = some "clk" := by
    cases found : netlist.clock with
    | none => exact .inl rfl
    | some text => exact .inr (congrArg some (tidy.clock text (isNetlist ▸ found)))
  have isClockText : netlist.clockText = "clk" := by
    rcases isClock with none | some
    · rw [Netlist.clockText, none]
      rfl
    · rw [Netlist.clockText, some]
      rfl
  have scalars : (netlist.clock.toList ++ netlist.rails).Sublist ["clk", "VPWR", "VGND"] := by
    have clock : netlist.clock.toList.Sublist ["clk"] := by
      rcases isClock with none | some
      · rw [none]
        exact List.nil_sublist _
      · rw [some]
        exact .refl _
    have rails : netlist.rails.Sublist ["VPWR", "VGND"] := by
      rw [Netlist.rails]
      split <;> simp
    exact clock.append rails
  have letters : (ports.map (·.name) ++ ["o"]).Nodup := by
    refine List.nodup_append.mpr ⟨names, List.nodup_singleton _, ?_⟩
    rintro name isInput _ isOutput rfl
    rcases List.mem_map.mp isInput with ⟨port, member, rfl⟩
    exact absurd (List.mem_singleton.mp isOutput ▸ (named port member).1) (by decide)
  have apart : ∀ scalar ∈ ["clk", "VPWR", "VGND"], scalar ∉ ["a", "b", "c", "o"] := by decide
  exact {
    runnable := same ▸ sound.runnable
    driven := same ▸ sound.coherent.driven.driven
    shown := by
      rw [outputs, List.forall_mem_singleton, same]
      exact outcome.within
    drives := same ▸ sound.coherent.drives
    realized := isNetlist ▸ tidy.realized
    labels := isNetlist ▸ fun text isLabel => (tidy.labels text isLabel).toIsStem
    isLabel := isNetlist ▸ tidy.labels
    numbered := isNetlist ▸ tidy.numbered
    clocked := by
      intro gate member isDff none
      have isClock := sound.coherent.clock
      rw [← same, none, List.any_eq_true.mpr ⟨gate, member, decide_eq_true isDff⟩] at isClock
      cases isClock
    gateNames := isNetlist ▸ tidy.gateNames
    posted := isNetlist ▸ tidy.posted
    clock := by
      rw [isClockText]
      decide
    ports := by
      rw [inputs, outputs, List.forall_mem_append, List.forall_mem_singleton]
      have shown : IsName "o" ∧ ¬ EndsInDigit "o" := isName_port "o" (by decide)
      have some : word ≠ [] := List.ne_nil_of_length_pos (isWidth ▸ Nat.pos_of_ne_zero positive)
      refine ⟨fun port member => ?_, shown.1, shown.2, some⟩
      have letter := isName_port _ (List.mem_append_left ["o"] (named port member).1)
      exact ⟨letter.1, letter.2, (named port member).2⟩
    distinct := by
      rw [Netlist.inputNames, inputs, outputs, List.map_singleton, List.append_assoc]
      refine List.nodup_append.mpr ⟨scalars.nodup (by decide), letters, ?_⟩
      rintro scalar isScalar _ isPort rfl
      refine apart scalar (scalars.subset isScalar) ?_
      rcases List.mem_append.mp isPort with isInput | isOutput
      · rcases List.mem_map.mp isInput with ⟨port, member, rfl⟩
        exact List.mem_append_left ["o"] (named port member).1
      · exact List.mem_append_right ["a", "b", "c"] isOutput }

end Generator

namespace Adder

theorem Algorithm.ne_zero_of_checkWidth {algorithm : Algorithm} {width : Nat}
    (accepted : algorithm.checkWidth width = .ok ()) : width ≠ 0 := by
  rintro rfl
  cases accepted

theorem Options.composed {options : Options} {provider : Provider} {memory : Memory}
    {netlist : Netlist} (generated : options.generate provider memory = .ok netlist) :
    netlist.Composed provider := by
  rcases exists_opening generated with
    ⟨complete, after, builder, left, right, accepted, assembled, opening⟩
  have isProvider := Provider.toProvider_of_complete accepted
  have tidy := options.tidies_assemble memory complete _ (Builder.tidy_start _ options.name)
  rw [assembled] at tidy
  have positive : options.width ≠ 0 := Algorithm.ne_zero_of_checkWidth opening.checked
  refine isProvider ▸ Generator.composed_of_deliver
    (options.staged_streams opening.lt.1 opening.lt.2) opening.opened (by simp) ?_ positive
    opening.ran tidy
  have some {word : List SignalId} (width : word.length = options.width) : word ≠ [] :=
    List.ne_nil_of_length_pos (width ▸ Nat.pos_of_ne_zero positive)
  simp [some opening.widthA, some opening.widthB]

end Adder

namespace Multiplier.Options

theorem composed {options : Options} {provider : Provider} {memory : Memory} {netlist : Netlist}
    (generated : options.generate provider memory = .ok netlist) : netlist.Composed provider := by
  rcases Generator.generate_eq_ok generated with ⟨complete, after, checked, accepted, ran⟩
  have isProvider := Provider.toProvider_of_complete accepted
  have tidy := options.tidies_assemble memory complete _ (Builder.tidy_start _ options.name)
  rw [ran] at tidy
  have positive : 2 * options.width ≠ 0 :=
    Adder.Algorithm.ne_zero_of_checkWidth (check_eq_ok checked).2
  rw [assemble_eq] at ran
  rcases Generator.opening_eq_ok ran with ⟨opened, isOpened, ran⟩
  rcases Attempt.run_bind_eq_ok ran with ⟨left, withA, inputA, ran⟩
  rcases Attempt.run_bind_eq_ok ran with ⟨right, withB, inputB, ran⟩
  rcases Attempt.run_bind_eq_ok ran with ⟨addend, withC, inputC, ran⟩
  rcases Attempt.input_opened isOpened inputA with ⟨openedA, widthLeft⟩
  rcases Attempt.input_opened openedA inputB with ⟨openedB, widthRight⟩
  rcases addend_opened openedB inputC with ⟨openedAll, addend_lt, widthAddend⟩
  have openedC : withC.Opened (options.ports left right addend) := openedAll
  have left_lt : Below withC.size left :=
    openedC.lt (by simp [ports] : (⟨"a", left⟩ : Port) ∈ options.ports left right addend)
  have right_lt : Below withC.size right :=
    openedC.lt (by simp [ports] : (⟨"b", right⟩ : Port) ∈ options.ports left right addend)
  have literals : Builder.trueId < withC.size :=
    (Array.getElem?_eq_some_iff.mp openedC.sound.literalTrue).1
  refine isProvider ▸ Generator.composed_of_deliver
    (options.staged_streams literals left_lt right_lt addend_lt) openedC
    (options.nodup_ports left right addend) ?_ positive ran tidy
  have some {word : List SignalId} (width : word.length ≠ 0) : word ≠ [] :=
    List.ne_nil_of_length_pos (Nat.pos_of_ne_zero width)
  have single : options.width ≠ 0 := by omega
  cases added : options.multiplyAdd with
  | false =>
      simp [ports, added, some (widthLeft ▸ single), some (widthRight ▸ single)]
  | true =>
      rw [added, if_pos rfl] at widthAddend
      simp [ports, added, some (widthLeft ▸ single), some (widthRight ▸ single),
        some (widthAddend ▸ positive)]

end Multiplier.Options

end Datapath

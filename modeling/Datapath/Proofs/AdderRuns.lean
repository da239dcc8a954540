import Datapath.Generator.Adder
import Datapath.Proofs.Addition
import Datapath.Proofs.Generation

/-!
# Runs of generated adders

After its latency, a generated adder shows in each lane and cycle the sum of the operands that it
was given as many cycles before, whatever the algorithm, the register stages and the provider are.
-/

namespace Datapath.Adder.Options

open Attempt (Streams)

/-- The sum between its register stages. -/
def staged (options : Options) (a b : List SignalId) : Attempt (List SignalId) := do
  let a ← Generator.registerStage options.registerInput Generator.inputScope a
  let b ← Generator.registerStage options.registerInput Generator.inputScope b
  let sum ← Adder.sum a b options.algorithm (some "add")
  Generator.registerStage options.registerOutput Generator.outputScope sum

theorem assemble_eq (options : Options) (memory : Memory) :
    options.assemble memory =
      liftM (Build.setPowered options.powered) >>= fun _ => liftM Build.providerName >>= fun name =>
        liftM (Build.note (.generatingAdder options.width options.algorithm name)) >>= fun _ =>
          Attempt.input memory "a" options.width >>= fun a =>
            Attempt.input memory "b" options.width >>= fun b =>
              options.staged a b >>= Attempt.deliver "o" options.width := by
  simp only [assemble, staged, bind_assoc]
  rfl

/-- Where the assembly of an adder stands once its operands have their ports. -/
structure Opening (options : Options) (complete : CompleteProvider) (netlist : Netlist)
    (after builder : Builder) (a b : List SignalId) : Prop where
  checked : options.check = .ok ()
  opened : builder.Opened [⟨"a", a⟩, ⟨"b", b⟩]
  widthA : a.length = options.width
  widthB : b.length = options.width
  ran : Attempt.run (options.staged a b >>= Attempt.deliver "o" options.width) complete builder =
    (.ok netlist, after)

theorem exists_opening {options : Options} {provider : Provider} {memory : Memory}
    {netlist : Netlist} (generated : options.generate provider memory = .ok netlist) :
    ∃ complete after builder a b, provider.complete = .ok complete ∧
      Attempt.run (options.assemble memory) complete (.start options.name) =
        (.ok netlist, after) ∧
      options.Opening complete netlist after builder a b := by
  rcases Generator.generate_eq_ok generated with ⟨complete, after, checked, accepted, assembled⟩
  have ran := assembled
  rw [assemble_eq] at ran
  rcases Generator.opening_eq_ok ran with ⟨opened, isOpened, ran⟩
  rcases Attempt.run_bind_eq_ok ran with ⟨a, withA, inputA, ran⟩
  rcases Attempt.run_bind_eq_ok ran with ⟨b, withB, inputB, ran⟩
  rcases Attempt.input_opened isOpened inputA with ⟨openedA, widthA⟩
  rcases Attempt.input_opened openedA inputB with ⟨openedB, widthB⟩
  exact ⟨complete, after, withB, a, b, accepted, assembled,
    Netlist.mapError_eq_ok.mp checked, openedB, widthA, widthB, ran⟩

theorem Opening.lt {options : Options} {complete : CompleteProvider} {netlist : Netlist}
    {after builder : Builder} {a b : List SignalId}
    (opening : options.Opening complete netlist after builder a b) :
    Below builder.size a ∧ Below builder.size b :=
  ⟨opening.opened.lt (by simp : (⟨"a", a⟩ : Port) ∈ _),
    opening.opened.lt (by simp : (⟨"b", b⟩ : Port) ∈ _)⟩

/-- The staged sum shows after the latency what the operands amount to. -/
theorem staged_streams (options : Options) {known : Nat} {a b : List SignalId}
    (a_lt : Below known a) (b_lt : Below known b) :
    Streams known (options.staged a b) fun trace sum => ∀ cycle,
      Bits.value (sum.map (trace (cycle + options.latency))) =
        (Bits.value (a.map (trace cycle)) + Bits.value (b.map (trace cycle))) % 2 ^ a.length := by
  apply (Generator.registerStage_streams _ _ a_lt).bind
  intro left n le left_lt
  apply (Generator.registerStage_streams _ _ (b_lt.mono le)).bind
  intro right m le right_lt
  apply (sum_streams _ _ (Scoped.within_mono le left_lt) right_lt).bind
  intro sum k _ sum_lt
  apply (Generator.registerStage_streams _ _ sum_lt).imp
  intro trace shown _ isShown isSum isRight isLeft cycle
  have width : left.length = a.length := by
    simpa using congrArg List.length (isLeft cycle)
  rw [latency, ← Nat.add_assoc, isShown, isSum, isLeft, isRight, width]

/-- The operands of each cycle, by port. -/
def operands (a b : Nat → List UInt64) (cycle : Nat) : Netlist.Assignment UInt64 :=
  [("a", a cycle), ("b", b cycle)]

/-- Every cycle of a run succeeds, and shows the sum of the operands as many cycles before as the
latency says. -/
theorem exists_settledAt {options : Options} {provider : Provider} {memory : Memory}
    {netlist : Netlist} (generated : options.generate provider memory = .ok netlist)
    {a b : Nat → List UInt64} (widthA : ∀ cycle, (a cycle).length = options.width)
    (widthB : ∀ cycle, (b cycle).length = options.width) (cycle : Nat) :
    ∃ simulator words, netlist.settledAt (operands a b) cycle = .ok simulator ∧
      simulator.output "o" = .ok words ∧ words.length = options.width ∧
      ∀ start, start + options.latency = cycle → ∀ lane,
        Lanes.number lane words =
          (Lanes.number lane (a start) + Lanes.number lane (b start)) % 2 ^ options.width := by
  rcases exists_opening generated with ⟨_, _, builder, left, right, _, _, opening⟩
  have fits (cycle : Nat) : (operands a b cycle).map (fun entry => (entry.1, entry.2.length)) =
      [(⟨"a", left⟩ : Port), ⟨"b", right⟩].map fun port => (port.name, port.width) := by
    simp [operands, widthA, widthB, Port.width, opening.widthA, opening.widthB]
  rcases (options.staged_streams opening.lt.1 opening.lt.2).exists_run opening.opened (by simp)
    opening.ran fits with
    ⟨sum, trace, holds, runs⟩
  rcases runs cycle with ⟨simulator, words, settled, isOutput, width, shown⟩
  refine ⟨simulator, words, settled, isOutput, width, fun start isCycle lane => ?_⟩
  rcases holds lane with ⟨isSum, isOperands⟩
  have isOperands := isOperands start
  simp only [operands, List.map_cons, List.map_nil, List.cons.injEq, and_true] at isOperands
  subst isCycle
  rw [Lanes.number, shown lane, isSum, isOperands.1, isOperands.2, opening.widthA]
  rfl

/-- A generated adder adds modulo a power of two: in every cycle of every run, port `o` shows in
each lane the sum of the operands as many cycles before as the latency says. Any two adders of one
width show the same words, each after its own latency. -/
theorem generate_adds {options : Options} {provider : Provider} {memory : Memory}
    {netlist : Netlist} (generated : options.generate provider memory = .ok netlist)
    {a b : Nat → List UInt64} (widthA : ∀ cycle, (a cycle).length = options.width)
    (widthB : ∀ cycle, (b cycle).length = options.width) :
    (∀ cycle, ∃ simulator words, netlist.settledAt (operands a b) cycle = .ok simulator ∧
      simulator.output "o" = .ok words ∧ words.length = options.width ∧
      ∀ start, start + options.latency = cycle → ∀ lane,
        Lanes.number lane words =
          (Lanes.number lane (a start) + Lanes.number lane (b start)) % 2 ^ options.width) ∧
    ∀ (other : Options) (otherProvider : Provider) (otherMemory : Memory) (otherNetlist : Netlist),
      other.generate otherProvider otherMemory = .ok otherNetlist → other.width = options.width →
        ∀ start, ∃ simulator otherSimulator words,
          netlist.settledAt (operands a b) (start + options.latency) = .ok simulator ∧
          otherNetlist.settledAt (operands a b) (start + other.latency) = .ok otherSimulator ∧
          simulator.output "o" = .ok words ∧ otherSimulator.output "o" = .ok words := by
  refine ⟨exists_settledAt generated widthA widthB, ?_⟩
  intro other otherProvider otherMemory otherNetlist otherGenerated sameWidth start
  rcases exists_settledAt generated widthA widthB (start + options.latency) with
    ⟨simulator, words, settled, shown, width, isSum⟩
  rcases exists_settledAt otherGenerated (fun cycle => (widthA cycle).trans sameWidth.symm)
    (fun cycle => (widthB cycle).trans sameWidth.symm) (start + other.latency) with
    ⟨otherSimulator, otherWords, otherSettled, otherShown, otherWidth, isOtherSum⟩
  have same : words = otherWords := by
    apply Lanes.eq_of_number (by rw [width, otherWidth, sameWidth])
    intro lane
    rw [isSum start rfl lane, isOtherSum start rfl lane, sameWidth]
  subst same
  exact ⟨simulator, otherSimulator, words, settled, otherSettled, shown, otherShown⟩

/-- A registered adder of two bits, from the basis alone: the carry out of three and one is lost. -/
theorem generate_adds_registered :
    ∃ netlist, ({ width := 2, registerInput := true } : Options).generate
        (.restrictedTo Primitive.basis) .machine = .ok netlist ∧
      ∃ simulator words,
        netlist.settledAt (operands (fun _ => [1, 1]) fun _ => [1, 0]) 1 = .ok simulator ∧
          simulator.output "o" = .ok words ∧ Lanes.number ⟨0, by decide⟩ words = 0 := by
  let options : Options := { width := 2, registerInput := true }
  have succeeds : (options.generate (.restrictedTo Primitive.basis) .machine).isOk = true := by
    decide +kernel
  cases generated : options.generate (.restrictedTo Primitive.basis) .machine with
  | error error =>
      rw [generated] at succeeds
      cases succeeds
  | ok netlist =>
      have adds := generate_adds generated (a := fun _ => [1, 1]) (b := fun _ => [1, 0])
        (fun _ => rfl) (fun _ => rfl)
      rcases adds.1 1 with ⟨simulator, words, settled, shown, _, isSum⟩
      refine ⟨netlist, rfl, simulator, words, settled, shown, ?_⟩
      exact (isSum 0 rfl ⟨0, by decide⟩).trans (by decide +kernel)

end Datapath.Adder.Options

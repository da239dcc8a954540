import Datapath.Proofs.Acceptance
import Datapath.Proofs.Loops

/-!
# Outcomes of the generators

In an unbounded memory a generator ends in one of two ways. It refuses its options or its provider,
with the first reason there is, or it hands over a netlist that passes the driver check, has no
combinational loop and has ports of the right widths. `Generator.generators_end` says so for all
options and providers. It says the same of the generators with loops, which refuse every position
without an item, because they are the same generators, and why nothing on the way can go wrong:
trees combine positions inside their words, recoding finds all its windows, and no column is asked
for more bits than it has.
-/

namespace Datapath

/-- The basis primitives that the provider cannot realize. -/
def Provider.lacking (provider : Provider) : List Primitive :=
  [.and2, .inv, .dff].filter fun primitive => (provider.realize primitive).isNone

theorem Provider.complete_eq_error {provider : Provider} {primitive : Primitive}
    (lacks : provider.lacking.head? = some primitive) :
    provider.complete = .error (.missingBasisPrimitive provider.name primitive) := by
  rw [lacking, List.head?_filter] at lacks
  unfold complete
  split
  · rename_i missing found
    cases lacks.symm.trans found
    rfl
  · rename_i found
    cases lacks.symm.trans found

theorem Provider.exists_complete {provider : Provider} (lacks : provider.lacking.head? = none) :
    ∃ complete, provider.complete = .ok complete := by
  rw [lacking, List.head?_filter] at lacks
  unfold complete
  split
  · rename_i missing found
    cases lacks.symm.trans found
  · exact ⟨_, rfl⟩

/-- The netlist passes the check, has no loops and has ports of given names and widths. -/
structure Netlist.Offers (netlist : Netlist) (inputs outputs : List (String × Nat)) : Prop where
  checked : netlist.checkDrivers = .ok ()
  loopFree : netlist.LoopFree
  inputs : netlist.inputs.map (fun port => (port.name, port.width)) = inputs
  outputs : netlist.outputs.map (fun port => (port.name, port.width)) = outputs

namespace Attempt

variable {before : Builder} {ports : List Port}

theorem exists_input (provider : CompleteProvider) (opened : before.Opened ports) (name : String)
    (width : Nat) :
    ∃ bits after, run (input .unbounded name width) provider before = (.ok bits, after) ∧
      after.Opened (ports ++ [⟨name, bits⟩]) ∧ bits.length = width := by
  have ran : run (input .unbounded name width) provider before =
      (.ok (List.range' before.size width), before.addInput name width) := by
    rw [input, Memory.check_unbounded]
    rfl
  exact ⟨_, _, ran, input_opened opened ran⟩

/-- Where there is room for its bits, a port is added as in an unbounded memory. -/
theorem input_of_fits {memory : Memory} {width : Nat}
    (room : memory.fits width Memory.wordBytes = true) (name : String) :
    input memory name width = input .unbounded name width := by
  rw [input, input, Memory.check_unbounded, Memory.check, if_pos room]

/-- A word that exists is delivered. -/
theorem exists_deliver_word (provider : CompleteProvider) (sound : before.Sound)
    (noOutputs : before.netlist.outputs = []) {word : List SignalId}
    (word_lt : Below before.size word) (name : String) :
    ∃ netlist after, run (deliver name word.length word) provider before = (.ok netlist, after) ∧
      netlist.Offers (before.netlist.inputs.map fun port => (port.name, port.width))
        [(name, word.length)] := by
  have step : Builder.Step provider.toProvider True before (before.addOutput name word) :=
    .output before name word
  have finished := sound.step step
  have ports : (before.addOutput name word).netlist.outputs = [⟨name, word⟩] := by
    rw [Builder.addOutput, noOutputs]
    rfl
  have existing : (before.addOutput name word).netlist.reads.find?
      ((before.addOutput name word).netlist.signals.size ≤ ·) = none := by
    rw [List.find?_eq_none]
    intro id read
    have inside : id < before.size := by
      rcases List.mem_append.mp read with byGate | byPort
      · rcases List.mem_flatMap.mp byGate with ⟨gate, member, pin⟩
        exact sound.ascending.below_size sound.coherent gate member id pin
      · rw [ports] at byPort
        exact word_lt id (by simpa using byPort)
    exact fun outside => Nat.not_le_of_lt inside (of_decide_eq_true outside)
  have checked : (before.addOutput name word).netlist.checkDrivers = .ok () := by
    rw [finished.coherent.driven.checkDrivers_eq, existing]
  have width : (before.addOutput name word).netlist.checkPortWidth name word.length = .ok () := by
    rw [Netlist.checkPortWidth, Netlist.outputPort?, ports]
    simp [Port.width, pure, Except.pure]
  have finishes := run_finish provider finished.coherent
  rw [existing] at finishes
  rcases ended : run finish provider (before.addOutput name word) with ⟨result, after⟩
  rw [ended] at finishes
  cases finishes
  refine ⟨(before.addOutput name word).netlist, after, ?_, checked,
    finished.ascending.loopFree finished.coherent, rfl, ?_⟩
  · change run (finish >>= fun netlist => ofExcept (liftM (netlist.checkPortWidth name _)) >>=
      fun _ => pure netlist) provider (before.addOutput name word) = _
    rw [run_bind, ended]
    dsimp only
    rw [width]
    rfl
  · rw [ports]
    rfl

/-- A construction that succeeds is delivered. -/
theorem Succeeds.exists_deliver {staged : Attempt (List SignalId)} {width : Nat}
    (succeeds : Succeeds before.size staged fun word => word.length = width)
    (provider : CompleteProvider) (opened : before.Opened ports) (name : String) :
    ∃ netlist after, run (staged >>= deliver name width) provider before = (.ok netlist, after) ∧
      netlist.Offers (ports.map fun port => (port.name, port.width)) [(name, width)] := by
  rcases succeeds provider before (Nat.le_refl _) with
    ⟨word, built, isBuilt, moves, word_lt, rfl⟩
  have extension := moves.extension
  have sound : built.Sound := opened.sound.step (.moves moves)
  have noOutputs := extension.outputs.trans opened.outputs
  rcases exists_deliver_word provider sound noOutputs word_lt name with
    ⟨netlist, after, delivered, offers⟩
  rw [extension.inputs, opened.inputs] at offers
  refine ⟨netlist, after, ?_, offers⟩
  rw [run_bind, isBuilt]
  exact delivered

end Attempt

namespace Generator

/-- Generation ends with the first of the reasons to refuse, if there is one, and otherwise with a
netlist that has ports of given names and widths. -/
def Ends (generated : Except Error Netlist) (refusals : List ConfigError)
    (inputs outputs : List (String × Nat)) : Prop :=
  match refusals.head? with
  | some cause => generated = .error (.config cause)
  | none => ∃ netlist, generated = .ok netlist ∧ netlist.Offers inputs outputs

/-- Where options are refused before the provider, and assembly never fails, generation ends as it
should. -/
theorem ends_generate {check : Except Error Unit} {name : String} {assemble : Attempt Netlist}
    {provider : Provider} {refusals : List ConfigError} {inputs outputs : List (String × Nat)}
    (refused : ∀ cause, refusals.head? = some cause → check = .error (.config cause))
    (accepted : refusals.head? = none → check = .ok ())
    (assembled : check = .ok () → ∀ complete, ∃ netlist after,
      Attempt.run assemble complete (.start name) = (.ok netlist, after) ∧
        netlist.Offers inputs outputs) :
    Ends (generate check name assemble provider).1
      (refusals ++ provider.lacking.map (.missingBasisPrimitive provider.name)) inputs outputs := by
  rw [Ends, List.head?_append]
  cases first : refusals.head? with
  | some cause =>
      rw [refused cause first]
      rfl
  | none =>
      have passes := accepted first
      rw [Option.none_or, List.head?_map]
      cases lacks : provider.lacking.head? with
      | some primitive =>
          rw [generate, passes, Provider.complete_eq_error lacks]
          rfl
      | none =>
          rcases Provider.exists_complete lacks with ⟨complete, isComplete⟩
          rcases assembled passes complete with ⟨netlist, after, ran, offers⟩
          refine ⟨netlist, ?_, offers⟩
          rw [generate, passes, isComplete]
          exact congrArg Prod.fst ran

end Generator

namespace Adder

/-- Why an algorithm refuses to add words of a width that is not zero. -/
def Algorithm.refusals (algorithm : Algorithm) (width : Nat) : List ConfigError :=
  match algorithm with
  | .tree topology => if width.isPowerOfTwo then [] else [.widthNotPowerOfTwo topology width]
  | .inferred => []

theorem isPowerOfTwo_iff (width : Nat) : isPowerOfTwo width = true ↔ width.isPowerOfTwo := by
  rw [isPowerOfTwo, beq_iff_eq, Nat.one_shiftLeft]
  constructor
  · exact fun power => ⟨_, power⟩
  · rintro ⟨exponent, rfl⟩
    rw [Nat.log2_two_pow]

theorem Algorithm.checkWidth_eq {algorithm : Algorithm} {width : Nat} (positive : width ≠ 0) :
    algorithm.checkWidth width =
      match (algorithm.refusals width).head? with
      | some cause => .error cause
      | none => .ok () := by
  unfold checkWidth
  rw [if_neg positive]
  cases algorithm with
  | inferred => rfl
  | tree topology =>
      simp only [refusals, ← isPowerOfTwo_iff]
      cases isPowerOfTwo width <;> rfl

namespace Options

/-- Why an adder is refused, whatever its provider. -/
def refusals (options : Options) : List ConfigError :=
  (if options.width = 0 then [.zeroWidth] else []) ++ options.algorithm.refusals options.width

theorem check_eq (options : Options) :
    options.check =
      match options.refusals.head? with
      | some cause => .error cause
      | none => .ok () := by
  rw [refusals, check]
  by_cases zero : options.width = 0
  · unfold Algorithm.checkWidth
    rw [if_pos zero, if_pos zero]
    rfl
  · rw [if_neg zero, List.nil_append, Algorithm.checkWidth_eq zero]

theorem assemble_succeeds (options : Options) (accepted : options.check = .ok ())
    (complete : CompleteProvider) (name : String) :
    ∃ netlist after, Attempt.run (options.assemble .unbounded) complete (.start name) =
        (.ok netlist, after) ∧
      netlist.Offers [("a", options.width), ("b", options.width)] [("o", options.width)] := by
  rw [assemble_eq]
  rcases Generator.run_opening options.powered _ _ complete name with ⟨opened, isOpened, same⟩
  rw [same]
  rcases Attempt.exists_input complete isOpened "a" options.width with
    ⟨a, withA, inputA, openedA, widthA⟩
  rcases Attempt.exists_input complete openedA "b" options.width with
    ⟨b, withB, inputB, openedBoth, widthB⟩
  have openedB : withB.Opened [⟨"a", a⟩, ⟨"b", b⟩] := openedBoth
  have literals : Builder.trueId < withB.size :=
    (Array.getElem?_eq_some_iff.mp openedB.sound.literalTrue).1
  have staged := options.staged_succeeds literals
    (openedB.lt (by simp : (⟨"a", a⟩ : Port) ∈ _)) (openedB.lt (by simp : (⟨"b", b⟩ : Port) ∈ _))
    widthA widthB accepted
  rcases staged.exists_deliver complete openedB "o" with
    ⟨netlist, after, delivered, offers⟩
  refine ⟨netlist, after, ?_, ?_⟩
  · rw [Attempt.run_bind, inputA]
    dsimp only
    rw [Attempt.run_bind, inputB]
    exact delivered
  · simpa [Port.width, widthA, widthB] using offers

/-- An adder whose options and provider are accepted is generated where its operands fit. -/
theorem exists_generate {options : Options} (accepted : options.check = .ok ())
    {provider : Provider} (lacks : provider.lacking = []) {memory : Memory}
    (room : memory.fits options.width Memory.wordBytes = true) :
    ∃ netlist, options.generate provider memory = .ok netlist := by
  rcases Provider.exists_complete (List.head?_eq_none_iff.mpr lacks) with ⟨complete, isComplete⟩
  rcases options.assemble_succeeds accepted complete options.name with ⟨netlist, after, ran, _⟩
  have unbounded : options.assemble memory = options.assemble .unbounded := by
    simp only [assemble_eq, Attempt.input_of_fits room]
  refine ⟨netlist, ?_⟩
  rw [generate, generateLogged, Generator.generate, accepted, isComplete, unbounded]
  exact congrArg Prod.fst ran

end Options

end Adder

namespace Multiplier

/-- A column that is brought down to a target is never asked for more bits than it has. -/
theorem compress_always (lost : Option Nat) {excess : Nat} {bits : List SignalId}
    (enough : excess = 0 ∨ excess < bits.length) :
    Build.Always (compress lost excess bits) fun result =>
      result.1.length + excess = bits.length := by
  fun_induction compress lost excess bits with
  | case1 more a b c rest ih =>
      refine .after fun adder => .after fun _ => (ih adder ?_).bind fun result shorter => ?_
      · simp only [List.length_cons] at enough
        simp only [List.length_append, List.length_cons, List.length_nil]
        omega
      · apply Build.always_pure
        simp only [List.length_append, List.length_cons, List.length_nil] at shorter ⊢
        omega
  | case2 a b rest => exact .after fun adder => .after fun _ => Build.always_pure (by simp)
  | case3 excess bits notFull notHalf =>
      apply Build.always_pure
      rw [excess_eq_zero notFull notHalf enough, Nat.add_zero]

namespace Options

/-- Why a multiplier is refused, whatever its provider. -/
def refusals (options : Options) : List ConfigError :=
  (if options.width = 0 then [.zeroWidth] else []) ++
    (if options.scheme = .booth ∧ options.width % 2 = 1 then [.oddBoothWidth options.width]
      else []) ++
    options.finalAdder.refusals (2 * options.width)

theorem check_eq (options : Options) (bounded : options.width < 2 ^ 62) :
    options.check =
      match options.refusals.head? with
      | some cause => .error (.config cause)
      | none => .ok () := by
  have inRange : Fault.checkCount (2 * options.width) = .ok (2 * options.width) :=
    if_pos (by simp only [Fault.countLimit]; omega)
  rw [check, refusals, inRange]
  by_cases zero : options.width = 0
  · have refused : options.scheme.checkWidth options.width = .error .zeroWidth := by
      unfold Scheme.checkWidth
      exact if_pos zero
    rw [if_pos zero, refused]
    rfl
  have adder : options.finalAdder.checkWidth (2 * options.width) = _ :=
    Adder.Algorithm.checkWidth_eq (by omega)
  rw [if_neg zero, List.nil_append]
  by_cases odd : options.scheme = .booth ∧ options.width % 2 = 1
  · have refused : options.scheme.checkWidth options.width =
        .error (.oddBoothWidth options.width) := by
      unfold Scheme.checkWidth
      rw [if_neg zero, odd.1]
      exact if_neg (by omega)
    rw [if_pos odd, refused]
    rfl
  · have passes : options.scheme.checkWidth options.width = .ok () := by
      unfold Scheme.checkWidth
      rw [if_neg zero]
      cases isScheme : options.scheme with
      | schoolbook => rfl
      | booth =>
          have even : options.width % 2 ≠ 1 := fun isOdd => odd ⟨isScheme, isOdd⟩
          exact if_pos (by omega)
    rw [if_neg odd, passes, List.nil_append]
    change (options.finalAdder.checkWidth _).mapError Error.config = _
    rw [adder]
    cases (options.finalAdder.refusals (2 * options.width)).head? <;> rfl

/-- The input ports of a multiplier and their widths. -/
def inputWidths (options : Options) : List (String × Nat) :=
  [("a", options.width), ("b", options.width)] ++
    if options.multiplyAdd then [("c", 2 * options.width)] else []

theorem exists_addend {before : Builder} {ports : List Port} (complete : CompleteProvider)
    (opened : before.Opened ports) (enabled : Bool) (width : Nat) :
    ∃ addend after, Attempt.run (if enabled then Attempt.input .unbounded "c" width else pure [])
        complete before = (.ok addend, after) ∧
      after.Opened (ports ++ if enabled then [⟨"c", addend⟩] else []) ∧
      Below after.size addend ∧ addend.length = if enabled then width else 0 := by
  cases enabled with
  | false => exact ⟨[], before, rfl, by simpa using opened, below_nil _, rfl⟩
  | true =>
      rcases Attempt.exists_input complete opened "c" width with ⟨addend, after, ran, _⟩
      exact ⟨addend, after, ran, addend_opened opened ran⟩

theorem assemble_succeeds (options : Options) (accepted : options.check = .ok ())
    (bounded : options.width < 2 ^ 62) (complete : CompleteProvider) (name : String) :
    ∃ netlist after, Attempt.run (options.assemble .unbounded) complete (.start name) =
        (.ok netlist, after) ∧
      netlist.Offers options.inputWidths [("o", 2 * options.width)] := by
  rw [assemble_eq]
  rcases Generator.run_opening options.powered _ _ complete name with ⟨opened, isOpened, same⟩
  rw [same]
  rcases Attempt.exists_input complete isOpened "a" options.width with
    ⟨a, withA, inputA, openedA, widthA⟩
  rcases Attempt.exists_input complete openedA "b" options.width with
    ⟨b, withB, inputB, openedB, widthB⟩
  rcases exists_addend complete openedB options.multiplyAdd (2 * options.width) with
    ⟨c, withC, inputC, openedAll, c_lt, widthC⟩
  have openedC : withC.Opened (options.ports a b c) := openedAll
  have literals : Builder.trueId < withC.size :=
    (Array.getElem?_eq_some_iff.mp openedC.sound.literalTrue).1
  have staged := options.staged_succeeds literals
    (openedC.lt (by simp [ports] : (⟨"a", a⟩ : Port) ∈ _))
    (openedC.lt (by simp [ports] : (⟨"b", b⟩ : Port) ∈ _)) c_lt widthA widthB accepted bounded
  rcases staged.exists_deliver complete openedC "o" with ⟨netlist, after, delivered, offers⟩
  refine ⟨netlist, after, ?_, ?_⟩
  · rw [Attempt.run_bind, inputA]
    dsimp only
    rw [Attempt.run_bind, inputB]
    dsimp only
    rw [Attempt.run_bind, inputC]
    exact delivered
  · have widths : (options.ports a b c).map (fun port => (port.name, port.width)) =
        options.inputWidths := by
      rw [ports, inputWidths]
      cases added : options.multiplyAdd <;> simp [added] at widthC <;>
        simp [Port.width, widthA, widthB, widthC]
    rwa [widths] at offers

end Options

end Multiplier

namespace Generator

/-- In an unbounded memory, the generators refuse a choice of options or a provider with the first
of the reasons that there are, and otherwise hand over a netlist that passes the driver check, has
no combinational loop and has ports of the right widths. The generators with loops do the same, in
every memory and with the same log: none of their lookups, differences and pops is refused. The
levels that the loops of a tree visit combine no positions beyond the words, recoding takes as many
windows as there are digits, and no column is asked for more bits than it has. -/
theorem generators_end :
    (∀ (options : Adder.Options) (provider : Provider), options.width < 2 ^ 62 →
      Ends (options.generate provider .unbounded)
        (options.refusals ++ provider.lacking.map (.missingBasisPrimitive provider.name))
        [("a", options.width), ("b", options.width)] [("o", options.width)]) ∧
    (∀ (options : Multiplier.Options) (provider : Provider), options.width < 2 ^ 62 →
      Ends (options.generate provider .unbounded)
        (options.refusals ++ provider.lacking.map (.missingBasisPrimitive provider.name))
        options.inputWidths [("o", 2 * options.width)]) ∧
    (∀ (options : Adder.Options) (provider : Provider) (memory : Memory),
      generate options.check options.name (options.assembleByLoops memory) provider =
        options.generateLogged provider memory) ∧
    (∀ (options : Multiplier.Options) (provider : Provider) (memory : Memory),
      generate options.check options.name (options.assembleByLoops memory) provider =
        options.generateLogged provider memory) ∧
    (∀ (topology : Adder.Topology) (levels : Nat),
      topology.levels levels (2 ^ levels) = pure (topology.schedule levels) ∧
        ∀ row ∈ topology.schedule levels, ∀ combination ∈ row,
          combination.source < combination.target ∧ combination.target < 2 ^ levels) ∧
    (∀ word : List SignalId, word.length % 2 = 0 →
      (Multiplier.multiplierWindows word).length = word.length / 2 + 1) ∧
    ∀ (lost : Option Nat) (target : Nat) (bits : List SignalId), 2 ≤ target →
      Build.Always (Multiplier.compress lost (bits.length - target) bits) fun result =>
        result.1.length = min bits.length target := by
  refine ⟨fun options provider _ => ?_, fun options provider bounded => ?_,
    fun options provider memory => ?_, fun options provider memory => ?_,
    fun topology levels => ⟨topology.levels_eq_schedule levels, topology.schedule_inside levels⟩,
    fun word even => Multiplier.length_windows Builder.falseId word even,
    fun lost target bits proper provider builder => ?_⟩
  · refine ends_generate (fun cause first => ?_) (fun none => ?_) fun accepted complete => ?_
    · rw [options.check_eq, first]
      rfl
    · rw [options.check_eq, none]
      rfl
    · have passes : options.check = .ok () := Netlist.mapError_eq_ok.mp accepted
      exact options.assemble_succeeds passes complete options.name
  · refine ends_generate (fun cause first => ?_) (fun none => ?_) fun accepted complete => ?_
    · rw [options.check_eq bounded, first]
    · rw [options.check_eq bounded, none]
    · exact options.assemble_succeeds accepted bounded complete options.name
  · rw [options.assembleByLoops_eq, Adder.Options.generateLogged]
  · rw [options.assembleByLoops_eq, Multiplier.Options.generateLogged]
  · have enough : bits.length - target = 0 ∨ bits.length - target < bits.length := by omega
    have shorter := Multiplier.compress_always lost enough provider builder
    omega

/-- Narrow adders end in either way, and so do narrow multipliers, and providers without
registers. -/
theorem generators_end_narrow :
    (∃ netlist, Adder.Options.generate { width := 2 } .inferred .unbounded = .ok netlist ∧
      netlist.Offers [("a", 2), ("b", 2)] [("o", 2)]) ∧
    Adder.Options.generate { width := 3, algorithm := .tree .hanCarlson } .inferred .unbounded =
      .error (.config (.widthNotPowerOfTwo .hanCarlson 3)) ∧
    (∃ netlist,
      Multiplier.Options.generate { width := 2, multiplyAdd := true } .inferred .unbounded =
        .ok netlist ∧
      netlist.Offers [("a", 2), ("b", 2), ("c", 4)] [("o", 4)]) ∧
    Multiplier.Options.generate { width := 2 } (.restrictedTo [.and2, .inv]) .unbounded =
      .error (.config (.missingBasisPrimitive "inferred" .dff)) := by
  refine ⟨?_, ?_, ?_, ?_⟩
  · exact generators_end.1 { width := 2 } .inferred (by decide)
  · exact generators_end.1 { width := 3, algorithm := .tree .hanCarlson } .inferred (by decide)
  · exact generators_end.2.1 { width := 2, multiplyAdd := true } .inferred (by decide)
  · exact generators_end.2.1 { width := 2 } (.restrictedTo [.and2, .inv]) (by decide)

end Generator

end Datapath

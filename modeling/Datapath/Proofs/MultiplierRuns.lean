import Datapath.Generator.Multiplier
import Datapath.Proofs.Addition
import Datapath.Proofs.Generation
import Datapath.Proofs.PartialProducts
import Datapath.Proofs.Reduction

/-!
# Runs of generated multipliers

After its latency, a generated multiplier shows in each lane and cycle the product of the operands
that it was given as many cycles before, with the addend if there is one. The registers between the
partial products and their reduction delay every bit of the matrix alike: a signal that stands in
several places is looked up in a table, and constants need no register.
-/

namespace Datapath.Multiplier

open Attempt (Streams)
open Scoped (Within within_mono)

namespace Matrix

theorem nodup_distinctBeyond (seen : Std.HashSet SignalId) (bits : List SignalId) :
    (distinctBeyond seen bits).Nodup ∧
      ∀ bit ∈ distinctBeyond seen bits, seen.contains bit = false := by
  induction bits generalizing seen with
  | nil => exact ⟨List.nodup_nil, nofun⟩
  | cons bit rest ih =>
      by_cases known : seen.contains bit = true
      · rw [distinctBeyond, if_pos known]
        exact ih seen
      · rcases ih (seen.insert bit) with ⟨distinct, fresh⟩
        simp only [Std.HashSet.contains_insert, Bool.or_eq_false_iff] at fresh
        rw [distinctBeyond, if_neg known]
        refine ⟨List.nodup_cons.mpr ⟨fun again => ?_, distinct⟩, ?_⟩
        · have apart := (fresh bit again).1
          simp at apart
        · exact List.forall_mem_cons.mpr
            ⟨by simpa using known, fun other member => (fresh other member).2⟩

theorem nodup_distinctBits (matrix : Matrix) : matrix.distinctBits.Nodup :=
  (nodup_distinctBeyond ∅ matrix.bits).1

theorem mem_distinctBits {matrix : Matrix} {bit : SignalId} :
    bit ∈ matrix.distinctBits ↔ bit ∈ matrix.bits := by
  rw [distinctBits_eq, List.mem_eraseDups]

/-- A table of the registers of all distinct bits has one for each bit. -/
theorem exists_register (matrix : Matrix) {registered : List SignalId}
    (each : registered.length = matrix.distinctBits.length) {bit : SignalId}
    (member : bit ∈ matrix.bits) :
    ∃ index : Nat, matrix.distinctBits[index]? = some bit ∧ registered[index]? =
      some ((Std.HashMap.ofList (matrix.distinctBits.zip registered)).getD bit bit) := by
  rcases List.getElem_of_mem (mem_distinctBits.mpr member) with ⟨index, inside, isBit⟩
  have insideRegistered : index < registered.length := each ▸ inside
  have listed : (bit, registered[index]) ∈ matrix.distinctBits.zip registered := by
    have insideZip : index < (matrix.distinctBits.zip registered).length := by
      simp [inside, insideRegistered]
    have zipped := List.getElem_mem insideZip
    rwa [List.getElem_zip, isBit] at zipped
  have distinct : (matrix.distinctBits.zip registered).Pairwise
      fun first second => (first.1 == second.1) = false := by
    have once := matrix.nodup_distinctBits
    have keys : (matrix.distinctBits.zip registered).map Prod.fst = matrix.distinctBits :=
      List.map_fst_zip (Nat.le_of_eq each.symm)
    rw [← keys, List.Nodup, List.pairwise_map] at once
    exact once.imp fun apart => by simpa using apart
  refine ⟨index, by rw [← isBit]; exact List.getElem?_eq_getElem inside, ?_⟩
  rw [Std.HashMap.getD_ofList_of_mem (beq_self_eq_true bit) distinct listed]
  exact List.getElem?_eq_getElem insideRegistered

end Matrix

/-- A register stage delays what a matrix stands for by one cycle. -/
theorem registerMatrix_streams {known : Nat} {matrix : Matrix} :
    Streams known (registerMatrix matrix) fun trace registered => ∀ cycle columns number,
      matrix.Represents (trace cycle) columns number →
        registered.Represents (trace (cycle + 1)) columns number := by
  intro provider before result after enough ran
  rcases Attempt.run_bind_eq_ok ran with ⟨registered, middle, isRegistered, ran⟩
  have each := Attempt.length_registerWord isRegistered
  have outcome := Attempt.registerWord_streams known matrix.distinctBits provider before registered
    middle enough isRegistered
  cases ran
  refine ⟨outcome.moves, ?_, fun trace obeys grounded cycle columns number represents => ?_⟩
  · intro column member id isId
    rcases List.mem_map.mp member with ⟨old, isColumn, rfl⟩
    rcases List.mem_map.mp isId with ⟨bit, isBit, rfl⟩
    have inMatrix : bit ∈ matrix.bits := List.mem_flatten.mpr ⟨old, isColumn, isBit⟩
    rcases matrix.exists_register each inMatrix with ⟨index, _, found⟩
    exact outcome.within _ (List.mem_of_getElem? found)
  · have delayed := outcome.holds trace obeys grounded cycle
    refine ⟨?_, ?_⟩
    · rw [← represents.columnCount]
      exact List.length_map _
    · rw [Matrix.weight_map fun bit member => ?_]
      · exact represents.weight
      · rcases matrix.exists_register each member with ⟨index, isBit, found⟩
        have here := congrArg (fun bits => bits[index]?) delayed
        simp only [List.getElem?_map, isBit, found, Option.map_some, Option.some.injEq] at here
        exact here

/-- A stage of the matrix that is enabled delays it by one cycle, any other passes it on. -/
def delayMatrix (enabled : Bool) (matrix : Matrix) : Attempt Matrix := do
  if enabled then
    Build.setScope (some "mid_reg")
    let registered ← registerMatrix matrix
    Build.setScope none
    return registered
  else
    return matrix

theorem delayMatrix_streams {known : Nat} (enabled : Bool) {matrix : Matrix}
    (matrix_lt : Within known matrix) :
    Streams known (delayMatrix enabled matrix) fun trace registered =>
      ∀ cycle columns number, matrix.Represents (trace cycle) columns number →
        registered.Represents (trace (cycle + enabled.toNat)) columns number := by
  cases enabled with
  | false => exact Attempt.streams_pure matrix_lt fun _ _ _ _ represents => represents
  | true =>
      apply (Attempt.streams_lift (Build.setScope_meets _)).bind
      intro _ n _ _
      apply registerMatrix_streams.bind
      intro registered m _ registered_lt
      apply (Attempt.streams_lift (Build.setScope_meets none)).bind
      intro _ k le _
      apply Attempt.streams_pure (within_mono le registered_lt)
      exact fun trace _ delayed _ => delayed

namespace Options

theorem products_eq (options : Options) (a b c : List SignalId) :
    options.products a b c = partialProducts options.scheme a b >>= fun matrix =>
      liftM (Build.pushAll matrix (c.zipIdx.map fun (bit, column) => (column, bit))) >>=
        fun matrix => delayMatrix options.registerMiddle (matrix.truncate (2 * options.width)) := by
  rfl

/-- The matrix stands for the product and the addend. -/
theorem products_streams (options : Options) {known : Nat} {a b c : List SignalId}
    (literals : Builder.trueId < known) (a_lt : Below known a) (b_lt : Below known b)
    (c_lt : Below known c) :
    Streams known (options.products a b c) fun trace matrix => a.length = options.width →
      ∀ cycle, matrix.Represents (trace (cycle + options.registerMiddle.toNat)) (2 * options.width)
        (Bits.value (a.map (trace cycle)) * Bits.value (b.map (trace cycle)) +
          Bits.value (c.map (trace cycle))) := by
  rw [products_eq]
  refine (partialProducts_streams options.scheme literals a_lt b_lt).bind
    fun matrix n le matrix_lt => ?_
  have entries_lt := c_lt.mono le
  rw [← map_snd_swap_zipIdx c 0] at entries_lt
  refine (Attempt.streams_lift (Build.pushAll_meets matrix_lt entries_lt)).bind
    fun pushed m _ pushed_lt => ?_
  have truncated_lt : Within m (pushed.truncate (2 * options.width)) :=
    fun column member => pushed_lt column (List.mem_of_mem_take member)
  apply (delayMatrix_streams _ truncated_lt).imp
  intro trace result _ delayed gains represents width cycle
  have summed := (represents cycle).gains (gains cycle)
  rw [entriesWeight_zipIdx, Nat.pow_zero, Nat.one_mul] at summed
  refine delayed cycle _ _ (summed.truncate ?_)
  rw [width]
  cases options.scheme <;> simp [Scheme.columns]

/-- The product between its register stages. -/
def staged (options : Options) (a b c : List SignalId) : Attempt (List SignalId) := do
  let a ← Generator.registerStage options.registerInput Generator.inputScope a
  let b ← Generator.registerStage options.registerInput Generator.inputScope b
  let c ← Generator.registerStage options.registerInput Generator.inputScope c
  let matrix ← options.products a b c
  let reduced ← reduce matrix
  let product ← Adder.sum reduced.rows.1 reduced.rows.2 options.finalAdder (some "final")
  Generator.registerStage options.registerOutput Generator.outputScope product

theorem within_rows {bound : Nat} {matrix : Matrix} (literals : Builder.trueId < bound)
    (matrix_lt : Within bound matrix) :
    Below bound matrix.rows.1 ∧ Below bound matrix.rows.2 := by
  have falseId_lt : Builder.falseId < bound := Nat.lt_trans Nat.zero_lt_one literals
  have each (index : Nat) (column : List SignalId) (member : column ∈ matrix.columns) :
      column[index]?.getD Builder.falseId < bound := by
    cases found : column[index]? with
    | none => exact falseId_lt
    | some bit => exact matrix_lt column member bit (List.mem_of_getElem? found)
  constructor
  · intro id member
    rcases List.mem_map.mp member with ⟨column, isColumn, rfl⟩
    exact each 0 column isColumn
  · intro id member
    rcases List.mem_map.mp member with ⟨column, isColumn, rfl⟩
    exact each 1 column isColumn

/-- The staged product shows after the latency what the operands amount to. -/
theorem staged_streams (options : Options) {known : Nat} {a b c : List SignalId}
    (literals : Builder.trueId < known) (a_lt : Below known a) (b_lt : Below known b)
    (c_lt : Below known c) :
    Streams known (options.staged a b c) fun trace product => a.length = options.width → ∀ cycle,
      Bits.value (product.map (trace (cycle + options.latency))) =
        (Bits.value (a.map (trace cycle)) * Bits.value (b.map (trace cycle)) +
          Bits.value (c.map (trace cycle))) % 2 ^ (2 * options.width) := by
  apply (Generator.registerStage_streams _ _ a_lt).bind
  intro left n le left_lt
  apply (Generator.registerStage_streams _ _ (b_lt.mono le)).bind
  intro right m le' right_lt
  have all : known ≤ m := Nat.le_trans le le'
  refine (Generator.registerStage_streams _ _ (c_lt.mono all)).bind
    fun addend k le'' addend_lt => ?_
  have literals_lt : Builder.trueId < k := Nat.lt_of_lt_of_le literals (Nat.le_trans all le'')
  refine (options.products_streams literals_lt (within_mono (Nat.le_trans le' le'') left_lt)
    (within_mono le'' right_lt) addend_lt).bind fun matrix l le₁ matrix_lt => ?_
  refine (reduce_streams matrix_lt).imp (fun trace reduced grounded holds cycle =>
    (⟨(holds cycle).1, Matrix.value_rows (holds cycle).2 (grounded cycle).1⟩ :
      Matrix.Gains (trace cycle) matrix reduced 0 ∧
        Bits.value (reduced.rows.1.map (trace cycle)) +
          Bits.value (reduced.rows.2.map (trace cycle)) = reduced.weight (trace cycle))) |>.bind
    fun reduced i le₂ reduced_lt => ?_
  rcases within_rows (Nat.lt_of_lt_of_le literals_lt (Nat.le_trans le₁ le₂)) reduced_lt with
    ⟨first_lt, second_lt⟩
  apply (Adder.sum_streams _ _ first_lt second_lt).bind
  intro product j _ product_lt
  apply (Generator.registerStage_streams _ _ product_lt).imp
  intro trace shown _ isShown isSum isReduced isMatrix isAddend isRight isLeft width cycle
  have sameWidth : left.length = options.width := by
    rw [← width]
    simpa using congrArg List.length (isLeft cycle)
  have represents := isMatrix sameWidth (cycle + options.registerInput.toNat)
  rcases isReduced (cycle + options.registerInput.toNat + options.registerMiddle.toNat) with
    ⟨gains, isRows⟩
  have whole := represents.gains gains
  have columns : reduced.rows.1.length = 2 * options.width := by
    rw [← whole.columnCount]
    exact List.length_map _
  rw [latency, ← Nat.add_assoc, ← Nat.add_assoc, isShown, isSum, isRows, columns, ← isLeft,
    ← isRight, ← isAddend]
  exact whole.weight

theorem assemble_eq (options : Options) (memory : Memory) :
    options.assemble memory =
      liftM (Build.setPowered options.powered) >>= fun _ => liftM Build.providerName >>= fun name =>
        liftM (Build.note (.generatingMultiplier options.width options.scheme options.finalAdder
          options.multiplyAdd name)) >>= fun _ =>
          Attempt.input memory "a" options.width >>= fun a =>
            Attempt.input memory "b" options.width >>= fun b =>
              (if options.multiplyAdd then Attempt.input memory "c" (2 * options.width)
                else pure []) >>= fun c =>
                options.staged a b c >>= Attempt.deliver "o" (2 * options.width) := by
  cases added : options.multiplyAdd <;> simp only [assemble, staged, bind_assoc, added] <;> rfl

/-- An addend is opened as the last input port, if there is one. -/
theorem addend_opened {enabled : Bool} {memory : Memory} {width : Nat} {addend : List SignalId}
    {provider : CompleteProvider} {before after : Builder} {ports : List Port}
    (opened : before.Opened ports)
    (ran : Attempt.run (if enabled then Attempt.input memory "c" width else pure []) provider
      before = (.ok addend, after)) :
    after.Opened (ports ++ if enabled then [⟨"c", addend⟩] else []) ∧
      Below after.size addend ∧ addend.length = if enabled then width else 0 := by
  cases enabled with
  | false =>
      cases ran
      exact ⟨by simpa using opened, below_nil _, rfl⟩
  | true =>
      rcases Attempt.input_opened opened ran with ⟨openedAddend, length⟩
      exact ⟨openedAddend, openedAddend.lt (by simp : (⟨"c", addend⟩ : Port) ∈ _), length⟩

/-- The input ports with given bits. -/
def ports (options : Options) (a b c : List SignalId) : List Port :=
  [⟨"a", a⟩, ⟨"b", b⟩] ++ if options.multiplyAdd then [⟨"c", c⟩] else []

theorem nodup_ports (options : Options) (a b c : List SignalId) :
    ((options.ports a b c).map (·.name)).Nodup := by
  rw [ports]
  cases options.multiplyAdd <;> simp

/-- The operands of each cycle, by port. -/
def operands (options : Options) (a b c : Nat → List UInt64) (cycle : Nat) :
    Netlist.Assignment UInt64 :=
  [("a", a cycle), ("b", b cycle)] ++ if options.multiplyAdd then [("c", c cycle)] else []

/-- What the operands of a cycle amount to in a lane. -/
def result (options : Options) (a b c : List UInt64) (lane : Fin Lanes.count) : Nat :=
  (Lanes.number lane a * Lanes.number lane b +
    if options.multiplyAdd then Lanes.number lane c else 0) % 2 ^ (2 * options.width)

/-- Every cycle of a run succeeds, and shows what the operands as many cycles before as the latency
says amount to. -/
theorem exists_settledAt {options : Options} {provider : Provider} {memory : Memory}
    {netlist : Netlist} (generated : options.generate provider memory = .ok netlist)
    {a b c : Nat → List UInt64} (widthA : ∀ cycle, (a cycle).length = options.width)
    (widthB : ∀ cycle, (b cycle).length = options.width)
    (widthC : options.multiplyAdd = true → ∀ cycle, (c cycle).length = 2 * options.width)
    (cycle : Nat) :
    ∃ simulator words, netlist.settledAt (options.operands a b c) cycle = .ok simulator ∧
      simulator.output "o" = .ok words ∧ words.length = 2 * options.width ∧
      ∀ start, start + options.latency = cycle → ∀ lane,
        Lanes.number lane words = options.result (a start) (b start) (c start) lane := by
  rcases Generator.generate_eq_ok generated with ⟨complete, after, _, _, ran⟩
  rw [assemble_eq] at ran
  rcases Generator.opening_eq_ok ran with ⟨opened, isOpened, ran⟩
  rcases Attempt.run_bind_eq_ok ran with ⟨left, withA, inputA, ran⟩
  rcases Attempt.run_bind_eq_ok ran with ⟨right, withB, inputB, ran⟩
  rcases Attempt.run_bind_eq_ok ran with ⟨addend, withC, inputC, ran⟩
  rcases Attempt.input_opened isOpened inputA with ⟨openedA, widthLeft⟩
  rcases Attempt.input_opened openedA inputB with ⟨openedB, widthRight⟩
  rcases addend_opened openedB inputC with ⟨openedAll, addend_lt, widthAddend⟩
  have openedC : withC.Opened (options.ports left right addend) := openedAll
  have left_lt : Below withC.size left :=
    openedC.lt (by simp [ports] : (⟨"a", left⟩ : Port) ∈ options.ports left right addend)
  have right_lt : Below withC.size right :=
    openedC.lt (by simp [ports] : (⟨"b", right⟩ : Port) ∈ options.ports left right addend)
  have literals : Builder.trueId < withC.size :=
    (Array.getElem?_eq_some_iff.mp openedC.sound.literalTrue).1
  have fits (cycle : Nat) :
      (options.operands a b c cycle).map (fun entry => (entry.1, entry.2.length)) =
        (options.ports left right addend).map fun port => (port.name, port.width) := by
    cases added : options.multiplyAdd with
    | false => simp [operands, ports, added, widthA, widthB, Port.width, widthLeft, widthRight]
    | true =>
        rw [added, if_pos rfl] at widthAddend
        simp [operands, ports, added, widthA, widthB, widthC added, Port.width, widthLeft,
          widthRight, widthAddend]
  rcases (options.staged_streams literals left_lt right_lt addend_lt).exists_run openedC
    (options.nodup_ports left right addend) ran fits with ⟨product, trace, holds, runs⟩
  rcases runs cycle with ⟨simulator, words, settled, isOutput, width, shown⟩
  refine ⟨simulator, words, settled, isOutput, width, fun start isCycle lane => ?_⟩
  rcases holds lane with ⟨isProduct, isOperands⟩
  have isOperands := isOperands start
  subst isCycle
  rw [Lanes.number, shown lane, isProduct widthLeft, result]
  cases added : options.multiplyAdd with
  | false =>
      rw [added, if_neg Bool.false_ne_true] at widthAddend
      simp only [operands, ports, added, List.map_cons, List.map_nil, List.cons.injEq, and_true,
        Bool.false_eq_true, if_false, List.append_nil] at isOperands
      rw [isOperands.1, isOperands.2, List.length_eq_zero_iff.mp widthAddend]
      rfl
  | true =>
      simp only [operands, ports, added, List.map_cons, List.map_nil, List.cons.injEq, and_true,
        if_true, List.cons_append, List.nil_append] at isOperands
      rw [isOperands.1, isOperands.2.1, isOperands.2.2]
      rfl

/-- A generated multiplier multiplies modulo a power of two: in every cycle of every run, port `o`
shows in each lane the product of the operands as many cycles before as the latency says, with the
addend if there is one. Operands of other cycles leave no trace in it. -/
theorem generate_multiplies {options : Options} {provider : Provider} {memory : Memory}
    {netlist : Netlist} (generated : options.generate provider memory = .ok netlist)
    {a b c : Nat → List UInt64} (widthA : ∀ cycle, (a cycle).length = options.width)
    (widthB : ∀ cycle, (b cycle).length = options.width)
    (widthC : options.multiplyAdd = true → ∀ cycle, (c cycle).length = 2 * options.width) :
    (∀ cycle, ∃ simulator words,
      netlist.settledAt (options.operands a b c) cycle = .ok simulator ∧
      simulator.output "o" = .ok words ∧ words.length = 2 * options.width ∧
      ∀ start, start + options.latency = cycle → ∀ lane,
        Lanes.number lane words =
          (Lanes.number lane (a start) * Lanes.number lane (b start) +
            if options.multiplyAdd then Lanes.number lane (c start) else 0) %
              2 ^ (2 * options.width)) ∧
    ∀ (otherA otherB otherC : Nat → List UInt64),
      (∀ cycle, (otherA cycle).length = options.width) →
      (∀ cycle, (otherB cycle).length = options.width) →
      (options.multiplyAdd = true → ∀ cycle, (otherC cycle).length = 2 * options.width) →
        ∀ start, otherA start = a start → otherB start = b start →
          (options.multiplyAdd = true → otherC start = c start) →
            ∃ simulator otherSimulator words,
              netlist.settledAt (options.operands a b c) (start + options.latency) =
                .ok simulator ∧
              netlist.settledAt (options.operands otherA otherB otherC)
                (start + options.latency) = .ok otherSimulator ∧
              simulator.output "o" = .ok words ∧ otherSimulator.output "o" = .ok words := by
  refine ⟨exists_settledAt generated widthA widthB widthC, ?_⟩
  intro otherA otherB otherC otherWidthA otherWidthB otherWidthC start sameA sameB sameC
  rcases exists_settledAt generated widthA widthB widthC (start + options.latency) with
    ⟨simulator, words, settled, shown, width, isResult⟩
  rcases exists_settledAt generated otherWidthA otherWidthB otherWidthC
    (start + options.latency) with
    ⟨otherSimulator, otherWords, otherSettled, otherShown, otherWidth, isOtherResult⟩
  have same : words = otherWords := by
    apply Lanes.eq_of_number (by rw [width, otherWidth])
    intro lane
    rw [isResult start rfl lane, isOtherResult start rfl lane, sameA, sameB, result, result]
    by_cases added : options.multiplyAdd = true
    · rw [sameC added]
    · rw [if_neg added, if_neg added]
  subst same
  exact ⟨simulator, otherSimulator, words, settled, otherSettled, shown, otherShown⟩

/-- A registered multiplier of two bits with an addend, all gates realized: three times three and
eight is beyond four bits. -/
theorem generate_multiplies_registered :
    ∃ netlist, ({ width := 2, multiplyAdd := true, registerOutput := true } : Options).generate
        .inferred .machine = .ok netlist ∧
      ∃ simulator words,
        netlist.settledAt (({ width := 2, multiplyAdd := true, registerOutput := true } :
          Options).operands (fun _ => [1, 1]) (fun _ => [1, 1]) fun _ => [0, 0, 0, 1]) 1 =
            .ok simulator ∧
          simulator.output "o" = .ok words ∧ Lanes.number ⟨0, by decide⟩ words = 1 := by
  let options : Options := { width := 2, multiplyAdd := true, registerOutput := true }
  have succeeds : (options.generate .inferred .machine).isOk = true := by
    decide +kernel
  cases generated : options.generate .inferred .machine with
  | error error =>
      rw [generated] at succeeds
      cases succeeds
  | ok netlist =>
      have multiplies := generate_multiplies generated (a := fun _ => [1, 1]) (b := fun _ => [1, 1])
        (c := fun _ => [0, 0, 0, 1]) (fun _ => rfl) (fun _ => rfl) (fun _ _ => rfl)
      rcases multiplies.1 1 with ⟨simulator, words, settled, shown, _, isResult⟩
      refine ⟨netlist, rfl, simulator, words, settled, shown, ?_⟩
      exact (isResult 0 rfl ⟨0, by decide⟩).trans (by decide +kernel)

end Options

end Datapath.Multiplier

import Datapath.Proofs.Coherence
import Datapath.Proofs.Registers

/-!
# Runs of operations

`Operation` lists what can be asked of a builder, with arguments of any kind: the signals that an
operation names need not exist. Whether or not it is refused, an operation takes steps, strict ones
if the signals exist, so a run of operations keeps what every builder keeps.

For the finished netlist that means which reader the driver check can blame, and when the gates can
be ordered.
-/

namespace Datapath

open Scoped (exists_within)

/-- What can be asked of a builder. -/
inductive Operation where
  | input (name : String) (width : Nat)
  | output (name : String) (bits : List SignalId)
  | scope (label : Option String)
  | powered (rails : Bool)
  | request (primitive : Primitive) (inputs : List SignalId)
  | and2 (a b : SignalId)
  | or2 (a b : SignalId)
  | xor2 (a b : SignalId)
  | inv (a : SignalId)
  | ao21 (a1 a2 b1 : SignalId)
  | ao22 (a1 a2 b1 b2 : SignalId)
  | ao32 (a1 a2 a3 b1 b2 : SignalId)
  | halfAdder (a b : SignalId)
  | fullAdder (a b c : SignalId)
  | add (left right : List SignalId)
  | register (d : SignalId)
  | registerWord (word : List SignalId)
  deriving DecidableEq, Repr

namespace Operation

/-- The signals that an operation names. -/
def signals : Operation → List SignalId
  | input _ _ | scope _ | powered _ => []
  | output _ bits => bits
  | request _ inputs => inputs
  | and2 a b | or2 a b | xor2 a b | halfAdder a b => [a, b]
  | inv a => [a]
  | ao21 a1 a2 b1 => [a1, a2, b1]
  | ao22 a1 a2 b1 b2 => [a1, a2, b1, b2]
  | ao32 a1 a2 a3 b1 b2 => [a1, a2, a3, b1, b2]
  | fullAdder a b c => [a, b, c]
  | add left right => left ++ right
  | register d => [d]
  | registerWord word => word

/-- Whether an operation changes the ports or the rails of the netlist. -/
def ChangesInterface : Operation → Prop
  | input _ _ | output _ _ | powered _ => True
  | _ => False

/-- Carries out an operation; what it returns is up to the caller. -/
def perform (memory : Memory) : Operation → Attempt Unit
  | input name width => discard (Attempt.input memory name width)
  | output name bits => Build.output name bits
  | scope label => Build.setScope label
  | powered rails => Build.setPowered rails
  | request primitive inputs => discard (Attempt.request primitive inputs)
  | and2 a b => discard (Build.and2 a b)
  | or2 a b => discard (Build.or2 a b)
  | xor2 a b => discard (Build.xor2 a b)
  | inv a => discard (Build.inv a)
  | ao21 a1 a2 b1 => discard (Build.ao21 a1 a2 b1)
  | ao22 a1 a2 b1 b2 => discard (Build.ao22 a1 a2 b1 b2)
  | ao32 a1 a2 a3 b1 b2 => discard (Build.ao32 a1 a2 a3 b1 b2)
  | halfAdder a b => discard (Build.halfAdder a b)
  | fullAdder a b c => discard (Build.fullAdder a b c)
  | add left right => discard (Attempt.add left right)
  | register d => discard (Attempt.register d)
  | registerWord word => discard (Attempt.registerWord word)

/-- Carries out operations one after the other. -/
def performAll (memory : Memory) (operations : List Operation) : Attempt Unit :=
  operations.forM (perform memory)

/-- In a run of operations, every signal that an operation names exists when it is carried out. -/
def NamesExisting (memory : Memory) (provider : CompleteProvider) :
    Builder → List Operation → Prop
  | _, [] => True
  | builder, operation :: rest =>
      Below builder.size operation.signals ∧
        NamesExisting memory provider ((operation.perform memory).run provider builder).2 rest

end Operation

namespace Build

variable {α : Type} [Scoped α] {known : Nat}

theorem Meets.strictMoves {step : Build α} {post : Valuation Bool → α → Prop} {strict : Prop}
    (meets : Meets known step post) (provider : CompleteProvider) {before : Builder}
    (enough : strict → known ≤ before.size) :
    Builder.Moves provider.toProvider strict before (run step provider before).2 := by
  by_cases strictly : strict
  · exact (meets.promise provider before (enough strictly)).moves.weaken fun _ => trivial
  · exact (meets.moves provider before).weaken strictly

end Build

namespace Attempt

section

variable {α β : Type} {strict : Prop} {known : Nat}

theorem run_discard (attempt : Attempt α) (provider : CompleteProvider) (before : Builder) :
    run (discard attempt) provider before =
      ((run attempt provider before).1.map fun _ => (), (run attempt provider before).2) := by
  have unfolded : (discard attempt : Attempt Unit) = attempt >>= fun _ => pure () := rfl
  rw [unfolded, run_bind]
  rcases run attempt provider before with ⟨error | result, after⟩ <;> rfl

/-- The attempt makes moves whether or not it is refused, strict ones if the known signals exist. -/
def Advances (strict : Prop) (known : Nat) (attempt : Attempt α) : Prop :=
  ∀ (provider : CompleteProvider) (before : Builder), (strict → known ≤ before.size) →
    Builder.Moves provider.toProvider strict before (run attempt provider before).2

theorem advances_pure (result : α) : Advances strict known (pure result) :=
  fun _ _ _ => .refl

theorem advances_throw (error : Error) : Advances strict known (throw error : Attempt α) :=
  fun _ _ _ => .refl

theorem Performs.advances [Scoped α] {attempt : Attempt α} {step : Build α}
    {post : Valuation Bool → α → Prop} (performs : Performs attempt step)
    (meets : Build.Meets known step post) : Advances strict known attempt := by
  intro provider before enough
  rw [performs]
  exact meets.strictMoves provider enough

theorem Advances.bind {attempt : Attempt α} {next : α → Attempt β}
    (first : Advances strict known attempt) (rest : ∀ result, Advances strict known (next result)) :
    Advances strict known (attempt >>= next) := by
  intro provider before enough
  have moves := first provider before enough
  rw [run_bind]
  rcases part : run attempt provider before with ⟨error | result, middle⟩ <;> rw [part] at moves
  · exact moves
  · refine moves.trans (rest result provider middle fun strictly => ?_)
    exact Nat.le_trans (enough strictly) moves.extension.size_le

theorem Advances.discard {attempt : Attempt α} (advances : Advances strict known attempt) :
    Advances strict known (discard attempt) := by
  intro provider before enough
  rw [run_discard]
  exact advances provider before enough

end

/-- A request is refused unless the number of inputs is legal. -/
theorem request_eq_refuse {primitive : Primitive} {inputs : List SignalId}
    (illegal : ∀ count, primitive.accepts inputs.length count ≠ true) :
    request primitive inputs = refuse .wrongArity := by
  by_cases isAdd : primitive = .add
  · subst isAdd
    rw [request, if_pos]
    by_contra accepted
    rw [Bool.or_eq_true, not_or, decide_eq_true_iff, List.isEmpty_iff, ← ne_eq,
      ← List.length_pos_iff] at accepted
    apply illegal (inputs.length / 2)
    simp only [Primitive.accepts, Primitive.arity, Bool.and_eq_true, decide_eq_true_iff,
      beq_iff_eq]
    omega
  · rcases inputs with _ | ⟨a, _ | ⟨b, _ | ⟨c, _ | ⟨d, _ | ⟨e, _ | ⟨f, rest⟩⟩⟩⟩⟩⟩ <;>
      cases primitive <;> first
        | rfl
        | exact absurd rfl (illegal 1)
        | exact absurd rfl (illegal 2)
        | exact absurd rfl isAdd

variable {strict : Prop} {known : Nat}

/-- A legal request is a step of the construction. -/
theorem exists_request_performs {primitive : Primitive} {inputs : List SignalId} {count : Nat}
    (legal : primitive.accepts inputs.length count = true) (inputs_lt : Below known inputs) :
    ∃ step post, Performs (request primitive inputs) step ∧ Build.Meets known step post := by
  cases domain : primitive.domain with
  | combinational =>
      rcases request_performs domain legal inputs_lt with ⟨step, performs, meets⟩
      exact ⟨step, _, performs, meets⟩
  | synchronous =>
      cases primitive <;> cases domain
      have lengths : 1 = inputs.length ∧ 1 = count := by
        simpa [Primitive.accepts, Primitive.arity] using legal
      rcases List.length_eq_one_iff.mp lengths.1.symm with ⟨d, rfl⟩
      have d_lt : d < known := by simpa using inputs_lt
      exact ⟨_, fun _ _ => True, fun _ _ => rfl,
        (Build.dff_meets d_lt).singleton fun _ _ _ => trivial⟩

theorem request_advances (primitive : Primitive) {inputs : List SignalId}
    (inputs_lt : Below known inputs) : Advances strict known (request primitive inputs) := by
  by_cases legal : ∃ count, primitive.accepts inputs.length count = true
  · rcases legal with ⟨count, legal⟩
    rcases exists_request_performs legal inputs_lt with ⟨step, post, performs, meets⟩
    exact performs.advances meets
  · rw [request_eq_refuse (not_exists.mp legal)]
    exact advances_throw _

theorem add_advances {left right : List SignalId} (bits_lt : Below known (left ++ right)) :
    Advances strict known (add left right) := by
  rw [add]
  split
  · exact advances_throw _
  · exact request_advances .add bits_lt

theorem exists_known {before : Builder} {ids : List SignalId}
    (existing : strict → Below before.size ids) :
    ∃ known, Below known ids ∧ (strict → known ≤ before.size) := by
  by_cases strictly : strict
  · exact ⟨before.size, existing strictly, fun _ => Nat.le_refl _⟩
  · rcases exists_within ids with ⟨known, ids_lt⟩
    exact ⟨known, ids_lt, fun holds => absurd holds strictly⟩

/-- Only a signal that exists gets a register. -/
theorem register_advances (id : SignalId) : Advances strict known (register id) := by
  intro provider before _
  rw [register_eq, run_bind, run_isLiteral]
  rcases found : before.netlist.signals[id]? with _ | signal
  · exact .refl
  · dsimp only
    cases signal.isLiteral with
    | true => exact .refl
    | false =>
        have existing : id < before.size := (Array.getElem?_eq_some_iff.mp found).1
        exact (performs_lift _).advances (Build.dff_meets existing) provider before
          fun _ => Nat.le_refl _

theorem registerWord_advances (word : List SignalId) :
    Advances strict known (registerWord word) := by
  induction word with
  | nil => exact advances_pure []
  | cons id word ih =>
      rw [registerWord_cons]
      exact (register_advances id).bind fun q => ih.bind fun rest => advances_pure (q :: rest)

end Attempt

namespace Operation

open Attempt (Advances performs_lift)
open Builder (Steps)

variable {memory : Memory} {provider : CompleteProvider} {strict : Prop} {before after : Builder}

theorem exists_ran_of_discard {α : Type} {attempt : Attempt α}
    (ran : (discard attempt).run provider before = (.ok (), after)) :
    ∃ result, attempt.run provider before = (.ok result, after) := by
  rw [Attempt.run_discard] at ran
  rcases part : attempt.run provider before with ⟨error | result, final⟩
  · rw [part] at ran
    cases ran
  · rw [part] at ran
    exact ⟨result, congrArg _ (Prod.mk.inj ran).2⟩

theorem perform_advances {operation : Operation} {known : Nat}
    (inner : ¬ operation.ChangesInterface) (signals_lt : Below known operation.signals) :
    Advances strict known (operation.perform memory) := by
  cases operation with
  | input _ _ | output _ _ | powered _ => exact absurd trivial inner
  | scope label => exact fun _ before _ => .single (.scope before label)
  | request primitive inputs => exact (Attempt.request_advances primitive signals_lt).discard
  | and2 a b =>
      simp only [signals, below_cons] at signals_lt
      have meets := Build.and2_meets signals_lt.1 signals_lt.2.1
      exact ((performs_lift _).advances meets).discard
  | or2 a b =>
      simp only [signals, below_cons] at signals_lt
      have meets := Build.or2_meets signals_lt.1 signals_lt.2.1
      exact ((performs_lift _).advances meets).discard
  | xor2 a b =>
      simp only [signals, below_cons] at signals_lt
      have meets := Build.xor2_meets signals_lt.1 signals_lt.2.1
      exact ((performs_lift _).advances meets).discard
  | inv a =>
      simp only [signals, below_cons] at signals_lt
      exact ((performs_lift _).advances (Build.inv_meets signals_lt.1)).discard
  | ao21 a1 a2 b1 =>
      simp only [signals, below_cons] at signals_lt
      have meets := Build.ao21_meets signals_lt.1 signals_lt.2.1 signals_lt.2.2.1
      exact ((performs_lift _).advances meets).discard
  | ao22 a1 a2 b1 b2 =>
      simp only [signals, below_cons] at signals_lt
      rcases signals_lt with ⟨a1_lt, a2_lt, b1_lt, b2_lt, _⟩
      have meets := Build.ao22_meets a1_lt a2_lt b1_lt b2_lt
      exact ((performs_lift _).advances meets).discard
  | ao32 a1 a2 a3 b1 b2 =>
      simp only [signals, below_cons] at signals_lt
      rcases signals_lt with ⟨a1_lt, a2_lt, a3_lt, b1_lt, b2_lt, _⟩
      have meets := Build.ao32_meets a1_lt a2_lt a3_lt b1_lt b2_lt
      exact ((performs_lift _).advances meets).discard
  | halfAdder a b =>
      simp only [signals, below_cons] at signals_lt
      have meets := Build.halfAdder_meets signals_lt.1 signals_lt.2.1
      exact ((performs_lift _).advances meets).discard
  | fullAdder a b c =>
      simp only [signals, below_cons] at signals_lt
      rcases signals_lt with ⟨a_lt, b_lt, c_lt, _⟩
      have meets := Build.fullAdder_meets a_lt b_lt c_lt
      exact ((performs_lift _).advances meets).discard
  | add left right => exact (Attempt.add_advances signals_lt).discard
  | register d => exact (Attempt.register_advances d).discard
  | registerWord word => exact (Attempt.registerWord_advances word).discard

/-- An operation that leaves the interface alone makes moves, strict ones if its signals exist. -/
theorem perform_moves {operation : Operation} {result : Except Error Unit}
    (inner : ¬ operation.ChangesInterface)
    (ran : (operation.perform memory).run provider before = (result, after))
    (existing : strict → Below before.size operation.signals) :
    Builder.Moves provider.toProvider strict before after := by
  rcases Attempt.exists_known existing with ⟨known, signals_lt, enough⟩
  have advances : Advances strict known (operation.perform memory) :=
    perform_advances inner signals_lt
  have moves := advances provider before enough
  rwa [ran] at moves

/-- An operation takes steps whether or not it is refused, strict ones if its signals exist. -/
theorem perform_steps {operation : Operation} {result : Except Error Unit}
    (ran : (operation.perform memory).run provider before = (result, after))
    (existing : strict → Below before.size operation.signals) :
    Steps provider.toProvider strict before after := by
  cases operation with
  | input name width =>
      rw [perform, Attempt.run_discard, Attempt.input] at ran
      cases checked : memory.check width Memory.wordBytes <;> rw [checked] at ran <;> cases ran
      · exact .refl
      · exact .single (.input before name width)
  | output name bits =>
      cases ran
      exact .single (.output before name bits)
  | powered rails =>
      cases ran
      exact .single (.powered before rails)
  | _ => exact .single (.moves (perform_moves id ran existing))

theorem performAll_steps {operations : List Operation}
    (ran : (performAll memory operations).run provider before = (.ok (), after))
    (existing : strict → NamesExisting memory provider before operations) :
    Steps provider.toProvider strict before after := by
  induction operations generalizing before with
  | nil =>
      cases ran
      exact .refl
  | cons operation rest ih =>
      rcases Attempt.run_bind_eq_ok ran with ⟨_, middle, first, remaining⟩
      have steps := perform_steps first fun strictly => (existing strictly).1
      refine steps.trans (ih remaining fun strictly => ?_)
      have later := (existing strictly).2
      rwa [first] at later

/-- Operations of any kind leave every wire with one driver, no other signal with any, every gate
with a legal number of pins, and a clock just when there is a register. So the netlist is handed
over unless something is read that does not exist, and if all signals existed when they were named
then its gates can be ordered. -/
theorem performAll_wellDriven {provider : CompleteProvider} {memory : Memory} {name : String}
    {operations : List Operation} {after : Builder}
    (ran : (performAll memory operations).run provider (.start name) = (.ok (), after)) :
    let netlist := after.netlist
    let gates := netlist.gates.toList
    (∀ id label, netlist.signals[id]? = some (.wire label) →
        (gates.flatMap (·.outputs)).count id = 1) ∧
      (∀ gate ∈ gates, ∀ id ∈ gate.outputs, ∃ label,
        netlist.signals[id]? = some (.wire label)) ∧
      (∀ gate ∈ gates, gate.primitive.accepts gate.inputs.length gate.outputs.length = true) ∧
      (netlist.clock.isSome = true ↔ ∃ gate ∈ gates, gate.primitive = .dff) ∧
      ((¬ ∃ id ∈ netlist.reads, netlist.signals.size ≤ id) →
        (Attempt.finish.run provider after).1 = .ok netlist) ∧
      ((∃ id ∈ netlist.reads, netlist.signals.size ≤ id) →
        ∃ id ∈ netlist.reads, netlist.signals.size ≤ id ∧ (Attempt.finish.run provider after).1 =
          .error (.netlist (.signalOutOfBounds id netlist.signals.size))) ∧
      (NamesExisting memory provider (.start name) operations →
        ∃ order, netlist.combinationalOrder = .ok order) := by
  intro netlist gates
  have steps : Steps provider.toProvider False (.start name) after :=
    performAll_steps ran False.elim
  have coherent := (Builder.coherent_start name).steps steps
  have finished := Attempt.run_finish provider coherent
  refine ⟨fun id label found => ?_, coherent.driven.wires, coherent.legal, ?_, fun complete => ?_,
    fun incomplete => ?_, fun existing => ?_⟩
  · rw [coherent.drives]
    refine List.count_eq_one_of_mem ?_ (Netlist.mem_wires.mpr ⟨label, found⟩)
    rw [← coherent.drives]
    exact coherent.driven.once
  · rw [coherent.clock, List.any_eq_true]
    simp only [decide_eq_true_iff, gates, netlist]
  · have nothing : after.netlist.reads.find? (after.netlist.signals.size ≤ ·) = none := by
      refine List.find?_eq_none.mpr fun id member outside => complete ⟨id, member, ?_⟩
      simpa using outside
    rw [finished, nothing]
  · rcases incomplete with ⟨id, member, outside⟩
    rcases missing : after.netlist.reads.find? (after.netlist.signals.size ≤ ·) with _ | first
    · exact absurd (List.find?_eq_none.mp missing id member) (by simpa using outside)
    · rw [missing] at finished
      exact ⟨first, List.mem_of_find?_eq_some missing,
        by simpa using List.find?_some missing, finished⟩
  · have ascending : (Builder.start name).Ascending := nofun
    exact (ascending.steps (performAll_steps ran fun _ => existing)).exists_combinationalOrder
      coherent

/-- A register between an input and an output. -/
theorem performAll_wellDriven_register :
    ∃ after,
      (performAll .machine [.input "d" 1, .register 2, .output "q" [3]]).run
          ⟨.inferred, fun _ _ => rfl⟩ (.start "delay") = (.ok (), after) ∧
        (after.netlist.gates.toList.flatMap (·.outputs)).count 3 = 1 ∧
        after.netlist.clock.isSome = true ∧
        ∃ order, after.netlist.combinationalOrder = .ok order := by
  have ran : (performAll .machine [.input "d" 1, .register 2, .output "q" [3]]).run
      ⟨.inferred, fun _ _ => rfl⟩ (.start "delay") = (.ok (), _) := rfl
  rcases performAll_wellDriven ran with ⟨once, _, _, clock, _, _, ordered⟩
  refine ⟨_, ran, ?_⟩
  refine ⟨once 3 none rfl, clock.mpr ⟨_, List.mem_singleton_self _, rfl⟩, ordered ⟨?_, ?_, ?_, ?_⟩⟩
  · exact below_nil _
  · exact below_cons.mpr ⟨by decide, below_nil _⟩
  · exact below_cons.mpr ⟨by decide, below_nil _⟩
  · trivial

end Operation

end Datapath

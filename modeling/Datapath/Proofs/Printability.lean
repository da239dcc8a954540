import Datapath.Proofs.Operations
import Datapath.Proofs.Wiring

/-!
# Which netlists have a text

A port of the header has an index range, and there is none for a port without bits. That is all that
can keep a netlist that passes the driver check from its text: every gate has the pins that its
statements use and all of them are signals, `Netlist.Accepted.exists_gateStatements`. The builder
and the driver check take ports of any width, so `Operation.performAll_printed` says for a finished
netlist when there is a text.
-/

namespace Datapath

open Verilog

namespace Netlist

variable {netlist : Netlist}

/-- Declaring ports fails only at a port without bits. -/
theorem mapM_portDeclaration_cases (isInput : Bool) (ports : List Port) :
    (ports.mapM (portDeclaration isInput) = .ok (ports.map (headed isInput)) ∧
      ∀ port ∈ ports, port.bits ≠ []) ∨
    ports.mapM (portDeclaration isInput) = .error .emptyPort ∧ ∃ port ∈ ports, port.bits = [] := by
  induction ports with
  | nil => exact .inl ⟨rfl, nofun⟩
  | cons port ports ih =>
      rw [List.mapM_cons]
      by_cases empty : port.bits = []
      · refine .inr ⟨?_, port, List.mem_cons_self, empty⟩
        rw [portDeclaration, Port.width, empty]
        rfl
      · rw [portDeclaration_eq_ok isInput empty]
        rcases ih with ⟨declared, filled⟩ | ⟨failed, other, member, isEmpty⟩
        · refine .inl ⟨?_, List.forall_mem_cons.mpr ⟨empty, filled⟩⟩
          rw [declared]
          rfl
        · refine .inr ⟨?_, other, List.mem_cons_of_mem port member, isEmpty⟩
          rw [failed]
          rfl

/-- A port without bits keeps any netlist from its text. -/
theorem toVerilog_eq_error {port : Port} (member : port ∈ netlist.inputs ++ netlist.outputs)
    (empty : port.bits = []) : netlist.toVerilog = .error .emptyPort := by
  have declared : netlist.portDeclarations = .error .emptyPort := by
    rw [portDeclarations]
    rcases mapM_portDeclaration_cases true netlist.inputs with ⟨inputs, filledInputs⟩ | ⟨inputs, _⟩
    · rcases mapM_portDeclaration_cases false netlist.outputs with
        ⟨_, filledOutputs⟩ | ⟨outputs, _⟩
      · exact absurd empty (List.forall_mem_append.mpr ⟨filledInputs, filledOutputs⟩ port member)
      · rw [inputs, outputs]
        rfl
    · rw [inputs]
      rfl
  rw [toVerilog, declared]
  rfl

theorem Accepted.inside (accepted : netlist.Accepted) {gate : Gate}
    (member : gate ∈ netlist.gates.toList) : gate.Inside netlist.signals.size := by
  refine ⟨fun id pin => ?_, fun id pin => ?_⟩
  · exact (accepted.supplied id (mem_reads.mpr (.inl ⟨gate, member, pin⟩))).1
  · rcases accepted.wires gate member id pin with ⟨label, found⟩
    exact (Array.getElem?_eq_some_iff.mp found).1

/-- Every gate of an accepted netlist can be written. -/
theorem Accepted.exists_gateStatements (accepted : netlist.Accepted) {gate : Gate}
    (member : gate ∈ netlist.gates.toList) :
    ∃ statements, netlist.gateStatements gate = .ok statements := by
  have inside := accepted.inside member
  have legal := accepted.legal gate member
  rw [gateStatements]
  cases gate.realization with
  | inferred =>
      by_cases isAdd : gate.primitive = .add
      · exact ⟨_, inferredStatements_of_add inside legal isAdd⟩
      · cases isRegister : gate.isRegister with
        | true =>
            rcases inferredStatements_of_register inside legal isRegister with ⟨_, _, _, _, written⟩
            exact ⟨_, written⟩
        | false =>
            rcases inferredStatements_of_formulas inside legal isAdd isRegister with
              ⟨_, _, _, written⟩
            exact ⟨_, written⟩
  | cell binding =>
      dsimp only
      rw [cellStatement, connections_eq_ok inside.1, connections_eq_ok inside.2]
      exact ⟨_, rfl⟩

/-- An accepted netlist with bits at all ports has a module, with statements for every gate. -/
theorem Accepted.exists_toVerilog (accepted : netlist.Accepted) (filled : netlist.PortsFilled) :
    ∃ statements, netlist.toVerilog = .ok (netlist.moduleWith statements) := by
  have each (gate : Gate) (member : gate ∈ netlist.gates.toList) :
      ∃ statements, netlist.gateStatements gate = .ok statements ∧ True :=
    (accepted.exists_gateStatements member).imp fun _ written => ⟨written, trivial⟩
  rcases Except.exists_mapM_eq_ok each with ⟨statements, written, _⟩
  refine ⟨statements, filled.toVerilog_eq_ok (fun port member id bit => ?_) written⟩
  exact (accepted.supplied id (mem_reads.mpr (.inr ⟨port, member, bit⟩))).1

end Netlist

namespace Operation

variable {provider : CompleteProvider} {memory : Memory} {operation : Operation}
  {operations : List Operation} {before after : Builder} {netlist : Netlist}

/-- An operation that adds a port without bits. -/
def AddsEmptyPort : Operation → Prop
  | input _ width => width = 0
  | output _ bits => bits = []
  | _ => False

theorem perform_portsFilled
    (ran : (operation.perform memory).run provider before = (.ok (), after)) :
    after.netlist.PortsFilled ↔ before.netlist.PortsFilled ∧ ¬ operation.AddsEmptyPort := by
  cases operation with
  | input name width =>
      rcases exists_ran_of_discard ran with ⟨bits, isInput⟩
      rw [(Attempt.input_eq_ok isInput).2]
      simp only [Netlist.PortsFilled, Builder.addInput, AddsEmptyPort, List.forall_mem_append,
        List.forall_mem_singleton, ne_eq, List.range'_eq_nil_iff]
      exact and_right_comm
  | output name bits =>
      cases ran
      simp only [Netlist.PortsFilled, Builder.addOutput, AddsEmptyPort, List.forall_mem_append,
        List.forall_mem_singleton, and_assoc]
  | powered rails =>
      cases ran
      exact (and_iff_left id).symm
  | _ =>
      have moves : Builder.Moves provider.toProvider False before after :=
        perform_moves id ran False.elim
      have extension := moves.extension
      rw [Netlist.PortsFilled, extension.inputs, extension.outputs]
      exact (and_iff_left id).symm

/-- Every port of what operations have built has a bit if no operation added a port without. -/
theorem performAll_portsFilled
    (ran : (performAll memory operations).run provider before = (.ok (), after)) :
    after.netlist.PortsFilled ↔
      before.netlist.PortsFilled ∧ ∀ operation ∈ operations, ¬ operation.AddsEmptyPort := by
  induction operations generalizing before with
  | nil =>
      cases ran
      simp
  | cons operation rest ih =>
      rcases Attempt.run_bind_eq_ok ran with ⟨_, middle, first, remaining⟩
      rw [ih remaining, perform_portsFilled first, List.forall_mem_cons, and_assoc]

/-- A netlist that operations of any kind have built and that has been handed over has a text unless
an operation added a port without bits; then the text is refused because of an empty port. -/
theorem performAll_printed {name : String}
    (ran : (performAll memory operations).run provider (.start name) = (.ok (), after))
    (finished : (Attempt.finish.run provider after).1 = .ok netlist) :
    ((∀ operation ∈ operations, ¬ operation.AddsEmptyPort) →
        ∃ text, netlist.verilogText = .ok text) ∧
      ((∃ operation ∈ operations, operation.AddsEmptyPort) →
        netlist.verilogText = .error .emptyPort) := by
  rcases Attempt.accepted_of_finish finished with ⟨rfl, accepted⟩
  have filled : after.netlist.PortsFilled ↔ ∀ operation ∈ operations, ¬ operation.AddsEmptyPort :=
    (performAll_portsFilled ran).trans (and_iff_right nofun)
  constructor
  · intro noneEmpty
    rcases accepted.exists_toVerilog (filled.mpr noneEmpty) with ⟨statements, written⟩
    refine ⟨(after.netlist.moduleWith statements).text, ?_⟩
    rw [Netlist.verilogText, written]
    rfl
  · rintro ⟨operation, member, empty⟩
    have unfilled : ¬ after.netlist.PortsFilled := fun isFilled =>
      filled.mp isFilled operation member empty
    simp only [Netlist.PortsFilled, ne_eq, not_forall, not_not] at unfilled
    rcases unfilled with ⟨port, isPort, isEmpty⟩
    rw [Netlist.verilogText, Netlist.toVerilog_eq_error isPort isEmpty]
    rfl

/-- An inverter has a text. -/
theorem performAll_printed_inverter :
    ∃ after netlist text,
      (performAll .machine [.input "a" 1, .inv 2, .output "o" [3]]).run
          ⟨.inferred, fun _ _ => rfl⟩ (.start "top") = (.ok (), after) ∧
        (Attempt.finish.run ⟨.inferred, fun _ _ => rfl⟩ after).1 = .ok netlist ∧
        netlist.verilogText = .ok text := by
  have ran : (performAll .machine [.input "a" 1, .inv 2, .output "o" [3]]).run
      ⟨.inferred, fun _ _ => rfl⟩ (.start "top") = (.ok (), _) := rfl
  rcases (performAll_printed ran rfl).1 (by simp [AddsEmptyPort]) with ⟨text, printed⟩
  exact ⟨_, _, text, ran, rfl, printed⟩

/-- An input without bits is built and handed over, and then there is no text. -/
theorem performAll_printed_empty :
    ∃ after netlist,
      (performAll .machine [.input "a" 0, .output "o" [1]]).run
          ⟨.inferred, fun _ _ => rfl⟩ (.start "top") = (.ok (), after) ∧
        (Attempt.finish.run ⟨.inferred, fun _ _ => rfl⟩ after).1 = .ok netlist ∧
        ¬ ∃ text, netlist.verilogText = .ok text := by
  refine ⟨_, _, rfl, rfl, ?_⟩
  rintro ⟨text, ⟨⟩⟩

end Operation

end Datapath

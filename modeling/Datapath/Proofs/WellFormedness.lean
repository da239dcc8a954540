import Datapath.CellLibrary
import Datapath.Proofs.Transcription

/-!
# Well-formed texts

The module that is read back from the text of a generated netlist is well formed, whichever
primitives are left to synthesis and also where all gates are cells of `CellLibrary.sky130`:
`Generator.texts_wellFormed`. It has the ports and wires of the netlist, with what is written for
every gate and every output bit. Remarks, which are lost in reading, do not matter, and the cells of
the library have the pins that their primitives need.
-/

namespace Datapath

open Verilog (IsName)

namespace Verilog

namespace Statement

variable (statement : Statement)

@[simp]
theorem atoms_bare : statement.bare.atoms = statement.atoms := by
  cases statement <;> rfl

@[simp]
theorem driven_bare (outputPins : String → List String) :
    statement.bare.driven outputPins = statement.driven outputPins := by
  cases statement <;> rfl

@[simp]
theorem instance?_bare : statement.bare.instance? = statement.instance? := by
  cases statement <;> rfl

end Statement

namespace Module

variable (module : Module) {outputPins : String → List String}

@[simp]
theorem names_bare : module.bare.names = module.names := by
  simp [names, bare, List.filterMap_map]

@[simp]
theorem driven_bare : module.bare.driven outputPins = module.driven outputPins := by
  simp [driven, bare, List.flatMap_map]

/-- Remarks do not matter. -/
theorem WellFormed.bare {module : Module} (wellFormed : module.WellFormed outputPins) :
    module.bare.WellFormed outputPins where
  distinct := by
    rw [names_bare]
    exact wellFormed.distinct
  declared := by
    refine List.forall_mem_map.mpr fun statement member bit used => ?_
    rw [Statement.atoms_bare] at used
    exact wellFormed.declared statement member bit used
  nets net declared := by
    rw [driven_bare]
    exact wellFormed.nets net declared
  registers net declared := by
    rw [wellFormed.registers net declared]
    simp [Module.bare]
  outputs port listed isOutput := by
    rw [driven_bare]
    exact wellFormed.outputs port listed isOutput
  sources := by
    rw [driven_bare]
    exact wellFormed.sources

end Module

end Verilog

/-! ## Providers -/

/-- Where no gate is bound to a cell, nothing is asked of cells. -/
theorem Provider.Infers.fits {provider : Provider} (infers : provider.Infers) : provider.Fits := by
  intro primitive binding realized
  cases infers.realization_eq realized

namespace CellLibrary

/-- The cells have the pins that their primitives need, and no two kinds are confused. -/
theorem sky130_fits : sky130.provider.Fits := by
  intro primitive binding realized
  rcases Option.map_eq_some_iff.mp realized with ⟨cell, found, isBinding⟩
  cases Realization.cell.inj isBinding
  cases primitive with
  | add => cases found
  | _ =>
      cases found
      exact ⟨{
        arity := rfl
        distinct := by decide
        clock := by decide
        rails := by decide
        kind := by decide
        names := by decide }, by decide⟩

end CellLibrary

/-! ## Generated texts -/

/-- The text of the netlist is read back as a module that is well formed and is the netlist: it has
the ports of the netlist, a net for each wire, and, apart from remarks, after one another what is
written for each gate and an assignment to each bit of an output port. -/
def Netlist.TextWellFormed (provider : Provider) (netlist : Netlist) : Prop :=
  ∃ text module, netlist.verilogText = .ok text ∧
    Verilog.Module.read netlist.name text = some module ∧
    module.WellFormed provider.outputPins ∧
    module.ports = netlist.header ∧
    module.nets.map (fun net => Verilog.Atom.net net.name) = netlist.wires.map netlist.atomAt ∧
    ∃ lists, List.Forall₂ (netlist.WrittenFor provider.outputPins) netlist.gates.toList lists ∧
      module.statements = lists.flatten.map Verilog.Statement.bare ++
        (netlist.outputs.map netlist.shownStatements).flatten

/-- The assignments of output ports have no remarks. -/
theorem Netlist.map_bare_shownStatements (netlist : Netlist) (port : Port) :
    (netlist.shownStatements port).map Verilog.Statement.bare = netlist.shownStatements port := by
  simp [shownStatements, Verilog.Statement.bare]

theorem Netlist.Composed.textWellFormed {provider : Provider} {netlist : Netlist}
    (composed : netlist.Composed provider) (fits : provider.Fits) :
    netlist.TextWellFormed provider := by
  rcases composed.exists_module fits with ⟨lists, isModule, written, legible, wellFormed⟩
  refine ⟨_, (netlist.moduleWith lists).bare, ?_, Verilog.Module.read_text legible,
    wellFormed.bare, rfl, netlist.map_net_netDeclarations, lists, written, ?_⟩
  · rw [verilogText, isModule]
    rfl
  · have shown : (netlist.outputs.map netlist.shownStatements).flatten.map
        Verilog.Statement.bare = (netlist.outputs.map netlist.shownStatements).flatten := by
      rw [List.map_flatten, List.map_map]
      exact congrArg List.flatten (List.map_congr_left fun port _ =>
        netlist.map_bare_shownStatements port)
    rw [Verilog.Module.bare, moduleWith, List.map_append, shown]

namespace Generator

/-- For all options, and for every provider that leaves gates to synthesis or binds them to the
cells of the library, the text of a generated netlist is well formed: names differ, what is used is
declared, and each net and each bit of an output port is driven exactly once, a register at an edge
of the clock. The nets are the wires of the netlist, the ports are its ports, and each of its gates
and output bits is written down. -/
theorem texts_wellFormed :
    (∀ (options : Adder.Options) (provider : Provider) (memory : Memory) (netlist : Netlist),
      provider.Infers ∨ provider = CellLibrary.sky130.provider →
        options.generate provider memory = .ok netlist → netlist.TextWellFormed provider) ∧
    ∀ (options : Multiplier.Options) (provider : Provider) (memory : Memory) (netlist : Netlist),
      provider.Infers ∨ provider = CellLibrary.sky130.provider →
        options.generate provider memory = .ok netlist → netlist.TextWellFormed provider := by
  have fits {provider : Provider}
      (among : provider.Infers ∨ provider = CellLibrary.sky130.provider) : provider.Fits := by
    rcases among with infers | rfl
    · exact infers.fits
    · exact CellLibrary.sky130_fits
  exact ⟨fun _ _ _ _ among generated =>
      (Adder.Options.composed generated).textWellFormed (fits among),
    fun _ _ _ _ among generated =>
      (Multiplier.Options.composed generated).textWellFormed (fits among)⟩

/-- A registered adder of one bit that is made of cells, and a multiplier of one bit whose half
adders are decomposed. -/
theorem texts_wellFormed_single :
    (∃ netlist, Adder.Options.generate { width := 1, registerInput := true, powered := true }
        CellLibrary.sky130.provider = .ok netlist ∧
      netlist.gates.toList.map (·.name) =
        ["in_reg_dff_0", "in_reg_dff_1", "add_brentkung_ha_2"] ∧
      netlist.TextWellFormed CellLibrary.sky130.provider) ∧
    ∃ netlist, Multiplier.Options.generate { width := 1, scheme := .schoolbook }
        (.restrictedTo [.and2, .inv, .dff]) = .ok netlist ∧
      netlist.TextWellFormed (.restrictedTo [.and2, .inv, .dff]) := by
  let adder : Adder.Options := { width := 1, registerInput := true, powered := true }
  let multiplier : Multiplier.Options := { width := 1, scheme := .schoolbook }
  let cells := CellLibrary.sky130.provider
  let basis := Provider.restrictedTo [.and2, .inv, .dff]
  have names : (adder.generate cells).toOption.map (·.gates.toList.map (·.name)) =
      some ["in_reg_dff_0", "in_reg_dff_1", "add_brentkung_ha_2"] := by
    decide +kernel
  have succeeds : (multiplier.generate basis).toOption.isSome = true := by
    decide +kernel
  constructor
  · cases generated : adder.generate cells with
    | error error =>
        rw [generated] at names
        cases names
    | ok netlist =>
        rw [generated] at names
        exact ⟨netlist, rfl, Option.some.inj names,
          texts_wellFormed.1 adder cells .machine netlist (.inr rfl) generated⟩
  · cases generated : multiplier.generate basis with
    | error error =>
        rw [generated] at succeeds
        cases succeeds
    | ok netlist =>
        exact ⟨netlist, rfl, texts_wellFormed.2 multiplier basis .machine netlist
          (.inl (.inr ⟨_, rfl⟩)) generated⟩

end Generator

end Datapath

import Mathlib.Algebra.Group.Nat.Defs
import Datapath.Bits
import Datapath.Proofs.Reading

/-!
# What modules mean

A module without cells is a system of equations between bits with registers. An environment gives
every bit of every name a value. It solves the module when each continuous assignment is an
equation, where the sum of two words is taken modulo two to the width of its target. At a clock edge
all clocked assignments are carried out at once, with the values before the edge; inputs keep their
values, and so do registers that nothing assigns. Setting an input port changes neither registers
nor other inputs. After each of them the equations hold again.

`Module.Executes` follows a sequence of actions from an environment in which all inputs and
registers are false. Remarks play no part in any of this.
-/

namespace Datapath.Verilog

/-- The values of the bits of all names. A net that is no vector has bit zero only. -/
abbrev Environment := String → Nat → Bool

/-- The value of a bit. -/
def Atom.value (environment : Environment) : Atom → Bool
  | .net name => environment name 0
  | .bit vector index => environment vector index
  | .constant value => value

/-- The value of a formula. -/
def Expression.value (environment : Environment) : Expression → Bool
  | .atom bit => bit.value environment
  | .not operand => !operand.value environment
  | .binary .and left right => left.value environment && right.value environment
  | .binary .or left right => left.value environment || right.value environment
  | .binary .xor left right => left.value environment ^^ right.value environment

/-- The number that a word stands for; its bits are listed low bit first. -/
def wordValue (environment : Environment) (bits : List Atom) : Nat :=
  Bits.value (bits.map (·.value environment))

namespace Statement

/-- The equation of a continuous assignment. What a cell does is not said here. -/
def Holds (environment : Environment) : Statement → Prop
  | .assign target value _ => target.value environment = value.value environment
  | .assignSum target left right _ =>
    wordValue environment target =
      (wordValue environment left + wordValue environment right) % 2 ^ target.length
  | .clocked .. | .cell .. => True

/-- What an assignment at the edge of a clock does. -/
def Latches (clock : String) (before after : Environment) : Statement → Prop
  | .clocked net target value _ => net = clock → target.value after = value.value before
  | .assign .. | .assignSum .. | .cell .. => True

/-- The statement assigns a name at the edge of a clock. -/
def Clocks (clock name : String) : Statement → Prop
  | .clocked net target _ _ => net = clock ∧ target = .net name
  | .assign .. | .assignSum .. | .cell .. => False

variable {statement : Statement}

@[simp]
theorem holds_bare {environment : Environment} :
    statement.bare.Holds environment ↔ statement.Holds environment := by
  cases statement <;> rfl

@[simp]
theorem latches_bare {clock : String} {before after : Environment} :
    statement.bare.Latches clock before after ↔ statement.Latches clock before after := by
  cases statement <;> rfl

@[simp]
theorem clocks_bare {clock name : String} :
    statement.bare.Clocks clock name ↔ statement.Clocks clock name := by
  cases statement <;> rfl

end Statement

/-- What can happen to a module. -/
inductive Action where
  /-- An input port takes a word, low bit first. -/
  | take (port : String) (word : List Bool)
  /-- An edge of the clock. -/
  | tick
  deriving DecidableEq, Repr

namespace Module

/-- The environment solves the equations of the module. -/
def Solves (module : Module) (environment : Environment) : Prop :=
  ∀ statement ∈ module.statements, statement.Holds environment

/-- The name is that of an input. -/
def IsInput (module : Module) (name : String) : Prop :=
  ∃ port ∈ module.ports, port.isInput = true ∧ port.name = name

/-- The name is that of a register. -/
def IsRegister (module : Module) (name : String) : Prop :=
  ∃ net ∈ module.nets, net.isRegister = true ∧ net.name = name

/-- All inputs and registers are false. -/
structure Starts (module : Module) (environment : Environment) : Prop where
  solves : module.Solves environment
  inputs : ∀ name, module.IsInput name → ∀ index, environment name index = false
  registers : ∀ name, module.IsRegister name → environment name 0 = false

/-- An input port takes a word. -/
structure Takes (module : Module) (port : String) (word : List Bool) (before after : Environment) :
    Prop where
  solves : module.Solves after
  taken : ∀ index bit, word[index]? = some bit → after port index = bit
  inputs : ∀ name, module.IsInput name → name ≠ port → after name = before name
  registers : ∀ name, module.IsRegister name → after name 0 = before name 0

/-- An edge of a clock. -/
structure Ticks (module : Module) (clock : String) (before after : Environment) : Prop where
  solves : module.Solves after
  latched : ∀ statement ∈ module.statements, statement.Latches clock before after
  inputs : ∀ name, module.IsInput name → after name = before name
  registers : ∀ name, module.IsRegister name →
    (∀ statement ∈ module.statements, ¬ statement.Clocks clock name) →
      after name 0 = before name 0

/-- What an action does, where a given net is the clock. -/
def Acts (module : Module) (clock : String) (before after : Environment) : Action → Prop
  | .take port word => module.Takes port word before after
  | .tick => module.Ticks clock before after

/-- What actions do one after the other. -/
def Follows (module : Module) (clock : String) : List Action → Environment → Environment → Prop
  | [], before, after => after = before
  | action :: actions, before, after =>
    ∃ middle, module.Acts clock before middle action ∧ module.Follows clock actions middle after

/-- The environment ends an execution of the actions. -/
def Executes (module : Module) (clock : String) (actions : List Action)
    (environment : Environment) : Prop :=
  ∃ start, module.Starts start ∧ module.Follows clock actions start environment

variable {module : Module} {clock : String}

theorem solves_bare {environment : Environment} :
    module.bare.Solves environment ↔ module.Solves environment := by
  simp [Solves, bare]

theorem acts_bare {before after : Environment} {action : Action} :
    module.bare.Acts clock before after action ↔ module.Acts clock before after action := by
  cases action with
  | take port word =>
      exact ⟨fun takes => ⟨solves_bare.mp takes.solves, takes.taken, takes.inputs, takes.registers⟩,
        fun takes => ⟨solves_bare.mpr takes.solves, takes.taken, takes.inputs, takes.registers⟩⟩
  | tick =>
      have latched : (∀ statement ∈ module.bare.statements, statement.Latches clock before after) ↔
          ∀ statement ∈ module.statements, statement.Latches clock before after := by
        simp [bare]
      have clocked (name : String) :
          (∀ statement ∈ module.bare.statements, ¬ statement.Clocks clock name) ↔
            ∀ statement ∈ module.statements, ¬ statement.Clocks clock name := by
        simp [bare]
      constructor
      · exact fun ticks => ⟨solves_bare.mp ticks.solves, latched.mp ticks.latched, ticks.inputs,
          fun name isRegister free => ticks.registers name isRegister ((clocked name).mpr free)⟩
      · exact fun ticks => ⟨solves_bare.mpr ticks.solves, latched.mpr ticks.latched, ticks.inputs,
          fun name isRegister free => ticks.registers name isRegister ((clocked name).mp free)⟩

theorem follows_bare {actions : List Action} {before after : Environment} :
    module.bare.Follows clock actions before after ↔ module.Follows clock actions before after := by
  induction actions generalizing before with
  | nil => rfl
  | cons action actions ih => simp [Follows, acts_bare, ih]

/-- Remarks play no part in executions. -/
theorem executes_bare {actions : List Action} {environment : Environment} :
    module.bare.Executes clock actions environment ↔
      module.Executes clock actions environment := by
  have starts (start : Environment) : module.bare.Starts start ↔ module.Starts start :=
    ⟨fun starts => ⟨solves_bare.mp starts.solves, starts.inputs, starts.registers⟩,
      fun starts => ⟨solves_bare.mpr starts.solves, starts.inputs, starts.registers⟩⟩
  simp [Executes, starts, follows_bare]

theorem follows_append {first second : List Action} {before after : Environment} :
    module.Follows clock (first ++ second) before after ↔
      ∃ middle, module.Follows clock first before middle ∧
        module.Follows clock second middle after := by
  induction first generalizing before with
  | nil => simp [Follows]
  | cons action actions ih =>
      simp only [List.cons_append, Follows, ih]
      constructor
      · rintro ⟨next, acts, middle, follows, rest⟩
        exact ⟨middle, ⟨next, acts, follows⟩, rest⟩
      · rintro ⟨middle, ⟨next, acts, follows⟩, rest⟩
        exact ⟨next, acts, middle, follows, rest⟩

end Module

end Datapath.Verilog

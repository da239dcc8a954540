import Datapath.Logic
import Datapath.Proofs.Equations
import Datapath.Verilog.OfNetlist

/-!
# Formulas of gates

The formulas that a gate is written with are no part of what the gate computes, so the two have to
be compared: `Primitive.outputs_value` says that in every environment the formulas have the values
that the gate computes from those of its inputs. Beyond that, the formulas of a gate with a legal
number of pins are as many as its outputs, and their bits are those of its inputs.
-/

namespace Datapath

open Verilog

namespace Verilog.Expression

/-- The bits of a formula. -/
def atoms : Expression → List Atom
  | .atom bit => [bit]
  | .not operand => operand.atoms
  | .binary _ left right => left.atoms ++ right.atoms

/-- A formula can be read if its bits can. -/
theorem legible_of_atoms {formula : Expression} (legible : ∀ bit ∈ formula.atoms, bit.Legible) :
    formula.Legible := by
  induction formula with
  | atom bit => exact legible bit (List.mem_singleton_self bit)
  | not operand ih => exact ih legible
  | binary operator left right ihLeft ihRight =>
      rw [atoms, List.forall_mem_append] at legible
      exact ⟨ihLeft legible.1, ihRight legible.2⟩

section Connectives

variable (environment : Environment) (left right : Expression)

@[simp]
theorem value_and :
    (left &&& right).value environment = (left.value environment &&& right.value environment) :=
  rfl

@[simp]
theorem value_or :
    (left ||| right).value environment = (left.value environment ||| right.value environment) :=
  rfl

@[simp]
theorem value_xor :
    (left ^^^ right).value environment = (left.value environment ^^^ right.value environment) :=
  rfl

@[simp]
theorem value_complement : (~~~left).value environment = ~~~left.value environment :=
  rfl

@[simp]
theorem atoms_and : (left &&& right).atoms = left.atoms ++ right.atoms :=
  rfl

@[simp]
theorem atoms_or : (left ||| right).atoms = left.atoms ++ right.atoms :=
  rfl

@[simp]
theorem atoms_xor : (left ^^^ right).atoms = left.atoms ++ right.atoms :=
  rfl

@[simp]
theorem atoms_complement : (~~~left).atoms = left.atoms :=
  rfl

end Connectives

end Verilog.Expression

namespace Primitive

variable {primitive : Primitive} {inputs : List Atom}

/-- What a gate computes from the values of its inputs are the values of its formulas. -/
theorem outputs_value (noRegister : primitive ≠ .dff) (inputs : List Atom)
    (environment : Environment) :
    primitive.outputs (inputs.map (·.value environment)) =
      (primitive.formulas inputs).map (List.map (·.value environment)) := by
  rcases inputs with _ | ⟨a, _ | ⟨b, _ | ⟨c, _ | ⟨d, _ | ⟨e, rest⟩⟩⟩⟩⟩ <;>
    cases primitive <;>
      simp [outputs, formulas, Logic.sum, Logic.carry, Expression.value, Except.map, pure,
        Except.pure, throw, throwThe, MonadExceptOf.throw] at noRegister ⊢

/-- A gate of fixed arity with a legal number of pins has a formula for each of its outputs. -/
theorem exists_formulas_eq_ok (noAdd : primitive ≠ .add) (noRegister : primitive ≠ .dff)
    {count : Nat} (legal : primitive.accepts inputs.length count = true) :
    ∃ formulas, primitive.formulas inputs = .ok formulas ∧ formulas.length = count := by
  rcases inputs with _ | ⟨a, _ | ⟨b, _ | ⟨c, _ | ⟨d, _ | ⟨e, _ | ⟨f, rest⟩⟩⟩⟩⟩⟩ <;>
    cases primitive <;> simp [accepts, arity] at legal noAdd noRegister <;> subst legal <;>
      exact ⟨_, rfl, rfl⟩

/-- The formulas are about the inputs. -/
theorem atoms_formulas_subset {formulas : List Expression}
    (written : primitive.formulas inputs = .ok formulas) :
    formulas.flatMap Expression.atoms ⊆ inputs := by
  rcases inputs with _ | ⟨a, _ | ⟨b, _ | ⟨c, _ | ⟨d, _ | ⟨e, rest⟩⟩⟩⟩⟩ <;>
    cases primitive <;> cases written <;> simp [Expression.atoms]

/-- The formulas are about all inputs. -/
theorem subset_atoms_formulas {formulas : List Expression} {count : Nat}
    (legal : primitive.accepts inputs.length count = true) (noAdd : primitive ≠ .add)
    (written : primitive.formulas inputs = .ok formulas) :
    inputs ⊆ formulas.flatMap Expression.atoms := by
  rcases inputs with _ | ⟨a, _ | ⟨b, _ | ⟨c, _ | ⟨d, _ | ⟨e, _ | ⟨f, rest⟩⟩⟩⟩⟩⟩ <;>
    cases primitive <;> simp [accepts, arity] at legal noAdd <;> cases written <;>
      simp [Expression.atoms]

end Primitive

end Datapath

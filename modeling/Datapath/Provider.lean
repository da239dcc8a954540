import Datapath.Error

/-!
# Gate providers

A provider answers, for each primitive, whether it can be realized directly and how. Primitives that
it declines are decomposed into simpler ones, down to the basis, so gates are only built with a
`CompleteProvider`: one that realizes the basis.
-/

namespace Datapath

/-- How a gate is bound to a cell of a technology library. -/
structure CellBinding where
  /-- The name of the cell. -/
  cell : String
  /-- One pin for each input of the primitive, in order. -/
  inputPins : List String
  /-- One pin for each output of the primitive, in order. -/
  outputPins : List String
  clockPin : Option String
  /-- Supply pins and the rails they connect to, used where the module carries its rails. -/
  powerPins : List (String × String)
  deriving DecidableEq, Repr

/-- How a gate comes to exist. -/
inductive Realization where
  /-- As the primitive's function, left to later synthesis. -/
  | inferred
  /-- As an instance of a cell. -/
  | cell (binding : CellBinding)
  deriving DecidableEq, Repr

/-- A named choice of realizations. -/
structure Provider where
  name : String
  /-- The realization of a primitive, or none where it has to be decomposed. -/
  realize : Primitive → Option Realization

namespace Provider

/-- Realizes every primitive by its function. -/
def inferred : Provider where
  name := "inferred"
  realize _ := some .inferred

/-- Realizes the listed primitives by their functions and declines the others. -/
def restrictedTo (supported : List Primitive) : Provider where
  name := "inferred"
  realize primitive := if primitive ∈ supported then some .inferred else none

/-- Realizes just the primitives of a table. -/
def ofTable (name : String) (table : List (Primitive × Realization)) : Provider where
  name := name
  realize primitive := table.lookup primitive

end Provider

/-- A provider that realizes the basis, so that every other primitive can be decomposed. -/
structure CompleteProvider extends Provider where
  realizes_basis : ∀ primitive ∈ Primitive.basis, (realize primitive).isSome

namespace Provider

/-- Accepts a provider that realizes the basis; otherwise names the first primitive it lacks. -/
def complete (provider : Provider) : Except ConfigError CompleteProvider :=
  match found : Primitive.basis.find? fun primitive => (provider.realize primitive).isNone with
  | some missing => throw (.missingBasisPrimitive provider.name missing)
  | none => pure
    { provider with
      realizes_basis := by
        intro primitive member
        have := List.find?_eq_none.mp found primitive member
        simpa [Option.isSome_iff_ne_none] using this }

end Provider

namespace CompleteProvider

/-- How the provider realizes a primitive of the basis. -/
def basisRealization (provider : CompleteProvider) (primitive : Primitive)
    (member : primitive ∈ Primitive.basis) : Realization :=
  (provider.realize primitive).get (provider.realizes_basis primitive member)

end CompleteProvider

end Datapath

import Datapath.Builder.Gates

/-!
# Generators

What the generators have in common: optional register stages, and the run of an assembly from
checked options and a provider to a netlist and the log of its construction.
-/

namespace Datapath.Generator

/-- A word as it leaves a register stage. A stage that is not enabled passes it on; otherwise each
of its bits gets a register in the stage's scope. -/
def registerStage (enabled : Bool) (scope : String) (word : List SignalId) :
    Attempt (List SignalId) := do
  if enabled then
    Build.setScope (some scope)
    let registered ← Attempt.registerWord word
    Build.setScope none
    return registered
  else
    return word

/-- The scope of the registers of the operands. -/
def inputScope : String :=
  "in_reg"

/-- The scope of the registers of the result. -/
def outputScope : String :=
  "out_reg"

/-- Assembles a netlist of a given name once its options have passed their check, and returns it
with the log. A provider that lacks the basis is refused before anything is built. -/
def generate (check : Except Error Unit) (name : String) (assemble : Attempt Netlist)
    (provider : Provider) : Except Error Netlist × Log :=
  let accepted : Except Error CompleteProvider := do
    check
    provider.complete
  match accepted with
  | .error error => (.error error, #[])
  | .ok complete =>
    let (result, builder) := assemble.run complete (.start name)
    (result, builder.log)

end Datapath.Generator

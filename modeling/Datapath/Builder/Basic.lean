import Datapath.Log
import Datapath.Memory
import Datapath.Netlist.Drivers

/-!
# Building netlists

A `Builder` is a netlist under construction. Signals and gates are only ever appended, so what has
been built keeps its position. `Build` is the monad of construction steps that always succeed, given
a provider that realizes the basis; `Attempt` adds steps that may refuse their arguments.
-/

namespace Datapath

/-- A netlist under construction. -/
structure Builder where
  netlist : Netlist
  /-- The label of new wires and the beginning of the names of new gates. -/
  scope : Option String := none
  log : Log := #[]
  deriving DecidableEq, Repr

/-- A construction step that always succeeds. -/
abbrev Build := ReaderT CompleteProvider (StateM Builder)

/-- A construction step that may refuse its arguments. What was built before a refusal stays. -/
abbrev Attempt := ExceptT Error Build

namespace Builder

/-- The position of the literal false. -/
def falseId : SignalId :=
  0

/-- The position of the literal true. -/
def trueId : SignalId :=
  1

/-- The net that clocks the registers. -/
def clockNet : String :=
  "clk"

/-- An empty netlist: the two literals and nothing else. -/
def start (name : String) : Builder where
  netlist := { name, signals := #[.literal false, .literal true] }

/-- The name of the next gate: the scope, the primitive and the number of gates before it. -/
def gateName (builder : Builder) (primitive : Primitive) : String :=
  let own := primitive.mnemonic ++ "_" ++ toString builder.netlist.gates.size
  match builder.scope with
  | some scope => scope ++ "_" ++ own
  | none => own

/-- The clock of a netlist that gets another gate. -/
def clockWith (clock : Option String) (primitive : Primitive) : Option String :=
  if primitive = .dff then clock <|> some clockNet else clock

/-- Appends new wires and the gate that drives them. -/
def place (builder : Builder) (primitive : Primitive) (realization : Realization)
    (inputs : List SignalId) (outputs : Nat) : Builder :=
  let gate : Gate := {
    name := builder.gateName primitive
    primitive, inputs, realization
    outputs := List.range' builder.netlist.signals.size outputs }
  { builder with
    netlist := { builder.netlist with
      signals := builder.netlist.signals ++ Array.replicate outputs (.wire builder.scope)
      gates := builder.netlist.gates.push gate
      clock := clockWith builder.netlist.clock primitive }
    log := builder.log.push (.gatePlaced gate.name primitive inputs) }

/-- Appends an input port and its bits. -/
def addInput (builder : Builder) (name : String) (width : Nat) : Builder :=
  let signals := builder.netlist.signals
  { builder with
    netlist :=
      { builder.netlist with
        inputs := builder.netlist.inputs ++ [{ name, bits := List.range' signals.size width }]
        signals := signals ++ Array.ofFn fun bit : Fin width => .input name bit } }

/-- Appends an output port that shows given signals. -/
def addOutput (builder : Builder) (name : String) (bits : List SignalId) : Builder :=
  { builder with
    netlist := { builder.netlist with outputs := builder.netlist.outputs ++ [{ name, bits }] } }

end Builder

namespace Build

/-- Records an event. -/
def note (event : Event) : Build Unit :=
  modify fun builder => { builder with log := builder.log.push event }

/-- The name of the provider. -/
def providerName : Build String :=
  return (← read).name

/-- Sets or clears the scope. -/
def setScope (scope : Option String) : Build Unit :=
  modify fun builder => { builder with scope }

/-- Chooses whether the supply rails are part of the interface. -/
def setPowered (powered : Bool) : Build Unit :=
  modify fun builder => { builder with netlist := { builder.netlist with powered } }

/-- The number of gates so far. -/
def gateCount : Build Nat :=
  return (← get).netlist.gates.size

/-- Adds an input port and returns its bits, low bit first. -/
def input (name : String) (width : Nat) : Build (List SignalId) :=
  modifyGet fun builder =>
    (List.range' builder.netlist.signals.size width, builder.addInput name width)

/-- Adds an output port that shows given signals. -/
def output (name : String) (bits : List SignalId) : Build Unit :=
  modify fun builder => builder.addOutput name bits

/-- Adds a gate and returns the first of the new wires that it drives; the others follow it. -/
def place (primitive : Primitive) (realization : Realization) (inputs : List SignalId)
    (outputs : Nat) : Build SignalId :=
  modifyGet fun builder =>
    (builder.netlist.signals.size, builder.place primitive realization inputs outputs)

end Build

namespace Attempt

/-- Refuses a call outside its contract. -/
def refuse {α : Type} (fault : Fault) : Attempt α :=
  throw (.fault fault)

/-- Runs a step that needs no builder. -/
def ofExcept {α : Type} : Except Error α → Attempt α
  | .ok result => pure result
  | .error error => throw error

/-- Adds an input port and returns its bits, low bit first. A port with more bits than memory can
hold is refused. -/
def input (memory : Memory) (name : String) (width : Nat) : Attempt (List SignalId) := do
  ofExcept (memory.check width Memory.wordBytes)
  Build.input name width

/-- Checks the finished netlist and hands it over. -/
def finish : Attempt Netlist := do
  let netlist := (← get).netlist
  ofExcept (netlist.checkDrivers.mapError .netlist)
  Build.note (.built netlist.name netlist.gates.size netlist.signals.size)
  return netlist

/-- Runs a step with a provider, from an empty netlist of a given name. The log is kept whether or
not the step succeeds. -/
def run {α : Type} (attempt : Attempt α) (provider : CompleteProvider) (builder : Builder) :
    Except Error α × Builder :=
  (ExceptT.run attempt provider).run builder

end Attempt

end Datapath

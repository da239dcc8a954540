import Datapath.Proofs.Environments

/-!
# Text and simulation

The text of a netlist is a module that does what a simulator of the netlist does. The module has no
values that have not settled, so a simulator has to settle before an edge of the clock, as each step
does: `Command.Timely`. Then, whatever the commands are, the module stays in step with the
simulator, `Netlist.Mirrors`, and in each lane the output ports show the same:
`Netlist.TextAgrees`.
-/

namespace Datapath

open Verilog

namespace Command

variable {α β : Type}

/-- What the command is to a module. Settling is nothing to it, and what is refused is not done. -/
def actions (netlist : Netlist) : Command Bool → List Action
  | .set name bits =>
    match netlist.inputPort? name with
    | some port => if port.width = bits.length then [.take name bits] else []
    | none => []
  | .settle => []
  | .clock | .step => [.tick]

/-- Whether the command leaves all values settled. -/
def settles : Command α → Bool
  | .settle | .step => true
  | .set _ _ | .clock => false

/-- Values have settled before each edge that is not part of a step. -/
def Timely : Bool → List (Command α) → Prop
  | _, [] => True
  | settled, command :: later =>
    (command = .clock → settled = true) ∧ Timely command.settles later

theorem timely_map {image : α → β} {settled : Bool} {commands : List (Command α)} :
    Timely settled (commands.map (·.map image)) ↔ Timely settled commands := by
  induction commands generalizing settled with
  | nil => rfl
  | cons command commands ih =>
      rw [List.map_cons, Timely, Timely, ih]
      cases command <;> simp [map, settles]

end Command

namespace Netlist

variable {netlist : Netlist} {module : Module} {environment after : Environment}
  {value next : Valuation Bool} {settled : Bool}

/-- The module is where the values are, as far as they have settled. -/
structure Mirrors (netlist : Netlist) (module : Module) (settled : Bool) (environment : Environment)
    (value : Valuation Bool) : Prop where
  solves : module.Solves environment
  sourced : netlist.Sourced environment value
  still : settled = true → value = netlist.reading environment

theorem Printable.sourced_reading (printable : netlist.Printable) (environment : Environment) :
    netlist.Sourced environment (netlist.reading environment) where
  firm id constant isConstant := by
    rw [reading, isConstant, Atom.value]
  inputs port member index id bit := by
    rw [reading, (printable.atomAt_input member bit).1, Atom.value]
  registers _ _ := rfl

theorem Mirrors.settlement (mirrors : netlist.Mirrors module settled environment value)
    (printable : netlist.Printable) (meaning : netlist.Meaning module) :
    netlist.Settlement value (netlist.reading environment) :=
  mirrors.sourced.settlement printable meaning mirrors.solves

/-- What settles is what the module shows. -/
theorem Mirrors.settle (mirrors : netlist.Mirrors module settled environment value)
    (printable : netlist.Printable) (meaning : netlist.Meaning module)
    (settles : netlist.Settlement value next) : next = netlist.reading environment :=
  settles.unique (mirrors.settlement printable meaning) printable.runnable.wellFounded

/-- At an edge of the clock, the module ticks and shows what settles after the edge. -/
theorem Printable.tick (printable : netlist.Printable) (meaning : netlist.Meaning module)
    (edge : netlist.Edge (netlist.reading environment) value) :
    (∃ after, module.Follows netlist.clockText [.tick] environment after) ∧
      ∀ after, module.Follows netlist.clockText [.tick] environment after →
        netlist.Mirrors module false after value := by
  constructor
  · rcases printable.exists_tick meaning edge with ⟨after, ticks⟩
    exact ⟨after, after, ticks, rfl⟩
  · rintro _ ⟨after, ticks, rfl⟩
    exact ⟨ticks.solves, printable.sourced_tick meaning edge ticks, nofun⟩

/-- A timely command can be followed, and after it the module is again where the values are. -/
theorem Mirrors.react {command : Command Bool}
    (mirrors : netlist.Mirrors module settled environment value) (printable : netlist.Printable)
    (meaning : netlist.Meaning module) (timely : command = .clock → settled = true)
    (reacts : netlist.Reacts command value next) :
    (∃ after, module.Follows netlist.clockText (command.actions netlist) environment after) ∧
      ∀ after, module.Follows netlist.clockText (command.actions netlist) environment after →
        netlist.Mirrors module command.settles after next := by
  have stays : netlist.Mirrors module false environment value :=
    ⟨mirrors.solves, mirrors.sourced, fun isSettled => absurd isSettled Bool.false_ne_true⟩
  cases command with
  | set name bits =>
      rw [Reacts] at reacts
      rw [Command.actions]
      cases found : netlist.inputPort? name with
      | none =>
          rw [found] at reacts
          cases reacts
          exact ⟨⟨environment, rfl⟩, fun _ same => same ▸ stays⟩
      | some port =>
          rw [found] at reacts
          rcases mem_inputs_of_inputPort? found with ⟨member, rfl⟩
          by_cases width : port.width = bits.length
          · simp only [if_pos width] at reacts ⊢
            rcases reacts with ⟨_, rfl⟩
            constructor
            · rcases printable.exists_take meaning mirrors.sourced member width with
                ⟨after, takes⟩
              exact ⟨after, after, takes, rfl⟩
            · rintro _ ⟨after, takes, rfl⟩
              exact ⟨takes.solves,
                printable.sourced_take meaning mirrors.sourced member width takes,
                fun isSettled => absurd isSettled Bool.false_ne_true⟩
          · simp only [if_neg width] at reacts ⊢
            cases reacts
            exact ⟨⟨environment, rfl⟩, fun _ same => same ▸ stays⟩
  | settle =>
      cases mirrors.settle printable meaning reacts
      refine ⟨⟨environment, rfl⟩, fun _ same => ?_⟩
      cases same
      exact ⟨mirrors.solves, printable.sourced_reading environment, fun _ => rfl⟩
  | clock =>
      cases mirrors.still (timely rfl)
      exact printable.tick meaning reacts
  | step =>
      rcases reacts with ⟨first, clocked, settlement, edge, again⟩
      cases mirrors.settle printable meaning settlement
      rcases printable.tick meaning edge with ⟨exists_tick, ticks⟩
      refine ⟨exists_tick, fun after follows => ?_⟩
      cases (ticks after follows).settle printable meaning again
      exact ⟨(ticks after follows).solves, printable.sourced_reading after, fun _ => rfl⟩

/-- Command after command, the module stays where the values are. -/
theorem Mirrors.behave {commands : List (Command Bool)}
    (mirrors : netlist.Mirrors module settled environment value) (printable : netlist.Printable)
    (meaning : netlist.Meaning module) (timely : Command.Timely settled commands)
    (behaves : netlist.Behaves commands value next) :
    (∃ after, module.Follows netlist.clockText (commands.flatMap (·.actions netlist)) environment
      after) ∧
      ∀ after, module.Follows netlist.clockText (commands.flatMap (·.actions netlist)) environment
        after → ∃ last, netlist.Mirrors module last after next := by
  induction commands generalizing settled environment value with
  | nil =>
      cases behaves
      exact ⟨⟨environment, rfl⟩, fun _ same => ⟨settled, same ▸ mirrors⟩⟩
  | cons command commands ih =>
      rcases behaves with ⟨middle, reacts, behaves⟩
      rcases mirrors.react printable meaning timely.1 reacts with ⟨⟨between, follows⟩, every⟩
      simp only [List.flatMap_cons, Module.follows_append]
      constructor
      · rcases (ih (every between follows) timely.2 behaves).1 with ⟨after, later⟩
        exact ⟨after, between, follows, later⟩
      · rintro after ⟨other, first, later⟩
        exact (ih (every other first) timely.2 behaves).2 after later

/-- The module can execute what is timely, and every execution gives what settles in the end. -/
theorem Printable.executes (printable : netlist.Printable) (meaning : netlist.Meaning module)
    {commands : List (Command Bool)} (timely : Command.Timely false commands)
    (behaves : netlist.Behaves commands netlist.initial value) :
    (∃ environment, module.Executes netlist.clockText (commands.flatMap (·.actions netlist))
      environment) ∧
      ∀ environment, module.Executes netlist.clockText (commands.flatMap (·.actions netlist))
        environment → module.Solves environment ∧
          netlist.Settlement value (netlist.reading environment) := by
  have begins (start : Environment) (starts : module.Starts start) :
      netlist.Mirrors module false start netlist.initial :=
    ⟨starts.solves, printable.sourced_initial meaning starts, nofun⟩
  constructor
  · rcases printable.exists_start meaning with ⟨start, starts⟩
    rcases ((begins start starts).behave printable meaning timely behaves).1 with ⟨last, follows⟩
    exact ⟨last, start, starts, follows⟩
  · rintro last ⟨start, starts, follows⟩
    rcases ((begins start starts).behave printable meaning timely behaves).2 last follows with
      ⟨_, mirrors⟩
    exact ⟨mirrors.solves, mirrors.settlement printable meaning⟩

/-- What calls of a simulator are to a module in one lane. -/
def actions (netlist : Netlist) (calls : List Call) (lane : Fin Lanes.count) : List Action :=
  (calls.map (·.inLane netlist lane)).flatMap (·.actions netlist)

/-- The text of the netlist can be read, and its module agrees with a simulator of the netlist.
Whatever calls the simulator is given, as long as they are timely, the module can execute in each
lane what they are in that lane, and after every such execution the bits of each output port are
those that the simulator shows in the lane once it has settled. -/
def TextAgrees (netlist : Netlist) : Prop :=
  ∃ text module, netlist.verilogText = .ok text ∧ Module.read netlist.name text = some module ∧
    module.ports = netlist.header ∧
    ∃ started : Simulator UInt64, Simulator.start netlist = .ok started ∧
      ∀ calls : List Call, (∀ call ∈ calls, call.Fits) →
        Command.Timely false (calls.map (·.spelled netlist)) →
        ∃ last shown, started.run calls = .ok last ∧ last.settle = .ok shown ∧
          ∀ lane : Fin Lanes.count,
            (∃ environment,
              module.Executes netlist.clockText (netlist.actions calls lane) environment) ∧
              ∀ environment,
                module.Executes netlist.clockText (netlist.actions calls lane) environment →
                ∀ port ∈ netlist.outputs, ∃ words, shown.output port.name = .ok words ∧
                  words.map (Lanes.bit lane).map =
                    (List.range port.width).map (environment port.name)

theorem Printable.inputsRead (printable : netlist.Printable) : netlist.InputsRead := by
  intro port member id bit
  rcases List.mem_iff_getElem?.mp bit with ⟨index, found⟩
  exact ⟨port.name, index, printable.posted.shown port member index id found⟩

/-- An output port shows in an environment that solves the module what it shows of the signals. -/
theorem Meaning.map_output (meaning : netlist.Meaning module) (solves : module.Solves environment)
    {port : Port} (member : port ∈ netlist.outputs) :
    port.bits.map (netlist.reading environment) =
      (List.range port.width).map (environment port.name) := by
  apply List.ext_getElem
  · rw [List.length_map, List.length_map, List.length_range, Port.width]
  · intro index inBits _
    rw [List.length_map] at inBits
    rw [List.getElem_map, List.getElem_map, List.getElem_range]
    exact (((meaning.solves_iff environment).mp solves).2 port member index _
      (List.getElem?_eq_getElem inBits)).symm

/-- The text of a netlist that is printable agrees with its simulation. -/
theorem Printable.textAgrees (printable : netlist.Printable) : netlist.TextAgrees := by
  rcases printable.exists_module with ⟨module, isModule, isName, legible, meaning⟩
  have runnable := printable.runnable
  rcases Simulator.exists_start_eq_initial (α := UInt64) runnable with
    ⟨started, isStarted, runs, isInitial⟩
  refine ⟨module.text, module.bare, ?_, isName ▸ Module.read_text legible, meaning.ports, started,
    isStarted, fun calls fits timely => ?_⟩
  · rw [verilogText, isModule]
    rfl
  rcases Simulator.exists_run_eq_ok runnable printable.inputsRead runs fits with
    ⟨last, followed, lastRuns, _⟩
  rcases Simulator.exists_settlement runnable lastRuns with
    ⟨shown, isShown, shownRuns, settlement⟩
  refine ⟨last, shown, followed, isShown, fun lane => ?_⟩
  have initialInLane : started.inLane lane = netlist.initial := by
    rw [Simulator.inLane, isInitial, map_initial]
  have behaves := (Simulator.lane_behaves_iff runnable runs fits lane (last.inLane lane)).mpr
    ⟨last, followed, rfl⟩
  rw [initialInLane] at behaves
  have timelyInLane : Command.Timely false (calls.map (·.inLane netlist lane)) := by
    rw [Call.map_inLane]
    exact Command.timely_map.mpr timely
  rcases printable.executes meaning timelyInLane behaves with ⟨⟨environment, executes⟩, every⟩
  simp only [Module.executes_bare]
  refine ⟨⟨environment, executes⟩, fun environment executes port member => ?_⟩
  rcases every environment executes with ⟨solves, settles⟩
  have same : shown.inLane lane = netlist.reading environment :=
    (settlement.map (Lanes.bit lane)).unique settles runnable.wellFounded
  have isPort : shown.netlist.outputPort? port.name = some port := by
    rw [shownRuns.netlist_eq]
    exact find?_name_of_nodup printable.names.2.1 member
  refine ⟨_, Simulator.output_eq_ok isPort (shownRuns.size_eq ▸ printable.shown port member), ?_⟩
  rw [← meaning.map_output solves member, ← same, List.map_map]
  rfl

end Netlist

end Datapath

import Mathlib.Logic.Relation
import Datapath.Builder.Basic
import Datapath.Proofs.Valuation

/-!
# How builders grow

`Builder.Move` says all that the construction of gates can do to a builder: record an event, change
the scope, or place a gate that the provider realizes, with a legal number of pins. A construction
is a sequence of moves, `Builder.Moves`, so whatever each move preserves every construction
preserves.

Moves come in two kinds. Strict moves place gates that only read signals which exist; the others may
name any signal, also one that comes later.

`Builder.Extension` collects what a sequence of moves keeps: the earlier signals, gates and ports
are a beginning of the later ones, and the gates that were added drive just the signals that were
added.
-/

namespace Datapath

/-- All positions of a list come before a bound. -/
def Below (bound : Nat) (positions : List Nat) : Prop :=
  ∀ position ∈ positions, position < bound

instance (bound : Nat) (positions : List Nat) : Decidable (Below bound positions) :=
  inferInstanceAs (Decidable (∀ position ∈ positions, position < bound))

theorem Below.mono {lower upper : Nat} {positions : List Nat} (le : lower ≤ upper)
    (below : Below lower positions) : Below upper positions :=
  fun position member => Nat.lt_of_lt_of_le (below position member) le

@[simp]
theorem below_nil (bound : Nat) : Below bound [] := by
  simp [Below]

@[simp]
theorem below_cons {bound position : Nat} {positions : List Nat} :
    Below bound (position :: positions) ↔ position < bound ∧ Below bound positions := by
  simp [Below]

@[simp]
theorem below_append {bound : Nat} {left right : List Nat} :
    Below bound (left ++ right) ↔ Below bound left ∧ Below bound right := by
  simp [Below, or_imp, forall_and]

theorem foldl_max_le_iff {items : List Nat} {start bound : Nat} :
    items.foldl max start ≤ bound ↔ start ≤ bound ∧ ∀ item ∈ items, item ≤ bound := by
  induction items generalizing start with
  | nil => simp
  | cons item items ih =>
      rw [List.foldl_cons, ih, Nat.max_le, List.forall_mem_cons, and_assoc]

namespace Gate

/-- Every signal that the gate reads comes before those that it drives. -/
def ReadsBelow (gate : Gate) : Prop :=
  ∀ output ∈ gate.outputs, Below output gate.inputs

end Gate

namespace Builder

/-- The number of signals. -/
def size (builder : Builder) : Nat :=
  builder.netlist.signals.size

/-- One move in the construction of gates. Strict moves read existing signals only. -/
inductive Move (provider : Provider) (strict : Prop) : Builder → Builder → Prop where
  | note (builder : Builder) (event : Event) :
      Move provider strict builder { builder with log := builder.log.push event }
  | scope (builder : Builder) (scope : Option String) :
      Move provider strict builder { builder with scope }
  | place (builder : Builder) {primitive : Primitive} {realization : Realization}
      {inputs : List SignalId} {outputs : Nat}
      (realized : provider.realize primitive = some realization)
      (legal : primitive.accepts inputs.length outputs = true)
      (existing : strict → Below builder.size inputs) :
      Move provider strict builder (builder.place primitive realization inputs outputs)

/-- Any number of moves. -/
abbrev Moves (provider : Provider) (strict : Prop) : Builder → Builder → Prop :=
  Relation.ReflTransGen (Move provider strict)

theorem Move.weaken {provider : Provider} {strict weaker : Prop} (implies : weaker → strict)
    {before after : Builder} (move : Move provider strict before after) :
    Move provider weaker before after := by
  cases move with
  | note event => exact .note before event
  | scope scope => exact .scope before scope
  | place realized legal existing => exact .place before realized legal (existing ∘ implies)

theorem Moves.weaken {provider : Provider} {strict weaker : Prop} (implies : weaker → strict)
    {before after : Builder} (moves : Moves provider strict before after) :
    Moves provider weaker before after :=
  Relation.ReflTransGen.mono (fun _ _ => Move.weaken implies) _ _ moves

/-- The gates of a builder beyond those of an earlier one. -/
def added (before after : Builder) : List Gate :=
  after.netlist.gates.toList.drop before.netlist.gates.size

/-- What is kept and what is added from one builder to a later one. -/
structure Extension (provider : Provider) (strict : Prop) (before after : Builder) : Prop where
  name : after.netlist.name = before.netlist.name
  inputs : after.netlist.inputs = before.netlist.inputs
  outputs : after.netlist.outputs = before.netlist.outputs
  powered : after.netlist.powered = before.netlist.powered
  /-- Only wires are added. -/
  signals : ∃ labels : List (Option String),
    after.netlist.signals.toList = before.netlist.signals.toList ++ labels.map Signal.wire
  gates : after.netlist.gates.toList = before.netlist.gates.toList ++ added before after
  /-- The added gates drive the added signals, each once and in order. -/
  drives : (added before after).flatMap (·.outputs) =
    List.range' before.size (after.size - before.size)
  legal : ∀ gate ∈ added before after, gate.Legal
  realized : ∀ gate ∈ added before after,
    provider.realize gate.primitive = some gate.realization
  readsBelow : strict → ∀ gate ∈ added before after, gate.ReadsBelow
  /-- The first register brings the clock. -/
  clock : after.netlist.clock =
    if (added before after).any (·.primitive = .dff) then
      before.netlist.clock <|> some clockNet
    else
      before.netlist.clock

section

variable {provider : Provider} {strict : Prop} {before middle after : Builder}

theorem added_eq {gates : List Gate}
    (appended : after.netlist.gates.toList = before.netlist.gates.toList ++ gates) :
    added before after = gates := by
  rw [added, appended, ← Array.length_toList, List.drop_left]

@[simp]
theorem added_self (builder : Builder) : added builder builder = [] :=
  added_eq (by simp)

namespace Extension

theorem size_le (extension : Extension provider strict before after) :
    before.size ≤ after.size := by
  rcases extension.signals with ⟨labels, appended⟩
  have lengths := congrArg List.length appended
  simp only [List.length_append, Array.length_toList] at lengths
  simp only [size]
  omega

theorem signal_of_lt (extension : Extension provider strict before after) {id : Nat}
    (existing : id < before.size) : after.netlist.signals[id]? = before.netlist.signals[id]? := by
  rcases extension.signals with ⟨labels, appended⟩
  rw [← Array.getElem?_toList, ← Array.getElem?_toList, appended,
    List.getElem?_append_left (by simpa [size] using existing)]

theorem signal_eq_some (extension : Extension provider strict before after) {id : Nat}
    {signal : Signal} (found : before.netlist.signals[id]? = some signal) :
    after.netlist.signals[id]? = some signal := by
  rw [extension.signal_of_lt (Array.getElem?_eq_some_iff.mp found).1, found]

theorem refl (builder : Builder) : Extension provider strict builder builder where
  name := rfl
  inputs := rfl
  outputs := rfl
  powered := rfl
  signals := ⟨[], by simp⟩
  gates := by simp
  drives := by simp
  legal := by simp
  realized := by simp
  readsBelow := by simp
  clock := by simp

theorem added_trans (first : Extension provider strict before middle)
    (second : Extension provider strict middle after) :
    added before after = added before middle ++ added middle after := by
  apply added_eq
  rw [second.gates, first.gates, List.append_assoc]

theorem trans (first : Extension provider strict before middle)
    (second : Extension provider strict middle after) :
    Extension provider strict before after where
  name := second.name.trans first.name
  inputs := second.inputs.trans first.inputs
  outputs := second.outputs.trans first.outputs
  powered := second.powered.trans first.powered
  signals := by
    rcases first.signals with ⟨labels, appended⟩
    rcases second.signals with ⟨moreLabels, moreAppended⟩
    exact ⟨labels ++ moreLabels, by rw [moreAppended, appended]; simp⟩
  gates := by
    rw [first.added_trans second, second.gates, first.gates, List.append_assoc]
  drives := by
    have firstLe := first.size_le
    have secondLe := second.size_le
    rw [first.added_trans second, List.flatMap_append, first.drives, second.drives,
      show after.size - before.size = middle.size - before.size + (after.size - middle.size) by
        omega, ← List.range'_append_1, Nat.add_sub_cancel' firstLe]
  legal gate member := by
    rw [first.added_trans second] at member
    exact (List.mem_append.mp member).elim (first.legal gate) (second.legal gate)
  realized gate member := by
    rw [first.added_trans second] at member
    exact (List.mem_append.mp member).elim (first.realized gate) (second.realized gate)
  readsBelow strictly gate member := by
    rw [first.added_trans second] at member
    exact (List.mem_append.mp member).elim (first.readsBelow strictly gate)
      (second.readsBelow strictly gate)
  clock := by
    rw [second.clock, first.clock, first.added_trans second, List.any_append]
    cases (added before middle).any (·.primitive = .dff) <;>
      cases (added middle after).any (·.primitive = .dff) <;>
        cases before.netlist.clock <;> rfl

end Extension

theorem added_place (builder : Builder) (primitive : Primitive) (realization : Realization)
    (inputs : List SignalId) (outputs : Nat) :
    added builder (builder.place primitive realization inputs outputs) =
      [{ name := builder.gateName primitive
         primitive, inputs, realization
         outputs := List.range' builder.size outputs }] :=
  added_eq (by simp [place, size])

@[simp]
theorem size_place (builder : Builder) (primitive : Primitive) (realization : Realization)
    (inputs : List SignalId) (outputs : Nat) :
    (builder.place primitive realization inputs outputs).size = builder.size + outputs := by
  simp [place, size]

theorem extension_place (builder : Builder) {primitive : Primitive} {realization : Realization}
    {inputs : List SignalId} {outputs : Nat}
    (realized : provider.realize primitive = some realization)
    (legal : primitive.accepts inputs.length outputs = true)
    (existing : strict → Below builder.size inputs) :
    Extension provider strict builder (builder.place primitive realization inputs outputs) where
  name := rfl
  inputs := rfl
  outputs := rfl
  powered := rfl
  signals := ⟨List.replicate outputs builder.scope, by simp [place]⟩
  gates := by
    rw [added_place]
    simp [place, size]
  drives := by simp [added_place]
  legal := by simpa [added_place, Gate.Legal] using legal
  realized := by simpa [added_place] using realized
  readsBelow := by
    intro strictly
    simp only [added_place, List.mem_singleton, forall_eq, Gate.ReadsBelow, List.mem_range'_1]
    exact fun output bounds => (existing strictly).mono bounds.1
  clock := by
    rw [added_place]
    simp [place, clockWith]

theorem Move.extension (move : Move provider strict before after) :
    Extension provider strict before after := by
  cases move with
  | note event => exact { Extension.refl before with }
  | scope scope => exact { Extension.refl before with }
  | place realized legal existing => exact extension_place before realized legal existing

theorem Moves.extension (moves : Moves provider strict before after) :
    Extension provider strict before after := by
  induction moves with
  | refl => exact Extension.refl before
  | tail _ move ih => exact ih.trans move.extension

end

end Builder

end Datapath

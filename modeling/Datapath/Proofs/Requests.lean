import Datapath.Multiplier.Dadda
import Datapath.Proofs.Construction

/-!
# What the log counts

Each request for a primitive leaves one event of its own in the log: the gate that was placed for it
or the notice that it is decomposed. So the adders that a run has requested can be counted in what
it adds to the log, whatever the provider realizes, and so can the bits that it has dropped.

`Build.Counts` relates the result of a step to these numbers. A decomposition never requests an
adder, so a request for one counts as one.
-/

namespace Datapath

open Multiplier (AdderTally)

namespace Event

/-- The event is what a request for a primitive leaves in the log. -/
def requests (primitive : Primitive) : Event → Bool
  | .gatePlaced _ placed _ => placed = primitive
  | .decomposing _ lacking => lacking = primitive
  | _ => false

/-- The event is the loss of a bit. -/
def dropsBit : Event → Bool
  | .bitDropped _ => true
  | _ => false

/-- The adders that are requested in a list of events. -/
def requestedAdders (events : List Event) : AdderTally where
  fullAdders := events.countP (·.requests .fullAdder)
  halfAdders := events.countP (·.requests .halfAdder)

/-- The number of bits that are dropped in a list of events. -/
def droppedBits (events : List Event) : Nat :=
  events.countP (·.dropsBit)

@[simp]
theorem requestedAdders_append (earlier later : List Event) :
    requestedAdders (earlier ++ later) =
      (requestedAdders earlier).add (requestedAdders later) := by
  simp [requestedAdders, AdderTally.add]

@[simp]
theorem droppedBits_append (earlier later : List Event) :
    droppedBits (earlier ++ later) = droppedBits earlier + droppedBits later :=
  List.countP_append

end Event

namespace Multiplier.AdderTally

/-- The one adder that a primitive is, if it is one. -/
def ofPrimitive (primitive : Primitive) : AdderTally where
  fullAdders := if primitive = .fullAdder then 1 else 0
  halfAdders := if primitive = .halfAdder then 1 else 0

@[simp]
theorem zero_add (tally : AdderTally) : zero.add tally = tally := by
  simp [zero, add]

@[simp]
theorem add_zero (tally : AdderTally) : tally.add zero = tally := by
  simp [zero, add]

theorem add_assoc (first second third : AdderTally) :
    (first.add second).add third = first.add (second.add third) := by
  simp [add, Nat.add_assoc]

end Multiplier.AdderTally

namespace Build

variable {α β : Type}

/-- What a step adds to the log requests so many adders and drops so many bits, and its result
agrees with that. -/
def Counts (step : Build α) (post : α → AdderTally → Nat → Prop) : Prop :=
  ∀ (provider : CompleteProvider) (builder : Builder), ∃ events : List Event,
    (run step provider builder).2.log.toList = builder.log.toList ++ events ∧
      post (run step provider builder).1 (Event.requestedAdders events) (Event.droppedBits events)

variable {post : α → AdderTally → Nat → Prop}

theorem Counts.imp {step : Build α} {weaker : α → AdderTally → Nat → Prop}
    (counts : Counts step post)
    (implies : ∀ result tally lost, post result tally lost → weaker result tally lost) :
    Counts step weaker := by
  intro provider builder
  rcases counts provider builder with ⟨events, logged, holds⟩
  exact ⟨events, logged, implies _ _ _ holds⟩

theorem counts_pure {result : α} (holds : post result .zero 0) : Counts (pure result) post :=
  fun _ builder => ⟨[], (List.append_nil builder.log.toList).symm, holds⟩

theorem Counts.bind {step : Build α} {next : α → Build β} {final : β → AdderTally → Nat → Prop}
    (first : Counts step post)
    (rest : ∀ result tally lost, post result tally lost → Counts (next result)
      fun last more moreLost => final last (tally.add more) (lost + moreLost)) :
    Counts (step >>= next) final := by
  intro provider builder
  rcases first provider builder with ⟨events, logged, holds⟩
  rcases rest _ _ _ holds provider (run step provider builder).2 with ⟨more, loggedMore, last⟩
  refine ⟨events ++ more, ?_, ?_⟩
  · rw [run_bind, loggedMore, logged, List.append_assoc]
  · rw [Event.requestedAdders_append, Event.droppedBits_append]
    exact last

theorem counts_note {event : Event} {post : Unit → AdderTally → Nat → Prop}
    (holds : post () (Event.requestedAdders [event]) (Event.droppedBits [event])) :
    Counts (note event) post :=
  fun _ _ => ⟨[event], Array.toList_push, holds⟩

/-- A step that requests no adder and drops no bit. -/
def Plain (step : Build α) : Prop :=
  Counts step fun _ tally lost => tally = .zero ∧ lost = 0

theorem plain_pure (result : α) : Plain (pure result) :=
  counts_pure ⟨rfl, rfl⟩

theorem Plain.bind {step : Build α} {next : α → Build β} (first : Plain step)
    (rest : ∀ result, Plain (next result)) : Plain (step >>= next) :=
  Counts.bind first fun result _ _ nothing =>
    (rest result).imp fun _ _ _ more => by simp [nothing, more]

/-- A plain step may come first. -/
theorem Plain.andThen {step : Build α} {next : α → Build β}
    {final : β → AdderTally → Nat → Prop} (first : Plain step)
    (rest : ∀ result, Counts (next result) final) : Counts (step >>= next) final :=
  Counts.bind first fun result _ _ nothing =>
    (rest result).imp fun _ _ _ more => by simpa [nothing] using more

theorem plain_note {event : Event} (quiet : Event.requestedAdders [event] = .zero)
    (keeps : Event.droppedBits [event] = 0) : Plain (note event) :=
  counts_note ⟨quiet, keeps⟩

theorem plain_setScope (scope : Option String) : Plain (setScope scope) :=
  fun _ builder => ⟨[], (List.append_nil builder.log.toList).symm, rfl, rfl⟩

theorem place_counts (primitive : Primitive) (realization : Realization) (inputs : List SignalId)
    (outputs : Nat) :
    Counts (place primitive realization inputs outputs) fun _ tally lost =>
      tally = .ofPrimitive primitive ∧ lost = 0 := by
  intro provider builder
  refine ⟨[.gatePlaced (builder.gateName primitive) primitive inputs], Array.toList_push, ?_, rfl⟩
  simp [Event.requestedAdders, Event.requests, AdderTally.ofPrimitive, List.countP_singleton]

theorem plain_basisGate {primitive : Primitive} (member : primitive ∈ Primitive.basis)
    (inputs : List SignalId) : Plain (basisGate primitive member inputs) := by
  have notAdder : AdderTally.ofPrimitive primitive = .zero := by
    revert primitive
    decide
  intro provider builder
  rw [← notAdder]
  exact place_counts primitive (provider.basisRealization primitive member) inputs 1 provider
    builder

/-- A request counts for its primitive only, whether or not the provider realizes it. -/
theorem gateOr_counts (primitive : Primitive) (inputs : List SignalId) (outputs : Nat)
    (result : SignalId → α) {decomposition : Build α} (plain : Plain decomposition) :
    Counts (gateOr primitive inputs outputs result decomposition) fun _ tally lost =>
      tally = .ofPrimitive primitive ∧ lost = 0 := by
  have noted (provider : CompleteProvider) :
      Counts (note (.decomposing provider.name primitive)) fun _ tally lost =>
        tally = .ofPrimitive primitive ∧ lost = 0 :=
    counts_note (by simp [Event.requestedAdders, Event.requests, AdderTally.ofPrimitive,
      Event.droppedBits, Event.dropsBit, List.countP_singleton])
  intro provider builder
  have decomposed : Counts (do note (.decomposing provider.name primitive); decomposition)
      fun _ tally lost => tally = .ofPrimitive primitive ∧ lost = 0 :=
    (noted provider).bind fun _ _ _ request =>
      plain.imp fun _ _ _ nothing => by simp [request, nothing]
  rw [run_gateOr]
  cases provider.realize primitive with
  | some realization => exact place_counts primitive realization inputs outputs provider builder
  | none => exact decomposed provider builder

/-- A gate that is not an adder. -/
theorem plain_gateOr {primitive : Primitive} (notAdder : AdderTally.ofPrimitive primitive = .zero)
    (inputs : List SignalId) (outputs : Nat) (result : SignalId → α) {decomposition : Build α}
    (plain : Plain decomposition) :
    Plain (gateOr primitive inputs outputs result decomposition) := by
  rw [Plain, ← notAdder]
  exact gateOr_counts primitive inputs outputs result plain

section Gates

variable (a b c d : SignalId)

theorem plain_and2 : Plain (and2 a b) :=
  plain_basisGate _ _

theorem plain_inv : Plain (inv a) :=
  plain_basisGate _ _

theorem plain_or2 : Plain (or2 a b) :=
  plain_gateOr rfl _ _ _ <|
    (plain_inv a).bind fun notA => (plain_inv b).bind fun notB =>
      (plain_and2 notA notB).bind plain_inv

theorem plain_ao21 : Plain (ao21 a b c) :=
  plain_gateOr rfl _ _ _ <| (plain_and2 a b).bind fun both => plain_or2 both c

theorem plain_ao22 : Plain (ao22 a b c d) :=
  plain_gateOr rfl _ _ _ <| (plain_and2 c d).bind fun both => plain_ao21 a b both

theorem plain_xor2 : Plain (xor2 a b) :=
  plain_gateOr rfl _ _ _ <|
    (plain_inv a).bind fun notA => (plain_inv b).bind fun notB => plain_ao22 a notB notA b

theorem halfAdder_counts :
    Counts (halfAdder a b) fun _ tally lost =>
      tally = { fullAdders := 0, halfAdders := 1 } ∧ lost = 0 :=
  gateOr_counts .halfAdder _ _ _ <|
    (plain_xor2 a b).bind fun _ => (plain_and2 a b).bind fun _ => plain_pure _

theorem fullAdder_counts :
    Counts (fullAdder a b c) fun _ tally lost =>
      tally = { fullAdders := 1, halfAdders := 0 } ∧ lost = 0 :=
  gateOr_counts .fullAdder _ _ _ <|
    (plain_xor2 a b).bind fun half => (plain_xor2 half c).bind fun _ =>
      (plain_ao22 a b half c).bind fun _ => plain_pure _

end Gates

end Build

end Datapath

import Datapath.Builder.Gates
import Datapath.Proofs.Growth

/-!
# Promises of construction steps

`Build.Meets` is the specification of a step that always succeeds: it only makes moves, and from any
builder that has the signals which the step is given, these moves are strict, the result refers to
existing signals, and every valuation that settles the gates which were added relates the result to
what the step was given.

Steps are put together by `Meets.bind`: a valuation settles the gates of both parts, so the relation
of the second part may rest on that of the first. A promise says nothing about the gates that were
there before, so it holds in every context.
-/

namespace Datapath

/-- The constants carry their values. -/
def Grounds (value : Valuation Bool) : Prop :=
  value Builder.falseId = false ∧ value Builder.trueId = true

/-- Values that refer to signals. -/
class Scoped (α : Type) where
  /-- All signals of the value come before a bound. -/
  Within : Nat → α → Prop
  within_mono : ∀ {lower upper : Nat} {value : α}, lower ≤ upper → Within lower value →
    Within upper value
  exists_within : ∀ value : α, ∃ bound, Within bound value

open Scoped (Within within_mono exists_within)

instance : Scoped Unit where
  Within _ _ := True
  within_mono _ := id
  exists_within _ := ⟨0, trivial⟩

instance : Scoped SignalId where
  Within bound id := id < bound
  within_mono le lt := Nat.lt_of_lt_of_le lt le
  exists_within id := ⟨id + 1, Nat.lt_succ_self id⟩

instance {α : Type} [Scoped α] : Scoped (List α) where
  Within bound values := ∀ value ∈ values, Within bound value
  within_mono le within value member := within_mono le (within value member)
  exists_within values := by
    induction values with
    | nil => exact ⟨0, nofun⟩
    | cons value values ih =>
        rcases ih with ⟨bound, rest⟩
        rcases exists_within value with ⟨own, here⟩
        refine ⟨max own bound,
          List.forall_mem_cons.mpr ⟨within_mono (Nat.le_max_left _ _) here, ?_⟩⟩
        exact fun other member => within_mono (Nat.le_max_right _ _) (rest other member)

instance {α β : Type} [Scoped α] [Scoped β] : Scoped (α × β) where
  Within bound pair := Within bound pair.1 ∧ Within bound pair.2
  within_mono le within := ⟨within_mono le within.1, within_mono le within.2⟩
  exists_within pair := by
    rcases exists_within pair.1 with ⟨first, firstWithin⟩
    rcases exists_within pair.2 with ⟨second, secondWithin⟩
    exact ⟨max first second, within_mono (Nat.le_max_left _ _) firstWithin,
      within_mono (Nat.le_max_right _ _) secondWithin⟩

instance : Scoped SumCarry where
  Within bound adder := adder.sum < bound ∧ adder.carry < bound
  within_mono le within :=
    ⟨Nat.lt_of_lt_of_le within.1 le, Nat.lt_of_lt_of_le within.2 le⟩
  exists_within adder := ⟨max adder.sum adder.carry + 1,
    Nat.lt_succ_of_le (Nat.le_max_left _ _), Nat.lt_succ_of_le (Nat.le_max_right _ _)⟩

@[simp]
theorem within_list_nil {α : Type} [Scoped α] (bound : Nat) : Within bound ([] : List α) :=
  fun _ member => absurd member List.not_mem_nil

@[simp]
theorem within_list_cons {α : Type} [Scoped α] {bound : Nat} {value : α} {values : List α} :
    Within bound (value :: values) ↔ Within bound value ∧ Within bound values :=
  List.forall_mem_cons

theorem Provider.toProvider_of_complete {provider : Provider} {complete : CompleteProvider}
    (accepted : provider.complete = .ok complete) : complete.toProvider = provider := by
  rw [Provider.complete] at accepted
  split at accepted
  · cases accepted
  · cases accepted
    rfl

namespace Build

variable {α β : Type}

/-- The result of a step and the builder after it. -/
def run (step : Build α) (provider : CompleteProvider) (builder : Builder) : α × Builder :=
  (ReaderT.run step provider).run builder

section Run

variable (provider : CompleteProvider) (builder : Builder)

@[simp]
theorem run_pure (result : α) : run (pure result) provider builder = (result, builder) :=
  rfl

@[simp]
theorem run_bind (step : Build α) (next : α → Build β) :
    run (step >>= next) provider builder =
      run (next (run step provider builder).1) provider (run step provider builder).2 :=
  rfl

@[simp]
theorem run_read : run read provider builder = (provider, builder) :=
  rfl

theorem run_gateOr (primitive : Primitive) (inputs : List SignalId) (outputs : Nat)
    (result : SignalId → α) (decomposition : Build α) :
    run (gateOr primitive inputs outputs result decomposition) provider builder =
      match provider.realize primitive with
      | some realization =>
          (result builder.size, builder.place primitive realization inputs outputs)
      | none =>
          run decomposition provider
            { builder with log := builder.log.push (.decomposing provider.name primitive) } := by
  simp only [gateOr, run_bind, run_read]
  cases provider.realize primitive <;> rfl

end Run

end Build

namespace Builder

variable {α β γ : Type} [Scoped α] [Scoped β] {provider : Provider} {before middle after : Builder}

/-- What a run from one builder to another promises of its result. -/
structure Promise (provider : Provider) (before after : Builder) (result : α)
    (post : Valuation Bool → α → Prop) : Prop where
  moves : Moves provider True before after
  within : Within after.size result
  holds : ∀ value, Gate.Settled (added before after) value → post value result

theorem Promise.of_self {result : α} {post : Valuation Bool → α → Prop}
    (within : Within before.size result) (holds : ∀ value, post value result) :
    Promise provider before before result post where
  moves := .refl
  within := within
  holds value _ := holds value

theorem Promise.imp {result : α} {post weaker : Valuation Bool → α → Prop}
    (promise : Promise provider before after result post)
    (implies : ∀ value, post value result → weaker value result) :
    Promise provider before after result weaker :=
  { promise with holds := fun value settled => implies value (promise.holds value settled) }

/-- One run after another: the second may rest on what the first promised. -/
theorem Promise.trans {first : α} {second : β} {post : Valuation Bool → α → Prop}
    {final : Valuation Bool → β → Prop} (start : Promise provider before middle first post)
    (rest : Promise provider middle after second fun value result =>
      post value first → final value result) :
    Promise provider before after second final where
  moves := start.moves.trans rest.moves
  within := rest.within
  holds value settled := by
    rw [start.moves.extension.added_trans rest.moves.extension, Gate.settled_append] at settled
    exact rest.holds value settled.2 (start.holds value settled.1)

end Builder

namespace Build

variable {α β : Type} [Scoped α] [Scoped β]

/-- The step only makes moves, and keeps its promise from every builder with at least the known
signals. -/
structure Meets (known : Nat) (step : Build α) (post : Valuation Bool → α → Prop) : Prop where
  moves : ∀ (provider : CompleteProvider) (before : Builder),
    Builder.Moves provider.toProvider False before (run step provider before).2
  promise : ∀ (provider : CompleteProvider) (before : Builder), known ≤ before.size →
    Builder.Promise provider.toProvider before (run step provider before).2
      (run step provider before).1 post

variable {known : Nat} {post : Valuation Bool → α → Prop}

theorem Meets.imp {step : Build α} {weaker : Valuation Bool → α → Prop}
    (meets : Meets known step post) (implies : ∀ value result, post value result →
      weaker value result) : Meets known step weaker where
  moves := meets.moves
  promise provider before enough :=
    (meets.promise provider before enough).imp fun value => implies value _

theorem meets_pure {result : α} (within : ∀ bound, known ≤ bound → Within bound result)
    (holds : ∀ value, post value result) : Meets known (pure result) post where
  moves _ _ := .refl
  promise _ before enough := .of_self (within before.size enough) holds

theorem Meets.bind {step : Build α} {next : α → Build β} {final : Valuation Bool → β → Prop}
    (first : Meets known step post)
    (rest : ∀ result more, known ≤ more → Within more result →
      Meets more (next result) fun value last => post value result → final value last) :
    Meets known (step >>= next) final where
  moves provider before := by
    rcases exists_within (run step provider before).1 with ⟨bound, within⟩
    have later := rest _ (max known bound) (Nat.le_max_left _ _)
      (within_mono (Nat.le_max_right _ _) within)
    exact (first.moves provider before).trans (later.moves provider _)
  promise provider before enough := by
    have start := first.promise provider before enough
    have later := start.moves.extension.size_le
    exact start.trans
      ((rest _ _ (Nat.le_trans enough later) start.within).promise provider _ (Nat.le_refl _))

theorem Meets.andThen {step : Build Unit} {next : Build α}
    (first : Meets known step fun _ _ => True) (rest : Meets known next post) :
    Meets known (step >>= fun _ => next) post :=
  first.bind fun _ _ enough _ =>
    { moves := rest.moves
      promise := fun provider before enoughMore =>
        (rest.promise provider before (Nat.le_trans enough enoughMore)).imp fun _ holds _ => holds }

theorem note_meets (event : Event) : Meets known (note event) fun _ _ => True where
  moves _ before := .single (.note before event)
  promise _ before _ := ⟨.single (.note before event), trivial, fun _ _ => trivial⟩

theorem setScope_meets (scope : Option String) :
    Meets known (setScope scope) fun _ _ => True where
  moves _ before := .single (.scope before scope)
  promise _ before _ := ⟨.single (.scope before scope), trivial, fun _ _ => trivial⟩

/-- The number of gates only tells how the construction goes on. -/
theorem Meets.of_gateCount {next : Nat → Build α}
    (rest : ∀ count, Meets known (next count) post) : Meets known (gateCount >>= next) post where
  moves provider before := (rest before.netlist.gates.size).moves provider before
  promise provider before := (rest before.netlist.gates.size).promise provider before

/-- A step for each item of a list computes what the steps compute. -/
theorem Meets.mapM {ι τ : Type} {step : ι → Build α} {items : List ι}
    {abstract : Valuation Bool → α → τ} {compute : Valuation Bool → ι → τ}
    (each : ∀ item ∈ items, ∀ more, known ≤ more →
      Meets more (step item) fun value result => abstract value result = compute value item) :
    Meets known (items.mapM step) fun value results =>
      results.map (abstract value) = items.map (compute value) := by
  induction items generalizing known with
  | nil =>
      rw [List.mapM_nil]
      exact meets_pure (fun bound _ => within_list_nil bound) fun _ => rfl
  | cons item items ih =>
      rw [List.mapM_cons]
      rw [List.forall_mem_cons] at each
      apply (each.1 known (Nat.le_refl _)).bind
      intro result more enough within
      refine (ih fun other member most enoughMost =>
        each.2 other member most (by omega)).bind fun results most enoughMost allWithin => ?_
      refine meets_pure (fun bound enoughBound => within_list_cons.mpr
        ⟨within_mono (by omega) within, within_mono enoughBound allWithin⟩) ?_
      intro value rest first
      rw [List.map_cons, List.map_cons, first, rest]

end Build

namespace Attempt

variable {α β : Type}

section Run

variable (provider : CompleteProvider) (builder : Builder)

@[simp]
theorem run_pure (result : α) : run (pure result) provider builder = (.ok result, builder) :=
  rfl

@[simp]
theorem run_lift (step : Build α) :
    run (liftM step) provider builder =
      (.ok (Build.run step provider builder).1, (Build.run step provider builder).2) :=
  rfl

@[simp]
theorem run_get : run get provider builder = (.ok builder, builder) :=
  rfl

theorem run_bind (step : Attempt α) (next : α → Attempt β) :
    run (step >>= next) provider builder =
      match run step provider builder with
      | (.ok result, after) => run (next result) provider after
      | (.error error, after) => (.error error, after) := by
  simp only [run, ExceptT.run, bind, ExceptT.bind, ExceptT.mk, ReaderT.bind, StateT.bind,
    StateT.run]
  rcases step provider builder with ⟨result | error, after⟩ <;> rfl

end Run

/-- Both parts of a run that succeeds succeed. -/
theorem run_bind_eq_ok {step : Attempt α} {next : α → Attempt β} {provider : CompleteProvider}
    {before after : Builder} {result : β}
    (ran : run (step >>= next) provider before = (.ok result, after)) :
    ∃ first middle, run step provider before = (.ok first, middle) ∧
      run (next first) provider middle = (.ok result, after) := by
  rw [run_bind] at ran
  rcases part : run step provider before with ⟨error | first, middle⟩
  · rw [part] at ran
    cases ran
  · rw [part] at ran
    exact ⟨first, middle, rfl, ran⟩

theorem input_eq_ok {memory : Memory} {name : String} {width : Nat} {bits : List SignalId}
    {provider : CompleteProvider} {before after : Builder}
    (ran : run (input memory name width) provider before = (.ok bits, after)) :
    bits = List.range' before.size width ∧ after = before.addInput name width := by
  rcases run_bind_eq_ok ran with ⟨_, middle, checked, added⟩
  have unchanged : middle = before := by
    revert checked
    cases memory.check width Memory.wordBytes <;> rintro ⟨⟩
    rfl
  subst unchanged
  cases added
  exact ⟨rfl, rfl⟩

end Attempt

end Datapath

import Datapath.Generator.Basic
import Datapath.Proofs.Coherence
import Datapath.Proofs.Registers
import Datapath.Proofs.Simulation

/-!
# What constructions do to streams

`Attempt.Streams` is the specification of a construction with registers: a run that succeeds makes
strict moves, its result refers to existing signals, and every trace that obeys the netlist relates
the result to what the construction was given. A register stage shows in each cycle what its word
carried in the one before, and a construction without registers relates the values of one cycle.
-/

namespace Datapath

open Scoped (Within within_mono)

/-- A truth value for every signal in every cycle. -/
abbrev Trace := Nat → Valuation Bool

/-- The two constants carry their values in every cycle. -/
def Grounded (trace : Trace) : Prop :=
  ∀ cycle, Grounds (trace cycle)

namespace Builder

variable {provider : Provider} {strict : Prop} {before middle after : Builder}

/-- A trace of a later netlist is one of every earlier netlist. -/
theorem Extension.obeys (extension : Extension provider strict before after) {trace : Trace}
    (obeys : after.netlist.Obeys trace) : before.netlist.Obeys trace where
  literal found := obeys.literal (extension.signal_eq_some found)
  settled cycle gate member := by
    apply obeys.settled cycle gate
    rw [extension.gates]
    exact List.mem_append_left _ member
  clocked gate member := by
    apply obeys.clocked gate
    rw [extension.gates]
    exact List.mem_append_left _ member

theorem Extension.settled_added (extension : Extension provider strict before after)
    {trace : Trace} (obeys : after.netlist.Obeys trace) (cycle : Nat) :
    Gate.Settled (added before after) (trace cycle) := by
  intro gate member
  apply obeys.settled cycle gate
  rw [extension.gates]
  exact List.mem_append_right _ member

/-- What a run from one builder to another does to streams. -/
structure Outcome {α : Type} [Scoped α] (provider : Provider) (before after : Builder) (result : α)
    (post : Trace → α → Prop) : Prop where
  moves : Moves provider True before after
  within : Within after.size result
  holds : ∀ trace : Trace, after.netlist.Obeys trace → Grounded trace → post trace result

end Builder

namespace Attempt

variable {α β : Type} [Scoped α] [Scoped β] {known : Nat}

/-- Every run that succeeds from a builder with the known signals does this to streams. -/
def Streams (known : Nat) (attempt : Attempt α) (post : Trace → α → Prop) : Prop :=
  ∀ (provider : CompleteProvider) (before : Builder) (result : α) (after : Builder),
    known ≤ before.size → run attempt provider before = (.ok result, after) →
      Builder.Outcome provider.toProvider before after result post

variable {post : Trace → α → Prop}

theorem Streams.imp {attempt : Attempt α} {weaker : Trace → α → Prop}
    (streams : Streams known attempt post)
    (implies : ∀ trace result, Grounded trace → post trace result → weaker trace result) :
    Streams known attempt weaker := by
  intro provider before result after enough ran
  have outcome := streams provider before result after enough ran
  exact { outcome with
    holds := fun trace obeys grounded =>
      implies trace result grounded (outcome.holds trace obeys grounded) }

theorem streams_pure {result : α} (within : Within known result)
    (holds : ∀ trace, post trace result) : Streams known (pure result) post := by
  intro provider before last after enough ran
  cases ran
  exact ⟨.refl, within_mono enough within, fun trace _ _ => holds trace⟩

theorem streams_refuse_bind {γ : Type} {fault : Fault} {next : γ → Attempt α} :
    Streams known (refuse fault >>= next) post := by
  intro provider before result after _ ran
  cases ran

theorem Streams.bind {attempt : Attempt α} {next : α → Attempt β} {final : Trace → β → Prop}
    (first : Streams known attempt post)
    (rest : ∀ result more, known ≤ more → Within more result →
      Streams more (next result) fun trace last => post trace result → final trace last) :
    Streams known (attempt >>= next) final := by
  intro provider before last after enough ran
  rcases run_bind_eq_ok ran with ⟨result, middle, ranFirst, ranRest⟩
  have start := first provider before result middle enough ranFirst
  have later := start.moves.extension.size_le
  have outcome := rest result middle.size (Nat.le_trans enough later) start.within provider middle
    last after (Nat.le_refl _) ranRest
  refine ⟨start.moves.trans outcome.moves, outcome.within, fun trace obeys grounded => ?_⟩
  exact outcome.holds trace obeys grounded
    (start.holds trace (outcome.moves.extension.obeys obeys) grounded)

/-- A step without registers relates the values of each cycle. -/
theorem streams_lift {step : Build α} {post : Valuation Bool → α → Prop}
    (meets : Build.Meets known step post) :
    Streams known (liftM step) fun trace result => ∀ cycle, post (trace cycle) result := by
  intro provider before result after enough ran
  have promise := meets.promise provider before enough
  cases ran
  exact ⟨promise.moves, promise.within, fun trace obeys _ cycle =>
    promise.holds _ (promise.moves.extension.settled_added obeys cycle)⟩

/-- What a step that an attempt performs computes relates the values of each cycle. -/
theorem streams_of_performs {attempt : Attempt α} {step : Build α}
    {post : Valuation Bool → α → Prop} (performs : Performs attempt step)
    (meets : Build.Meets known step post) :
    Streams known attempt fun trace result => ∀ cycle, post (trace cycle) result := by
  intro provider before result after enough ran
  rw [performs] at ran
  exact streams_lift meets provider before result after enough ran

theorem Streams.of_check {γ ε : Type} {check : Except ε γ} {wrap : ε → Error}
    {next : γ → Attempt α}
    (rest : ∀ passed, check = .ok passed → Streams known (next passed) post) :
    Streams known (ofExcept (check.mapError wrap) >>= next) post := by
  intro provider before result after enough ran
  cases accepted : check with
  | error error =>
      rw [accepted] at ran
      cases ran
  | ok passed =>
      rw [accepted] at ran
      exact rest passed accepted provider before result after enough ran

/-- A register shows in each cycle what its signal carried in the one before. -/
theorem register_streams (known id : Nat) :
    Streams known (register id) fun trace q => ∀ cycle, trace (cycle + 1) q = trace cycle id := by
  intro provider before q after enough ran
  rcases register_moves ran with ⟨moves, within⟩
  refine ⟨moves, within, fun trace obeys _ cycle => ?_⟩
  rcases register_eq_ok ran with
    ⟨value, found, rfl, rfl⟩ | ⟨_, rfl, realization, _, rfl⟩
  · rw [obeys.literal found, obeys.literal found]
  · have carries := obeys.clocked _ (Array.mem_toList_iff.mpr Array.mem_push_self) rfl cycle
    have shown : [trace cycle id] = [trace (cycle + 1) before.size] := Except.ok.inj carries
    exact (List.cons.inj shown).1.symm

theorem registerWord_streams (known : Nat) (word : List SignalId) :
    Streams known (registerWord word) fun trace registered =>
      ∀ cycle, registered.map (trace (cycle + 1)) = word.map (trace cycle) := by
  induction word generalizing known with
  | nil => exact streams_pure (within_list_nil known) fun _ _ => rfl
  | cons id word ih =>
      rw [registerWord_cons]
      apply (register_streams known id).bind
      intro q n _ q_lt
      apply (ih n).bind
      intro rest m le rest_lt
      refine streams_pure (within_list_cons.mpr ⟨within_mono le q_lt, rest_lt⟩) ?_
      intro trace isRest isQ cycle
      rw [List.map_cons, List.map_cons, isQ, isRest]

end Attempt

namespace Generator

open Attempt (Streams)

/-- An enabled stage delays its word by one cycle, any other passes it on. -/
theorem registerStage_streams {known : Nat} (enabled : Bool) (scope : String)
    {word : List SignalId} (word_lt : Below known word) :
    Streams known (registerStage enabled scope word) fun trace registered =>
      ∀ cycle, registered.map (trace (cycle + enabled.toNat)) = word.map (trace cycle) := by
  cases enabled with
  | false => exact Attempt.streams_pure word_lt fun _ _ => rfl
  | true =>
      apply (Attempt.streams_lift (Build.setScope_meets (some scope))).bind
      intro _ n _ _
      apply (Attempt.registerWord_streams n word).bind
      intro registered m _ registered_lt
      apply (Attempt.streams_lift (Build.setScope_meets none)).bind
      intro _ k le _
      apply Attempt.streams_pure (within_mono le registered_lt)
      intro trace _ delayed _ cycle
      exact delayed cycle

end Generator

end Datapath

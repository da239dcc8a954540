import Mathlib.Data.List.Forall2
import Mathlib.Data.List.Induction
import Datapath.Error

/-!
# Computations that may fail

When steps of a computation, one after the other or one for each item of a list, have a result, and
when two computations correspond: what the one makes of a state, the other makes of the image of the
state, and both fail in the same way.
-/

namespace Datapath.Except

variable {ε α β γ δ : Type}

theorem bind_eq_ok {first : Except ε α} {next : α → Except ε β} {result : β} :
    first >>= next = .ok result ↔ ∃ value, first = .ok value ∧ next value = .ok result := by
  cases first with
  | error error => exact ⟨nofun, nofun⟩
  | ok value =>
      refine ⟨fun done => ⟨value, rfl, done⟩, ?_⟩
      rintro ⟨_, ⟨⟩, done⟩
      exact done

theorem bind_eq_error {first : Except ε α} {next : α → Except ε β} {error : ε}
    (failed : first >>= next = .error error) :
    first = .error error ∨ ∃ value, first = .ok value ∧ next value = .error error := by
  cases first with
  | error earlier => exact .inl (congrArg Except.error (Except.error.inj failed))
  | ok value => exact .inr ⟨value, rfl, failed⟩

theorem mapError_eq_error {step : Except ε α} {wrap : ε → δ} {error : δ}
    (failed : step.mapError wrap = .error error) : ∃ cause, error = wrap cause := by
  cases step with
  | error cause => exact ⟨cause, (Except.error.inj failed).symm⟩
  | ok value => cases failed

theorem mapM_eq_ok {items : List α} {step : α → Except ε β} {result : α → β}
    (each : ∀ item ∈ items, step item = .ok (result item)) :
    items.mapM step = .ok (items.map result) := by
  induction items with
  | nil => rfl
  | cons item items ih =>
      rw [List.forall_mem_cons] at each
      rw [List.mapM_cons, each.1, ih each.2]
      rfl

theorem exists_mapM_eq_ok {items : List α} {step : α → Except ε β} {related : α → β → Prop}
    (each : ∀ item ∈ items, ∃ result, step item = .ok result ∧ related item result) :
    ∃ results, items.mapM step = .ok results ∧ List.Forall₂ related items results := by
  induction items with
  | nil => exact ⟨[], rfl, .nil⟩
  | cons item items ih =>
      rw [List.forall_mem_cons] at each
      rcases each.1 with ⟨result, isResult, relates⟩
      rcases ih each.2 with ⟨results, areResults, relate⟩
      refine ⟨result :: results, ?_, .cons relates relate⟩
      rw [List.mapM_cons, isResult, areResults]
      rfl

theorem mapM_eq_ok_iff {items : List α} {step : α → Except ε β} {results : List β} :
    items.mapM step = .ok results ↔
      List.Forall₂ (fun item result => step item = .ok result) items results := by
  induction items generalizing results with
  | nil => cases results <;> simp [pure, Except.pure]
  | cons item items ih =>
      rw [List.mapM_cons, bind_eq_ok, List.forall₂_cons_left_iff]
      constructor
      · rintro ⟨result, isResult, mapped⟩
        rcases bind_eq_ok.mp mapped with ⟨rest, areResults, ⟨⟩⟩
        exact ⟨result, rest, isResult, ih.mp areResults, rfl⟩
      · rintro ⟨result, rest, isResult, areResults, rfl⟩
        exact ⟨result, isResult, bind_eq_ok.mpr ⟨rest, ih.mpr areResults, rfl⟩⟩

/-- Where no item has a result, the first error counts. -/
theorem mapM_eq_error {items : List α} {step : α → Except ε β} {error : ε} (nonempty : items ≠ [])
    (each : ∀ item ∈ items, step item = .error error) : items.mapM step = .error error := by
  cases items with
  | nil => exact absurd rfl nonempty
  | cons item items =>
      rw [List.mapM_cons, each item List.mem_cons_self]
      rfl

theorem exists_of_mapM_eq_error {items : List α} {step : α → Except ε β} {error : ε}
    (failed : items.mapM step = .error error) : ∃ item ∈ items, step item = .error error := by
  induction items with
  | nil => cases failed
  | cons item items ih =>
      rw [List.mapM_cons] at failed
      rcases bind_eq_error failed with here | ⟨result, _, later⟩
      · exact ⟨item, List.mem_cons_self, here⟩
      · rcases bind_eq_error later with rest | ⟨results, _, ⟨⟩⟩
        rcases ih rest with ⟨culprit, member, isCulprit⟩
        exact ⟨culprit, List.mem_cons_of_mem item member, isCulprit⟩

/-- Where all items fail alike, each of them tells how the list fails. -/
theorem mapM_eq_error_iff {items : List α} {step : α → Except ε β} {error : ε}
    (alike : ∀ left right, step left = .error error → step right = .error error) {item : α}
    (member : item ∈ items) : items.mapM step = .error error ↔ step item = .error error := by
  constructor
  · intro failed
    rcases exists_of_mapM_eq_error failed with ⟨culprit, _, isCulprit⟩
    exact alike culprit item isCulprit
  · exact fun failed =>
      mapM_eq_error (List.ne_nil_of_mem member) fun other _ => alike item other failed

theorem mapM_congr {items : List α} {left right : α → Except ε β}
    (agree : ∀ item ∈ items, left item = right item) : items.mapM left = items.mapM right := by
  induction items with
  | nil => rfl
  | cons item items ih =>
      rw [List.forall_mem_cons] at agree
      rw [List.mapM_cons, List.mapM_cons, agree.1, ih agree.2]

/-- To go through lists and then through the items of each is to go through all items. -/
theorem mapM_flatten {step : α → Except ε β} (lists : List (List α)) :
    lists.flatten.mapM step = (lists.mapM (List.mapM step)).map List.flatten := by
  induction lists with
  | nil => rfl
  | cons items lists ih =>
      rw [List.flatten_cons, List.mapM_append, List.mapM_cons, ih]
      cases items.mapM step with
      | error error => rfl
      | ok first => cases lists.mapM (List.mapM step) <;> rfl

theorem map_liftM {image : α → β} (result : Except Fault α) :
    (liftM result : Except Error α).map image = liftM (result.map image) := by
  cases result <;> rfl

theorem map_injective {image : α → β} (injective : Function.Injective image) :
    Function.Injective (Except.map image : Except ε α → Except ε β) := by
  rintro (error | left) (error' | right) same
  · exact congrArg Except.error (Except.error.inj same)
  · cases same
  · cases same
  · exact congrArg Except.ok (injective (Except.ok.inj same))

/-- Computations that correspond can be followed by computations that do. -/
theorem map_bind {first : Except ε α} {next : α → Except ε β} {image : α → γ} {shown : β → δ}
    {follow : γ → Except ε δ}
    (corresponds : ∀ value, (next value).map shown = follow (image value)) :
    (first >>= next).map shown = first.map image >>= follow := by
  cases first with
  | error cause => rfl
  | ok value => exact corresponds value

theorem map_mapM {step : α → Except ε β} {image : β → γ} (items : List α) :
    (items.mapM step).map (List.map image) = items.mapM fun item => (step item).map image := by
  induction items with
  | nil => rfl
  | cons item items ih =>
      rw [List.mapM_cons, List.mapM_cons, ← ih]
      cases step item with
      | error cause => rfl
      | ok value => cases items.mapM step <;> rfl

/-- Folds correspond when their steps do. -/
theorem map_foldlM {step : α → β → Except ε α} {follow : γ → δ → Except ε γ} {image : α → γ}
    {shown : β → δ} {items : List β} (corresponds : ∀ item ∈ items, ∀ state,
      (step state item).map image = follow (image state) (shown item)) (state : α) :
    (items.foldlM step state).map image = (items.map shown).foldlM follow (image state) := by
  induction items generalizing state with
  | nil => rfl
  | cons item items ih =>
      rw [List.forall_mem_cons] at corresponds
      rw [List.map_cons, List.foldlM_cons, List.foldlM_cons, ← corresponds.1]
      exact map_bind (ih corresponds.2)

/-- A fold over items and their positions leaves what each step keeps true of the items so far. -/
theorem foldlM_zipIdx {step : α → β × Nat → Except ε α} {state : List β → α} {bound : Nat}
    (keeps : ∀ earlier item, earlier.length < bound →
      step (state earlier) (item, earlier.length) = .ok (state (earlier ++ [item])))
    {items : List β} (few : items.length ≤ bound) :
    items.zipIdx.foldlM step (state []) = .ok (state items) := by
  induction items using List.reverseRecOn with
  | nil => rfl
  | append_singleton earlier item ih =>
      rw [List.length_append, List.length_singleton] at few
      rw [List.zipIdx_append, List.foldlM_append, ih (Nat.le_of_succ_le few), Nat.zero_add]
      exact (bind_pure _).trans (keeps earlier item few)

end Datapath.Except

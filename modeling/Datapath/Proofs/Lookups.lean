import Datapath.Proofs.Heights

/-!
# Loops that look their items up

A loop over positions refuses a position without an item and a negative difference of positions,
where a recursion over lists has no position that could be missing. Where every position has its
item, both are the same construction, as `Attempt.mapM_range'` and `Attempt.foldlM_range'` say of
loops without and with a state. `Attempt.foldlM_lift` is about steps that are refused only in states
that no loop gets into.
-/

namespace Datapath

namespace Build

variable {α β σ : Type}

/-- As many results as items. -/
theorem always_length_mapM (step : α → Build β) (items : List α) :
    Always (items.mapM step) fun results => results.length = items.length := by
  induction items with
  | nil => exact always_pure rfl
  | cons item items ih =>
      rw [List.mapM_cons]
      refine .after fun result => ih.bind fun results length => always_pure ?_
      rw [List.length_cons, List.length_cons, length]

/-- What every step of a loop keeps, the loop keeps. -/
theorem always_foldlM {step : σ → α → Build σ} {invariant : σ → Prop} {items : List α} {state : σ}
    (holds : invariant state)
    (keeps : ∀ item ∈ items, ∀ state, invariant state → Always (step state item) invariant) :
    Always (items.foldlM step state) invariant := by
  induction items generalizing state with
  | nil => exact always_pure holds
  | cons item items ih =>
      rw [List.forall_mem_cons] at keeps
      rw [List.foldlM_cons]
      exact (keeps.1 state holds).bind fun next still => ih still keeps.2

end Build

namespace Attempt

variable {α β σ : Type}

/-- An item that has been looked up. Refuses if there is none. -/
def found : Option α → Attempt α
  | some item => pure item
  | none => refuse .unknownBit

/-- A difference of positions. Refuses a negative one. -/
def difference (position distance : Nat) : Attempt Nat :=
  if distance ≤ position then pure (position - distance) else refuse .unknownBit

theorem difference_eq {position distance : Nat} (le : distance ≤ position) :
    difference position distance = pure (position - distance) :=
  if_pos le

theorem refuse_bind (fault : Fault) (next : α → Attempt β) :
    refuse fault >>= next = refuse fault :=
  rfl

theorem lift_bind (step : Build α) (next : α → Build β) :
    (liftM (step >>= next) : Attempt β) = liftM step >>= fun result => liftM (next result) :=
  rfl

/-- Attempts that run alike from everywhere are the same. -/
theorem ext {first second : Attempt α}
    (same : ∀ provider builder, run first provider builder = run second provider builder) :
    first = second :=
  funext fun provider => funext fun builder => same provider builder

/-- What follows a step need only be known for the results that the step can have. -/
theorem lift_bind_congr {step : Build α} {property : α → Prop} (always : Build.Always step property)
    {first second : α → Attempt β}
    (same : ∀ result, property result → first result = second result) :
    (liftM step : Attempt α) >>= first = liftM step >>= second :=
  ext fun provider builder => by
    rw [run_bind, run_bind, run_lift]
    exact congrFun (congrFun (same _ (always provider builder)) provider) _

/-! ## Loops over lists -/

section Lists

variable {items : List α}

theorem mapM_pure {step : α → Attempt β} {result : α → β}
    (each : ∀ item ∈ items, step item = pure (result item)) :
    items.mapM step = pure (items.map result) := by
  induction items with
  | nil => rfl
  | cons item items ih =>
      rw [List.forall_mem_cons] at each
      rw [List.mapM_cons, each.1, ih each.2]
      rfl

/-- A loop of steps that are not refused as long as an invariant holds. -/
theorem foldlM_lift {step : σ → α → Attempt σ} {plain : σ → α → Build σ} {invariant : σ → Prop}
    {state : σ} (holds : invariant state)
    (each : ∀ item ∈ items, ∀ state, invariant state →
      step state item = liftM (plain state item) ∧ Build.Always (plain state item) invariant) :
    items.foldlM step state = (liftM (items.foldlM plain state) : Attempt σ) := by
  induction items generalizing state with
  | nil => rfl
  | cons item items ih =>
      rw [List.forall_mem_cons] at each
      rcases each.1 state holds with ⟨same, keeps⟩
      rw [List.foldlM_cons, List.foldlM_cons, same, lift_bind]
      exact lift_bind_congr keeps fun next still => ih still each.2

end Lists

/-! ## Loops over positions -/

section Positions

variable {items : List α} {start : Nat}

/-- The positions after the first one are those of the other items. -/
theorem at_succ (holds : Nat → α → Prop) {item : α}
    (each : ∀ index other, (item :: items)[index]? = some other → holds (start + index) other)
    (index : Nat) (other : α) (isOther : items[index]? = some other) :
    holds (start + 1 + index) other := by
  rw [Nat.add_assoc, Nat.add_comm 1]
  exact each (index + 1) other isOther

/-- A loop that does at each position what a step does with the item there. -/
theorem mapM_range' {visit : Nat → Attempt β} {step : α → Build β}
    (each : ∀ index item, items[index]? = some item → visit (start + index) = liftM (step item)) :
    (List.range' start items.length).mapM visit =
      (liftM (items.mapM step) : Attempt (List β)) := by
  induction items generalizing start with
  | nil => rfl
  | cons item items ih =>
      have here : visit start = liftM (step item) := each 0 item rfl
      have later := at_succ (fun position item => visit position = liftM (step item)) each
      rw [List.length_cons, List.range'_succ, List.mapM_cons, ih later, here, List.mapM_cons,
        lift_bind]
      rfl

/-- A loop with a state that does at each position what a walk along a list does with the item
there. -/
theorem foldlM_range' {visit : σ → Nat → Attempt σ} {step : Nat → α → σ → Build σ}
    {walk : Nat → List α → σ → Build σ}
    (stop : ∀ position state, walk position [] state = pure state)
    (next : ∀ position item items state, walk position (item :: items) state =
      step position item state >>= walk (position + 1) items)
    (each : ∀ index item, items[index]? = some item → ∀ state,
      visit state (start + index) = liftM (step (start + index) item state)) (state : σ) :
    (List.range' start items.length).foldlM visit state =
      (liftM (walk start items state) : Attempt σ) := by
  induction items generalizing start state with
  | nil =>
      rw [stop]
      rfl
  | cons item items ih =>
      have here : visit state start = liftM (step start item state) := each 0 item rfl state
      have later := at_succ (fun position item => ∀ state,
        visit state position = liftM (step position item state)) each
      rw [List.length_cons, List.range'_succ, List.foldlM_cons, here, next, lift_bind]
      exact bind_congr fun state => ih later state

end Positions

end Attempt

end Datapath

import Datapath.Proofs.Decomposition

/-!
# Registers of signals and words

What a successful request for a register leaves: nothing new for a constant, and otherwise one gate
that reads the signal. A signal that does not exist is refused, so all moves are strict.
-/

namespace Datapath

theorem Build.dff_meets {known d : Nat} (d_lt : d < known) :
    Build.Meets known (Build.dff d) fun _ _ => True where
  moves provider before :=
    .single (.place before (Build.realize_basis provider _) rfl False.elim)
  promise provider before enough :=
    { moves := .single (.place before (Build.realize_basis provider _) rfl fun _ => by
        simpa using Nat.lt_of_lt_of_le d_lt enough)
      within := by
        rw [Build.dff, Build.run_basisGate, Builder.size_place]
        exact Nat.lt_succ_self before.size
      holds := fun _ _ => trivial }

namespace Attempt

variable {provider : CompleteProvider} {before after : Builder}

theorem run_isLiteral (id : SignalId) (provider : CompleteProvider) (before : Builder) :
    run (isLiteral id) provider before =
      (match before.netlist.signals[id]? with
        | some signal => .ok signal.isLiteral
        | none => .error (.fault .unknownSignal), before) := by
  have unfolded : isLiteral id = get >>= fun builder =>
      match builder.netlist.signals[id]? with
      | some signal => pure signal.isLiteral
      | none => refuse .unknownSignal := rfl
  rw [unfolded, run_bind, run_get]
  dsimp only
  cases before.netlist.signals[id]? <;> rfl

theorem register_eq (id : SignalId) :
    register id = isLiteral id >>= fun constant =>
      if constant then pure id else liftM (Build.dff id) :=
  rfl

theorem registerWord_cons (id : SignalId) (word : List SignalId) :
    registerWord (id :: word) =
      register id >>= fun q => registerWord word >>= fun rest => pure (q :: rest) := by
  rw [registerWord, List.mapM_cons]
  rfl

/-- A register of an existing signal is the signal itself if that is a constant, and otherwise the
output of a new gate. -/
theorem register_eq_ok {id q : SignalId}
    (ran : run (register id) provider before = (.ok q, after)) :
    (∃ value, before.netlist.signals[id]? = some (.literal value) ∧ q = id ∧ after = before) ∨
      (∃ signal, before.netlist.signals[id]? = some signal ∧ signal.isLiteral = false) ∧
        q = before.size ∧ ∃ realization, provider.realize .dff = some realization ∧
          after = before.place .dff realization [id] 1 := by
  rw [register_eq, run_bind, run_isLiteral] at ran
  cases found : before.netlist.signals[id]? with
  | none =>
      rw [found] at ran
      cases ran
  | some signal =>
      rw [found] at ran
      cases signal with
      | literal value =>
          cases ran
          exact .inl ⟨value, rfl, rfl, rfl⟩
      | input port bit =>
          cases ran
          exact .inr ⟨⟨_, rfl, rfl⟩, rfl, _, Build.realize_basis provider _, rfl⟩
      | wire label =>
          cases ran
          exact .inr ⟨⟨_, rfl, rfl⟩, rfl, _, Build.realize_basis provider _, rfl⟩

theorem register_moves {id q : SignalId}
    (ran : run (register id) provider before = (.ok q, after)) :
    Builder.Moves provider.toProvider True before after ∧ q < after.size := by
  rcases register_eq_ok ran with
    ⟨value, found, rfl, rfl⟩ | ⟨⟨signal, found, _⟩, rfl, realization, realized, rfl⟩
  · exact ⟨.refl, (Array.getElem?_eq_some_iff.mp found).1⟩
  · have existing : id < before.size := (Array.getElem?_eq_some_iff.mp found).1
    refine ⟨.single (.place before realized rfl fun _ => by simpa using existing), ?_⟩
    rw [Builder.size_place]
    exact Nat.lt_succ_self before.size

theorem registerWord_cons_eq_ok {id : SignalId} {word registered : List SignalId}
    (ran : run (registerWord (id :: word)) provider before = (.ok registered, after)) :
    ∃ q middle rest, run (register id) provider before = (.ok q, middle) ∧
      run (registerWord word) provider middle = (.ok rest, after) ∧ registered = q :: rest := by
  rw [registerWord_cons] at ran
  rcases run_bind_eq_ok ran with ⟨q, middle, first, remaining⟩
  rcases run_bind_eq_ok remaining with ⟨rest, last, second, final⟩
  cases final
  exact ⟨q, middle, rest, first, second, rfl⟩

theorem length_registerWord {word registered : List SignalId}
    (ran : run (registerWord word) provider before = (.ok registered, after)) :
    registered.length = word.length := by
  induction word generalizing before registered with
  | nil =>
      cases ran
      rfl
  | cons id word ih =>
      rcases registerWord_cons_eq_ok ran with ⟨q, middle, rest, _, second, rfl⟩
      exact congrArg Nat.succ (ih second)

end Attempt

end Datapath

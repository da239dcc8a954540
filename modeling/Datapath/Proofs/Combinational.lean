import Datapath.Proofs.Addition
import Datapath.Proofs.Naming
import Datapath.Proofs.PartialProducts
import Datapath.Proofs.Reduction

/-!
# Constructions without registers

Between its register stages a generator only records events, enters scopes and places combinational
gates: `Builder.CombinationalMoves`. Such a construction adds wires, and nothing that a register
reads: `Builder.Samples`.

`Build.Produces` and `Attempt.Produces` specify such steps. Besides the moves they say where results
come from. A sum is made of new signals, each later than the one before. The bits of a matrix of
partial products are literals, bits of the operands, or new.
-/

namespace Datapath

open Verilog (IsLabel IsStem)

/-- Whether a position names a literal. -/
def Netlist.literalAt (netlist : Netlist) (id : SignalId) : Bool :=
  netlist.signals[id]?.any (·.isLiteral)

namespace Builder

/-- One move that brings no register. -/
inductive CombinationalMove (provider : Provider) : Builder → Builder → Prop where
  | note (builder : Builder) (event : Event) :
      CombinationalMove provider builder { builder with log := builder.log.push event }
  | scope (builder : Builder) {scope : Option String} (isLabel : ∀ text ∈ scope, IsLabel text) :
      CombinationalMove provider builder { builder with scope }
  | place (builder : Builder) {primitive : Primitive} {realization : Realization}
      (realized : provider.realize primitive = some realization) (unclocked : primitive ≠ .dff)
      (inputs : List SignalId) (outputs : Nat) :
      CombinationalMove provider builder (builder.place primitive realization inputs outputs)

/-- Any number of moves that bring no register. -/
abbrev CombinationalMoves (provider : Provider) : Builder → Builder → Prop :=
  Relation.ReflTransGen (CombinationalMove provider)

/-- Only wires are added, no output port is, and the registers among the added gates read given
signals, one each. -/
structure Samples (before after : Builder) (ids : List SignalId) : Prop where
  size_le : before.size ≤ after.size
  literalAt : after.netlist.literalAt = before.netlist.literalAt
  outputs : after.netlist.outputs = before.netlist.outputs
  registers : (after.netlist.gates.toList.filter (·.isRegister)).map (·.inputs) =
    (before.netlist.gates.toList.filter (·.isRegister)).map (·.inputs) ++ ids.map fun id => [id]

variable {provider : Provider} {before middle after : Builder} {ids more : List SignalId}

theorem Samples.refl (builder : Builder) : builder.Samples builder [] :=
  ⟨Nat.le_refl _, rfl, rfl, (List.append_nil _).symm⟩

theorem Samples.trans (first : before.Samples middle ids) (second : middle.Samples after more) :
    before.Samples after (ids ++ more) where
  size_le := Nat.le_trans first.size_le second.size_le
  literalAt := second.literalAt.trans first.literalAt
  outputs := second.outputs.trans first.outputs
  registers := by
    rw [second.registers, first.registers, List.map_append, List.append_assoc]

theorem samples_place (builder : Builder) {primitive : Primitive} (realization : Realization)
    {inputs : List SignalId} (outputs : Nat)
    (read : (if primitive = .dff then [inputs] else []) = ids.map fun id => [id]) :
    builder.Samples (builder.place primitive realization inputs outputs) ids where
  size_le := by
    rw [size_place]
    exact Nat.le_add_right _ _
  literalAt := by
    funext id
    rw [Netlist.literalAt, Netlist.literalAt, place, Array.getElem?_append]
    split
    · rfl
    · rename_i beyond
      rw [Array.getElem?_eq_none (Nat.le_of_not_lt beyond), Array.getElem?_replicate]
      split <;> rfl
  outputs := rfl
  registers := by
    rw [place, Array.toList_push, List.filter_append, List.map_append, ← read]
    refine congrArg _ ?_
    cases primitive <;> rfl

theorem CombinationalMove.samples (move : CombinationalMove provider before after) :
    before.Samples after [] := by
  cases move with
  | note event => exact { Samples.refl before with }
  | scope isLabel => exact { Samples.refl before with }
  | @place primitive realization realized unclocked inputs outputs =>
      exact samples_place before realization outputs (if_neg unclocked)

theorem CombinationalMoves.samples (moves : CombinationalMoves provider before after) :
    before.Samples after [] := by
  induction moves with
  | refl => exact .refl before
  | tail _ move ih => exact ih.trans move.samples

end Builder

open Builder (CombinationalMoves)

/-- The signal is among those added from one number of signals to another. -/
def Fresh (lower upper : Nat) (id : SignalId) : Prop :=
  lower ≤ id ∧ id < upper

theorem Fresh.mono {lower middle upper : Nat} {id : SignalId} (fresh : Fresh lower middle id)
    (le : middle ≤ upper) : Fresh lower upper id :=
  ⟨fresh.1, Nat.lt_of_lt_of_le fresh.2 le⟩

/-- The signals are among those added from one number of signals to another, each later than the one
before. -/
structure Rising (lower upper : Nat) (ids : List SignalId) : Prop where
  increasing : ids.Pairwise (· < ·)
  fresh : ∀ id ∈ ids, Fresh lower upper id

theorem rising_nil (lower upper : Nat) : Rising lower upper [] :=
  ⟨.nil, nofun⟩

theorem Rising.cons {lower middle upper : Nat} {id : SignalId} {ids : List SignalId}
    (first : Fresh lower middle id) (le : middle ≤ upper) (rest : Rising middle upper ids) :
    Rising lower upper (id :: ids) where
  increasing := List.pairwise_cons.mpr
    ⟨fun other member => Nat.lt_of_lt_of_le first.2 (rest.fresh other member).1, rest.increasing⟩
  fresh := List.forall_mem_cons.mpr ⟨first.mono le,
    fun other member => ⟨Nat.le_trans first.1 (Nat.le_trans (Nat.le_of_lt first.2)
      (rest.fresh other member).1), (rest.fresh other member).2⟩⟩

theorem Rising.mono {earlier lower upper later : Nat} {ids : List SignalId}
    (rising : Rising lower upper ids) (start : earlier ≤ lower) (stop : upper ≤ later) :
    Rising earlier later ids where
  increasing := rising.increasing
  fresh id member := by
    rcases rising.fresh id member with ⟨above, below⟩
    exact ⟨Nat.le_trans start above, Nat.lt_of_lt_of_le below stop⟩

/-- The signal is a literal or not among the first so many. -/
def Late (bound : Nat) (id : SignalId) : Prop :=
  id ≤ Builder.trueId ∨ bound ≤ id

theorem late_falseId (bound : Nat) : Late bound Builder.falseId :=
  .inl (Nat.zero_le _)

theorem late_trueId (bound : Nat) : Late bound Builder.trueId :=
  .inl (Nat.le_refl _)

theorem Fresh.late {bound lower upper : Nat} {id : SignalId} (fresh : Fresh lower upper id)
    (le : bound ≤ lower) : Late bound id :=
  .inr (Nat.le_trans le fresh.1)

namespace Build

variable {α β : Type} {lower : Nat}

/-- From any builder with a number of signals, the step only makes moves that bring no register, and
its result is as described, given the number of signals afterwards. -/
def Produces (lower : Nat) (step : Build α) (post : Nat → α → Prop) : Prop :=
  ∀ (provider : CompleteProvider) (before : Builder), lower ≤ before.size →
    CombinationalMoves provider.toProvider before (run step provider before).2 ∧
      post (run step provider before).2.size (run step provider before).1

variable {post : Nat → α → Prop} {final : Nat → β → Prop}

theorem produces_pure {result : α} (holds : ∀ upper, lower ≤ upper → post upper result) :
    Produces lower (pure result) post :=
  fun _ _ enough => ⟨.refl, holds _ enough⟩

theorem Produces.bind {step : Build α} {next : α → Build β} (first : Produces lower step post)
    (rest : ∀ result upper, lower ≤ upper → post upper result →
      Produces upper (next result) final) :
    Produces lower (step >>= next) final := by
  intro provider before enough
  rcases first provider before enough with ⟨moves, holds⟩
  have later := Nat.le_trans enough moves.samples.size_le
  rcases rest _ _ later holds provider _ (Nat.le_refl _) with ⟨moreMoves, holdsLater⟩
  exact ⟨moves.trans moreMoves, holdsLater⟩

theorem Produces.map {step : Build α} {change : α → β} (produces : Produces lower step post)
    (implies : ∀ result upper, lower ≤ upper → post upper result → final upper (change result)) :
    Produces lower (step >>= fun result => pure (change result)) final := by
  intro provider before enough
  rcases produces provider before enough with ⟨moves, holds⟩
  exact ⟨moves, implies _ _ (Nat.le_trans enough moves.samples.size_le) holds⟩

theorem Produces.imp {step : Build α} {weaker : Nat → α → Prop}
    (produces : Produces lower step post)
    (implies : ∀ result upper, lower ≤ upper → post upper result → weaker upper result) :
    Produces lower step weaker := by
  intro provider before enough
  rcases produces provider before enough with ⟨moves, holds⟩
  exact ⟨moves, implies _ _ (Nat.le_trans enough moves.samples.size_le) holds⟩

/-- Only the end of a step matters for its result. -/
theorem Produces.andThen {step : Build α} {next : α → Build β} (first : Produces lower step post)
    (rest : ∀ result upper, lower ≤ upper → Produces upper (next result) final) :
    Produces lower (step >>= next) final :=
  first.bind fun result upper le _ => rest result upper le

/-- A signal that is new at the end of a step is new in all of it. -/
theorem Produces.thenFresh {step : Build α} {next : α → Build SignalId}
    (first : Produces lower step post)
    (rest : ∀ result upper, Produces upper (next result) (Fresh upper)) :
    Produces lower (step >>= next) (Fresh lower) :=
  first.andThen fun result upper le =>
    (rest result upper).imp fun _ _ _ fresh => ⟨Nat.le_trans le fresh.1, fresh.2⟩

theorem produces_note (lower : Nat) (event : Event) :
    Produces lower (note event) fun _ _ => True :=
  fun _ before _ => ⟨.single (.note before event), trivial⟩

theorem produces_gateCount (lower : Nat) : Produces lower gateCount fun _ _ => True :=
  fun _ _ _ => ⟨.refl, trivial⟩

theorem produces_setScope (lower : Nat) {scope : Option String}
    (isLabel : ∀ text ∈ scope, IsLabel text) : Produces lower (setScope scope) fun _ _ => True :=
  fun _ before _ => ⟨.single (.scope before isLabel), trivial⟩

/-- What every step of a fold keeps holds in the end. -/
theorem produces_foldlM {ι : Type} {step : α → ι → Build α} {items : List ι} (invariant : α → Prop)
    (each : ∀ state, invariant state → ∀ item ∈ items, ∀ lower,
      Produces lower (step state item) fun _ => invariant)
    {start : α} (initially : invariant start) (lower : Nat) :
    Produces lower (items.foldlM step start) fun _ => invariant := by
  induction items generalizing start lower with
  | nil => exact produces_pure fun _ _ => initially
  | cons item items ih =>
      rw [List.foldlM_cons]
      refine (each start initially item List.mem_cons_self lower).bind fun state upper _ holds => ?_
      exact ih (fun state holds item member => each state holds item (.tail _ member)) holds upper

/-- Where every step brings a new signal, they come in order. -/
theorem produces_mapM {ι : Type} {step : ι → Build α} (signal : α → SignalId)
    (each : ∀ item lower, Produces lower (step item) fun upper result =>
      Fresh lower upper (signal result)) (items : List ι) (lower : Nat) :
    Produces lower (items.mapM step) fun upper results =>
      Rising lower upper (results.map signal) := by
  induction items generalizing lower with
  | nil => exact produces_pure fun upper _ => rising_nil lower upper
  | cons item items ih =>
      rw [List.mapM_cons]
      exact (each item lower).bind fun result middle _ fresh =>
        (ih middle).map fun results upper le rising => .cons fresh le rising

/-! ## Gates -/

theorem produces_basisGate (lower : Nat) {primitive : Primitive}
    (member : primitive ∈ Primitive.basis) (unclocked : primitive ≠ .dff)
    (inputs : List SignalId) :
    Produces lower (basisGate primitive member inputs) (Fresh lower) := by
  intro provider before enough
  rw [run_basisGate]
  refine ⟨.single (.place before (realize_basis provider member) unclocked inputs 1), enough, ?_⟩
  rw [Builder.size_place]
  exact Nat.lt_succ_self before.size

/-- A gate that the provider realizes drives new signals, so only its decomposition matters. -/
theorem produces_gateOr {primitive : Primitive} (unclocked : primitive ≠ .dff)
    {inputs : List SignalId} {outputs : Nat} {result : SignalId → α} {decomposition : Build α}
    (realized : ∀ first, lower ≤ first → post (first + outputs) (result first))
    (decomposed : Produces lower decomposition post) :
    Produces lower (gateOr primitive inputs outputs result decomposition) post := by
  intro provider before enough
  rw [run_gateOr]
  cases isRealized : provider.realize primitive with
  | some realization =>
      refine ⟨.single (.place before isRealized unclocked inputs outputs), ?_⟩
      rw [Builder.size_place]
      exact realized before.size enough
  | none =>
      let noted : Builder :=
        { before with log := before.log.push (.decomposing provider.name primitive) }
      rcases decomposed provider noted enough with ⟨moves, holds⟩
      exact ⟨.head (.note before _) moves, holds⟩

theorem produces_freshGate {primitive : Primitive} (unclocked : primitive ≠ .dff)
    {inputs : List SignalId} {decomposition : Build SignalId}
    (decomposed : Produces lower decomposition (Fresh lower)) :
    Produces lower (gateOr primitive inputs 1 id decomposition) (Fresh lower) :=
  produces_gateOr unclocked (fun first le => ⟨le, Nat.lt_succ_self first⟩) decomposed

theorem produces_and2 (lower : Nat) (a b : SignalId) : Produces lower (and2 a b) (Fresh lower) :=
  produces_basisGate lower _ (by decide) _

theorem produces_inv (lower : Nat) (a : SignalId) : Produces lower (inv a) (Fresh lower) :=
  produces_basisGate lower _ (by decide) _

theorem produces_or2 (lower : Nat) (a b : SignalId) : Produces lower (or2 a b) (Fresh lower) :=
  produces_freshGate (by decide) <| (produces_inv lower a).thenFresh fun _ _ =>
    (produces_inv _ b).thenFresh fun _ _ => (produces_and2 _ _ _).thenFresh fun _ _ =>
      produces_inv _ _

theorem produces_ao21 (lower : Nat) (a1 a2 b1 : SignalId) :
    Produces lower (ao21 a1 a2 b1) (Fresh lower) :=
  produces_freshGate (by decide) <| (produces_and2 lower a1 a2).thenFresh fun _ _ =>
    produces_or2 _ _ b1

theorem produces_ao22 (lower : Nat) (a1 a2 b1 b2 : SignalId) :
    Produces lower (ao22 a1 a2 b1 b2) (Fresh lower) :=
  produces_freshGate (by decide) <| (produces_and2 lower b1 b2).thenFresh fun _ _ =>
    produces_ao21 _ a1 a2 _

theorem produces_ao32 (lower : Nat) (a1 a2 a3 b1 b2 : SignalId) :
    Produces lower (ao32 a1 a2 a3 b1 b2) (Fresh lower) :=
  produces_freshGate (by decide) <| (produces_and2 lower a1 a2).thenFresh fun _ _ =>
    produces_ao22 _ _ a3 b1 b2

theorem produces_xor2 (lower : Nat) (a b : SignalId) : Produces lower (xor2 a b) (Fresh lower) :=
  produces_freshGate (by decide) <| (produces_inv lower a).thenFresh fun _ _ =>
    (produces_inv _ b).thenFresh fun _ _ => produces_ao22 _ a _ _ b

theorem produces_halfAdder (lower : Nat) (a b : SignalId) :
    Produces lower (halfAdder a b) fun upper adder => Fresh lower upper adder.sum := by
  refine produces_gateOr (by decide) (fun first le => ⟨le, Nat.lt_add_of_pos_right Nat.two_pos⟩) ?_
  refine (produces_xor2 lower a b).bind fun sum middle _ fresh => ?_
  exact (produces_and2 middle a b).map fun _ _ le _ => fresh.mono le

theorem produces_fullAdder (lower : Nat) (a b c : SignalId) :
    Produces lower (fullAdder a b c) fun upper adder => Fresh lower upper adder.sum := by
  refine produces_gateOr (by decide) (fun first le => ⟨le, Nat.lt_add_of_pos_right Nat.two_pos⟩) ?_
  refine (produces_xor2 lower a b).andThen fun half start le => ?_
  refine (produces_xor2 start half c).bind fun sum middle _ fresh => ?_
  exact (produces_ao22 middle a b half c).map fun _ upper le' _ =>
    ⟨Nat.le_trans le fresh.1, Nat.lt_of_lt_of_le fresh.2 le'⟩

theorem produces_fullAdders (lower : Nat) (pairs : List (SignalId × SignalId)) (carry : SignalId) :
    Produces lower (fullAdders pairs carry) (Rising lower) := by
  induction pairs generalizing lower carry with
  | nil => exact produces_pure fun upper _ => rising_nil lower upper
  | cons pair pairs ih =>
      exact (produces_fullAdder lower _ _ carry).bind fun adder middle _ fresh =>
        (ih middle adder.carry).map fun _ _ le rising => .cons fresh le rising

theorem produces_ripple (lower : Nat) (pairs : List (SignalId × SignalId)) :
    Produces lower (ripple pairs) (Rising lower) := by
  cases pairs with
  | nil => exact produces_pure fun upper _ => rising_nil lower upper
  | cons pair pairs =>
      exact (produces_halfAdder lower _ _).bind fun adder middle _ fresh =>
        (produces_fullAdders middle pairs adder.carry).map fun _ _ le rising =>
          .cons fresh le rising

theorem produces_add (lower : Nat) (left right : List SignalId) :
    Produces lower (add left right) (Rising lower) := by
  refine produces_gateOr (by decide)
    (fun first le => ⟨List.pairwise_lt_range', fun id member => ?_⟩) (produces_ripple lower _)
  rcases List.mem_range'_1.mp member with ⟨above, below⟩
  exact ⟨Nat.le_trans le above, below⟩

end Build

open Build (Produces)

namespace Adder

theorem produces_bitGroup (lower : Nat) (left right : SignalId) :
    Produces lower (bitGroup left right) fun upper group => Fresh lower upper group.propagate :=
  (Build.produces_halfAdder lower left right).map fun _ _ _ fresh => fresh

theorem produces_joinGroups (lower : Nat) (upper below : Group) :
    Produces lower (joinGroups upper below) fun _ _ => True :=
  (Build.produces_and2 lower _ _).andThen fun _ n _ =>
    (Build.produces_ao21 n _ _ _).map fun _ _ _ _ => trivial

theorem produces_combine (lower : Nat) (groups : Array Group) (combination : Combination) :
    Produces lower (combine groups combination) fun _ _ => True := by
  unfold combine
  split
  · exact (produces_joinGroups lower _ _).andThen fun joined n _ =>
      (Build.produces_note n _).map fun _ _ _ _ => trivial
  · exact Build.produces_pure fun _ _ => trivial

theorem produces_combineRows (lower : Nat) (groups : Array Group) (rows : List (List Combination)) :
    Produces lower (combineRows groups rows) fun _ _ => True :=
  Build.produces_foldlM (fun _ => True) (fun _ _ _ _ lower =>
    Build.produces_foldlM (fun _ => True) (fun groups _ combination _ lower =>
      produces_combine lower groups combination) trivial lower) trivial lower

/-- The lowest sum bit comes with the groups of the single positions, the others later. -/
theorem produces_sumBits {start middle lower : Nat} {bits : List Group}
    (rising : Rising start middle (bits.map (·.propagate))) (le : middle ≤ lower)
    (finished : List Group) :
    Produces lower (sumBits bits finished) (Rising start) := by
  cases bits with
  | nil => exact Build.produces_pure fun upper _ => rising_nil start upper
  | cons lowest higher =>
      exact (Build.produces_mapM id (fun pair lower => Build.produces_xor2 lower _ _) _ lower).map
        fun sums upper le' later =>
          .cons ((rising.fresh _ List.mem_cons_self).mono le) le' (by simpa using later)

theorem produces_treeSum (lower : Nat) (topology : Topology) (left right : List SignalId) :
    Produces lower (treeSum topology left right) (Rising lower) := by
  unfold treeSum
  refine (Build.produces_mapM Group.propagate (fun pair lower =>
    produces_bitGroup lower pair.1 pair.2) _ lower).bind fun bits n _ rising => ?_
  refine (Build.produces_gateCount n).andThen fun _ m le => ?_
  refine (produces_combineRows m _ _).andThen fun finished k le' => ?_
  refine (Build.produces_gateCount k).andThen fun _ l le'' => ?_
  refine (Build.produces_note l _).andThen fun _ last le''' => ?_
  exact produces_sumBits rising (by omega) finished.toList

theorem isLabel_scopeOf {tag : String} (isStem : IsStem tag) (algorithm : Algorithm) :
    IsLabel (scopeOf tag algorithm) where
  toIsStem := by
    have chars : algorithm.name.toList.all fun char => char.isAlphanum || char == '_' := by
      rcases algorithm with (_ | _ | _) | _ <;> decide
    exact (isStem.append (by decide)).append chars
  apart := by
    have free : '_' ∉ algorithm.name.toList := by
      rcases algorithm with (_ | _ | _) | _ <;> decide
    have named : ∀ primitive ∈ Primitive.all,
        algorithm.name.toList.reverse ≠ primitive.mnemonic.toList.reverse := by
      rcases algorithm with (_ | _ | _) | _ <;> decide
    rw [scopeOf, Verilog.lastPart_append free]
    exact named

end Adder

namespace Multiplier

/-- A fixed beginning and a number make a scope, unless a primitive begins as they do. -/
theorem isLabel_numbered {beginning letter : String} (isStem : IsStem (beginning ++ "_" ++ letter))
    (free : '_' ∉ letter.toList) (apart : ∀ primitive ∈ Primitive.all,
      primitive.mnemonic.toList.take letter.length ≠ letter.toList) (number : Nat) :
    ∀ text ∈ some (beginning ++ "_" ++ letter ++ toString number), IsLabel text := by
  rintro _ ⟨⟩
  refine ⟨(isStem.isName_append_toString number).toIsStem, fun primitive member same => ?_⟩
  have freeWhole : '_' ∉ (letter ++ toString number).toList := by
    rw [String.toList_append, List.mem_append]
    rintro (inLetter | inNumber)
    · exact free inLetter
    · have isDigit : Char.isDigit '_' = true := Verilog.isDigit_of_mem_toString inNumber
      exact absurd isDigit (by decide)
  have shape : beginning ++ "_" ++ letter ++ toString number =
      beginning ++ "_" ++ (letter ++ toString number) := String.append_assoc
  rw [shape, Verilog.lastPart_append freeWhole] at same
  refine apart primitive member ?_
  rw [← List.reverse_injective same, String.toList_append]
  exact List.take_left' String.length_toList

namespace Matrix

/-- The bits of the matrix are literals or not among the first so many signals. -/
def AllLate (bound : Nat) (matrix : Matrix) : Prop :=
  ∀ id ∈ matrix.bits, Late bound id

theorem allLate_empty (bound columns : Nat) : (empty columns).AllLate bound := by
  simp [AllLate, bits, empty]

variable {bound : Nat} {matrix : Matrix}

theorem AllLate.push (allLate : matrix.AllLate bound) (column : Nat) {bit : SignalId}
    (late : Late bound bit) : (matrix.push column bit).AllLate bound := by
  intro id member
  rcases mem_bits_push member with old | rfl
  · exact allLate id old
  · exact late

theorem AllLate.truncate (allLate : matrix.AllLate bound) (columns : Nat) :
    (matrix.truncate columns).AllLate bound := by
  intro id member
  rcases List.mem_flatten.mp member with ⟨bits, isColumn, inColumn⟩
  exact allLate id (List.mem_flatten.mpr ⟨bits, List.mem_of_mem_take isColumn, inColumn⟩)

end Matrix

section

variable {bound lower : Nat} {matrix : Matrix}

theorem produces_push (lower : Nat) (allLate : matrix.AllLate bound) (column : Nat) {bit : SignalId}
    (late : Late bound bit) :
    Produces lower (Build.push matrix column bit) fun _ result => result.AllLate bound := by
  have pushed := allLate.push column late
  unfold Build.push
  split
  · exact Build.produces_pure fun _ _ => pushed
  · exact (Build.produces_note lower _).map fun _ _ _ _ => pushed

theorem produces_pushAll (lower : Nat) (allLate : matrix.AllLate bound)
    {entries : List (Nat × SignalId)} (late : ∀ entry ∈ entries, Late bound entry.2) :
    Produces lower (Build.pushAll matrix entries) fun _ result => result.AllLate bound :=
  Build.produces_foldlM (Matrix.AllLate bound) (fun _ allLate entry member lower =>
    produces_push lower allLate entry.1 (late entry member)) allLate lower

variable (le : bound ≤ lower) (allLate : matrix.AllLate bound)

include le allLate

theorem produces_pushConjunctions (bit : SignalId) (column : Nat) (word : List SignalId) :
    Produces lower (pushConjunctions bit column word matrix) fun _ result =>
      result.AllLate bound := by
  induction word generalizing lower column matrix with
  | nil => exact Build.produces_pure fun _ _ => allLate
  | cons other higher ih =>
      refine (Build.produces_and2 lower bit other).bind fun conjunction n le' fresh => ?_
      exact (produces_push n allLate column (fresh.late le)).bind fun pushed m le'' pushedLate =>
        ih (by omega) pushedLate (column + 1)

theorem produces_pushProducts (right : List SignalId) (column : Nat) (left : List SignalId) :
    Produces lower (pushProducts right column left matrix) fun _ result =>
      result.AllLate bound := by
  induction left generalizing lower column matrix with
  | nil => exact Build.produces_pure fun _ _ => allLate
  | cons bit higher ih =>
      exact (produces_pushConjunctions le allLate bit column right).bind fun _ n le' pushedLate =>
        ih (Nat.le_trans le le') pushedLate (column + 1)

omit le allLate in
theorem produces_encodeDigit (lower : Nat) (b0 b1 b2 : SignalId) :
    Produces lower (encodeDigit b0 b1 b2) fun _ digit => digit.sign = b2 := by
  refine (Build.produces_inv lower b0).andThen fun _ n _ => ?_
  refine (Build.produces_inv n b1).andThen fun _ m _ => ?_
  refine (Build.produces_inv m b2).andThen fun _ k _ => ?_
  refine (Build.produces_and2 k _ _).andThen fun _ l _ => ?_
  refine (Build.produces_ao32 l _ _ _ _ _).andThen fun _ i _ => ?_
  exact (Build.produces_ao22 i _ _ _ _).map fun _ _ _ _ => rfl

omit le allLate in
theorem produces_selectBit (lower : Nat) (below above : SignalId) (digit : Digit) :
    Produces lower (selectBit below above digit) (Fresh lower) :=
  (Build.produces_ao22 lower _ _ _ _).thenFresh fun _ n => Build.produces_xor2 n _ _

theorem produces_pushRow (digit : Digit) (column : Nat) (pairs : List (SignalId × SignalId)) :
    Produces lower (pushRow digit column pairs matrix) fun _ result => result.AllLate bound := by
  induction pairs generalizing lower column matrix with
  | nil => exact Build.produces_pure fun _ _ => allLate
  | cons pair higher ih =>
      refine (produces_selectBit lower pair.1 pair.2 digit).bind fun bit n le' fresh => ?_
      exact (produces_push n allLate column (fresh.late le)).bind fun pushed m le'' pushedLate =>
        ih (by omega) pushedLate (column + 1)

omit le allLate in
theorem late_corrections {width row : Nat} {sign notSign : SignalId} (isSign : Late bound sign)
    (isNotSign : Late bound notSign) :
    ∀ entry ∈ corrections width row sign notSign, Late bound entry.2 := by
  have isTrue := late_trueId bound
  unfold corrections
  split <;> simp [isSign, isNotSign, isTrue]

theorem produces_boothRow (multiplicand : List SignalId) (row : Nat)
    {window : SignalId × SignalId × SignalId} (isSign : Late bound window.2.2) :
    Produces lower (boothRow multiplicand row window matrix) fun _ result =>
      result.AllLate bound := by
  have isLabel := isLabel_numbered (by decide : IsStem ("booth" ++ "_" ++ "r"))
    (by decide) (by decide) row
  refine (Build.produces_setScope lower isLabel).andThen fun _ n le' => ?_
  refine (produces_encodeDigit n _ _ _).bind fun digit m le'' sameSign => ?_
  refine (produces_pushRow (by omega) allLate digit _ _).bind fun pushed k le''' pushedLate => ?_
  split
  · exact Build.produces_pure fun _ _ => pushedLate
  · refine (Build.produces_inv k digit.sign).bind fun notSign l _ fresh => ?_
    exact produces_pushAll l pushedLate
      (late_corrections (sameSign ▸ isSign) (fresh.late (by omega)))

theorem produces_boothRows (multiplicand : List SignalId) (row : Nat)
    {windows : List (SignalId × SignalId × SignalId)}
    (areSigns : ∀ window ∈ windows, Late bound window.2.2) :
    Produces lower (boothRows multiplicand row windows matrix) fun _ result =>
      result.AllLate bound := by
  induction windows generalizing lower row matrix with
  | nil => exact Build.produces_pure fun _ _ => allLate
  | cons window higher ih =>
      rw [List.forall_mem_cons] at areSigns
      exact (produces_boothRow le allLate multiplicand row areSigns.1).bind
        fun _ n le' rowLate => ih (Nat.le_trans le le') rowLate (row + 1) areSigns.2

end

theorem produces_noteLost (lower : Nat) (lost : Option Nat) :
    Produces lower (noteLost lost) fun _ _ => True := by
  cases lost with
  | none => exact Build.produces_pure fun _ _ => trivial
  | some column => exact Build.produces_note lower _

theorem produces_compress (lower : Nat) (lost : Option Nat) (excess : Nat) (bits : List SignalId) :
    Produces lower (compress lost excess bits) fun _ _ => True := by
  fun_induction compress lost excess bits generalizing lower with
  | case1 more a b c rest ih =>
      exact (Build.produces_fullAdder lower a b c).andThen fun adder n _ =>
        (produces_noteLost n lost).andThen fun _ m _ => (ih adder m).map fun _ _ _ _ => trivial
  | case2 a b rest =>
      exact (Build.produces_halfAdder lower a b).andThen fun adder n _ =>
        (produces_noteLost n lost).map fun _ _ _ _ => trivial
  | case3 excess bits => exact Build.produces_pure fun _ _ => trivial

theorem produces_reduceColumns (lower target position : Nat) (carries : List SignalId)
    (columns : List (List SignalId)) :
    Produces lower (reduceColumns target position carries columns) fun _ _ => True := by
  induction columns generalizing lower position carries with
  | nil => exact Build.produces_pure fun _ _ => trivial
  | cons column higher ih =>
      exact (produces_compress lower _ _ _).andThen fun _ n _ =>
        (ih n _ _).map fun _ _ _ _ => trivial

theorem produces_reduceStages (lower stage : Nat) (targets : List Nat) (matrix : Matrix) :
    Produces lower (reduceStages stage targets matrix) fun _ _ => True := by
  induction targets generalizing lower stage matrix with
  | nil => exact Build.produces_pure fun _ _ => trivial
  | cons target targets ih =>
      have isLabel := isLabel_numbered (by decide : IsStem ("dadda" ++ "_" ++ "s"))
        (by decide) (by decide) stage
      exact (Build.produces_setScope lower isLabel).andThen fun _ n _ =>
        (produces_reduceColumns n _ _ _ _).andThen fun _ m _ =>
          (Build.produces_note m _).andThen fun _ k _ => (ih k _ _).map fun _ _ _ _ => trivial

end Multiplier

/-! ## Steps that may be refused -/

namespace Attempt

variable {α β : Type} {lower : Nat}

/-- From any builder with a number of signals, the attempt only makes moves that bring no register,
whether or not it succeeds, and its result is as described, given the number of signals
afterwards. -/
def Produces (lower : Nat) (attempt : Attempt α) (post : Nat → α → Prop) : Prop :=
  ∀ (provider : CompleteProvider) (before : Builder), lower ≤ before.size →
    CombinationalMoves provider.toProvider before (run attempt provider before).2 ∧
      ∀ result, (run attempt provider before).1 = .ok result →
        post (run attempt provider before).2.size result

variable {post : Nat → α → Prop} {final : Nat → β → Prop}

theorem produces_pure {result : α} (holds : ∀ upper, lower ≤ upper → post upper result) :
    Produces lower (pure result) post := by
  refine fun provider before enough => ⟨.refl, fun other same => ?_⟩
  cases same
  exact holds _ enough

theorem produces_lift {step : Build α} (produces : Build.Produces lower step post) :
    Produces lower (liftM step) post := by
  intro provider before enough
  refine (produces provider before enough).imp_right fun holds result same => ?_
  cases same
  exact holds

theorem produces_refuse (lower : Nat) (fault : Fault) :
    Produces lower (refuse fault : Attempt α) post :=
  fun _ _ _ => ⟨.refl, nofun⟩

theorem produces_ofExcept (lower : Nat) (result : Except Error α) :
    Produces lower (ofExcept result) fun _ _ => True := by
  cases result with
  | ok result => exact produces_pure fun _ _ => trivial
  | error error => exact fun _ _ _ => ⟨.refl, nofun⟩

theorem Produces.bind {attempt : Attempt α} {next : α → Attempt β}
    (first : Produces lower attempt post)
    (rest : ∀ result upper, lower ≤ upper → post upper result →
      Produces upper (next result) final) :
    Produces lower (attempt >>= next) final := by
  intro provider before enough
  rcases first provider before enough with ⟨moves, holds⟩
  rw [run_bind]
  rcases ran : run attempt provider before with ⟨error | result, after⟩
  · rw [ran] at moves
    exact ⟨moves, nofun⟩
  · rw [ran] at moves holds
    have later := Nat.le_trans enough moves.samples.size_le
    have rest := rest result after.size later (holds result rfl) provider after (Nat.le_refl _)
    exact rest.imp_left moves.trans

theorem Produces.andThen {attempt : Attempt α} {next : α → Attempt β}
    (first : Produces lower attempt post)
    (rest : ∀ result upper, lower ≤ upper → Produces upper (next result) final) :
    Produces lower (attempt >>= next) final :=
  first.bind fun result upper le _ => rest result upper le

/-- A refusal may come first. -/
theorem Produces.unless {condition : Prop} [Decidable condition] {fault : Fault}
    {next : Unit → Attempt α} (rest : Produces lower (next ()) post) :
    Produces lower (if condition then refuse fault >>= next else next ()) post := by
  split
  · exact fun _ _ _ => ⟨.refl, nofun⟩
  · exact rest

theorem produces_add (lower : Nat) (left right : List SignalId) :
    Produces lower (add left right) (Rising lower) := by
  unfold add request
  split
  · exact produces_refuse lower _
  · dsimp only
    split
    · exact produces_refuse lower _
    · exact produces_lift (Build.produces_add lower _ _)

theorem produces_enterScope (lower : Nat) {scope : String} (isLabel : IsLabel scope) :
    Produces lower (liftM (Build.setScope (some scope))) fun _ _ => True :=
  produces_lift (Build.produces_setScope lower fun _ same => Option.mem_some.mp same ▸ isLabel)

theorem produces_leaveScope (lower : Nat) :
    Produces lower (liftM (Build.setScope none)) fun _ _ => True :=
  produces_lift (Build.produces_setScope lower nofun)

end Attempt

theorem Adder.produces_sum (lower : Nat) (left right : List SignalId) (algorithm : Algorithm)
    {tag : String} (isStem : IsStem tag) :
    Attempt.Produces lower (sum left right algorithm (some tag)) (Rising lower) := by
  have ending {words : Attempt (List SignalId)} {n : Nat} (le : lower ≤ n)
      (produces : Attempt.Produces n words (Rising n)) :
      Attempt.Produces n
        (words >>= fun result => liftM (Build.setScope none) >>= fun _ => pure result)
        (Rising lower) :=
    produces.bind fun result m _ rising =>
      (Attempt.produces_leaveScope m).andThen fun _ k le' =>
        Attempt.produces_pure fun upper le'' => rising.mono le (Nat.le_trans le' le'')
  unfold sum
  dsimp only
  refine .unless ((Attempt.produces_ofExcept lower _).andThen fun _ n le => ?_)
  refine (Attempt.produces_enterScope n (isLabel_scopeOf isStem algorithm)).andThen
    fun _ m le' => ?_
  have all := Nat.le_trans le le'
  cases algorithm with
  | tree topology =>
      exact ending all (Attempt.produces_lift (produces_treeSum m topology left right))
  | inferred => exact ending all (Attempt.produces_add m left right)

namespace Multiplier

theorem produces_schoolbookProducts {bound lower : Nat} (le : bound ≤ lower)
    (left right : List SignalId) :
    Attempt.Produces lower (schoolbookProducts left right) fun _ matrix =>
      matrix.AllLate bound := by
  unfold schoolbookProducts
  refine .unless ((Attempt.produces_enterScope lower (by decide)).andThen fun _ n le' => ?_)
  refine (Attempt.produces_lift (produces_pushProducts (Nat.le_trans le le')
    (Matrix.allLate_empty bound _) right 0 left)).bind fun matrix m _ allLate => ?_
  exact (Attempt.produces_leaveScope m).andThen fun _ _ _ =>
    Attempt.produces_pure fun _ _ => allLate

/-- The sign of a recoded row is a bit of the multiplier or false. -/
theorem sign_mem_windows {lowest : SignalId} : ∀ {bits : List SignalId},
    ∀ window ∈ windows lowest bits, window.2.2 ∈ bits
  | [], _, member => absurd member List.not_mem_nil
  | [_], _, member => absurd member List.not_mem_nil
  | b1 :: b2 :: higher, window, member => by
      rcases List.mem_cons.mp member with rfl | inHigher
      · exact .tail _ List.mem_cons_self
      · exact .tail _ (.tail _ (sign_mem_windows window inHigher))

theorem produces_boothProducts {bound lower : Nat} (le : bound ≤ lower)
    {multiplier : List SignalId} (late : ∀ id ∈ multiplier, Late bound id)
    (multiplicand : List SignalId) :
    Attempt.Produces lower (boothProducts multiplier multiplicand) fun _ matrix =>
      matrix.AllLate bound := by
  have areSigns : ∀ window ∈ multiplierWindows multiplier, Late bound window.2.2 := by
    intro window member
    rcases List.mem_append.mp (sign_mem_windows window member) with isBit | isFalse
    · exact late _ isBit
    · have same : window.2.2 = Builder.falseId := by simpa using isFalse
      exact same ▸ late_falseId bound
  unfold boothProducts
  refine .unless ?_
  refine .unless ?_
  refine (Attempt.produces_lift (produces_boothRows le (Matrix.allLate_empty bound _) multiplicand 0
    areSigns)).bind fun matrix n _ allLate => ?_
  exact (Attempt.produces_leaveScope n).andThen fun _ m _ =>
    (Attempt.produces_lift (Build.produces_note m _)).andThen fun _ _ _ =>
      Attempt.produces_pure fun _ _ => allLate

/-- A bit of a matrix of partial products is a literal, a bit of the multiplier, or new. -/
theorem produces_partialProducts {bound lower : Nat} (le : bound ≤ lower) (scheme : Scheme)
    {left : List SignalId} (late : ∀ id ∈ left, Late bound id) (right : List SignalId) :
    Attempt.Produces lower (partialProducts scheme left right) fun _ matrix =>
      matrix.AllLate bound := by
  refine (Attempt.produces_ofExcept lower _).andThen fun _ n le' => ?_
  cases scheme with
  | booth => exact produces_boothProducts (Nat.le_trans le le') late right
  | schoolbook => exact produces_schoolbookProducts (Nat.le_trans le le') left right

theorem produces_reduce (lower : Nat) (matrix : Matrix) :
    Attempt.Produces lower (reduce matrix) fun _ _ => True := by
  refine (Attempt.produces_ofExcept lower _).andThen fun targets n _ => ?_
  refine (Attempt.produces_lift (Build.produces_note n _)).andThen fun _ m _ => ?_
  refine (Attempt.produces_lift (produces_reduceStages m 0 targets matrix)).andThen fun _ k _ => ?_
  refine (Attempt.produces_leaveScope k).andThen fun _ l _ => ?_
  exact (Attempt.produces_lift (Build.produces_note l _)).andThen fun _ _ _ =>
    Attempt.produces_pure fun _ _ => trivial

end Multiplier

end Datapath

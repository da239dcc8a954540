import Datapath.Proofs.Construction
import Datapath.Proofs.Order

/-!
# What every builder keeps

Beyond the moves of a construction there are steps that change the ports or the supply rails:
`Builder.Step` has them all. From an empty netlist, every sequence of steps keeps a builder
coherent: the gates drive all wires, each once and in the order of their positions, every gate has a
legal number of pins, and there is a clock just when there is a register.

So the check of a finished netlist can only fail at a reader of a signal that does not exist. Where
all moves are strict, gates read only what comes before their outputs; nothing can be missing then,
and the combinational gates can be ordered.
-/

namespace Datapath

namespace Netlist

/-- Whether a position names a wire. -/
def wireAt (netlist : Netlist) (id : SignalId) : Bool :=
  netlist.signals[id]?.any (·.isWire)

/-- The positions of all wires, in order. -/
def wires (netlist : Netlist) : List SignalId :=
  (List.range netlist.signals.size).filter netlist.wireAt

theorem wireAt_eq_true {netlist : Netlist} {id : SignalId} :
    netlist.wireAt id = true ↔ netlist.IsWire id := by
  rw [wireAt, IsWire, Option.any_eq_true]
  constructor
  · rintro ⟨signal, found, isWire⟩
    cases signal with
    | input port bit => cases isWire
    | literal value => cases isWire
    | wire label => exact ⟨label, found⟩
  · rintro ⟨label, found⟩
    exact ⟨.wire label, found, rfl⟩

theorem mem_wires {netlist : Netlist} {id : SignalId} :
    id ∈ netlist.wires ↔ netlist.IsWire id := by
  rw [wires, List.mem_filter, wireAt_eq_true, List.mem_range]
  exact and_iff_right_of_imp IsWire.lt

theorem wires_append {before after : Netlist} {added : List Signal}
    (appended : after.signals.toList = before.signals.toList ++ added) :
    after.wires = before.wires ++
      (List.range' before.signals.size added.length).filter after.wireAt := by
  have size : after.signals.size = before.signals.size + added.length := by
    simpa using congrArg List.length appended
  have split : List.range after.signals.size = List.range before.signals.size ++
      List.range' before.signals.size added.length := by
    have joined := List.range'_append_1 (s := 0) (m := before.signals.size) (n := added.length)
    rw [Nat.zero_add] at joined
    rw [size, List.range_eq_range', List.range_eq_range', joined]
  have old : (List.range before.signals.size).filter after.wireAt = before.wires := by
    apply List.filter_congr
    intro id member
    have existing : id < before.signals.toList.length := by simpa using member
    rw [wireAt, wireAt, ← Array.getElem?_toList, ← Array.getElem?_toList, appended,
      List.getElem?_append_left existing]
  rw [wires, split, List.filter_append, old]

theorem wireAt_of_append {before after : Netlist} {added : List Signal}
    (appended : after.signals.toList = before.signals.toList ++ added) (offset : Nat) :
    after.wireAt (before.signals.size + offset) = added[offset]?.any (·.isWire) := by
  rw [wireAt, ← Array.getElem?_toList, appended, List.getElem?_append_right (by simp)]
  simp

end Netlist

namespace Builder

/-- One step in the making of a netlist. -/
inductive Step (provider : Provider) (strict : Prop) : Builder → Builder → Prop where
  | moves {before after : Builder} (moves : Moves provider strict before after) :
      Step provider strict before after
  | input (before : Builder) (name : String) (width : Nat) :
      Step provider strict before (before.addInput name width)
  | output (before : Builder) (name : String) (bits : List SignalId) :
      Step provider strict before (before.addOutput name bits)
  | powered (before : Builder) (powered : Bool) :
      Step provider strict before
        { before with netlist := { before.netlist with powered } }

/-- Any number of steps. -/
abbrev Steps (provider : Provider) (strict : Prop) : Builder → Builder → Prop :=
  Relation.ReflTransGen (Step provider strict)

/-- What every builder keeps. -/
structure Coherent (builder : Builder) : Prop where
  drives : builder.netlist.gates.toList.flatMap (·.outputs) = builder.netlist.wires
  legal : ∀ gate ∈ builder.netlist.gates.toList, gate.Legal
  clock : builder.netlist.clock.isSome = builder.netlist.gates.toList.any (·.primitive = .dff)

variable {provider : Provider} {strict : Prop} {before after builder : Builder}

theorem coherent_start (name : String) : (start name).Coherent where
  drives := rfl
  legal := nofun
  clock := rfl

theorem Extension.wires_eq (extension : Extension provider strict before after) :
    after.netlist.wires =
      before.netlist.wires ++ List.range' before.size (after.size - before.size) := by
  rcases extension.signals with ⟨labels, appended⟩
  have length : (labels.map Signal.wire).length = after.size - before.size := by
    have := congrArg List.length appended
    simp only [List.length_append, Array.length_toList] at this
    simp only [Builder.size]
    omega
  rw [Netlist.wires_append appended, length]
  refine congrArg _ (List.filter_eq_self.mpr fun id member => ?_)
  rcases List.mem_range'.mp member with ⟨offset, inside, rfl⟩
  have found : offset < labels.length := by simpa [← length] using inside
  rw [Nat.one_mul]
  apply (Netlist.wireAt_of_append appended offset).trans
  simp [found, Signal.isWire]

theorem Coherent.extension (coherent : before.Coherent)
    (extension : Extension provider strict before after) : after.Coherent where
  drives := by
    rw [extension.gates, List.flatMap_append, coherent.drives, extension.drives,
      extension.wires_eq]
  legal gate member := by
    rw [extension.gates] at member
    exact (List.mem_append.mp member).elim (coherent.legal gate) (extension.legal gate)
  clock := by
    rw [extension.clock, extension.gates, List.any_append, ← coherent.clock]
    cases (added before after).any (·.primitive = .dff) <;> cases before.netlist.clock <;> rfl

theorem wires_addInput (builder : Builder) (name : String) (width : Nat) :
    (builder.addInput name width).netlist.wires = builder.netlist.wires := by
  have appended : (builder.addInput name width).netlist.signals.toList =
      builder.netlist.signals.toList ++ List.ofFn fun bit : Fin width => .input name bit := by
    simp [Builder.addInput]
  rw [Netlist.wires_append appended]
  refine (congrArg _ (List.filter_eq_nil_iff.mpr fun id member => ?_)).trans (List.append_nil _)
  rcases List.mem_range'.mp member with ⟨offset, inside, rfl⟩
  rw [Nat.one_mul, Netlist.wireAt_of_append appended]
  rw [List.length_ofFn] at inside
  simp [inside, Signal.isWire]

theorem Coherent.addInput (coherent : before.Coherent) (name : String) (width : Nat) :
    (before.addInput name width).Coherent where
  drives := coherent.drives.trans (before.wires_addInput name width).symm
  legal := coherent.legal
  clock := coherent.clock

theorem Coherent.step (coherent : before.Coherent) (step : Step provider strict before after) :
    after.Coherent := by
  cases step with
  | moves moves => exact coherent.extension moves.extension
  | input name width => exact coherent.addInput name width
  | output name bits => exact ⟨coherent.drives, coherent.legal, coherent.clock⟩
  | powered powered => exact ⟨coherent.drives, coherent.legal, coherent.clock⟩

theorem Coherent.steps (coherent : before.Coherent) (steps : Steps provider strict before after) :
    after.Coherent := by
  induction steps with
  | refl => exact coherent
  | tail _ step ih => exact ih.step step

theorem Coherent.increasing (coherent : builder.Coherent) :
    (builder.netlist.gates.toList.flatMap (·.outputs)).Pairwise (· < ·) := by
  rw [coherent.drives]
  exact List.pairwise_lt_range.sublist List.filter_sublist

/-- A coherent netlist is driven as the check demands. -/
theorem Coherent.driven (coherent : builder.Coherent) : builder.netlist.Driven where
  wires gate member id driven := by
    rw [← Netlist.mem_wires, ← coherent.drives]
    exact List.mem_flatMap.mpr ⟨gate, member, driven⟩
  once := coherent.increasing.imp Nat.ne_of_lt
  driven id wire := by
    rw [← Netlist.mem_wires, ← coherent.drives] at wire
    rcases List.mem_flatMap.mp wire with ⟨gate, member, driven⟩
    rcases List.mem_iff_getElem?.mp member with ⟨index, found⟩
    exact ⟨index, gate, by simpa using found, driven⟩
  legal := coherent.legal

/-- Every gate reads only what comes before its outputs. -/
def Ascending (builder : Builder) : Prop :=
  ∀ gate ∈ builder.netlist.gates.toList, gate.ReadsBelow

theorem Ascending.steps (ascending : before.Ascending) (steps : Steps provider True before after) :
    after.Ascending := by
  induction steps with
  | refl => exact ascending
  | tail _ step ih =>
      cases step with
      | moves moves =>
          intro gate member
          rw [moves.extension.gates] at member
          exact (List.mem_append.mp member).elim (ih gate) (moves.extension.readsBelow trivial gate)
      | input name width => exact ih
      | output name bits => exact ih
      | powered powered => exact ih

theorem Ascending.below_size (ascending : builder.Ascending) (coherent : builder.Coherent) :
    ∀ gate ∈ builder.netlist.gates.toList, Below builder.netlist.signals.size gate.inputs := by
  intro gate member
  rcases Gate.exists_output (coherent.legal gate member) with ⟨output, driven⟩
  have existing := (coherent.driven.wires gate member output driven).lt
  exact (ascending gate member output driven).mono (Nat.le_of_lt existing)

theorem Ascending.lt_of_feeds (ascending : builder.Ascending) (coherent : builder.Coherent)
    {driver reader : Nat} (feeds : builder.netlist.Feeds driver reader) : driver < reader := by
  rcases feeds with ⟨_, gate, found, _, id, reads, other, foundOther, driven⟩
  rw [← Array.getElem?_toList] at found foundOther
  have member := List.mem_of_getElem? found
  have across := (List.pairwise_flatMap.mp coherent.increasing).2
  rcases Gate.exists_output (coherent.legal gate member) with ⟨output, drives⟩
  have before := ascending gate member output drives id reads
  rcases Nat.lt_trichotomy driver reader with earlier | same | later
  · exact earlier
  · rw [same, found] at foundOther
    cases foundOther
    exact absurd (ascending gate member id driven id reads) (Nat.lt_irrefl id)
  · rcases List.getElem?_eq_some_iff.mp found with ⟨readerInside, isGate⟩
    rcases List.getElem?_eq_some_iff.mp foundOther with ⟨driverInside, isOther⟩
    have ordered :=
      List.pairwise_iff_getElem.mp across reader driver readerInside driverInside later
    rw [isGate, isOther] at ordered
    exact absurd (ordered output drives id driven) (Nat.lt_asymm before)

/-- Where gates read only what comes before, they can be ordered. -/
theorem Ascending.exists_combinationalOrder (ascending : builder.Ascending)
    (coherent : builder.Coherent) : ∃ order, builder.netlist.combinationalOrder = .ok order :=
  Netlist.exists_combinationalOrder coherent.driven.toDrivable
    (fun gate member _ => ascending.below_size coherent gate member)
    (Subrelation.wf (ascending.lt_of_feeds coherent) Nat.lt_wfRel.wf)

end Builder

/-- A coherent netlist is handed over unless something that does not exist is read. -/
theorem Attempt.run_finish (provider : CompleteProvider) {builder : Builder}
    (coherent : builder.Coherent) :
    (Attempt.finish.run provider builder).1 =
      match builder.netlist.reads.find? (builder.netlist.signals.size ≤ ·) with
      | none => .ok builder.netlist
      | some id => .error (.netlist (.signalOutOfBounds id builder.netlist.signals.size)) := by
  have unfolded : Attempt.finish = get >>= fun builder : Builder =>
      Attempt.ofExcept (builder.netlist.checkDrivers.mapError .netlist) >>= fun _ =>
        liftM (Build.note (.built builder.netlist.name builder.netlist.gates.size
          builder.netlist.signals.size)) >>= fun _ => pure builder.netlist := rfl
  rw [unfolded, Attempt.run_bind, Attempt.run_get]
  dsimp only
  rw [Attempt.run_bind, coherent.driven.checkDrivers_eq]
  cases builder.netlist.reads.find? (builder.netlist.signals.size ≤ ·) <;> rfl

end Datapath

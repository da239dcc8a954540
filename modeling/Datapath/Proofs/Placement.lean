import Mathlib.Algebra.GroupWithZero.Nat
import Mathlib.Data.List.Count
import Mathlib.Data.List.Nodup
import Mathlib.Data.List.Perm.Subperm
import Datapath.Netlist.Order

/-!
# Placing what is ready

`Placement.run` works on positions that await others. What it does is described here without
netlists: `awaiting` lists for each position those that it awaits, with repeats, and the readers of
a position are counted as often as they await it.

The invariant `Placement.Progress` splits the order into the part whose readers have been supplied
and the queue. A position lacks what it awaits beyond the first part, and it is placed as soon as it
lacks nothing. At the end the queue is empty, so what is placed is just what can be reached from
positions that await nothing: the accessible part of the relation.
-/

namespace Datapath.Placement

/-- How many awaited positions a position still lacks. -/
def lack (placement : Placement) (index : Nat) : Nat :=
  placement.lacking.getD index 0

theorem supply_eq {placement : Placement} {index : Nat} (lacks : 0 < placement.lack index) :
    (∀ other, (placement.supply index).lack other =
      if other = index then placement.lack index - 1 else placement.lack other) ∧
      (placement.supply index).placed.toList =
        placement.placed.toList ++ if placement.lack index = 1 then [index] else [] := by
  have existing : index < placement.lacking.size := by
    by_contra outside
    simp [lack, outside] at lacks
  have found : placement.lacking[index]? = some (placement.lack index) := by
    simp [lack, existing]
  have entered (value other : Nat) : (placement.lacking.setIfInBounds index value).getD other 0 =
      if other = index then value else placement.lacking.getD other 0 := by
    by_cases same : other = index
    · subst same
      simp [existing]
    · simp [same, Array.getElem?_setIfInBounds_ne (Ne.symm same)]
  rw [supply, found]
  rcases lacking : placement.lack index with _ | _ | more
  · omega
  · exact ⟨fun other => entered 0 other, by simp⟩
  · exact ⟨fun other => entered (more + 1) other, by simp⟩

/-- Supplying readers takes from each what it is supplied with, and places those that lack nothing
any more. -/
theorem foldl_supply_eq {readers : List Nat} {placement : Placement}
    (enough : ∀ index, readers.count index ≤ placement.lack index) :
    (∀ index, (readers.foldl supply placement).lack index =
      placement.lack index - readers.count index) ∧
      ∃ ready : List Nat,
        (readers.foldl supply placement).placed.toList = placement.placed.toList ++ ready ∧
          ready.Nodup ∧ ∀ index, index ∈ ready ↔
            0 < placement.lack index ∧ placement.lack index = readers.count index := by
  induction readers generalizing placement with
  | nil =>
      refine ⟨fun index => rfl, [], by simp, List.nodup_nil, fun index => ?_⟩
      simp only [List.not_mem_nil, List.count_nil, false_iff]
      omega
  | cons reader readers ih =>
      have lacks : 0 < placement.lack reader := by
        have := enough reader
        rw [List.count_cons_self] at this
        omega
      rcases supply_eq lacks with ⟨lack_eq, placed_eq⟩
      have counts (index : Nat) : (reader :: readers).count index =
          readers.count index + if index = reader then 1 else 0 := by
        simp only [List.count_cons, beq_iff_eq, @eq_comm _ reader index]
      have supplied (index : Nat) : (placement.supply reader).lack index +
          (if index = reader then 1 else 0) = placement.lack index := by
        rw [lack_eq]
        split
        · next same =>
            subst same
            omega
        · rfl
      have stillEnough (index : Nat) :
          readers.count index ≤ (placement.supply reader).lack index := by
        have := enough index
        rw [counts, ← supplied] at this
        exact Nat.le_of_add_le_add_right this
      rcases ih stillEnough with ⟨lack_after, ready, placed_after, nodup, mem_ready⟩
      refine ⟨fun index => ?_, (if placement.lack reader = 1 then [reader] else []) ++ ready,
        ?_, ?_, fun index => ?_⟩
      · rw [List.foldl_cons, lack_after, counts, ← supplied, Nat.add_sub_add_right]
      · rw [List.foldl_cons, placed_after, placed_eq, List.append_assoc]
      · by_cases last : placement.lack reader = 1
        · rw [if_pos last, List.singleton_append, List.nodup_cons]
          refine ⟨fun member => ?_, nodup⟩
          have := (mem_ready reader).mp member
          rw [lack_eq, if_pos rfl] at this
          omega
        · rwa [if_neg last]
      · have isNew : index ∈ (if placement.lack reader = 1 then [reader] else []) ↔
            index = reader ∧ placement.lack reader = 1 := by
          split <;> simp [*]
        have left := supplied index
        have fewer := stillEnough index
        rw [List.mem_append, isNew, mem_ready, counts]
        by_cases same : index = reader
        · subst same
          rw [if_pos rfl] at left ⊢
          omega
        · rw [if_neg same] at left ⊢
          omega

/-- Every position of an order comes after those that it awaits. -/
def Follows (awaiting : Nat → List Nat) (order : List Nat) : Prop :=
  ∀ before index after, order = before ++ index :: after →
    ∀ awaited ∈ awaiting index, awaited ∈ before

theorem Follows.concat {awaiting : Nat → List Nat} {order : List Nat} {index : Nat}
    (follows : Follows awaiting order) (ready : ∀ awaited ∈ awaiting index, awaited ∈ order) :
    Follows awaiting (order ++ [index]) := by
  intro before other after split awaited member
  rcases List.eq_nil_or_concat after with rfl | ⟨rest, last, rfl⟩
  · have parts := List.append_inj' split rfl
    have same : index = other := by simpa using parts.2
    exact parts.1 ▸ ready awaited (same ▸ member)
  · have parts : order = before ++ other :: rest ∧ [index] = [last] :=
      List.append_inj' (by simpa using split) rfl
    exact follows before other rest parts.1 awaited member

/-- The state of ordering once the readers of the first part of the order have been supplied and
those of the queue have not. -/
structure Progress (node : Nat → Prop) (awaiting : Nat → List Nat) (done queue : List Nat)
    (placement : Placement) : Prop where
  placed : placement.placed.toList = done ++ queue
  distinct : (done ++ queue).Nodup
  lack : ∀ index, placement.lack index = (awaiting index).countP (· ∉ done)
  mem_iff : ∀ index, index ∈ done ++ queue ↔
    node index ∧ ∀ awaited ∈ awaiting index, awaited ∈ done
  follows : Follows awaiting done

section Progress

variable {node : Nat → Prop} {awaiting readersOf : Nat → List Nat}

theorem countP_not_mem_concat {done : List Nat} {index : Nat} (fresh : index ∉ done)
    (awaited : List Nat) :
    awaited.countP (· ∉ done) = awaited.countP (· ∉ done ++ [index]) + awaited.count index := by
  induction awaited with
  | nil => rfl
  | cons first rest ih =>
      by_cases same : first = index
      · subst same
        simp only [List.countP_cons, ih, List.count_cons_self, fresh, List.mem_append,
          List.mem_singleton]
        simp
        omega
      · simp only [List.countP_cons, ih, List.count_cons_of_ne same, List.mem_append,
          List.mem_singleton, same]
        simp
        omega

theorem Progress.fresh {done queue : List Nat} {index : Nat} {placement : Placement}
    (progress : Progress node awaiting done (index :: queue) placement) : index ∉ done := by
  have distinct := progress.distinct
  rw [List.nodup_append] at distinct
  exact fun old => distinct.2.2 index old index (by simp) rfl

/-- What a position lacks includes what the first position of the queue is about to supply. -/
theorem Progress.lack_eq {done queue : List Nat} {index : Nat} {placement : Placement}
    (progress : Progress node awaiting done (index :: queue) placement)
    (counted : ∀ reader, (readersOf index).count reader = (awaiting reader).count index)
    (reader : Nat) : placement.lack reader =
      (awaiting reader).countP (· ∉ done ++ [index]) + (readersOf index).count reader := by
  rw [progress.lack, counted, countP_not_mem_concat progress.fresh]

/-- Supplying the readers of the first position of the queue moves it to the first part. -/
theorem Progress.supply {done queue : List Nat} {index : Nat} {placement : Placement}
    (progress : Progress node awaiting done (index :: queue) placement)
    (idle : ∀ other, ¬ node other → awaiting other = [])
    (counted : ∀ reader, (readersOf index).count reader = (awaiting reader).count index) :
    ∃ queue', Progress node awaiting (done ++ [index]) queue'
      ((readersOf index).foldl Placement.supply placement) := by
  have split := progress.lack_eq counted
  have enough (reader : Nat) : (readersOf index).count reader ≤ placement.lack reader := by
    rw [split]
    omega
  rcases foldl_supply_eq enough with ⟨lack_eq, ready, placed_eq, nodup, mem_ready⟩
  have lacksNothing (reader : Nat) (done : List Nat) :
      (awaiting reader).countP (· ∉ done) = 0 ↔ ∀ awaited ∈ awaiting reader, awaited ∈ done := by
    simp [List.countP_eq_zero]
  have ready_iff (reader : Nat) : reader ∈ ready ↔
      ¬ (∀ awaited ∈ awaiting reader, awaited ∈ done) ∧
        ∀ awaited ∈ awaiting reader, awaited ∈ done ++ [index] := by
    rw [mem_ready, ← lacksNothing, ← lacksNothing, ← progress.lack, split]
    omega
  have regroup : done ++ [index] ++ (queue ++ ready) = done ++ index :: queue ++ ready := by
    simp
  refine ⟨queue ++ ready, ?_, ?_, fun reader => ?_, fun reader => ?_, ?_⟩
  · rw [placed_eq, progress.placed, regroup]
  · rw [regroup, List.nodup_append]
    refine ⟨progress.distinct, nodup, fun old isOld new isNew same => ?_⟩
    exact ((ready_iff new).mp isNew).1 ((progress.mem_iff new).mp (same ▸ isOld)).2
  · rw [lack_eq, split]
    omega
  · rw [regroup, List.mem_append, progress.mem_iff, ready_iff]
    constructor
    · rintro (⟨isNode, before⟩ | ⟨lacked, before⟩)
      · exact ⟨isNode, fun awaited member => List.mem_append_left _ (before awaited member)⟩
      · refine ⟨?_, before⟩
        by_contra notNode
        rw [idle reader notNode] at lacked
        exact lacked (by simp)
    · rintro ⟨isNode, before⟩
      by_cases already : ∀ awaited ∈ awaiting reader, awaited ∈ done
      · exact .inl ⟨isNode, already⟩
      · exact .inr ⟨already, before⟩
  · exact progress.follows.concat ((progress.mem_iff index).mp (by simp)).2

theorem Progress.run (fuel : Nat) {done queue : List Nat} {placement : Placement}
    (progress : Progress node awaiting done queue placement)
    (idle : ∀ other, ¬ node other → awaiting other = [])
    (counted : ∀ index, node index → ∀ reader,
      (readersOf index).count reader = (awaiting reader).count index) :
    ∃ done' queue', Progress node awaiting done' queue'
        (Placement.run readersOf fuel done.length placement) ∧
      (queue' = [] ∨ done'.length = done.length + fuel) := by
  induction fuel generalizing done queue placement with
  | zero => exact ⟨done, queue, progress, .inr rfl⟩
  | succ fuel ih =>
      have head : placement.placed[done.length]? = queue.head? := by
        rw [← Array.getElem?_toList, progress.placed, List.getElem?_append_right (Nat.le_refl _),
          Nat.sub_self, List.head?_eq_getElem?]
      rw [Placement.run, head]
      cases queue with
      | nil => exact ⟨done, [], progress, .inl rfl⟩
      | cons index queue =>
          have isNode : node index := ((progress.mem_iff index).mp (by simp)).1
          rcases progress.supply idle (counted index isNode) with ⟨queue', next⟩
          rcases ih next with ⟨final, rest, reached, finished⟩
          rw [List.length_append, List.length_singleton] at reached finished
          exact ⟨final, rest, reached, finished.imp_right fun length => by omega⟩

/-- With fuel for every node, the order ends closed: it has the nodes all of whose awaited positions
it has. -/
theorem run_placed {size : Nat} {start : List Nat} {placement : Placement}
    (progress : Progress node awaiting [] start placement)
    (idle : ∀ other, ¬ node other → awaiting other = [])
    (counted : ∀ index, node index → ∀ reader,
      (readersOf index).count reader = (awaiting reader).count index)
    (node_lt : ∀ index, node index → index < size) :
    ∃ order, (Placement.run readersOf size 0 placement).placed.toList = order ∧ order.Nodup ∧
      Follows awaiting order ∧
        ∀ index, index ∈ order ↔ node index ∧ ∀ awaited ∈ awaiting index, awaited ∈ order := by
  rcases progress.run size idle counted with ⟨done, queue, reached, finished⟩
  have few : (done ++ queue).length ≤ size := by
    rw [← List.length_range (n := size)]
    refine (List.subperm_of_subset reached.distinct fun index member => ?_).length_le
    exact List.mem_range.mpr (node_lt index ((reached.mem_iff index).mp member).1)
  have empty : queue = [] := by
    rcases finished with empty | full
    · exact empty
    · rw [List.length_append] at few
      exact List.length_eq_zero_iff.mp (by simp at full; omega)
  subst empty
  have placed := reached.placed
  have distinct := reached.distinct
  have mem_iff := reached.mem_iff
  rw [List.append_nil] at placed distinct mem_iff
  exact ⟨done, placed, distinct, reached.follows, mem_iff⟩

end Progress

end Datapath.Placement

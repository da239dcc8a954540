import Datapath.Proofs.Contexts
import Datapath.Proofs.Continuation
import Datapath.Proofs.Operations
import Datapath.Proofs.Success

/-!
# Netlists built part by part

`Part` lists what netlists are built from: the operations on a builder, and the constructions that
generators are put together from, which are sums, partial products, and the reduction and the
registers of a matrix. A part may be refused, and then what it has built before stays.

Either way, a part that names existing signals takes strict steps: an operation does, and every
other part is refused by a check before it builds anything, or not at all. So whatever is built
later, the netlist is continued and the earlier signals keep their meaning:
`Part.carryOutAll_keeps`.
-/

namespace Datapath

open Attempt (Advances)

/-! ## Constructions, refused or not -/

theorem Attempt.Succeeds.advances {α : Type} [Scoped α] {known : Nat} {attempt : Attempt α}
    {property : α → Prop} (succeeds : Succeeds known attempt property) :
    Advances True known attempt := by
  intro provider before enough
  rcases succeeds provider before (enough trivial) with ⟨result, after, ran, moves, _⟩
  rwa [ran]

theorem Adder.sum_advances {known : Nat} {left right : List SignalId} (algorithm : Algorithm)
    (tag : Option String) (literals : Builder.trueId < known) (left_lt : Below known left)
    (right_lt : Below known right) : Advances True known (sum left right algorithm tag) := by
  by_cases sameWidth : left.length = right.length
  · cases accepted : algorithm.checkWidth left.length with
    | error cause =>
        rw [sum, if_neg (by simpa using sameWidth), accepted]
        exact Attempt.advances_throw _
    | ok passed => exact (sum_succeeds tag literals left_lt right_lt sameWidth accepted).advances
  · rw [sum, if_pos sameWidth]
    exact Attempt.advances_throw _

namespace Multiplier

open Scoped (Within)

variable {known : Nat} {left right : List SignalId} {matrix : Matrix}

theorem uncheckedProducts_advances (scheme : Scheme) (literals : Builder.trueId < known)
    (left_lt : Below known left) (right_lt : Below known right) :
    Advances True known (uncheckedProducts scheme left right) := by
  by_cases sameWidth : left.length = right.length
  · cases scheme with
    | schoolbook => exact (schoolbookProducts_succeeds literals left_lt right_lt sameWidth).advances
    | booth =>
        by_cases even : left.length % 2 = 0
        · exact (boothProducts_succeeds literals left_lt right_lt sameWidth even).advances
        · rw [uncheckedProducts, boothProducts, if_neg (not_not.mpr sameWidth), if_pos even]
          exact Attempt.advances_throw _
  · intro provider before _
    rw [run_uncheckedProducts_of_unequal scheme sameWidth]

theorem partialProducts_advances (scheme : Scheme) (literals : Builder.trueId < known)
    (left_lt : Below known left) (right_lt : Below known right) :
    Advances True known (partialProducts scheme left right) := by
  rw [partialProducts]
  cases scheme.checkWidth left.length with
  | error cause => exact Attempt.advances_throw _
  | ok passed => exact uncheckedProducts_advances scheme literals left_lt right_lt

theorem reduce_advances (matrix_lt : Within known matrix) :
    Advances True known (reduce matrix) := by
  cases listed : stageTargets matrix.maxHeight with
  | error fault =>
      rw [reduce, listed]
      exact Attempt.advances_throw _
  | ok targets =>
      rcases reduce_performs matrix_lt listed with ⟨step, performs, meets⟩
      exact performs.advances meets

theorem Matrix.within_of_below_bits (bits_lt : Below known matrix.bits) : Within known matrix :=
  fun column member bit isBit => bits_lt bit (List.mem_flatten.mpr ⟨column, member, isBit⟩)

end Multiplier

/-! ## Parts -/

/-- What a netlist is built from. -/
inductive Part where
  | operation (asked : Operation)
  | sum (left right : List SignalId) (algorithm : Adder.Algorithm) (tag : Option String)
  | products (scheme : Multiplier.Scheme) (left right : List SignalId)
  | uncheckedProducts (scheme : Multiplier.Scheme) (left right : List SignalId)
  | reduction (matrix : Multiplier.Matrix)
  | registers (matrix : Multiplier.Matrix)
  deriving DecidableEq, Repr

namespace Part

/-- The signals that a part names. -/
def signals : Part → List SignalId
  | operation asked => asked.signals
  | sum left right _ _ | products _ left right | uncheckedProducts _ left right => left ++ right
  | reduction matrix | registers matrix => matrix.bits

/-- Builds a part; what it returns is up to the caller. -/
def perform (memory : Memory) : Part → Attempt Unit
  | operation asked => asked.perform memory
  | sum left right algorithm tag => discard (Adder.sum left right algorithm tag)
  | products scheme left right => discard (Multiplier.partialProducts scheme left right)
  | uncheckedProducts scheme left right =>
      discard (Multiplier.uncheckedProducts scheme left right)
  | reduction matrix => discard (Multiplier.reduce matrix)
  | registers matrix => discard (Multiplier.registerMatrix matrix)

/-- The builder after a part, whether or not it was refused. -/
def carryOut (memory : Memory) (provider : CompleteProvider) (builder : Builder) (part : Part) :
    Builder :=
  ((part.perform memory).run provider builder).2

/-- The builder after all parts of a list, one after the other. -/
def carryOutAll (memory : Memory) (provider : CompleteProvider) (builder : Builder)
    (parts : List Part) : Builder :=
  parts.foldl (carryOut memory provider) builder

/-- Every signal that a part of a list names exists when it is the turn of that part. -/
def NamesExisting (memory : Memory) (provider : CompleteProvider) : Builder → List Part → Prop
  | _, [] => True
  | builder, part :: rest =>
      Below builder.size part.signals ∧
        NamesExisting memory provider (part.carryOut memory provider builder) rest

open Builder (Steps)

variable {memory : Memory} {provider : CompleteProvider} {builder : Builder} {part : Part}
  {parts earlier later : List Part}

theorem carryOut_steps (literals : builder.HasLiterals)
    (existing : Below builder.size part.signals) :
    Steps provider.toProvider True builder (part.carryOut memory provider builder) := by
  have single {attempt : Attempt Unit} (advances : Advances True builder.size attempt) :
      Steps provider.toProvider True builder (attempt.run provider builder).2 :=
    .single (.moves (advances provider builder fun _ => Nat.le_refl _))
  have true_lt := literals.trueId_lt
  cases part with
  | operation asked => exact Operation.perform_steps rfl fun _ => existing
  | sum left right algorithm tag =>
      rcases below_append.mp existing with ⟨left_lt, right_lt⟩
      exact single (Adder.sum_advances algorithm tag true_lt left_lt right_lt).discard
  | products scheme left right =>
      rcases below_append.mp existing with ⟨left_lt, right_lt⟩
      exact single (Multiplier.partialProducts_advances scheme true_lt left_lt right_lt).discard
  | uncheckedProducts scheme left right =>
      rcases below_append.mp existing with ⟨left_lt, right_lt⟩
      exact single (Multiplier.uncheckedProducts_advances scheme true_lt left_lt right_lt).discard
  | reduction matrix =>
      have matrix_lt := Multiplier.Matrix.within_of_below_bits existing
      exact single (Multiplier.reduce_advances matrix_lt).discard
  | registers matrix =>
      have matrix_lt := Multiplier.Matrix.within_of_below_bits existing
      exact single (Multiplier.registerMatrix_succeeds matrix_lt).advances.discard

theorem carryOutAll_steps (literals : builder.HasLiterals)
    (existing : NamesExisting memory provider builder parts) :
    Steps provider.toProvider True builder (carryOutAll memory provider builder parts) := by
  induction parts generalizing builder with
  | nil => exact .refl
  | cons part rest ih =>
      have steps : Steps provider.toProvider True builder (part.carryOut memory provider builder) :=
        carryOut_steps literals existing.1
      exact steps.trans (ih (literals.steps steps) existing.2)

theorem namesExisting_append :
    NamesExisting memory provider builder (earlier ++ later) ↔
      NamesExisting memory provider builder earlier ∧
        NamesExisting memory provider (carryOutAll memory provider builder earlier) later := by
  induction earlier generalizing builder with
  | nil => exact (iff_of_eq (true_and _)).symm
  | cons part rest ih => exact (and_congr_right fun _ => ih).trans and_assoc.symm

/-- What exists from the beginning may be named by every part. -/
theorem namesExisting_of_below (literals : builder.HasLiterals)
    (existing : ∀ part ∈ parts, Below builder.size part.signals) :
    NamesExisting memory provider builder parts := by
  induction parts generalizing builder with
  | nil => trivial
  | cons part rest ih =>
      rw [List.forall_mem_cons] at existing
      have steps : Steps provider.toProvider True builder (part.carryOut memory provider builder) :=
        carryOut_steps literals existing.1
      exact ⟨existing.1, ih (literals.steps steps) fun later member =>
        (existing.2 later member).mono steps.continues.size_le⟩

/-- Parts that name existing signals leave the signals, the gates and the input ports of what was
built before as they were, at the beginning of the later ones, and for all values of the inputs, of
the literals and of what the registers drive, the earlier signals settle to the same values in the
earlier and in the later netlist. -/
theorem carryOutAll_keeps (provider : CompleteProvider) (memory : Memory) (name : String)
    (earlier later : List Part)
    (existing : NamesExisting memory provider (.start name) (earlier ++ later)) :
    let before := (carryOutAll memory provider (.start name) earlier).netlist
    let after := (carryOutAll memory provider (.start name) (earlier ++ later)).netlist
    before.Continues after ∧
      ∀ (α : Type) [Logic α], Netlist.EvaluatedAlike α before after := by
  intro before after
  rcases namesExisting_append.mp existing with ⟨existingBefore, existingLater⟩
  have literals := Builder.hasLiterals_start name
  have steps := carryOutAll_steps literals existingBefore
  have stepsLater := carryOutAll_steps (literals.steps steps) existingLater
  have appended : carryOutAll memory provider (.start name) (earlier ++ later) =
      carryOutAll memory provider (carryOutAll memory provider (.start name) earlier) later :=
    List.foldl_append
  rw [← appended] at stepsLater
  have sound := (Builder.sound_start name).steps steps
  exact ⟨stepsLater.continues, fun α _ => sound.evaluatedAlike stepsLater α⟩

/-- Every kind of part after the conjunction of two inputs, one of them refused for its odd width.
The provider realizes the basis only. -/
theorem carryOutAll_keeps_restricted :
    let provider : CompleteProvider := ⟨.restrictedTo Primitive.basis, by decide⟩
    let earlier : List Part := [.operation (.input "a" 2), .operation (.and2 2 3)]
    let later : List Part :=
      [.operation (.register 4), .sum [2, 3] [4, 4] (.tree .brentKung) none,
        .products .booth [2, 3] [4, 1], .uncheckedProducts .booth [2] [3],
        .reduction ⟨[[2, 3, 4], [2]]⟩, .registers ⟨[[0, 2], [4]]⟩]
    let before := (carryOutAll .machine provider (.start "parts") earlier).netlist
    let after := (carryOutAll .machine provider (.start "parts") (earlier ++ later)).netlist
    before.Continues after ∧ Netlist.EvaluatedAlike Bool before after := by
  intro provider earlier later before after
  have existingBefore : NamesExisting .machine provider (.start "parts") earlier :=
    ⟨below_nil _, by decide, trivial⟩
  have literals : (carryOutAll .machine provider (.start "parts") earlier).HasLiterals :=
    (Builder.hasLiterals_start "parts").steps
      (carryOutAll_steps (Builder.hasLiterals_start "parts") existingBefore)
  have existingLater : ∀ part ∈ later, Below 5 part.signals := by decide
  have existing := namesExisting_append.mpr
    ⟨existingBefore, namesExisting_of_below literals existingLater⟩
  rcases carryOutAll_keeps provider .machine "parts" earlier later existing with
    ⟨continues, evaluatedAlike⟩
  exact ⟨continues, evaluatedAlike Bool⟩

end Part

end Datapath

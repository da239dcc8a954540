import Datapath.Builder.Basic
import Std.Data.HashSet

/-!
# Partial product matrices

A matrix of bits in columns: column `i` holds signals of weight `2 ^ i` in the order of their
arrival. Bits beyond the last column are dropped, so a matrix of `n` columns stands for a number
modulo `2 ^ n`.
-/

namespace Datapath.Multiplier

/-- Signals in columns, the lowest weight first. -/
structure Matrix where
  columns : List (List SignalId)
  deriving DecidableEq, Repr

namespace Matrix

/-- A matrix of empty columns. -/
def empty (columns : Nat) : Matrix where
  columns := List.replicate columns []

/-- A matrix of empty columns, unless they are more than memory can hold. -/
def emptyIn (memory : Memory) (columns : Nat) : Except Fault Matrix := do
  memory.check columns Memory.queueBytes
  return empty columns

/-- The number of columns. -/
def columnCount (matrix : Matrix) : Nat :=
  matrix.columns.length

/-- The number of bits in each column. -/
def heights (matrix : Matrix) : List Nat :=
  matrix.columns.map List.length

/-- The greatest number of bits in a column. -/
def maxHeight (matrix : Matrix) : Nat :=
  matrix.heights.foldl max 0

/-- The bits of a column, the oldest first. -/
def column (matrix : Matrix) (index : Nat) : Except Fault (List SignalId) :=
  match matrix.columns[index]? with
  | some bits => pure bits
  | none => throw .unknownColumn

/-- Adds a bit to a column, if the matrix has that column. -/
def push (matrix : Matrix) (index : Nat) (bit : SignalId) : Matrix where
  columns := matrix.columns.modify index (· ++ [bit])

/-- Takes the oldest bit out of a column. -/
def popFront (matrix : Matrix) (index : Nat) : Except Fault (Option SignalId × Matrix) := do
  let bits ← matrix.column index
  return (bits.head?, { columns := matrix.columns.set index bits.tail })

/-- Keeps the lowest columns only. -/
def truncate (matrix : Matrix) (columns : Nat) : Matrix where
  columns := matrix.columns.take columns

/-- All bits, column by column. -/
def bits (matrix : Matrix) : List SignalId :=
  matrix.columns.flatten

/-- The bits of a list that are not in a set, each once, in the order of their first places. -/
def distinctBeyond (seen : Std.HashSet SignalId) : List SignalId → List SignalId
  | [] => []
  | bit :: rest =>
    if seen.contains bit then distinctBeyond seen rest
    else bit :: distinctBeyond (seen.insert bit) rest

/-- The bits, each once, in the order of their first places. -/
def distinctBits (matrix : Matrix) : List SignalId :=
  distinctBeyond ∅ matrix.bits

theorem distinctBeyond_eq (seen : Std.HashSet SignalId) (bits : List SignalId) :
    distinctBeyond seen bits = (bits.filter (!seen.contains ·)).eraseDups := by
  induction bits generalizing seen with
  | nil => simp [distinctBeyond]
  | cons bit rest ih =>
    by_cases known : seen.contains bit
    · rw [distinctBeyond, if_pos known, ih]
      simp_all
    · rw [distinctBeyond, if_neg known, ih, List.filter_cons_of_pos (by simpa using known),
        List.eraseDups_cons, List.filter_filter]
      congr 3
      funext other
      rw [Std.HashSet.contains_insert]
      cases seen.contains other <;> grind

theorem distinctBits_eq (matrix : Matrix) : matrix.distinctBits = matrix.bits.eraseDups := by
  rw [distinctBits, distinctBeyond_eq, List.filter_eq_self.2]
  simp

/-- Replaces every bit. -/
def map (replace : SignalId → SignalId) (matrix : Matrix) : Matrix where
  columns := matrix.columns.map (·.map replace)

/-- Replaces every bit by a step, column by column. -/
def mapM {m : Type → Type} [Monad m] (replace : SignalId → m SignalId) (matrix : Matrix) :
    m Matrix := do
  return { columns := ← matrix.columns.mapM (·.mapM replace) }

/-- Moves every bit to the signal so many positions higher. -/
def shift (matrix : Matrix) (offset : Nat) : Except Fault Matrix :=
  matrix.mapM fun bit => Fault.checkCount (bit + offset)

@[simp]
theorem columnCount_empty (columns : Nat) : (empty columns).columnCount = columns := by
  simp [columnCount, empty]

@[simp]
theorem columnCount_push (matrix : Matrix) (index : Nat) (bit : SignalId) :
    (matrix.push index bit).columnCount = matrix.columnCount := by
  simp [columnCount, push]

@[simp]
theorem columnCount_truncate (matrix : Matrix) (columns : Nat) :
    (matrix.truncate columns).columnCount = min columns matrix.columnCount := by
  simp [columnCount, truncate]

@[simp]
theorem heights_map (replace : SignalId → SignalId) (matrix : Matrix) :
    (matrix.map replace).heights = matrix.heights := by
  simp [heights, map, Function.comp_def]

/-- The first and second bits of the columns as two words; where there is none, false. -/
def rows (matrix : Matrix) : List SignalId × List SignalId :=
  (matrix.columns.map (·[0]?.getD Builder.falseId), matrix.columns.map (·[1]?.getD Builder.falseId))

end Matrix

end Datapath.Multiplier

namespace Datapath.Build

open Multiplier

/-- Adds a bit to a column and records the loss of a bit without a column. -/
def push (matrix : Matrix) (column : Nat) (bit : SignalId) : Build Matrix := do
  unless column < matrix.columnCount do
    note (.bitDropped column)
  return matrix.push column bit

/-- Adds bits to the columns named beside them. -/
def pushAll (matrix : Matrix) (entries : List (Nat × SignalId)) : Build Matrix :=
  entries.foldlM (fun matrix (column, bit) => push matrix column bit) matrix

end Datapath.Build

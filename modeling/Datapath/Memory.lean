import Datapath.Fault

/-!
# Memory

How long a list may be. A machine refuses a list that takes more bytes than it can address. In an
unbounded memory nothing is refused, so statements about results need not speak of sizes.
-/

namespace Datapath

/-- Where lists are kept. -/
inductive Memory where
  | unbounded
  /-- No list takes this many bytes. -/
  | below (bytes : Nat)
  deriving DecidableEq, Repr

namespace Memory

/-- The memory of a machine with 64-bit addresses, of which a list has less than half. -/
def machine : Memory :=
  .below (1 <<< 63)

/-- The bytes of a signal number or of a word of lanes. -/
def wordBytes : Nat :=
  8

/-- The bytes of a sample. -/
def sampleBytes : Nat :=
  16

/-- The bytes of a queue, its items apart. -/
def queueBytes : Nat :=
  32

/-- Whether there can be a list of so many items of some size. -/
def fits (memory : Memory) (items itemBytes : Nat) : Bool :=
  match memory with
  | .unbounded => true
  | .below bytes => items * itemBytes < bytes

/-- Refuses a list that does not fit. -/
def check (memory : Memory) (items itemBytes : Nat) : Except Fault Unit :=
  if memory.fits items itemBytes then pure () else throw .outOfMemory

@[simp]
theorem check_unbounded (items itemBytes : Nat) : unbounded.check items itemBytes = pure () := by
  simp [check, fits]

end Memory

end Datapath

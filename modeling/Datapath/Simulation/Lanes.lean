import Datapath.Bits
import Datapath.Fault
import Datapath.Memory

/-!
# Samples and lanes

A batch of samples is simulated side by side: each bit of a port carries one word, and bit `l` of
that word belongs to the sample in lane `l`. Packing and unpacking transpose between samples and
words.
-/

namespace Datapath

/-- The value of a port in one sample. -/
abbrev Sample := BitVec 128

namespace Lanes

/-- How many samples a word carries. -/
def count : Nat :=
  64

/-- The word with the given bits, one for each lane from the first. A true bit beyond the last lane
is a fault. -/
def word (bits : List Bool) : Except Fault UInt64 :=
  let number := Bits.value bits
  if number < 1 <<< count then pure (UInt64.ofNat number) else throw .sampleCount

/-- The number with the given binary digits, as far as a word can hold it. -/
def wordValue (bits : List Bool) : Except Fault Nat :=
  if bits.length > count then throw .wideWord else pure (Bits.value bits)

/-- The words of a port of a given width whose samples are listed. -/
def pack (samples : List Sample) (width : Nat) : Except Fault (List UInt64) :=
  (List.range width).mapM fun bit => word (samples.map (·.getLsbD bit))

/-- The words of a port whose width is anybody's choice: it may be more than memory can hold. -/
def packIn (memory : Memory) (samples : List Sample) (width : Nat) :
    Except Fault (List UInt64) := do
  memory.check width Memory.wordBytes
  pack samples width

/-- The sample that the words of a port carry in one lane. -/
def sample (words : List UInt64) (lane : Nat) : Sample :=
  BitVec.ofNat 128 (Bits.value (words.map (·.toBitVec.getLsbD lane)))

/-- The samples that the words of a port carry in the first lanes. A port without words has zero in
as many lanes as one asks for, up to what memory can hold. -/
def unpack (words : List UInt64) (samples : Nat) : Except Fault (List Sample) :=
  if words.length > 128 then
    throw .wideWord
  else if samples > count && !words.isEmpty then
    throw .sampleCount
  else do
    Memory.machine.check samples Memory.sampleBytes
    return (List.range samples).map (sample words)

end Lanes

end Datapath

import Datapath.Simulation.Lanes

/-!
# Random samples

A reproducible source of samples: the generator xoshiro256++, seeded through SplitMix64.
-/

namespace Datapath.Random

/-- One step of SplitMix64: its output and its next state. -/
def splitMix (state : UInt64) : UInt64 × UInt64 :=
  let state := state + 0x9e3779b97f4a7c15
  let mixed := (state ^^^ (state >>> 30)) * 0xbf58476d1ce4e5b9
  let mixed := (mixed ^^^ (mixed >>> 27)) * 0x94d049bb133111eb
  (mixed ^^^ (mixed >>> 31), state)

/-- The state of xoshiro256++. -/
structure Generator where
  s0 : UInt64
  s1 : UInt64
  s2 : UInt64
  s3 : UInt64
  deriving DecidableEq, Repr

/-- Turns a word to the left. -/
def rotateLeft (word amount : UInt64) : UInt64 :=
  (word <<< amount) ||| (word >>> (64 - amount))

namespace Generator

/-- The generator whose state is the first four outputs of SplitMix64 from a seed. -/
def ofSeed (seed : UInt64) : Generator :=
  let (s0, state) := splitMix seed
  let (s1, state) := splitMix state
  let (s2, state) := splitMix state
  let (s3, _) := splitMix state
  { s0, s1, s2, s3 }

/-- The next word and the generator after it. -/
def next (generator : Generator) : UInt64 × Generator :=
  let { s0, s1, s2, s3 } := generator
  let result := rotateLeft (s0 + s3) 23 + s0
  let mixed2 := s2 ^^^ s0
  let mixed3 := s3 ^^^ s1
  (result,
    { s0 := s0 ^^^ mixed3
      s1 := s1 ^^^ mixed2
      s2 := mixed2 ^^^ (s1 <<< 17)
      s3 := rotateLeft mixed3 45 })

end Generator

/-- The sample whose lowest bits are all set. -/
def mask (width : Nat) : Sample :=
  BitVec.ofNat 128 ((1 <<< min width 128) - 1)

/-- The next sample of a given width: two words, the lower first, cut to the width. -/
def sample (width : Nat) (generator : Generator) : Sample × Generator :=
  let (lower, generator) := generator.next
  let (upper, generator) := generator.next
  ((upper.toBitVec ++ lower.toBitVec) &&& mask width, generator)

/-- The next samples of a given width. -/
def samples (width : Nat) : (count : Nat) → Generator → List Sample
  | 0, _ => []
  | more + 1, generator =>
    let (first, generator) := sample width generator
    first :: samples width more generator

/-- The next samples of a given width, unless they are more than memory can hold. -/
def samplesIn (memory : Memory) (width count : Nat) (generator : Generator) :
    Except Fault (List Sample) := do
  memory.check count Memory.sampleBytes
  return samples width count generator

end Datapath.Random

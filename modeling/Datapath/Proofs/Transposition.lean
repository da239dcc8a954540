import Datapath.Proofs.Batches

/-!
# Transposition by shifts

Samples can be packed into words by shifts: one sample after the other, each of its bits is shifted
to the lane of the sample and joined to the word of the bit. Unpacking shifts the bit of a lane down
in each word and up to its place in the sample. A shift by the size of a word or more is refused.

No shift is refused as long as there are lanes for the samples and bits for the words, and what
comes out are the words of `Lanes.pack` and the samples of `Lanes.unpack`. To pack and to unpack is
to lose the bits beyond the port, and to unpack and to pack is to lose the bits beyond the lanes:
`Lanes.packing_inverts`.
-/

namespace Datapath

/-- A digit above all others is joined by a shift. -/
theorem Bits.value_concat (digits : List Bool) (digit : Bool) :
    value (digits ++ [digit]) = value digits ||| digit.toNat <<< digits.length := by
  calc
    value (digits ++ [digit]) = digit.toNat <<< digits.length + value digits := by
      rw [value_append, value, value, Nat.shiftLeft_eq, Nat.add_comm, Nat.mul_comm]
      rfl
    _ = digit.toNat <<< digits.length ||| value digits :=
      Nat.shiftLeft_add_eq_or_of_lt (value_lt digits) digit.toNat
    _ = value digits ||| digit.toNat <<< digits.length := Nat.or_comm _ _

namespace Lanes

/-- The distance to a lane. -/
def laneShift (lane : Nat) : Except Fault UInt64 :=
  if lane < count then pure (UInt64.ofNat lane) else throw .sampleCount

/-- The distance to a bit of a sample. -/
def bitShift (bit : Nat) : Except Fault Nat :=
  if bit < 128 then pure bit else throw .wideWord

/-- Joins the bits of a sample to the words of a port, all in one lane. -/
def enter (words : List UInt64) : Sample × Nat → Except Fault (List UInt64)
  | (sample, lane) => words.zipIdx.mapM fun (word, bit) =>
    if bit < 128 ∧ sample >>> bit &&& 1 = 1 then do
      return word ||| 1 <<< (← laneShift lane)
    else
      return word

/-- Packs samples into words that are zero before the first sample. -/
def packByShifts (samples : List Sample) (width : Nat) : Except Fault (List UInt64) :=
  samples.zipIdx.foldlM enter (List.replicate width 0)

/-- Joins the bit that a word has in a lane to a sample. -/
def collect (lane : Nat) (sample : Sample) : UInt64 × Nat → Except Fault Sample
  | (word, bit) => do
    let digit := word >>> (← laneShift lane) &&& 1
    return sample ||| digit.toBitVec.setWidth 128 <<< (← bitShift bit)

/-- Unpacks samples that are zero before the first word. -/
def unpackByShifts (words : List UInt64) (samples : Nat) : Except Fault (List Sample) :=
  if words.length > 128 then
    throw .wideWord
  else
    (List.range samples).mapM fun lane => words.zipIdx.foldlM (collect lane) 0

section

variable {samples : List Sample} {words : List UInt64} {width lane bit : Nat}

theorem shiftRight_and_one {size : Nat} (word : BitVec size) (place : Nat) :
    word >>> place &&& BitVec.ofNat size 1 =
      (BitVec.ofBool (word.getLsbD place)).setWidth size := by
  rw [BitVec.and_one_eq_setWidth_ofBool_getLsbD, BitVec.getLsbD_ushiftRight, Nat.add_zero]

theorem isSet_iff {sample : Sample} :
    bit < 128 ∧ sample >>> bit &&& 1 = 1 ↔ sample.getLsbD bit = true := by
  rw [show sample >>> bit &&& 1 = _ from shiftRight_and_one sample bit]
  cases isSet : sample.getLsbD bit with
  | false => simp
  | true => simpa using BitVec.lt_of_getLsbD isSet

/-- What is joined to a word for a sample is the bit of the sample, shifted to the lane. -/
theorem enter_eq_ok (inside : lane < count) (sample : Sample) :
    enter words (sample, lane) = .ok (words.zipIdx.map fun (word, bit) =>
      word ||| UInt64.ofNat ((sample.getLsbD bit).toNat <<< lane)) := by
  refine Except.mapM_eq_ok fun (word, bit) _ => ?_
  dsimp only
  simp only [isSet_iff]
  cases sample.getLsbD bit with
  | false => simp [pure, Except.pure]
  | true =>
      rw [if_pos rfl, laneShift, if_pos inside, Bool.toNat_true,
        UInt64.ofNat_shiftLeft _ _ inside]
      rfl

/-- The words of a port take up one more sample. -/
theorem enter_words (few : samples.length < count) (sample : Sample) :
    enter (Lanes.words samples width) (sample, samples.length) =
      .ok (Lanes.words (samples ++ [sample]) width) := by
  rw [enter_eq_ok few]
  refine congrArg Except.ok (List.ext_getElem (by simp [Lanes.words]) fun bit _ _ => ?_)
  have concat := Bits.value_concat (samples.map (·.getLsbD bit)) (sample.getLsbD bit)
  rw [List.length_map] at concat
  simp [Lanes.words, concat]

theorem packByShifts_eq_ok (few : samples.length ≤ count) (width : Nat) :
    packByShifts samples width = .ok (Lanes.words samples width) := by
  have start : List.replicate width 0 = Lanes.words [] width := by
    simp [Lanes.words, Bits.value]
  rw [packByShifts, start]
  exact Except.foldlM_zipIdx (fun _ sample inside => enter_words inside sample) few

/-- What is joined to a sample for a word is the bit of the word, shifted to its place. -/
theorem digit_eq (inside : lane < count) (word : UInt64) (bit : Nat) :
    (word >>> UInt64.ofNat lane &&& 1).toBitVec.setWidth 128 <<< bit =
      BitVec.ofNat 128 ((word.toBitVec.getLsbD lane).toNat <<< bit) := by
  have shifted : (word >>> UInt64.ofNat lane).toBitVec = word.toBitVec >>> lane := by
    have small : lane % 64 = lane := Nat.mod_eq_of_lt inside
    apply BitVec.eq_of_toNat_eq
    simp [small]
  rw [UInt64.toBitVec_and, shifted,
    show word.toBitVec >>> lane &&& (1 : UInt64).toBitVec = _ from shiftRight_and_one _ lane]
  cases word.toBitVec.getLsbD lane with
  | false => simp
  | true =>
      apply BitVec.eq_of_toNat_eq
      simp

/-- A sample takes up one more word. -/
theorem collect_sample (inside : lane < count) (narrow : words.length < 128) (word : UInt64) :
    collect lane (sample words lane) (word, words.length) =
      .ok (sample (words ++ [word]) lane) := by
  have concat := Bits.value_concat (words.map (·.toBitVec.getLsbD lane))
    (word.toBitVec.getLsbD lane)
  rw [List.length_map] at concat
  rw [collect, laneShift, if_pos inside, bitShift, if_pos narrow, sample, sample, List.map_append,
    List.map_singleton, concat, BitVec.ofNat_or, ← digit_eq inside]
  rfl

theorem unpackByShifts_eq_ok {count : Nat} (narrow : words.length ≤ 128)
    (few : count ≤ Lanes.count) :
    unpackByShifts words count = .ok ((List.range count).map (sample words)) := by
  rw [unpackByShifts, if_neg (Nat.not_lt_of_le narrow)]
  refine Except.mapM_eq_ok fun lane member => ?_
  have inside : lane < Lanes.count := Nat.lt_of_lt_of_le (List.mem_range.mp member) few
  exact Except.foldlM_zipIdx (fun _ word below => collect_sample inside below word) narrow

/-- The sample that comes out of a lane is the one that went in, as far as the port is wide. -/
theorem sample_words (few : samples.length ≤ count) (inside : lane < samples.length) :
    sample (Lanes.words samples width) lane =
      BitVec.ofNat 128 (samples[lane].toNat % 2 ^ width) := by
  have bits := bit_words ⟨lane, Nat.lt_of_lt_of_le inside few⟩ samples width
  have here : samples.getD lane 0 = samples[lane] := by simp [inside]
  have digits : (List.range width).map samples[lane].getLsbD =
      Bits.ofNat width samples[lane].toNat := rfl
  rw [here, digits] at bits
  exact congrArg (BitVec.ofNat 128) ((congrArg Bits.value bits).trans (Bits.value_ofNat _ _))

theorem getLsbD_sample (narrow : words.length ≤ 128) {index : Nat} (inside : index < words.length) :
    (sample words lane).getLsbD index = words[index].toBitVec.getLsbD lane := by
  have low : index < 128 := Nat.lt_of_lt_of_le inside narrow
  rw [sample, BitVec.getLsbD_ofNat, decide_eq_true low, Bool.true_and, Bits.testBit_value]
  simp [inside]

/-- The words that come out are those that went in, as far as there were samples. -/
theorem words_sample {count : Nat} (narrow : words.length ≤ 128) :
    Lanes.words ((List.range count).map (sample words)) words.length =
      words.map (· &&& UInt64.ofNat (2 ^ count - 1)) := by
  refine list_ext fun lane => ?_
  rw [bit_words]
  refine List.ext_getElem (by simp) fun index inside _ => ?_
  have here : index < words.length := by simpa using inside
  have masked : (bit lane).map (words[index] &&& UInt64.ofNat (2 ^ count - 1)) =
      ((bit lane).map words[index] && decide (lane < count)) := by
    rw [(bit lane).map_and, bit_ofNat, Nat.testBit_two_pow_sub_one]
    rfl
  rw [List.getElem_map, List.getElem_range, List.getElem_map, List.getElem_map, masked,
    List.getD_eq_getElem?_getD, List.getElem?_map]
  by_cases used : lane < count
  · rw [List.getElem?_range used, Option.map_some, Option.getD_some, getLsbD_sample narrow here,
      decide_eq_true used, Bool.and_true]
    rfl
  · simp [used]

end

/-- Up to as many samples as there are lanes and ports as wide as a sample: packing and unpacking
gives the samples modulo the power of two of the width, unpacking and packing gives the words
without the bits at and above the number of samples, and the shifts by which it can be done are all
in range. -/
theorem packing_inverts :
    (∀ (samples : List Sample) (width : Nat), samples.length ≤ count → width ≤ 128 →
      let reduced := samples.map fun sample => BitVec.ofNat 128 (sample.toNat % 2 ^ width)
      ∃ words : List UInt64, words.length = width ∧
        pack samples width = .ok words ∧ unpack words samples.length = .ok reduced ∧
        packByShifts samples width = .ok words ∧
        unpackByShifts words samples.length = .ok reduced) ∧
    ∀ (words : List UInt64) (few : Nat), words.length ≤ 128 → few ≤ count →
      let cleared := words.map (· &&& UInt64.ofNat (2 ^ few - 1))
      ∃ samples : List Sample, samples.length = few ∧
        unpack words few = .ok samples ∧ pack samples words.length = .ok cleared ∧
        unpackByShifts words few = .ok samples ∧
        packByShifts samples words.length = .ok cleared := by
  constructor
  · intro samples width few narrow reduced
    have length : (words samples width).length = width := by simp [words]
    have back : (List.range samples.length).map (sample (words samples width)) = reduced := by
      refine List.ext_getElem (by simp [reduced]) fun lane inside _ => ?_
      have used : lane < samples.length := by simpa using inside
      simp [reduced, sample_words few used]
    refine ⟨words samples width, length, pack_eq_ok few width, ?_, packByShifts_eq_ok few width, ?_⟩
    · rw [unpack_eq few, if_neg (by omega), back]
    · rw [unpackByShifts_eq_ok (by omega) few, back]
  · intro words number narrow few cleared
    have length : ((List.range number).map (sample words)).length = number := by simp
    refine ⟨(List.range number).map (sample words), length, ?_, ?_,
      unpackByShifts_eq_ok narrow few, ?_⟩
    · rw [unpack_eq few, if_neg (Nat.not_lt_of_le narrow)]
    · rw [pack_eq_ok (length.trans_le few), words_sample narrow]
    · rw [packByShifts_eq_ok (length.trans_le few), words_sample narrow]

/-- Four samples at a port of seven bits, one of them wider than the port, and two words of which
three lanes are used. -/
theorem packing_inverts_partly :
    (∃ words : List UInt64, words.length = 7 ∧
      pack [0, 1, 127, 132] 7 = .ok words ∧ unpack words 4 = .ok [0, 1, 127, 4] ∧
      packByShifts [0, 1, 127, 132] 7 = .ok words ∧
      unpackByShifts words 4 = .ok [0, 1, 127, 4]) ∧
    ∃ samples : List Sample, samples.length = 3 ∧
      unpack [0xf3, 0x1a] 3 = .ok samples ∧ pack samples 2 = .ok [3, 2] ∧
      unpackByShifts [0xf3, 0x1a] 3 = .ok samples ∧ packByShifts samples 2 = .ok [3, 2] :=
  ⟨packing_inverts.1 [0, 1, 127, 132] 7 (by decide) (by decide),
    packing_inverts.2 [0xf3, 0x1a] 3 (by decide) (by decide)⟩

end Lanes

end Datapath

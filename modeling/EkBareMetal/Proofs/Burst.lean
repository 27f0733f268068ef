import EkBareMetal.Lib.Register
import EkBareMetal.Proofs.Codec

/-!
# What the checksum sees

`boot_crc32` takes a byte at once; here it is the shift register fed with the
bits of the message, the lowest of each byte first. The feedback word has its
top bit, so no error of up to 32 bits in a row goes unseen, wherever it stands
and however long the message is.
-/

namespace EkBareMetal.Boot

open Words Register

/-- The bits of a byte, the lowest first. -/
def byteBits (b : UInt8) : List Bool := (List.range 8).map fun i => b.toBitVec.getLsbD i

def bitsOf (bytes : List UInt8) : List Bool := bytes.flatMap byteBits

/-- The message with an error pattern over it. -/
def corrupted (bytes pattern : List UInt8) : List UInt8 :=
  List.zipWith (· ^^^ ·) bytes pattern

/-- Some bit is set, and all that are stand within 32 positions in a row. -/
structure Burst (pattern : List UInt8) : Prop where
  hit : ∃ i, (bitsOf pattern).getD i false = true
  confined : ∃ k, ∀ i, (bitsOf pattern).getD i false = true → k ≤ i ∧ i < k + 32

/-! ## The register -/

def crcFeedback : BitVec 32 := 0xedb88320#32

@[simp] theorem length_byteBits (b : UInt8) : (byteBits b).length = 8 := by
  simp [byteBits]

theorem bitsOf_cons (b : UInt8) (bytes : List UInt8) :
    bitsOf (b :: bytes) = byteBits b ++ bitsOf bytes := List.flatMap_cons

theorem crcBit_step (crc : UInt32) : (crcBit crc).toBitVec = step crcFeedback crc.toBitVec := by
  have hlow : crc &&& 1 ≠ 0 ↔ crc.toBitVec.getLsbD 0 = true := by
    rw [Ne, ← UInt32.toBitVec_inj, UInt32.toBitVec_and]
    have hone : crc.toBitVec &&& (1 : UInt32).toBitVec =
        BitVec.setWidth 32 (BitVec.ofBool (crc.toBitVec.getLsbD 0)) :=
      BitVec.and_one_eq_setWidth_ofBool_getLsbD
    rw [hone]
    cases crc.toBitVec.getLsbD 0 <;> decide
  unfold crcBit step
  by_cases h : crc.toBitVec.getLsbD 0 = true
  · rw [if_pos (hlow.mpr h), if_pos h]
    rfl
  · rw [if_neg (mt hlow.mp h), if_neg h]
    rfl

/-- A byte is its own word of bits. -/
theorem word_byteBits (b : UInt8) : word 32 (byteBits b) = b.toUInt32.toBitVec := by
  apply BitVec.eq_of_getLsbD_eq
  intro i hi
  rw [getLsbD_word, UInt8.toBitVec_toUInt32, BitVec.getLsbD_setWidth]
  by_cases h8 : i < 8
  · simp [byteBits, h8]
  · rw [BitVec.getLsbD_of_ge _ _ (by omega)]
    simp [byteBits, h8]

theorem crcByte_feeds (crc : UInt32) (b : UInt8) :
    (crcByte crc b).toBitVec = feeds crcFeedback crc.toBitVec (byteBits b) := by
  rw [feeds_word (by simp), word_byteBits, length_byteBits, ← UInt32.toBitVec_xor]
  unfold crcByte
  simp only [crcBit_step]
  rfl

theorem foldl_crcByte (bytes : List UInt8) (crc : UInt32) :
    (bytes.foldl crcByte crc).toBitVec = feeds crcFeedback crc.toBitVec (bitsOf bytes) := by
  induction bytes generalizing crc with
  | nil => rfl
  | cons b bytes ih =>
      rw [List.foldl_cons, ih, crcByte_feeds, bitsOf_cons, feeds_append]

/-- Two messages have one checksum when they leave one state. -/
theorem bootCrc32_inj {bytes bytes' : List UInt8} (h : bootCrc32 bytes = bootCrc32 bytes') :
    feeds crcFeedback uint32Max.toBitVec (bitsOf bytes) =
      feeds crcFeedback uint32Max.toBitVec (bitsOf bytes') := by
  unfold bootCrc32 at h
  rw [← foldl_crcByte, ← foldl_crcByte, (UInt32.xor_left_inj uint32Max).mp h]

/-! ## Corrupted messages -/

theorem byteBits_xor (a b : UInt8) : byteBits (a ^^^ b) = flipped (byteBits a) (byteBits b) := by
  unfold byteBits flipped
  rw [List.zipWith_map]
  simp

theorem flipped_append {as as' bs bs' : List Bool} (h : as.length = as'.length) :
    flipped (as ++ bs) (as' ++ bs') = flipped as as' ++ flipped bs bs' :=
  List.zipWith_append h

theorem length_bitsOf (bytes : List UInt8) : (bitsOf bytes).length = 8 * bytes.length := by
  induction bytes with
  | nil => rfl
  | cons b bytes ih =>
      rw [bitsOf_cons, List.length_append, length_byteBits, List.length_cons]
      omega

theorem bitsOf_corrupted {bytes pattern : List UInt8} (hlen : pattern.length = bytes.length) :
    bitsOf (corrupted bytes pattern) = flipped (bitsOf bytes) (bitsOf pattern) := by
  induction bytes generalizing pattern with
  | nil => rfl
  | cons b bytes ih =>
      cases pattern with
      | nil => cases hlen
      | cons e pattern =>
          rw [List.length_cons, List.length_cons] at hlen
          have htail : bitsOf (corrupted bytes pattern) =
              flipped (bitsOf bytes) (bitsOf pattern) := ih (by omega)
          rw [corrupted] at htail ⊢
          rw [List.zipWith_cons_cons, bitsOf_cons, bitsOf_cons, bitsOf_cons,
            flipped_append (by simp), byteBits_xor, htail]

theorem crc_corrupted {bytes pattern : List UInt8} (hlen : pattern.length = bytes.length)
    (h : Burst pattern) : bootCrc32 (corrupted bytes pattern) ≠ bootCrc32 bytes := by
  intro heq
  have hstate := bootCrc32_inj heq
  rw [bitsOf_corrupted hlen] at hstate
  obtain ⟨k, hin⟩ := h.confined
  have hbits : (bitsOf pattern).length = (bitsOf bytes).length := by
    rw [length_bitsOf, length_bitsOf, hlen]
  exact feeds_flipped (by decide) hbits hin h.hit hstate

/-- No wire that is accepted is accepted with a burst in the part its checksum covers. -/
theorem decode_corrupted {wire pattern : List UInt8} {m m' : BootMetadata}
    (hd : bootMetadataDecode wire = .ok m) (hlen : pattern.length = bootMetadataCrcBytes)
    (h : Burst pattern) :
    bootMetadataDecode (corrupted (wire.take bootMetadataCrcBytes) pattern ++
      wire.drop bootMetadataCrcBytes) ≠ .ok m' := by
  intro hd'
  obtain ⟨ha, -⟩ := decode_ok hd
  obtain ⟨ha', -⟩ := decode_ok hd'
  have hsize := ha.length
  simp only [bootMetadataBytes, bootMetadataCrcBytes] at hsize hlen ha'
  have htake : (wire.take 160).length = 160 := by
    rw [List.length_take]
    omega
  have hbad : (corrupted (wire.take 160) pattern).length = 160 := by
    simp [corrupted, hlen, htake]
  have hcrc : slice (corrupted (wire.take 160) pattern ++ wire.drop 160) 160 4 =
      slice wire 160 4 := by
    rw [slice_append_right (by omega), hbad, slice, List.drop_drop]
    rfl
  have hbody : slice (corrupted (wire.take 160) pattern ++ wire.drop 160) 0 160 =
      corrupted (wire.take 160) pattern := by
    rw [slice_append_left (by omega), slice_all hbad]
  have hsum := ha'.crc
  rw [hcrc, ha.crc] at hsum
  simp only [bootMetadataCrcBytes] at hsum
  rw [hbody, slice, List.drop_zero] at hsum
  exact crc_corrupted (by rw [hlen, htake]) h hsum.symm

/-- A burst changes every checksum, and no committed record is accepted with one. -/
theorem crc_burst :
    (∀ bytes pattern : List UInt8, pattern.length = bytes.length → Burst pattern →
      bootCrc32 (corrupted bytes pattern) ≠ bootCrc32 bytes) ∧
    ∀ wire pattern m, bootMetadataDecode wire = .ok m →
      pattern.length = bootMetadataCrcBytes → Burst pattern →
      ∃ e, bootMetadataDecode (corrupted (wire.take bootMetadataCrcBytes) pattern ++
        wire.drop bootMetadataCrcBytes) = .error e := by
  refine ⟨fun bytes pattern => crc_corrupted, fun wire pattern m hd hlen h => ?_⟩
  cases hr : bootMetadataDecode (corrupted (wire.take bootMetadataCrcBytes) pattern ++
      wire.drop bootMetadataCrcBytes) with
  | error e => exact ⟨e, rfl⟩
  | ok m' => exact absurd hr (decode_corrupted hd hlen h)

/-- Thirty-two bits across five bytes. -/
def fiveBytes : List UInt8 :=
  List.replicate 20 0 ++ [0xf0, 0x01, 0x00, 0x00, 0x0f] ++ List.replicate 135 0

set_option maxRecDepth 20000 in
theorem burst_fiveBytes : Burst fiveBytes := by
  refine ⟨⟨164, by decide⟩, 164, fun i hi => ?_⟩
  have hall : (bitsOf fiveBytes).zipIdx.all
      (fun x => !x.1 || (decide (164 ≤ x.2) && decide (x.2 < 196))) = true := by
    decide
  have hbit : (bitsOf fiveBytes)[i]? = some true := by
    cases h : (bitsOf fiveBytes)[i]? with
    | none => simp [h] at hi
    | some b => simpa [h] using hi
  have hmem := List.all_eq_true.mp hall (true, i) (List.mem_zipIdx_iff_getElem?.mpr hbit)
  simpa using hmem

theorem crc_burst_factory :
    bootCrc32 (corrupted (metadataBody factoryRecord) fiveBytes) ≠
        bootCrc32 (metadataBody factoryRecord) ∧
      ∃ e, bootMetadataDecode (corrupted
        ((metadataWire factoryRecord bootCommitValid).take bootMetadataCrcBytes) fiveBytes ++
          (metadataWire factoryRecord bootCommitValid).drop bootMetadataCrcBytes) = .error e := by
  have hlen : fiveBytes.length = 160 := by decide +kernel
  refine ⟨crc_burst.1 _ _ ?_ burst_fiveBytes, crc_burst.2 _ _ factoryRecord ?_ hlen burst_fiveBytes⟩
  · rw [length_metadataBody, hlen]
  · exact decode_wire (by decide +kernel)

end EkBareMetal.Boot

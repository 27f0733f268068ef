import EkBareMetal.Boot.Codec
import EkBareMetal.Proofs.Reachable

/-!
# The metadata codec reads what it writes, and nothing else

The encoder's stores come in ascending order over a cleared buffer, so the
buffer is at each of them what has been written followed by zeros, and in the
end it is `metadataWire`. The decoder is read backwards: what it accepts has
every field where `metadataWire` would have put it, the reserved words and the
checksum included. From the two, a wire is accepted for a record exactly when
it is the record's encoding.
-/

namespace EkBareMetal.Boot

open Words

/-! ## Writing -/

theorem putEntry_zeros {u rest : List UInt8} {p n : Nat} (hu : u.length = p)
    (hn : 48 ≤ n) (e : BootImageEntry) :
    putEntry (u ++ (List.replicate n 0 ++ rest)) p e =
      (u ++ entryBytes e) ++ (List.replicate (n - 48) 0 ++ rest) := by
  have hl := e.payloadHash.property
  unfold putEntry
  dsimp only
  rw [patch_zeros hu (by omega), patch_zeros (by simp; omega) (by simp; omega),
    patch_zeros (by simp; omega) (by simp; omega),
    patch_zeros (by simp; omega) (by simp; omega),
    patch_zeros (by simp; omega) (by simp; omega)]
  simp only [hl, length_put32, Nat.sub_sub, entryBytes, List.append_assoc,
    Nat.reduceAdd]

theorem putFields_eq (m : BootMetadata) (wire : List UInt8) :
    putFields m wire = metadataBody m ++
      (List.replicate 8 0 ++ wire.drop bootMetadataBytes) := by
  have hclear : patch wire 0 (List.replicate bootMetadataBytes 0) =
      [] ++ (List.replicate 168 0 ++ wire.drop 168) := by
    rw [patch, List.take_zero, List.length_replicate, Nat.zero_add]
  -- The last 28 zeros are the reserved words, the checksum and the commit word.
  have hzeros : List.replicate 28 (0 : UInt8) =
      List.replicate 20 0 ++ List.replicate 8 0 := rfl
  unfold putFields
  dsimp only
  rw [hclear, patch_zeros (u := []) List.length_nil (by simp),
    patch_zeros (by simp) (by simp), patch_zeros (by simp) (by simp),
    patch_zeros (by simp) (by simp), patch_zeros (by simp) (by simp),
    patch_zeros (by simp) (by simp), patch_zeros (by simp) (by simp),
    patch_zeros (by simp) (by simp), putEntry_zeros (by simp) (by simp),
    putEntry_zeros (by simp) (by simp), patch_zeros (by simp) (by simp),
    patch_zeros (by simp) (by simp), patch_zeros (by simp) (by simp)]
  simp only [length_put32, Nat.reduceSub, List.nil_append, hzeros, metadataBody,
    List.append_assoc]

theorem putMetadata_eq (m : BootMetadata) (commit : UInt32) (wire : List UInt8) :
    putMetadata m commit wire =
      metadataWire m commit ++ wire.drop bootMetadataBytes := by
  unfold putMetadata
  dsimp only
  rw [putFields_eq, slice_append_left (by simp), slice_all (by simp),
    patch_zeros (by simp) (by simp), patch_zeros (by simp) (by simp)]
  simp only [length_put32, Nat.reduceSub, List.replicate_zero, List.nil_append,
    metadataWire, List.append_assoc]

theorem encodeInto_eq_ok {m : BootMetadata} {commit : UInt32}
    {wire : List UInt8} :
    (bootMetadataEncodeInto m commit wire).1 = .ok ↔
      bootMetadataBytes ≤ wire.length ∧
        (commit = bootCommitErased ∨ commit = bootCommitValid) ∧
        bootMetadataValidate m = .ok := by
  unfold bootMetadataEncodeInto
  split
  · next hlen => exact iff_of_false nofun fun h => Nat.not_le.mpr hlen h.1
  next hlen =>
  split
  · next hc => exact iff_of_false nofun fun h => h.2.1.elim hc.1 hc.2
  next hc =>
  split
  · next hm =>
      refine iff_of_true rfl ⟨Nat.not_lt.mp hlen, ?_, hm⟩
      rw [not_and_or, not_not, not_not] at hc
      exact hc
  · next hm => exact iff_of_false hm fun h => hm h.2.2

/-- What a successful encoding wrote. -/
theorem encodeInto_ok {m : BootMetadata} {commit : UInt32} {wire : List UInt8}
    (h : (bootMetadataEncodeInto m commit wire).1 = .ok) :
    (bootMetadataEncodeInto m commit wire).2 =
      metadataWire m commit ++ wire.drop bootMetadataBytes := by
  obtain ⟨hlen, hcommit, hm⟩ := encodeInto_eq_ok.mp h
  unfold bootMetadataEncodeInto
  rw [if_neg (Nat.not_lt.mpr hlen), if_neg fun hc => hcommit.elim hc.1 hc.2, hm]
  exact putMetadata_eq m commit wire

theorem encodeInto_failed {m : BootMetadata} {commit : UInt32}
    {wire : List UInt8} (h : (bootMetadataEncodeInto m commit wire).1 ≠ .ok) :
    (bootMetadataEncodeInto m commit wire).2 = wire := by
  rw [Ne, encodeInto_eq_ok] at h
  unfold bootMetadataEncodeInto
  split
  · rfl
  next hlen =>
  split
  · rfl
  next hc =>
  split
  · next hm =>
      rw [not_and_or, not_not, not_not] at hc
      exact absurd ⟨Nat.not_lt.mp hlen, hc, hm⟩ h
  · rfl

/-! ## Reading -/

theorem zeroBytes_eq {p : List UInt8} (h : zeroBytes p = true) :
    p = List.replicate p.length 0 := by
  refine List.eq_replicate_of_mem fun b hb => ?_
  have hall := List.all_eq_true.mp h b hb
  exact eq_of_beq hall

/-- What is read is what stands there. -/
theorem put32_slice {wire : List UInt8} {off : Nat} (h : off + 4 ≤ wire.length) :
    put32 (get32 (slice wire off 4)) = slice wire off 4 :=
  put32_get32 (length_slice h)

theorem entryBytes_entryAt {wire : List UInt8} {p : Nat}
    (h : p + 48 ≤ wire.length) :
    entryBytes (entryAt wire p h) = slice wire p 48 := by
  rw [show (48 : Nat) = 32 + (4 + (4 + (4 + 4))) by rfl, slice_split, slice_split,
    slice_split, slice_split]
  simp only [entryBytes, entryAt]
  rw [put32_slice (by omega), put32_slice (by omega), put32_slice (by omega),
    put32_slice (by omega)]

/-- The checks an accepted wire has passed. -/
structure Accepted (wire : List UInt8) : Prop where
  length : bootMetadataBytes ≤ wire.length
  magic : get32 (slice wire 0 4) = bootMetadataMagic
  version : get32 (slice wire 4 4) = bootFormatVersion
  size : get32 (slice wire 8 4) = UInt32.ofNat bootMetadataBytes
  commit : get32 (slice wire 164 4) = bootCommitValid
  crc : get32 (slice wire 160 4) = bootCrc32 (slice wire 0 bootMetadataCrcBytes)
  reservedWord : get32 (slice wire 140 4) = 0
  reserved : zeroBytes (slice wire 144 16) = true

theorem decode_ok {wire : List UInt8} {m : BootMetadata}
    (h : bootMetadataDecode wire = .ok m) :
    ∃ ha : Accepted wire, m = metadataAt wire ha.length := by
  unfold bootMetadataDecode at h
  split at h
  · cases h
  split at h
  · cases h
  split at h
  · cases h
  split at h
  · cases h
  split at h
  · cases h
  split at h
  · cases h
  split at h
  · cases h
  next hlen hmagic hversion hsize hcommit hcrc hres =>
  rw [not_or, not_not, Bool.not_eq_true', Bool.not_eq_false] at hres
  refine ⟨⟨Nat.not_lt.mp hlen, not_not.mp hmagic, not_not.mp hversion,
    not_not.mp hsize, not_not.mp hcommit, not_not.mp hcrc, hres.1, hres.2⟩, ?_⟩
  dsimp only at h
  split at h
  · injection h with h
    exact h.symm
  · cases h

/-- The fields of an accepted wire stand where the encoder puts them. -/
theorem Accepted.body {wire : List UInt8} (h : Accepted wire) :
    metadataBody (metadataAt wire h.length) = slice wire 0 160 := by
  have hlen := h.length
  simp only [bootMetadataBytes] at hlen
  have hzero : slice wire 140 20 = List.replicate 20 0 := by
    have hword := @put32_slice wire 140 (by omega)
    rw [h.reservedWord] at hword
    have hrest := zeroBytes_eq h.reserved
    rw [length_slice (by omega)] at hrest
    rw [show (20 : Nat) = 4 + 16 by rfl, slice_split, hrest, ← hword]
    rfl
  have hslices : slice wire 0 160 = slice wire 0 4 ++ (slice wire 4 4 ++
      (slice wire 8 4 ++ (slice wire 12 4 ++ (slice wire 16 4 ++
      (slice wire 20 4 ++ (slice wire 24 4 ++ (slice wire 28 4 ++
      (slice wire 32 48 ++ (slice wire 80 48 ++ (slice wire 128 4 ++
      (slice wire 132 4 ++ (slice wire 136 4 ++ slice wire 140 20)))))))))))) := by
    rw [show (160 : Nat) = 4 + (4 + (4 + (4 + (4 + (4 + (4 + (4 + (48 + (48 +
      (4 + (4 + (4 + 20)))))))))))) by rfl]
    simp only [slice_split]
  rw [hslices, hzero]
  simp only [metadataBody, metadataAt, entryBytes_entryAt]
  rw [← h.magic, ← h.version, ← h.size]
  repeat rw [put32_slice (by omega)]

/-- An accepted wire is the encoding of the record it is accepted for. -/
theorem decode_canonical {wire : List UInt8} {m : BootMetadata}
    (h : bootMetadataDecode wire = .ok m) :
    metadataWire m bootCommitValid = wire.take bootMetadataBytes := by
  obtain ⟨ha, rfl⟩ := decode_ok h
  have hlen := ha.length
  simp only [bootMetadataBytes] at hlen
  have hslices : wire.take 168 = slice wire 0 160 ++
      (slice wire 160 4 ++ slice wire 164 4) := by
    rw [← slice_split wire 160 4 4, ← slice_split wire 0 160 8, slice,
      List.drop_zero]
  rw [metadataWire, ha.body, ← ha.commit, ← ha.crc, put32_slice (by omega),
    put32_slice (by omega), hslices]

/-- The decoder looks at the first 168 bytes. -/
theorem decode_append {wire : List UInt8} (h : bootMetadataBytes ≤ wire.length)
    (rest : List UInt8) :
    bootMetadataDecode (wire ++ rest) = bootMetadataDecode wire := by
  have hslice : ∀ {off n}, off + n ≤ 168 →
      slice (wire ++ rest) off n = slice wire off n :=
    fun hn => slice_append_left (Nat.le_trans hn h)
  have hat : metadataAt (wire ++ rest) (by rw [List.length_append]; omega) =
      metadataAt wire h := by
    simp (disch := decide) only [metadataAt, entryAt, hslice]
  unfold bootMetadataDecode
  rw [dif_neg (by rw [List.length_append]; omega), dif_neg (by omega)]
  simp (disch := decide) only [hslice, hat]

/-- A refusal has a reason. -/
theorem decode_error {wire : List UInt8} {e : BootResult}
    (h : bootMetadataDecode wire = .error e) : e ≠ .ok := by
  rintro rfl
  unfold bootMetadataDecode at h
  repeat' (split at h; · cases h)
  dsimp only at h
  split at h
  · cases h
  · next hne =>
      injection h with h
      exact hne h

theorem decodeInto_ok {wire : List UInt8} {out : BootMetadata}
    (h : (bootMetadataDecodeInto wire out).1 = .ok) :
    bootMetadataDecode wire = .ok (bootMetadataDecodeInto wire out).2 := by
  unfold bootMetadataDecodeInto at h ⊢
  split
  · next hd => exact hd
  · next hd =>
      rw [hd] at h
      exact absurd h (decode_error hd)

theorem decodeInto_failed {wire : List UInt8} {out : BootMetadata}
    (h : (bootMetadataDecodeInto wire out).1 ≠ .ok) :
    (bootMetadataDecodeInto wire out).2 = out := by
  unfold bootMetadataDecodeInto at h ⊢
  split
  · next hd =>
      rw [hd] at h
      exact absurd rfl h
  · rfl

/-! ## The codec -/

/-- A valid record survives its encoding; an accepted wire is the encoding of
the record it is accepted for, so encoding is injective; no wire is accepted
under another commit word than VALID, and no ERASED encoding; an encoding with
a legal commit word and room succeeds exactly for valid records; and what fails
writes nothing. -/
theorem metadata_codec :
    (∀ m wire out, bootMetadataValidate m = .ok → bootMetadataBytes ≤ wire.length →
      bootMetadataDecodeInto (bootMetadataEncodeInto m bootCommitValid wire).2 out =
        (.ok, m)) ∧
    (∀ wire out m buffer, bootMetadataDecodeInto wire out = (.ok, m) →
      bootMetadataBytes ≤ buffer.length →
      bootMetadataEncodeInto m bootCommitValid buffer =
        (.ok, wire.take bootMetadataBytes ++ buffer.drop bootMetadataBytes)) ∧
    (∀ m m' wire wire', (bootMetadataEncodeInto m bootCommitValid wire).1 = .ok →
      (bootMetadataEncodeInto m' bootCommitValid wire').1 = .ok →
      (bootMetadataEncodeInto m bootCommitValid wire).2.take bootMetadataBytes =
        (bootMetadataEncodeInto m' bootCommitValid wire').2.take bootMetadataBytes →
      m = m') ∧
    (∀ wire out, (bootMetadataDecodeInto wire out).1 = .ok →
      get32 (slice wire 164 4) = bootCommitValid) ∧
    (∀ m wire out, (bootMetadataEncodeInto m bootCommitErased wire).1 = .ok →
      (bootMetadataDecodeInto (bootMetadataEncodeInto m bootCommitErased wire).2
        out).1 ≠ .ok) ∧
    (∀ m commit wire, commit = bootCommitErased ∨ commit = bootCommitValid →
      bootMetadataBytes ≤ wire.length →
      ((bootMetadataEncodeInto m commit wire).1 = .ok ↔
        bootMetadataValidate m = .ok)) ∧
    (∀ m commit wire, (bootMetadataEncodeInto m commit wire).1 ≠ .ok →
      (bootMetadataEncodeInto m commit wire).2 = wire) ∧
    (∀ wire out, (bootMetadataDecodeInto wire out).1 ≠ .ok →
      (bootMetadataDecodeInto wire out).2 = out) := by
  refine ⟨?_, ?_, ?_, ?_, ?_, ?_, fun _ _ _ => encodeInto_failed,
    fun _ _ => decodeInto_failed⟩
  · intro m wire out hm hlen
    rw [encodeInto_ok (encodeInto_eq_ok.mpr ⟨hlen, .inr rfl, hm⟩),
      bootMetadataDecodeInto, decode_append (by simp), decode_wire hm]
  · intro wire out m buffer hd hlen
    have hm := decodeInto_ok (congrArg Prod.fst hd)
    rw [hd] at hm
    have hok : (bootMetadataEncodeInto m bootCommitValid buffer).1 = .ok :=
      encodeInto_eq_ok.mpr ⟨hlen, .inr rfl, decode_ok_validate hm⟩
    rw [← decode_canonical hm, ← encodeInto_ok hok, ← hok]
  · intro m m' wire wire' hok hok' heq
    have hlen := length_metadataWire m bootCommitValid
    have hlen' := length_metadataWire m' bootCommitValid
    rw [encodeInto_ok hok, encodeInto_ok hok', List.take_left' hlen,
      List.take_left' hlen'] at heq
    exact wire_injective (encodeInto_eq_ok.mp hok).2.2
      (encodeInto_eq_ok.mp hok').2.2 heq
  · intro wire out hok
    obtain ⟨ha, -⟩ := decode_ok (decodeInto_ok hok)
    exact ha.commit
  · intro m wire out hok hd
    obtain ⟨ha, -⟩ := decode_ok (decodeInto_ok hd)
    have hcommit := ha.commit
    rw [encodeInto_ok hok, slice_append_left (by simp), slice_wire_commit,
      get32_put32] at hcommit
    exact absurd hcommit (by decide)
  · intro m commit wire hlegal hlen
    rw [encodeInto_eq_ok]
    exact ⟨fun h => h.2.2, fun hm => ⟨hlen, hlegal, hm⟩⟩

theorem metadata_codec_factory :
    bootMetadataDecodeInto (bootMetadataEncodeInto factoryRecord bootCommitValid
      (List.replicate 1024 0xff)).2 { factoryRecord with sequence := 9 } =
        (.ok, factoryRecord) := by
  refine metadata_codec.1 factoryRecord _ _ (by decide +kernel) ?_
  rw [List.length_replicate]
  decide

end EkBareMetal.Boot

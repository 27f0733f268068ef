import EkBareMetal.Boot.Format

/-!
# What validation means, and the codec's round trip

`bootMetadataValidate` is read here once, as a record of facts with names, so
that nothing later unfolds it. The codec facts are the ones a store needs: a
valid record written with a VALID commit word decodes to itself, and a page
whose commit word is anything else decodes to nothing.
-/

namespace EkBareMetal.Boot

open Words

@[simp] theorem BootResult.andThen_eq_ok {a b : BootResult} :
    a.andThen b = .ok ↔ a = .ok ∧ b = .ok := by
  cases a <;> simp [BootResult.andThen]

/-! ## Wires -/

@[simp] theorem length_put32 (v : UInt32) : (put32 v).length = 4 := by
  simp [put32]

theorem get32_put32 (v : UInt32) : get32 (put32 v) = v := le32_bytes32 v

theorem put32_get32 {p : List UInt8} (h : p.length = 4) :
    put32 (get32 p) = p := bytes32_le32 h

@[simp] theorem length_entryBytes (e : BootImageEntry) :
    (entryBytes e).length = 48 := by
  simp [entryBytes, e.payloadHash.property]

@[simp] theorem length_metadataBody (m : BootMetadata) :
    (metadataBody m).length = 160 := by
  simp [metadataBody]

@[simp] theorem length_metadataWire (m : BootMetadata) (commit : UInt32) :
    (metadataWire m commit).length = 168 := by
  simp [metadataWire]

/-- A read of an erased page that begins with a record. -/
theorem length_recordPage (m : BootMetadata) (size : Nat) :
    ((metadataWire m bootCommitValid).take size ++
      List.replicate (size - 168) (0xff : UInt8)).length = size := by
  rw [List.length_append, List.length_take, length_metadataWire, List.length_replicate]
  omega

/-- A field of a concatenation, read through the pieces in front of it. -/
theorem slice_slice {w : List UInt8} {off n i k : Nat} (h : i + k ≤ n) :
    slice (slice w off n) i k = slice w (off + i) k := by
  simp only [slice, List.drop_take, List.take_take, List.drop_drop]
  congr 1
  omega

theorem entryAt_eq {w : List UInt8} {p : Nat} (h : p + 48 ≤ w.length)
    {e : BootImageEntry} (hs : slice w p 48 = entryBytes e) :
    entryAt w p h = e := by
  have hl := e.payloadHash.property
  have hf : ∀ {i k}, i + k ≤ 48 → slice w (p + i) k = slice (entryBytes e) i k :=
    fun hk => by rw [← hs, slice_slice hk]
  have h0 : slice w p 32 = e.payloadHash.val := by
    rw [show p = p + 0 by rfl, hf (by omega), entryBytes,
      slice_append_left (by omega), slice_all hl]
  cases e
  simp only [entryAt, BootImageEntry.mk.injEq]
  refine ⟨Subtype.ext h0, ?_, ?_, ?_, ?_⟩ <;>
  · rw [hf (by omega)]
    simp only [entryBytes, slice_append_right, slice_append_left, slice_all,
      length_put32, hl, get32_put32, Nat.reduceLeDiff, Nat.reduceSub,
      Nat.le_refl, Nat.reduceAdd]

theorem slice_wire (m : BootMetadata) (commit : UInt32) {off n : Nat}
    (h : off + n ≤ 160) :
    slice (metadataWire m commit) off n = slice (metadataBody m) off n := by
  rw [metadataWire, slice_append_left (by rw [length_metadataBody]; exact h)]

theorem slice_wire_crc (m : BootMetadata) (commit : UInt32) :
    slice (metadataWire m commit) 160 4 =
      put32 (bootCrc32 (metadataBody m)) := by
  rw [metadataWire, slice_append_right (by simp)]
  simp only [length_metadataBody, Nat.reduceSub]
  rw [slice_append_left (by simp), slice_all (by simp)]

theorem slice_wire_commit (m : BootMetadata) (commit : UInt32) :
    slice (metadataWire m commit) 164 4 = put32 commit := by
  rw [metadataWire, slice_append_right (by simp), slice_append_right (by simp)]
  simp only [length_metadataBody, length_put32, Nat.reduceSub]
  rw [slice_all (by simp)]

theorem metadataAt_wire (m : BootMetadata) (commit : UInt32)
    (h : bootMetadataBytes ≤ (metadataWire m commit).length) :
    metadataAt (metadataWire m commit) h = m := by
  have ha : entryAt (metadataWire m commit) 32 (by simp) = m.images.a := by
    apply entryAt_eq
    rw [slice_wire m commit (by omega)]
    simp only [metadataBody, slice_append_right, slice_append_left, slice_all,
      length_put32, length_entryBytes, Nat.reduceLeDiff, Nat.reduceSub,
      Nat.le_refl, Nat.reduceAdd]
  have hb : entryAt (metadataWire m commit) 80 (by simp) = m.images.b := by
    apply entryAt_eq
    rw [slice_wire m commit (by omega)]
    simp only [metadataBody, slice_append_right, slice_append_left, slice_all,
      length_put32, length_entryBytes, Nat.reduceLeDiff, Nat.reduceSub,
      Nat.le_refl, Nat.reduceAdd]
  cases m
  simp only [metadataAt, BootMetadata.mk.injEq]
  refine ⟨?_, ?_, ?_, ?_, ?_, ?_, ?_, ?_, ?_⟩
  case refine_6 => rw [ha, hb]
  all_goals
    rw [slice_wire _ commit (by omega)]
    simp only [metadataBody, slice_append_right, slice_append_left, slice_all,
      length_put32, length_entryBytes, get32_put32, Nat.reduceLeDiff,
      Nat.reduceSub, Nat.le_refl, Nat.reduceAdd]

/-- A valid record survives its own wire. -/
theorem decode_wire {m : BootMetadata} (h : bootMetadataValidate m = .ok) :
    bootMetadataDecode (metadataWire m bootCommitValid) = .ok m := by
  have hbody : ∀ {off n}, off + n ≤ 160 →
      slice (metadataWire m bootCommitValid) off n =
        slice (metadataBody m) off n := fun hn => slice_wire m _ hn
  have hmagic : get32 (slice (metadataWire m bootCommitValid) 0 4) =
      bootMetadataMagic := by
    rw [hbody (by omega)]
    simp [metadataBody, slice_append_left, slice_all, get32_put32]
  have hversion : get32 (slice (metadataWire m bootCommitValid) 4 4) =
      bootFormatVersion := by
    rw [hbody (by omega)]
    simp [metadataBody, slice_append_left, slice_append_right, slice_all,
      get32_put32]
  have hlength : get32 (slice (metadataWire m bootCommitValid) 8 4) =
      UInt32.ofNat bootMetadataBytes := by
    rw [hbody (by omega)]
    simp [metadataBody, slice_append_left, slice_append_right, slice_all,
      get32_put32]
  have hzero : slice (metadataWire m bootCommitValid) 140 20 =
      List.replicate 20 0 := by
    rw [hbody (by omega)]
    simp [metadataBody, slice_append_right, slice_all]
  have hres : get32 (slice (metadataWire m bootCommitValid) 140 4) = 0 := by
    rw [show (140 : Nat) = 140 + 0 by rfl,
      ← slice_slice (n := 20) (by omega), hzero]
    decide
  have hres' : zeroBytes (slice (metadataWire m bootCommitValid) 144 16) = true := by
    rw [show (144 : Nat) = 140 + 4 by rfl,
      ← slice_slice (n := 20) (by omega), hzero]
    decide
  have hcrc : get32 (slice (metadataWire m bootCommitValid) 160 4) =
      bootCrc32 (slice (metadataWire m bootCommitValid) 0 160) := by
    rw [slice_wire_crc, get32_put32, hbody (by omega),
      slice_all (length_metadataBody m)]
  have hcommit : get32 (slice (metadataWire m bootCommitValid) 164 4) =
      bootCommitValid := by
    rw [slice_wire_commit, get32_put32]
  unfold bootMetadataDecode
  rw [dif_neg (by simp), if_neg (not_not.mpr hmagic),
    if_neg (not_not.mpr hversion), if_neg (not_not.mpr hlength),
    if_neg (not_not.mpr hcommit), if_neg (not_not.mpr hcrc),
    if_neg (by simp [hres, hres'])]
  simp only [metadataAt_wire, h]

/-- A commit word other than VALID hides whatever the page holds. -/
theorem decode_of_commit {wire : List UInt8}
    (h : get32 (slice wire 164 4) ≠ bootCommitValid) (m : BootMetadata) :
    bootMetadataDecode wire ≠ .ok m := by
  unfold bootMetadataDecode
  intro he
  split at he
  · cases he
  split at he
  · cases he
  split at he
  · cases he
  split at he
  · cases he
  · cases he

theorem decode_ok_validate {wire : List UInt8} {m : BootMetadata}
    (h : bootMetadataDecode wire = .ok m) : bootMetadataValidate m = .ok := by
  unfold bootMetadataDecode at h
  split at h
  · cases h
  repeat' (split at h; · cases h)
  dsimp only at h
  split at h
  · injection h with h
    rw [← h]
    assumption
  · cases h

theorem encode_valid {m : BootMetadata} (h : bootMetadataValidate m = .ok)
    {commit : UInt32}
    (hc : commit = bootCommitErased ∨ commit = bootCommitValid)
    {capacity : Nat} (hcap : bootMetadataBytes ≤ capacity) :
    bootMetadataEncode m commit capacity = .ok (metadataWire m commit) := by
  have h1 : ¬ capacity < bootMetadataBytes := by omega
  have h2 : ¬ (commit ≠ bootCommitErased ∧ commit ≠ bootCommitValid) := by
    rintro ⟨h₁, h₂⟩
    exact hc.elim h₁ h₂
  rw [bootMetadataEncode, if_neg h1, if_neg h2, h]

theorem encode_ok {m : BootMetadata} {commit : UInt32} {capacity : Nat}
    {w : List UInt8} (h : bootMetadataEncode m commit capacity = .ok w) :
    bootMetadataValidate m = .ok ∧ w = metadataWire m commit := by
  unfold bootMetadataEncode at h
  split at h
  · cases h
  · split at h
    · cases h
    · split at h
      · injection h with h
        exact ⟨‹_›, h.symm⟩
      · cases h

/-- Two valid records with one wire are one record. -/
theorem wire_injective {m m' : BootMetadata} (h : bootMetadataValidate m = .ok)
    (h' : bootMetadataValidate m' = .ok)
    (hw : metadataWire m bootCommitValid = metadataWire m' bootCommitValid) :
    m = m' := by
  have hd := decode_wire h
  rw [hw, decode_wire h'] at hd
  injection hd with hd
  exact hd.symm

end EkBareMetal.Boot

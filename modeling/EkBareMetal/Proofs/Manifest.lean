import EkBareMetal.Proofs.Codec
import EkBareMetal.Proofs.Package

/-!
# The manifest codec

The encoder clears 160 bytes and stores the fields in ascending order, with two
gaps that stay zero. What the decoder accepts has a header that does not depend
on the record, and the record says the rest, so an accepted wire is rebuilt
byte for byte from its record.
-/

namespace EkBareMetal.Boot

open Words Tools

variable {m : BootManifest} {wire : List UInt8} {out : BootManifest}

/-! ## Writing -/

/-- A store that leaves `k` zeros in front of it. -/
theorem patch_zeros_gap {u rest bs : List UInt8} {off n : Nat} (k : Nat)
    (hu : u.length + k = off) (hn : k + bs.length ≤ n) :
    patch (u ++ (List.replicate n 0 ++ rest)) off bs =
      (u ++ (List.replicate k 0 ++ bs)) ++
        (List.replicate (n - (k + bs.length)) 0 ++ rest) := by
  have hsplit : List.replicate n (0 : UInt8) =
      List.replicate k 0 ++ List.replicate (n - k) 0 := by
    rw [List.replicate_append_replicate]
    congr 1
    omega
  have hlen : (u ++ List.replicate k (0 : UInt8)).length = off := by simp [hu]
  rw [hsplit, List.append_assoc, ← List.append_assoc u, patch_zeros hlen (by omega)]
  simp only [List.append_assoc, Nat.sub_sub]

theorem putManifest_eq (m : BootManifest) (wire : List UInt8) :
    putManifest m wire = manifestWire m ++ wire.drop bootManifestBytes := by
  have hclear : patch wire 0 (List.replicate bootManifestBytes 0) =
      [] ++ (List.replicate 160 0 ++ wire.drop 160) := by
    rw [patch, List.take_zero, List.length_replicate, Nat.zero_add]
  have hdomain : manifestDomain.length = 16 := rfl
  have hhash := m.payloadHash.property
  have hsign := m.signature.property
  unfold putManifest
  dsimp only
  rw [hclear, patch_zeros (u := []) List.length_nil (by simp [hdomain]),
    patch_zeros (by simp [hdomain]) (by simp [hdomain]),
    patch_zeros (by simp [hdomain]) (by simp [hdomain]),
    patch_zeros (by simp [hdomain]) (by simp [hdomain]),
    patch_zeros (by simp [hdomain]) (by simp [hdomain]),
    patch_zeros (by simp [hdomain]) (by simp [hdomain]),
    patch_zeros (by simp [hdomain]) (by simp [hdomain]),
    patch_zeros (by simp [hdomain]) (by simp [hdomain]),
    patch_zeros_gap 4 (by simp [hdomain]) (by simp [hdomain, hhash]),
    patch_zeros_gap 16 (by simp [hdomain, hhash]) (by simp [hdomain, hhash, hsign])]
  simp only [length_put32, hdomain, hhash, hsign, Nat.reduceSub, Nat.reduceAdd,
    List.replicate_zero, List.nil_append, manifestWire, List.append_assoc]

theorem manifestEncodeInto_valid (hlen : bootManifestBytes ≤ wire.length)
    (hm : bootManifestValidate m = .ok) :
    bootManifestEncodeInto m wire = (.ok, manifestWire m ++ wire.drop bootManifestBytes) := by
  unfold bootManifestEncodeInto
  rw [if_neg (Nat.not_lt.mpr hlen), hm]
  dsimp only
  rw [putManifest_eq]

theorem manifestEncodeInto_failed (h : (bootManifestEncodeInto m wire).1 ≠ .ok) :
    (bootManifestEncodeInto m wire).2 = wire := by
  unfold bootManifestEncodeInto at h ⊢
  split
  · rfl
  next hlen =>
  rw [if_neg hlen] at h
  split
  · next hm =>
      rw [hm] at h
      exact absurd rfl h
  · rfl

/-! ## Reading -/

theorem manifestDecode_error {e : BootResult} (h : bootManifestDecode wire = .error e) :
    e ≠ .ok := by
  rintro rfl
  unfold bootManifestDecode at h
  repeat' (split at h; · cases h)
  dsimp only at h
  split at h
  · cases h
  · next hne =>
      injection h with h
      exact hne h

theorem manifestDecodeInto_ok (h : bootManifestDecodeInto wire out = (.ok, m)) :
    bootManifestDecode wire = .ok m := by
  unfold bootManifestDecodeInto at h
  split at h
  · next value hd =>
      cases h
      exact hd
  · next e hd =>
      injection h with he
      exact absurd he (manifestDecode_error hd)

theorem manifestDecodeInto_failed (h : (bootManifestDecodeInto wire out).1 ≠ .ok) :
    (bootManifestDecodeInto wire out).2 = out := by
  unfold bootManifestDecodeInto at h ⊢
  split
  · next value hd =>
      rw [hd] at h
      exact absurd rfl h
  · rfl

/-- What is spelt by a wire with the fixed header is written back as it stands. -/
theorem manifestWire_of_spells (hw : Tools.Header wire) (hm : Spells wire m) :
    manifestWire m = wire.take bootManifestBytes := by
  have hlen := hw.size
  have hword : ∀ off, off + 4 ≤ wire.length → put32 (wordAt wire off) = slice wire off 4 :=
    fun off h => put32_slice h
  have hslices : wire.take 160 = slice wire 0 16 ++ (slice wire 16 4 ++ (slice wire 20 4 ++
      (slice wire 24 4 ++ (slice wire 28 4 ++ (slice wire 32 4 ++ (slice wire 36 4 ++
      (slice wire 40 4 ++ (slice wire 44 4 ++ (slice wire 48 32 ++ (slice wire 80 16 ++
      slice wire 96 64)))))))))) := by
    rw [show wire.take 160 = slice wire 0 (16 + (4 + (4 + (4 + (4 + (4 + (4 + (4 + (4 +
      (32 + (16 + 64))))))))))) by rw [slice, List.drop_zero]]
    simp only [slice_split]
  have hzero : slice wire 44 4 = List.replicate 4 0 := by
    rw [← hword 44 (by omega), hw.flags]
    rfl
  rw [hslices, hw.domain, ← hword 16 (by omega), ← hword 20 (by omega), ← hword 24 (by omega),
    ← hword 28 (by omega), ← hword 32 (by omega), ← hword 36 (by omega), ← hword 40 (by omega),
    hzero, hw.reserved, hw.version, hw.length, hw.product, ← hm.slot, ← hm.base, ← hm.length,
    ← hm.release, ← hm.hash, ← hm.signature]
  rfl

/-! ## Bounds -/

/-- Where a valid manifest's payload stands: from its slot's base, without wrapping, and
below the manifest page. -/
theorem manifest_bounds (h : bootManifestValidate m = .ok) :
    m.executionBase = slotBase m.slot ∧
      m.executionBase.toNat + m.payloadLength.toNat < 2 ^ 32 ∧
      m.executionBase.toNat + m.payloadLength.toNat ≤ (slotManifest m.slot).toNat := by
  obtain ⟨hs, hb, -, hmax, -⟩ := manifestValidate_iff.mp h
  have hpage : (slotBase m.slot).toNat + 111616 ≤ (slotManifest m.slot).toNat := by
    obtain hslot | hslot := slotValid_iff.mp hs
    · rw [hslot]
      decide
    · rw [hslot]
      decide
  have hword := (slotManifest m.slot).toNat_lt
  rw [hb]
  refine ⟨rfl, ?_, ?_⟩ <;> omega

/-! ## The codec -/

theorem manifest_codec :
    (∀ m wire out, bootManifestValidate m = .ok → bootManifestBytes ≤ wire.length →
      bootManifestDecodeInto (bootManifestEncodeInto m wire).2 out = (.ok, m)) ∧
    (∀ wire out m buffer, bootManifestDecodeInto wire out = (.ok, m) →
      bootManifestBytes ≤ buffer.length →
      bootManifestEncodeInto m buffer =
        (.ok, wire.take bootManifestBytes ++ buffer.drop bootManifestBytes)) ∧
    (∀ wire out m, bootManifestDecodeInto wire out = (.ok, m) →
      slotValid m.slot = true ∧ m.executionBase = slotBase m.slot ∧
      m.executionBase.toNat + m.payloadLength.toNat < 2 ^ 32 ∧
      m.executionBase.toNat + m.payloadLength.toNat ≤ (slotManifest m.slot).toNat) ∧
    (∀ m wire, (bootManifestEncodeInto m wire).1 ≠ .ok →
      (bootManifestEncodeInto m wire).2 = wire) ∧
    (∀ wire out, (bootManifestDecodeInto wire out).1 ≠ .ok →
      (bootManifestDecodeInto wire out).2 = out) := by
  refine ⟨?_, ?_, ?_, fun _ _ => manifestEncodeInto_failed,
    fun _ _ => manifestDecodeInto_failed⟩
  · intro m wire out hm hlen
    rw [manifestEncodeInto_valid hlen hm, bootManifestDecodeInto, (decode_wire_append hm).2]
  · intro wire out m buffer hd hlen
    obtain ⟨hw, hs, hm⟩ := manifestDecode_iff.mp (manifestDecodeInto_ok hd)
    rw [manifestEncodeInto_valid hlen hm, manifestWire_of_spells hw hs]
  · intro wire out m hd
    obtain ⟨-, -, hm⟩ := manifestDecode_iff.mp (manifestDecodeInto_ok hd)
    exact ⟨(manifestValidate_iff.mp hm).1, manifest_bounds hm⟩

theorem manifest_codec_package :
    bootManifestDecodeInto (bootManifestEncodeInto (packageManifest bootSlotB)
      (List.replicate 200 0xff)).2 (packageManifest bootSlotA) =
        (.ok, packageManifest bootSlotB) := by
  refine manifest_codec.1 (packageManifest bootSlotB) _ _ (by decide +kernel) ?_
  rw [List.length_replicate]
  decide

end EkBareMetal.Boot

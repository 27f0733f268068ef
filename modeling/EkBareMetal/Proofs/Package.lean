import EkBareMetal.Proofs.Confirmation
import EkBareMetal.Proofs.Streaming
import EkBareMetal.Tools.Package

/-!
# The packager and the device agree

Three pieces of code know the layout of a package: the packager that writes
it, the PC's check of what it is about to send, and the device's decoder. Each
of the two checks is put in one form, the fields of the first 160 bytes and a
few bounds on them, and the two forms are the same.
-/

namespace EkBareMetal.Tools

open Words Text Boot

/-! ## The first 160 bytes -/

/-- What every manifest has in common. -/
structure Header (w : List UInt8) : Prop where
  size : 160 ≤ w.length
  domain : slice w 0 16 = manifestDomain
  version : wordAt w 16 = 1
  length : wordAt w 20 = 160
  product : wordAt w 24 = 1
  flags : wordAt w 44 = 0
  reserved : slice w 80 16 = List.replicate 16 0

/-- `m` is what the other bytes say. -/
structure Spells (w : List UInt8) (m : BootManifest) : Prop where
  slot : m.slot = wordAt w 28
  base : m.executionBase = wordAt w 32
  length : m.payloadLength = wordAt w 36
  release : m.release = wordAt w 40
  hash : m.payloadHash.val = slice w 48 32
  signature : m.signature.val = slice w 96 64

section Decode

variable {w : List UInt8} {m m' : BootManifest}

theorem zeroBytes_iff {n : Nat} {p : List UInt8} (h : p.length = n) :
    zeroBytes p = true ↔ p = List.replicate n 0 := by
  rw [List.eq_replicate_iff, zeroBytes, List.all_eq_true]
  simp [h]

theorem Spells.unique (h : Spells w m) (h' : Spells w m') : m = m' := by
  obtain ⟨slot, base, length, release, hash, signature⟩ := m
  obtain ⟨slot', base', length', release', hash', signature'⟩ := m'
  obtain ⟨h1, h2, h3, h4, h5, h6⟩ := h
  obtain ⟨h1', h2', h3', h4', h5', h6'⟩ := h'
  dsimp only at h1 h2 h3 h4 h5 h6 h1' h2' h3' h4' h5' h6'
  rw [h1, h1', h2, h2', h3, h3', h4, h4', Subtype.ext (h5.trans h5'.symm),
    Subtype.ext (h6.trans h6'.symm)]

theorem exists_spells (h : 160 ≤ w.length) : ∃ m, Spells w m :=
  ⟨⟨wordAt w 28, wordAt w 32, wordAt w 36, wordAt w 40,
      ⟨slice w 48 32, length_slice (by omega)⟩, ⟨slice w 96 64, length_slice (by omega)⟩⟩,
    rfl, rfl, rfl, rfl, rfl, rfl⟩

theorem manifestDecode_iff :
    bootManifestDecode w = .ok m ↔ Header w ∧ Spells w m ∧ bootManifestValidate m = .ok := by
  have hword : ∀ off, get32 (slice w off 4) = wordAt w off := fun _ => rfl
  constructor
  · intro h
    have hsize := manifestDecode_length h
    have hvalid := manifestDecode_ok h
    rw [bootManifestDecode, dif_neg (Nat.not_lt.mpr hsize)] at h
    obtain ⟨hdomain, h⟩ := passed_check h
    obtain ⟨hversion, h⟩ := passed_check h
    obtain ⟨hlength, h⟩ := passed_check h
    obtain ⟨hproduct, h⟩ := passed_check h
    obtain ⟨hreserved, h⟩ := passed_check h
    rw [not_not] at hdomain hversion hlength hproduct
    simp only [not_or, not_not, Bool.not_eq_true', Bool.not_eq_false] at hreserved
    have hzero := (zeroBytes_iff (length_slice (by simp at hsize; omega))).mp hreserved.2
    refine ⟨⟨hsize, hdomain, hversion, hlength, hproduct, hreserved.1, hzero⟩, ?_, hvalid⟩
    dsimp only at h
    split at h
    · injection h with h
      subst h
      exact ⟨rfl, rfl, rfl, rfl, rfl, rfl⟩
    · cases h
  · rintro ⟨hw, hm, hvalid⟩
    have hsize := hw.size
    have hlength : wordAt w 20 = UInt32.ofNat bootManifestBytes := hw.length
    have hreserved : ¬ (wordAt w 44 ≠ 0 ∨ (!zeroBytes (slice w 80 16)) = true) := by
      rw [(zeroBytes_iff (length_slice (by omega))).mpr hw.reserved, hw.flags]
      simp
    rw [bootManifestDecode, dif_neg (by simp only [bootManifestBytes]; omega)]
    simp only [hword]
    rw [if_neg (not_not_intro hw.domain), if_neg (not_not_intro hw.version),
      if_neg (not_not_intro hlength), if_neg (not_not_intro hw.product), if_neg hreserved]
    have heq : (⟨wordAt w 28, wordAt w 32, wordAt w 36, wordAt w 40,
        ⟨slice w 48 32, length_slice (by omega)⟩,
        ⟨slice w 96 64, length_slice (by omega)⟩⟩ : BootManifest) = m :=
      Spells.unique ⟨rfl, rfl, rfl, rfl, rfl, rfl⟩ hm
    rw [heq, hvalid]

theorem slice_take {off n k : Nat} (h : off + n ≤ k) : slice (w.take k) off n = slice w off n := by
  have hk : slice w 0 k = w.take k := by rw [slice, List.drop_zero]
  rw [← hk, slice_slice h, Nat.zero_add]

theorem wordAt_take {off k : Nat} (h : off + 4 ≤ k) : wordAt (w.take k) off = wordAt w off := by
  rw [wordAt, wordAt, slice_take h]

/-- The header and the fields do not look past their 160 bytes. -/
theorem header_take : Header (w.take 160) ↔ Header w := by
  have hlen : 160 ≤ (w.take 160).length ↔ 160 ≤ w.length := by
    rw [List.length_take]
    omega
  constructor
  · rintro ⟨hsize, hdomain, hversion, hlength, hproduct, hflags, hreserved⟩
    rw [slice_take (by decide)] at hdomain hreserved
    rw [wordAt_take (by decide)] at hversion hlength hproduct hflags
    exact ⟨hlen.mp hsize, hdomain, hversion, hlength, hproduct, hflags, hreserved⟩
  · rintro ⟨hsize, hdomain, hversion, hlength, hproduct, hflags, hreserved⟩
    rw [← slice_take (k := 160) (by decide)] at hdomain hreserved
    rw [← wordAt_take (k := 160) (by decide)] at hversion hlength hproduct hflags
    exact ⟨hlen.mpr hsize, hdomain, hversion, hlength, hproduct, hflags, hreserved⟩

theorem spells_take : Spells (w.take 160) m ↔ Spells w m := by
  constructor
  · rintro ⟨hslot, hbase, hlength, hrelease, hhash, hsignature⟩
    rw [wordAt_take (by decide)] at hslot hbase hlength hrelease
    rw [slice_take (by decide)] at hhash hsignature
    exact ⟨hslot, hbase, hlength, hrelease, hhash, hsignature⟩
  · rintro ⟨hslot, hbase, hlength, hrelease, hhash, hsignature⟩
    rw [← wordAt_take (k := 160) (by decide)] at hslot hbase hlength hrelease
    rw [← slice_take (k := 160) (by decide)] at hhash hsignature
    exact ⟨hslot, hbase, hlength, hrelease, hhash, hsignature⟩

theorem decode_take_iff :
    bootManifestDecode (w.take 160) = .ok m ↔
      Header w ∧ Spells w m ∧ bootManifestValidate m = .ok := by
  rw [manifestDecode_iff, header_take, spells_take]

end Decode

/-! ## Vectors -/

/-- The two vectors of a payload, as numbers. -/
structure VectorsOk (payload : List UInt8) (base : Nat) : Prop where
  msp : (wordAt payload 0).toNat = 0x20010000
  thumb : (wordAt payload 4).toNat % 2 ≠ 0
  above : base ≤ (wordAt payload 4).toNat - (wordAt payload 4).toNat % 2
  below : (wordAt payload 4).toNat - (wordAt payload 4).toNat % 2 < base + payload.length

section Vectors

variable {m : BootManifest} {payload : List UInt8}

theorem vectorsValidate_iff (hm : bootManifestValidate m = .ok)
    (hlen : payload.length = m.payloadLength.toNat) :
    bootVectorsValidate m payload = .ok ↔ VectorsOk payload m.executionBase.toNat := by
  have hend : (m.executionBase + m.payloadLength).toNat =
      m.executionBase.toNat + payload.length := by
    rw [hlen]
    exact toNat_end (i := ⟨m, 0, 0⟩) hm
  have hmsp : get32 (slice payload 0 4) = bootInitialMsp ↔
      (wordAt payload 0).toNat = 0x20010000 := by
    rw [← UInt32.toNat_inj]
    rfl
  have hreset : get32 (slice payload 4 4) = wordAt payload 4 := rfl
  have hsize : ¬ payload.length < m.payloadLength.toNat := by omega
  rw [bootVectorsValidate, span_of_valid hm]
  dsimp only
  rw [if_neg hsize, hreset]
  simp only [UInt32.lt_iff_toNat_lt, ge_iff_le, UInt32.le_iff_toNat_le, toNat_and_not_one, hend,
    and_one_eq_zero, ne_eq, hmsp]
  constructor
  · intro h
    split at h
    · cases h
    next h1 =>
    split at h
    · cases h
    next h2 =>
    split at h
    · cases h
    next h3 =>
    simp only [not_or, Nat.not_lt, Nat.not_le] at h1 h2 h3
    exact ⟨not_not.mp h1, h2, h3.1, h3.2⟩
  · rintro ⟨h1, h2, h3, h4⟩
    rw [if_neg (not_not_intro h1), if_neg h2, if_neg (by omega)]

end Vectors

/-! ## The PC's check -/

/-- What a package with this manifest is called. -/
def identity (m : BootManifest) (body : List UInt8) : Artifact where
  slot := if m.slot = bootSlotA then ascii "A" else ascii "B"
  digest := hexText m.payloadHash.val
  release := decimal m.release.toNat
  body := body

section FromBytes

variable {body : List UInt8} {a : Artifact} {m : BootManifest} (sha256 : List UInt8 → Bytes 32)

theorem wordAt_drop (n off : Nat) : wordAt (body.drop n) off = wordAt body (n + off) := by
  rw [wordAt, wordAt, slice, slice, List.drop_drop]

/-- The manifest's own bounds, as the PC computes them. -/
theorem validate_spells (hm : Spells body m) :
    bootManifestValidate m = .ok ↔
      ((wordAt body 28).toNat = 0 ∨ (wordAt body 28).toNat = 1) ∧
      (wordAt body 32).toNat = (if (wordAt body 28).toNat = 0 then 0x8800 else 0x24000) ∧
      236 ≤ (wordAt body 36).toNat ∧ (wordAt body 36).toNat ≤ 111616 ∧
      (wordAt body 36).toNat % 4 = 0 := by
  have hslot : slotValid m.slot = true ↔
      (wordAt body 28).toNat = 0 ∨ (wordAt body 28).toNat = 1 := by
    rw [slotValid_iff, hm.slot, ← UInt32.toNat_inj, ← UInt32.toNat_inj]
    rfl
  have hbase : m.executionBase = slotBase m.slot ↔ (wordAt body 32).toNat =
      if (wordAt body 28).toNat = 0 then 0x8800 else 0x24000 := by
    have hzero : m.slot = bootSlotA ↔ (wordAt body 28).toNat = 0 := by
      rw [hm.slot, ← UInt32.toNat_inj]
      rfl
    rw [← UInt32.toNat_inj, hm.base, slotBase]
    by_cases h0 : (wordAt body 28).toNat = 0
    · rw [if_pos (hzero.mpr h0), if_pos h0]
      rfl
    · rw [if_neg (mt hzero.mp h0), if_neg h0]
      rfl
  rw [manifestValidate_iff, hslot, hbase, hm.length]

theorem fromBytes_iff :
    Artifact.fromBytes (fun b => (sha256 b).val) body = .ok a ↔
      ∃ m, Header body ∧ Spells body m ∧ bootManifestValidate m = .ok ∧
        body.length = 160 + m.payloadLength.toNat ∧
        sha256 (body.drop 160) = m.payloadHash ∧
        VectorsOk (body.drop 160) m.executionBase.toNat ∧ a = identity m body := by
  have htake : body.take 16 = slice body 0 16 := by rw [slice, List.drop_zero]
  have hdomain : packageDomain = manifestDomain := by decide
  have hone : ∀ {w n : UInt32}, w.toNat = n.toNat ↔ w = n := UInt32.toNat_inj
  have hmsp : wordAt (body.drop 160) 0 = wordAt body 160 := wordAt_drop 160 0
  have hreset : wordAt (body.drop 160) 4 = wordAt body 164 := wordAt_drop 160 4
  rw [Artifact.fromBytes]
  simp only [Nat.reduceMul, Nat.reduceAdd, htake, hdomain]
  constructor
  · intro h
    obtain ⟨hshape, h⟩ := passed_check h
    obtain ⟨hheader, h⟩ := passed_check h
    obtain ⟨hbounds, h⟩ := passed_check h
    obtain ⟨hframe, h⟩ := passed_check h
    obtain ⟨hhash, h⟩ := passed_check h
    obtain ⟨hvectors, h⟩ := passed_check h
    injection h with h
    rw [not_or, Nat.not_lt, not_not] at hshape
    rw [not_or, not_not, not_not, Prod.mk.injEq, Prod.mk.injEq, Prod.mk.injEq] at hheader
    simp only [not_or, not_not] at hbounds hframe hhash hvectors
    obtain ⟨⟨hversion, hlength, hproduct, hflags⟩, hslot⟩ := hheader
    obtain ⟨hbase, hrange, hwords⟩ := hbounds
    obtain ⟨m, hm⟩ := exists_spells hshape.1
    have hvalid := (validate_spells hm).mpr ⟨hslot, hbase, hrange.1, hrange.2, hwords⟩
    have hsize : (body.drop 160).length = (wordAt body 36).toNat := by
      rw [List.length_drop, hframe.1]
      omega
    refine ⟨m, ⟨hshape.1, hshape.2, hone.mp hversion, hone.mp hlength, hone.mp hproduct,
      hone.mp hflags, hframe.2⟩, hm, hvalid, ?_, ?_, ⟨?_, ?_, ?_, ?_⟩, ?_⟩
    · rw [hm.length]
      exact hframe.1
    · exact Subtype.ext (hhash.trans hm.hash.symm)
    · rw [hmsp]
      exact hvectors.1
    · rw [hreset]
      exact hvectors.2.1
    · rw [hreset, hm.base]
      exact hvectors.2.2.1
    · rw [hreset, hm.base, hsize]
      exact hvectors.2.2.2
    · rw [← h, identity, hm.hash, hm.release, hm.slot]
      congr 1
      by_cases h0 : (wordAt body 28).toNat = 0
      · rw [if_pos h0, if_pos (hone.mp h0)]
      · rw [if_neg h0, if_neg (mt (fun h => congrArg UInt32.toNat h) h0)]
  · rintro ⟨m, hw, hm, hvalid, hframe, hhash, hvectors, rfl⟩
    obtain ⟨hslot, hbase, hmin, hmax, hwords⟩ := (validate_spells hm).mp hvalid
    obtain ⟨hmsp', hthumb, habove, hbelow⟩ := hvectors
    have hsize : (body.drop 160).length = (wordAt body 36).toNat := by
      rw [List.length_drop, hframe, hm.length]
      omega
    rw [hreset] at hthumb habove hbelow
    rw [hmsp] at hmsp'
    rw [hm.base] at habove hbelow
    rw [hsize] at hbelow
    rw [hm.length] at hframe
    have hhash' : (sha256 (body.drop 160)).val = slice body 48 32 := by
      rw [hhash, hm.hash]
    rw [if_neg (not_or.mpr ⟨Nat.not_lt.mpr hw.size, not_not_intro hw.domain⟩)]
    rw [hw.version, hw.length, hw.product, hw.flags]
    have hwords' : ((1 : UInt32).toNat, (160 : UInt32).toNat, (1 : UInt32).toNat,
        (0 : UInt32).toNat) = (1, 160, 1, 0) := rfl
    rw [if_neg (not_or.mpr ⟨not_not_intro hwords', not_not_intro hslot⟩)]
    rw [if_neg (not_or.mpr ⟨not_not_intro hbase,
      not_or.mpr ⟨not_not_intro ⟨hmin, hmax⟩, not_not_intro hwords⟩⟩)]
    rw [if_neg (not_or.mpr ⟨not_not_intro hframe, not_not_intro hw.reserved⟩)]
    rw [if_neg (not_not_intro hhash')]
    rw [if_neg (not_or.mpr ⟨not_not_intro hmsp',
      not_or.mpr ⟨hthumb, not_not_intro ⟨habove, hbelow⟩⟩⟩)]
    rw [identity, hm.hash, hm.release, hm.slot]
    congr 2
    by_cases h0 : (wordAt body 28).toNat = 0
    · rw [if_pos h0, if_pos (hone.mp h0)]
    · rw [if_neg h0, if_neg (mt (fun h => congrArg UInt32.toNat h) h0)]

end FromBytes

/-! ## The packager -/

/-- The slot's number on the device. -/
def Slot.index : Slot → UInt32
  | .A => bootSlotA
  | .B => bootSlotB

theorem Slot.valid (slot : Slot) : slotValid slot.index = true := by cases slot <;> decide

theorem Slot.base (slot : Slot) : (slotBase slot.index).toNat = BASES slot := by
  cases slot <;> decide

section Packager

variable {payload data : List UInt8} {base : Nat} {slot : Slot} {m : BootManifest}

theorem length_padded : (padded payload).length =
    payload.length + (4 - payload.length % 4) % 4 := by
  rw [padded, List.length_append, List.length_replicate]

theorem checkPayload_ok (h : checkPayload base data = .ok payload) :
    236 ≤ payload.length ∧ payload.length ≤ 111616 ∧ payload.length % 4 = 0 ∧
      VectorsOk payload base := by
  rw [checkPayload] at h
  obtain ⟨hsize, h⟩ := passed_check h
  obtain ⟨hroom, h⟩ := passed_check h
  obtain ⟨hmsp, h⟩ := passed_check h
  obtain ⟨hthumb, h⟩ := passed_check h
  obtain ⟨htarget, h⟩ := passed_check h
  injection h with h
  subst h
  rw [not_not] at hsize hroom hmsp htarget
  have hlen : (padded data).length = data.length + (4 - data.length % 4) % 4 := length_padded
  have hmin : 236 ≤ data.length := hsize.1
  refine ⟨?_, hroom, ?_, hmsp, hthumb, htarget.1, htarget.2⟩
  · omega
  · omega

theorem canonicalPayload_ok
    {elfPayload : List UInt8 → Nat → Except PyError (List UInt8)} {format : InputFormat}
    (h : canonicalPayload elfPayload data slot format = .ok payload) :
    236 ≤ payload.length ∧ payload.length ≤ 111616 ∧ payload.length % 4 = 0 ∧
      VectorsOk payload (BASES slot) := by
  rw [canonicalPayload] at h
  split at h
  · cases h
  · exact checkPayload_ok h

/-- The manifest of a package. -/
def packedManifest (sha256 : List UInt8 → Bytes 32) (payload : List UInt8) (slot : Slot)
    (release : Nat) (signature : Bytes 64) : BootManifest where
  slot := slot.index
  executionBase := slotBase slot.index
  payloadLength := UInt32.ofNat payload.length
  release := UInt32.ofNat release
  payloadHash := sha256 payload
  signature := signature

variable (sha256 : List UInt8 → Bytes 32) (signature : Bytes 64)

/-- What the packager writes in front of a payload is the device's own wire. -/
theorem packagePrefix_wire (release : Nat) :
    packagePrefix (fun b => (sha256 b).val) payload slot release ++ signature.val =
      manifestWire (packedManifest sha256 payload slot release signature) := by
  have hdomain : packageDomain = manifestDomain := by decide
  have hzero : bytes32 (UInt32.ofNat 0) = List.replicate 4 0 := by decide
  have hslot : UInt32.ofNat (if slot = .A then 0 else 1) = slot.index := by
    cases slot <;> rfl
  have hbase : UInt32.ofNat (BASES slot) = slotBase slot.index := by
    cases slot <;> rfl
  simp only [packagePrefix, packWords, List.flatMap_cons, List.flatMap_nil, hdomain, hzero, hslot,
    hbase, List.append_assoc, List.append_nil]
  rfl

theorem decode_wire_append (hm : bootManifestValidate m = .ok) :
    bootManifestDecode ((manifestWire m ++ payload).take 160) = .ok m ∧
      bootManifestDecode (manifestWire m ++ payload) = .ok m := by
  have htake : (manifestWire m ++ payload).take 160 = manifestWire m :=
    List.take_left' length_manifestWire
  have hdecode : bootManifestDecode ((manifestWire m ++ payload).take 160) = .ok m := by
    rw [htake]
    exact decode_manifestWire hm
  exact ⟨hdecode, manifestDecode_iff.mpr (decode_take_iff.mp hdecode)⟩

/-- The packager's packages are packages to the device and to the PC's check, and the
PC's check accepts exactly what the device decodes with nothing left over, the right
hash and the right vectors. -/
theorem packager_agrees :
    (∀ elfPayload data slot format payload,
      canonicalPayload elfPayload data slot format = .ok payload →
      ∀ (release : Int), 0 ≤ release → release ≤ 0xffffffff →
      ∀ sign signature, sign (sha256 (packagePrefix (fun b => (sha256 b).val) payload slot
        release.toNat)).val = .ok signature →
      ∃ m, buildPackage (fun b => (sha256 b).val) sign payload slot release =
          .ok (manifestWire m ++ payload) ∧
        bootManifestDecode (manifestWire m ++ payload) = .ok m ∧
        m.slot = slot.index ∧ m.executionBase.toNat = BASES slot ∧
        m.payloadLength.toNat = payload.length ∧ (m.release.toNat : Int) = release ∧
        m.payloadHash = sha256 payload ∧ m.signature = signature ∧
        bootVectorsValidate m payload = .ok ∧
        Artifact.fromBytes (fun b => (sha256 b).val) (manifestWire m ++ payload) =
          .ok ⟨slot.name, hexText (sha256 payload).val, decimal release.toNat,
            manifestWire m ++ payload⟩) ∧
    ∀ body a, Artifact.fromBytes (fun b => (sha256 b).val) body = .ok a ↔
      ∃ m, bootManifestDecode (body.take 160) = .ok m ∧
        body.length = 160 + m.payloadLength.toNat ∧
        sha256 (body.drop 160) = m.payloadHash ∧
        bootVectorsValidate m (body.drop 160) = .ok ∧ a = identity m body := by
  have hiff : ∀ body a, Artifact.fromBytes (fun b => (sha256 b).val) body = .ok a ↔
      ∃ m, bootManifestDecode (body.take 160) = .ok m ∧
        body.length = 160 + m.payloadLength.toNat ∧
        sha256 (body.drop 160) = m.payloadHash ∧
        bootVectorsValidate m (body.drop 160) = .ok ∧ a = identity m body := by
    intro body a
    rw [fromBytes_iff]
    refine exists_congr fun m => ?_
    rw [decode_take_iff]
    constructor
    · rintro ⟨hw, hm, hvalid, hframe, hhash, hvectors, ha⟩
      have hsize : (body.drop 160).length = m.payloadLength.toNat := by
        rw [List.length_drop, hframe]
        omega
      exact ⟨⟨hw, hm, hvalid⟩, hframe, hhash, (vectorsValidate_iff hvalid hsize).mpr hvectors, ha⟩
    · rintro ⟨⟨hw, hm, hvalid⟩, hframe, hhash, hvectors, ha⟩
      have hsize : (body.drop 160).length = m.payloadLength.toNat := by
        rw [List.length_drop, hframe]
        omega
      exact ⟨hw, hm, hvalid, hframe, hhash, (vectorsValidate_iff hvalid hsize).mp hvectors, ha⟩
  refine ⟨?_, hiff⟩
  intro elfPayload data slot format payload hpayload release hlow hhigh sign signature hsign
  obtain ⟨hmin, hmax, hwords, hvectors⟩ := canonicalPayload_ok hpayload
  obtain ⟨n, rfl⟩ := Int.eq_ofNat_of_zero_le hlow
  rw [Int.toNat_natCast] at hsign ⊢
  have hn : n ≤ 0xffffffff := by omega
  generalize hm : packedManifest sha256 payload slot n signature = m
  have hlength : m.payloadLength.toNat = payload.length := by
    rw [← hm]
    show (UInt32.ofNat payload.length).toNat = _
    rw [UInt32.toNat_ofNat']
    exact Nat.mod_eq_of_lt (by omega)
  have hrelease : m.release.toNat = n := by
    rw [← hm]
    show (UInt32.ofNat n).toNat = _
    rw [UInt32.toNat_ofNat']
    exact Nat.mod_eq_of_lt (by omega)
  have hslot : m.slot = slot.index := by rw [← hm]; rfl
  have hbase : m.executionBase = slotBase m.slot := by rw [← hm]; rfl
  have hhash : m.payloadHash = sha256 payload := by rw [← hm]; rfl
  have hbase' : m.executionBase.toNat = BASES slot := by rw [hbase, hslot, slot.base]
  have hvalid : bootManifestValidate m = .ok := by
    rw [manifestValidate_iff, hlength, hslot]
    exact ⟨slot.valid, by rw [hbase, hslot], hmin, hmax, hwords⟩
  obtain ⟨htake, hdecode⟩ := @decode_wire_append payload m hvalid
  have hvec : bootVectorsValidate m payload = .ok := by
    rw [vectorsValidate_iff hvalid hlength.symm, hbase']
    exact hvectors
  have hbuild : buildPackage (fun b => (sha256 b).val) sign payload slot n =
      .ok (manifestWire m ++ payload) := by
    have hrange : ¬ ¬ ((0 : Int) ≤ n ∧ (n : Int) ≤ 0xffffffff) := not_not_intro ⟨hlow, hhigh⟩
    have hfits : ¬ 2 ^ 32 ≤ payload.length := by omega
    rw [buildPackage, if_neg hrange, if_neg hfits]
    dsimp only
    rw [Int.toNat_natCast, hsign, ← hm, ← packagePrefix_wire]
  have hdrop : (manifestWire m ++ payload).drop 160 = payload :=
    List.drop_left' length_manifestWire
  have hname : (if m.slot = bootSlotA then ascii "A" else ascii "B") = slot.name := by
    rw [hslot]
    cases slot <;> rfl
  have hfrom : Artifact.fromBytes (fun b => (sha256 b).val) (manifestWire m ++ payload) =
      .ok (identity m (manifestWire m ++ payload)) := by
    refine (hiff _ _).mpr ⟨m, htake, ?_, ?_, ?_, rfl⟩
    · rw [List.length_append, length_manifestWire, hlength]
    · rw [hdrop, hhash]
    · rw [hdrop]
      exact hvec
  refine ⟨m, hbuild, hdecode, hslot, hbase', hlength, by rw [hrelease], hhash, ?_, hvec, ?_⟩
  · rw [← hm]
    rfl
  · rw [hfrom, identity, hname, hhash, hrelease]

theorem packager_agrees_pattern :
    ∃ m, buildPackage (fun b => (packageCrypto.sha256 b).val)
        (fun _ => .ok ⟨packageSignature bootSlotB, length_packageSignature _⟩)
        (packagePayload bootSlotB) .B 7 = .ok (manifestWire m ++ packagePayload bootSlotB) ∧
      bootManifestDecode (manifestWire m ++ packagePayload bootSlotB) = .ok m := by
  have hpayload : canonicalPayload (fun _ _ => packageError "requires ELF32")
      (packagePayload bootSlotB) .B .bin = .ok (packagePayload bootSlotB) := by
    decide +kernel
  obtain ⟨m, hbuild, hdecode, -⟩ := (packager_agrees packageCrypto.sha256).1 _ _ _ _ _ hpayload
    7 (by decide) (by decide) (fun _ => .ok ⟨packageSignature bootSlotB,
      length_packageSignature _⟩) _ rfl
  exact ⟨m, hbuild, hdecode⟩

end Packager

end EkBareMetal.Tools

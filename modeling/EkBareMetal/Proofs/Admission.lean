import EkBareMetal.Boot.Codec
import EkBareMetal.Boot.Snapshot
import EkBareMetal.Boot.Startup
import EkBareMetal.Proofs.Uploads

/-!
# Five checks of one image

An image is looked at by the verifier, by the lifecycle, by the snapshot, by
the handoff and by the prepared startup, and each of the five spells out the
geometry, the stack pointer and the reset vector for itself. Here they are one
predicate, stated in natural numbers, and each spelling is shown to be it.
-/

namespace EkBareMetal.Boot

open Words Interact

/-- The images every check of the boot accepts. -/
structure Structural (i : BootVerifiedImage) : Prop where
  slot : slotValid i.manifest.slot = true
  base : i.manifest.executionBase = slotBase i.manifest.slot
  least : 236 ≤ i.manifest.payloadLength.toNat
  most : i.manifest.payloadLength.toNat ≤ 111616
  words : i.manifest.payloadLength.toNat % 4 = 0
  msp : i.initialMsp = bootInitialMsp
  thumb : i.resetVector.toNat % 2 = 1
  above : i.manifest.executionBase.toNat ≤ (i.resetVector &&& ~~~1).toNat
  below : (i.resetVector &&& ~~~1).toNat <
    i.manifest.executionBase.toNat + i.manifest.payloadLength.toNat

/-! ## The spellings of one clause -/

section Words

variable {w base length target : UInt32}

theorem and_three_eq_zero : w &&& 3 = 0 ↔ w.toNat % 4 = 0 := by
  rw [← UInt32.toNat_inj]
  have h := toNat_and_mask w (n := 2) (by decide)
  rw [show UInt32.ofNat (2 ^ 2 - 1) = 3 by decide] at h
  rw [h]
  simp

theorem mod_four_eq_zero : w % 4 = 0 ↔ w.toNat % 4 = 0 := by
  rw [← UInt32.toNat_inj, UInt32.toNat_mod]
  simp

theorem and_one_eq_zero : w &&& 1 = 0 ↔ w.toNat % 2 = 0 := by
  rw [← UInt32.toNat_inj]
  have h := toNat_and_mask w (n := 1) (by decide)
  rw [show UInt32.ofNat (2 ^ 1 - 1) = 1 by decide] at h
  rw [h]
  simp

/-- The end of a span that fits. -/
theorem toNat_last (hbase : base.toNat ≤ 0x24000) (hlength : length.toNat ≤ 111616) :
    (base + length).toNat = base.toNat + length.toNat := by
  rw [UInt32.toNat_add]
  omega

/-- The subtraction that comes before the comparison cannot wrap. -/
theorem sub_lt_iff (h : base.toNat ≤ target.toNat) :
    (target - base).toNat < length.toNat ↔
      target.toNat < base.toNat + length.toNat := by
  rw [UInt32.toNat_sub_of_le _ _ (UInt32.le_iff_toNat_le.mpr h)]
  omega

end Words

theorem toNat_slotBase {slot : UInt32} (h : slotValid slot = true) :
    (slotBase slot).toNat ≤ 0x24000 ∧ slotBase slot % bootVectorAlignment = 0 := by
  rcases slotValid_iff.mp h with rfl | rfl <;> decide

/-! ## Manifests -/

section Manifest

variable {m : BootManifest}

theorem manifestValidate_iff :
    bootManifestValidate m = .ok ↔
      slotValid m.slot = true ∧ m.executionBase = slotBase m.slot ∧
        236 ≤ m.payloadLength.toNat ∧ m.payloadLength.toNat ≤ 111616 ∧
        m.payloadLength.toNat % 4 = 0 := by
  constructor
  · intro h
    obtain ⟨hs, hb, hmin, hmax, hal⟩ := manifestValidate_eq_ok h
    rw [UInt32.le_iff_toNat_le] at hmin hmax
    rw [(slotManifest_bounds hs).2] at hmax
    exact ⟨hs, hb, hmin, hmax, and_three_eq_zero.mp hal⟩
  · rintro ⟨hs, hb, hmin, hmax, hal⟩
    have hlast := (slotManifest_bounds hs).2
    have hlow : ¬ m.payloadLength < bootPayloadMin := by
      rw [UInt32.lt_iff_toNat_lt]
      exact Nat.not_lt.mpr hmin
    have hhigh : ¬ m.payloadLength > slotManifest m.slot - slotBase m.slot := by
      rw [gt_iff_lt, UInt32.lt_iff_toNat_lt, hlast]
      exact Nat.not_lt.mpr hmax
    have hwords := and_three_eq_zero.mpr hal
    rw [bootManifestValidate, bootImageSpan, hb]
    simp [hs, hlow, hhigh, hwords]

theorem span_of_valid (h : bootManifestValidate m = .ok) :
    bootImageSpan m.slot m.executionBase m.payloadLength =
      .ok (m.executionBase + m.payloadLength) := by
  rw [bootManifestValidate] at h
  split at h
  · next last hs => rw [hs, (span_slotValid hs).2.2.2.2.2]
  · next e he =>
      subst h
      rw [bootImageSpan] at he
      repeat' (split at he; · cases he)
      cases he

end Manifest

/-! ## The five checks -/

section Checks

variable {i : BootVerifiedImage}

/-- The vectors, once the manifest is valid. -/
def VectorsFit (i : BootVerifiedImage) : Prop :=
  i.initialMsp = bootInitialMsp ∧ i.resetVector.toNat % 2 = 1 ∧
    i.manifest.executionBase.toNat ≤ (i.resetVector &&& ~~~1).toNat ∧
    (i.resetVector &&& ~~~1).toNat <
      i.manifest.executionBase.toNat + i.manifest.payloadLength.toNat

theorem structural_iff :
    Structural i ↔ bootManifestValidate i.manifest = .ok ∧ VectorsFit i := by
  rw [manifestValidate_iff]
  constructor
  · intro h
    exact ⟨⟨h.slot, h.base, h.least, h.most, h.words⟩,
      h.msp, h.thumb, h.above, h.below⟩
  · rintro ⟨⟨hs, hb, hmin, hmax, hal⟩, hmsp, hthumb, habove, hbelow⟩
    exact ⟨hs, hb, hmin, hmax, hal, hmsp, hthumb, habove, hbelow⟩

theorem toNat_end (h : bootManifestValidate i.manifest = .ok) :
    (i.manifest.executionBase + i.manifest.payloadLength).toNat =
      i.manifest.executionBase.toNat + i.manifest.payloadLength.toNat := by
  obtain ⟨hs, hb, -, hmax, -⟩ := manifestValidate_iff.mp h
  refine toNat_last ?_ hmax
  rw [hb]
  exact (toNat_slotBase hs).1

theorem imageAdmissible_iff : imageAdmissible i = true ↔ Structural i := by
  rw [structural_iff]
  constructor
  · intro h
    have hm := imageAdmissible_manifest h
    rw [imageAdmissible, span_of_valid hm, hm] at h
    simp only [BEq.rfl, Bool.true_and, Bool.and_eq_true, beq_iff_eq, bne_iff_ne,
      decide_eq_true_eq, ne_eq, and_one_eq_zero, UInt32.le_iff_toNat_le,
      UInt32.lt_iff_toNat_lt, toNat_end hm] at h
    obtain ⟨⟨⟨hmsp, hthumb⟩, habove⟩, hbelow⟩ := h
    exact ⟨hm, hmsp, by omega, habove, hbelow⟩
  · rintro ⟨hm, hmsp, hthumb, habove, hbelow⟩
    rw [imageAdmissible, span_of_valid hm, hm]
    simp only [BEq.rfl, Bool.true_and, Bool.and_eq_true, beq_iff_eq, bne_iff_ne,
      decide_eq_true_eq, ne_eq, and_one_eq_zero, UInt32.le_iff_toNat_le,
      UInt32.lt_iff_toNat_lt, toNat_end hm]
    exact ⟨⟨⟨hmsp, by omega⟩, habove⟩, hbelow⟩

/-- The entry of the record is that of the manifest. -/
def EntryMatches (r : BootMetadata) (m : BootManifest) : Prop :=
  (r.image m.slot).payloadLength = m.payloadLength ∧
    (r.image m.slot).release = m.release ∧
    (r.image m.slot).payloadHash = m.payloadHash

theorem runningAdmissible_iff {r : BootMetadata} (hr : bootMetadataValidate r = .ok)
    (he : EntryMatches r i.manifest) :
    runningAdmissible r i = true ↔ Structural i := by
  rw [structural_iff]
  have hmatches : bootMetadataImageMatches r i.manifest = .ok ↔
      bootManifestValidate i.manifest = .ok := by
    rw [imageMatches_eq_ok]
    exact ⟨fun h => h.manifest, fun hm =>
      ⟨metadataValidate_eq_ok.mp hr, hm, he.1, he.2.1, he.2.2⟩⟩
  constructor
  · intro h
    rw [runningAdmissible, Bool.and_eq_true, beq_iff_eq] at h
    have hm := hmatches.mp h.1
    have hv := h.2
    rw [span_of_valid hm] at hv
    simp only [Bool.not_eq_true', Bool.or_eq_false_iff, bne_eq_false_iff_eq,
      beq_eq_false_iff_ne, ne_eq, decide_eq_false_iff_not, and_one_eq_zero, ge_iff_le,
      UInt32.le_iff_toNat_le, UInt32.lt_iff_toNat_lt, toNat_end hm, Nat.not_lt,
      Nat.not_le] at hv
    obtain ⟨⟨⟨hmsp, hthumb⟩, habove⟩, hbelow⟩ := hv
    exact ⟨hm, hmsp, by omega, habove, hbelow⟩
  · rintro ⟨hm, hmsp, hthumb, habove, hbelow⟩
    rw [runningAdmissible, Bool.and_eq_true, beq_iff_eq]
    refine ⟨hmatches.mpr hm, ?_⟩
    rw [span_of_valid hm]
    simp only [Bool.not_eq_true', Bool.or_eq_false_iff, bne_eq_false_iff_eq,
      beq_eq_false_iff_ne, ne_eq, decide_eq_false_iff_not, and_one_eq_zero, ge_iff_le,
      UInt32.le_iff_toNat_le, UInt32.lt_iff_toNat_lt, toNat_end hm, Nat.not_lt,
      Nat.not_le]
    exact ⟨⟨⟨hmsp, by omega⟩, habove⟩, hbelow⟩

/-- The watchdog's epoch can be left by one. -/
def EpochOpen (epoch : UInt32) : Prop := epoch ≠ 0 ∧ epoch ≠ uint32Max

theorem handoffAdmit_iff {epoch : UInt32} {observed : BootHandoffContext}
    (hepoch : EpochOpen epoch) (hobserved : ¬ observedRefused observed) :
    (∃ intent, bootHandoffAdmit ⟨i, i.manifest.slot, epoch, observed⟩ = .ok intent) ↔
      Structural i := by
  rw [bootHandoffAdmit]
  constructor
  · rintro ⟨intent, h⟩
    split at h
    · cases h
    next hslot =>
    dsimp only at h
    split at h
    · cases h
    next hall =>
    have hs : slotValid i.manifest.slot = true := by
      rw [slotValid_iff]
      tauto
    simp only [not_or, not_not, ne_eq, and_one_eq_zero, mod_four_eq_zero, ge_iff_le,
      gt_iff_lt, UInt32.lt_iff_toNat_lt, UInt32.le_iff_toNat_le, Nat.not_lt,
      Nat.not_le] at hall
    obtain ⟨-, hb, -, hmin, hmax, hal, hmsp, hthumb, habove, hbelow, -⟩ := hall
    rw [← hb] at habove hbelow
    exact ⟨hs, hb, hmin, hmax, hal, hmsp, by omega, habove,
      (sub_lt_iff habove).mp hbelow⟩
  · intro h
    have hslot := slotValid_iff.mp h.slot
    rw [if_neg (by tauto)]
    dsimp only
    have hbelow := (sub_lt_iff h.above).mpr h.below
    have hthumb := h.thumb
    rw [if_neg]
    · exact ⟨_, rfl⟩
    simp only [not_or, not_not, ne_eq, and_one_eq_zero, mod_four_eq_zero, ge_iff_le,
      gt_iff_lt, UInt32.lt_iff_toNat_lt, UInt32.le_iff_toNat_le, Nat.not_lt,
      Nat.not_le, ← h.base]
    refine ⟨trivial, trivial, ?_, h.least, h.most, h.words, h.msp, by omega, h.above,
      hbelow, hobserved, hepoch.1, hepoch.2⟩
    rw [h.base]
    exact (toNat_slotBase h.slot).2

/-- The intent an image is handed over with. -/
def copiedIntent (i : BootVerifiedImage) (epoch : UInt32) : BootHandoffIntent where
  vtor := i.manifest.executionBase
  msp := i.initialMsp
  resetVector := i.resetVector
  control := 0
  primask := 0
  basepri := 0
  faultmask := 0
  applicationEpoch := epoch

theorem prepareAdmits_iff {epoch : UInt32} :
    prepareAdmits true epoch i (copiedIntent i epoch) = true ↔ Structural i := by
  have hslot : i.manifest.slot > 1 ↔ ¬ slotValid i.manifest.slot = true := by
    rw [slotValid_iff_le, UInt32.not_le]
  have hbase : (if i.manifest.slot = 0 then 0x8800 else 0x24000 : UInt32) =
      slotBase i.manifest.slot := rfl
  have hconst : (0x20010000 : UInt32) = bootInitialMsp := rfl
  simp only [prepareAdmits, copiedIntent, hbase, hconst, Bool.not_true, Bool.false_or,
    Bool.not_eq_true', Bool.or_eq_false_iff, bne_eq_false_iff_eq, beq_eq_false_iff_ne,
    decide_eq_false_iff_not, hslot, not_not, ne_eq, and_one_eq_zero, and_three_eq_zero,
    ge_iff_le, gt_iff_lt, UInt32.lt_iff_toNat_lt, UInt32.le_iff_toNat_le, Nat.not_lt,
    Nat.not_le, and_true]
  constructor
  · rintro ⟨⟨⟨⟨⟨⟨⟨⟨hs, hb⟩, hmin⟩, hmax⟩, hal⟩, habove⟩, hbelow⟩, hmsp⟩, hthumb⟩
    exact ⟨hs, hb, hmin, hmax, hal, hmsp, by omega, habove,
      (sub_lt_iff habove).mp hbelow⟩
  · intro h
    have hthumb := h.thumb
    exact ⟨⟨⟨⟨⟨⟨⟨⟨h.slot, h.base⟩, h.least⟩, h.most⟩, h.words⟩, h.above⟩,
      (sub_lt_iff h.above).mpr h.below⟩, h.msp⟩, by omega⟩

theorem vectorResult_iff (hm : bootManifestValidate i.manifest = .ok) :
    vectorResult i.manifest i.initialMsp i.resetVector = .ok ↔ VectorsFit i := by
  rw [vectorResult]
  constructor
  · intro h
    split at h
    · cases h
    next hmsp =>
    split at h
    · cases h
    next hthumb =>
    dsimp only at h
    split at h
    · cases h
    next hrange =>
    simp only [not_or, ge_iff_le, UInt32.lt_iff_toNat_lt, UInt32.le_iff_toNat_le,
      toNat_end hm, Nat.not_lt, Nat.not_le] at hrange
    rw [and_one_eq_zero] at hthumb
    exact ⟨not_not.mp hmsp, by omega, hrange.1, hrange.2⟩
  · rintro ⟨hmsp, hthumb, habove, hbelow⟩
    have hodd : ¬ i.resetVector &&& 1 = 0 := by
      rw [and_one_eq_zero]
      omega
    rw [if_neg (not_not.mpr hmsp), if_neg hodd]
    dsimp only
    rw [if_neg]
    simp only [not_or, ge_iff_le, UInt32.lt_iff_toNat_lt, UInt32.le_iff_toNat_le,
      toNat_end hm, Nat.not_lt, Nat.not_le]
    exact ⟨habove, hbelow⟩

end Checks

/-! ## An image that verifies -/

section Wire

variable {m : BootManifest}

@[simp] theorem length_manifestWire : (manifestWire m).length = 160 := by
  simp [manifestWire, manifestDomain, m.payloadHash.property, m.signature.property]

/-- A valid manifest survives its own wire. -/
theorem decode_manifestWire (h : bootManifestValidate m = .ok) :
    bootManifestDecode (manifestWire m) = .ok m := by
  have hh := m.payloadHash.property
  have hs := m.signature.property
  have hd : manifestDomain.length = 16 := rfl
  have hlen : ¬ (manifestWire m).length < bootManifestBytes := by simp
  have hreserved : get32 (List.replicate 4 0) = 0 := by decide
  have hzero : zeroBytes (List.replicate 16 0) = true := by decide
  rw [bootManifestDecode, dif_neg hlen]
  simp only [manifestWire, slice_append_right, slice_append_left, slice_all,
    length_put32, hd, hh, hs, List.length_replicate, get32_put32, Nat.reduceLeDiff,
    Nat.reduceSub, Nat.le_refl, Nat.reduceAdd, hreserved, hzero]
  simp [h]

/-- The memory of a board whose slot begins with two vectors. -/
def vectorMemory (i : BootVerifiedImage) : ByteMem :=
  ByteMem.write (fun _ => 0) i.manifest.executionBase.toNat
    (put32 i.initialMsp ++ put32 i.resetVector)

/-- A library that finds the signature and the hash of one manifest right. -/
def acceptingCrypto (m : BootManifest) : Crypto where
  sha256 _ := m.payloadHash
  ecdsaVerify _ _ := true

theorem storedResult_structural {i : BootVerifiedImage} (h : Structural i) :
    storedResult (acceptingCrypto i.manifest) (vectorMemory i)
      (manifestWire i.manifest) i.manifest.slot = .ok i := by
  obtain ⟨hm, hv⟩ := structural_iff.mp h
  have hadmitted : admittedManifest (acceptingCrypto i.manifest)
      (manifestWire i.manifest) i.manifest.slot = .ok i.manifest :=
    admittedManifest_ok.mpr ⟨h.slot, decode_manifestWire hm, rfl, rfl⟩
  have hread : slice (storedPayload (vectorMemory i) i.manifest) 0 8 =
      put32 i.initialMsp ++ put32 i.resetVector := by
    have hleast := h.least
    rw [storedPayload, ByteMem.slice_read (by omega)]
    exact ByteMem.read_write_same _ _ (put32 i.initialMsp ++ put32 i.resetVector)
  have hmsp : get32 (put32 i.initialMsp ++ put32 i.resetVector) = i.initialMsp :=
    le32_bytes32_append _ _
  have hreset : get32 ((put32 i.initialMsp ++ put32 i.resetVector).drop 4) =
      i.resetVector := by
    rw [List.drop_left' (length_put32 _), get32_put32]
  have hhash : (acceptingCrypto i.manifest).sha256
      (storedPayload (vectorMemory i) i.manifest) = i.manifest.payloadHash := rfl
  rw [storedResult, hadmitted]
  dsimp only
  rw [hread, imageResult, if_neg (not_not.mpr hhash), hmsp, hreset]
  dsimp only
  rw [(vectorResult_iff hm).mpr hv]

theorem verifies_iff {i : BootVerifiedImage} :
    (∃ C wire tr, Runs (bootVerifyStored C wire i.manifest.slot) tr (.ok i)) ↔
      Structural i := by
  constructor
  · rintro ⟨C, wire, tr, hr⟩
    have hverified := (verifyStored_safe C wire i.manifest.slot tr _ hr).2 i rfl
    exact imageAdmissible_iff.mp hverified.admissible
  · intro h
    obtain ⟨tr, hr, -⟩ := runs_eval (verifyAnswers (vectorMemory i))
      (bootVerifyStored (acceptingCrypto i.manifest) (manifestWire i.manifest)
        i.manifest.slot)
    rw [board_verify, storedResult_structural h] at hr
    exact ⟨_, _, tr, hr⟩

end Wire

/-! ## The result -/

/-- The verifier, the lifecycle, the handoff, the snapshot and the prepared
startup accept the same images. -/
theorem image_checks_agree (i : BootVerifiedImage) :
    ((∃ C wire tr, Runs (bootVerifyStored C wire i.manifest.slot) tr (.ok i)) ↔
        Structural i) ∧
      (imageAdmissible i = true ↔ Structural i) ∧
      (∀ epoch observed, EpochOpen epoch → ¬ observedRefused observed →
        ((∃ intent, bootHandoffAdmit ⟨i, i.manifest.slot, epoch, observed⟩ =
          .ok intent) ↔ Structural i)) ∧
      (∀ r, bootMetadataValidate r = .ok → EntryMatches r i.manifest →
        (runningAdmissible r i = true ↔ Structural i)) ∧
      (∀ epoch, prepareAdmits true epoch i (copiedIntent i epoch) = true ↔
        Structural i) :=
  ⟨verifies_iff, imageAdmissible_iff, fun _ _ he ho => handoffAdmit_iff he ho,
    fun _ hr he => runningAdmissible_iff hr he, fun _ => prepareAdmits_iff⟩

end EkBareMetal.Boot

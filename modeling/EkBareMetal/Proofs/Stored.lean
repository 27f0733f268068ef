import EkBareMetal.Proofs.Verify
import EkBareMetal.Lib.Memory

/-!
# Verification against the bytes that are there

`storedResult` says in one line what verification is for: decode and
authenticate the manifest, hash the whole payload, look at its vectors. The
program does the same in chunks, with callbacks between them. Against a reader
that returns the bytes of a memory the two agree, except that the program may
also end with one of the three results that say nothing about the image.
-/

namespace EkBareMetal.Boot

open Words Interact

/-- The manifest half of a verification. -/
def admittedManifest (C : Crypto) (wire : List UInt8) (slot : UInt32) :
    Except BootVerifyResult BootManifest :=
  if !slotValid slot then .error .errorArgument
  else match bootManifestDecode wire with
  | .error _ => .error .errorFormat
  | .ok m =>
      if m.slot ≠ slot then .error .errorTarget
      else if !authentic C wire m then .error .errorSignature
      else .ok m

/-- The payload bytes a manifest speaks of. -/
def storedPayload (mem : ByteMem) (m : BootManifest) : List UInt8 :=
  mem.read m.executionBase.toNat m.payloadLength.toNat

def storedResult (C : Crypto) (mem : ByteMem) (wire : List UInt8) (slot : UInt32) :
    Except BootVerifyResult BootVerifiedImage :=
  match admittedManifest C wire slot with
  | .error e => .error e
  | .ok m => imageResult C m (storedPayload mem m) (slice (storedPayload mem m) 0 8)

theorem admittedManifest_ok {C : Crypto} {wire : List UInt8} {slot : UInt32}
    {m : BootManifest} :
    admittedManifest C wire slot = .ok m ↔
      slotValid slot = true ∧ bootManifestDecode wire = .ok m ∧ m.slot = slot ∧
        authentic C wire m = true := by
  unfold admittedManifest
  constructor
  · intro h
    split at h
    · cases h
    next hs =>
    split at h
    · cases h
    next m' hd =>
    split at h
    · cases h
    next hslot =>
    split at h
    · cases h
    next hsig =>
    injection h with h
    subst h
    exact ⟨by simpa using hs, hd, not_not.mp hslot, by simpa using hsig⟩
  · rintro ⟨hs, hd, hslot, hsig⟩
    rw [if_neg (by simp [hs]), hd]
    simp only [hslot, hsig]
    simp

/-! ## Answers -/

/-- A reader that answers at all answers the bytes of `mem`. -/
def Truthful (mem : ByteMem) (e : Event VerifySig) : Prop :=
  ∀ address requested bytes,
    e = ⟨.read address requested, some bytes⟩ →
      bytes.val = mem.read address.toNat requested

/-- The request did what it was for. -/
def Completes : Event VerifySig → Prop
  | ⟨.read _ _, r⟩ => r ≠ none
  | ⟨.progress _ _ _, go⟩ => go = true
  | ⟨.library, available⟩ => available = true

/-- The results that speak of the attempt and not of the image. -/
def Operational (E : Event VerifySig → Prop) (e : BootVerifyResult) : Prop :=
  (e = .errorCrypto ∨ e = .errorRead ∨ e = .errorAborted) ∧
    ∃ ev, E ev ∧ ¬ Completes ev

section Given

variable {E : Event VerifySig → Prop} {mem : ByteMem}

theorem operational_progress {phase : BootVerifyPhase} {completed total : UInt32}
    {go : Bool} (h : E ⟨.progress phase completed total, go⟩) (hg : (!go) = true) :
    Operational E .errorAborted :=
  ⟨.inr (.inr rfl), _, h, fun hc => by simp [Completes] at hc; simp [hc] at hg⟩

theorem operational_library {available : Bool} (h : E ⟨.library, available⟩)
    (ha : (!available) = true) : Operational E .errorCrypto :=
  ⟨.inl rfl, _, h, fun hc => by simp [Completes] at hc; simp [hc] at ha⟩

theorem verifyManifest_given (C : Crypto) (wire : List UInt8) (slot : UInt32) :
    Given E (bootVerifyManifest C wire slot) fun r =>
      r = admittedManifest C wire slot ∨ ∃ e, r = .error e ∧ Operational E e := by
  unfold bootVerifyManifest admittedManifest
  cases hd : bootManifestDecode wire with
  | error e =>
      split
      · exact given_pure (.inl rfl)
      · exact given_pure (.inl rfl)
  | ok m =>
      split
      · exact given_pure (.inl rfl)
      dsimp only
      split
      · exact given_pure (.inl rfl)
      refine given_ask fun go hgo => ?_
      split
      · next hg => exact given_pure (.inr ⟨_, rfl, operational_progress hgo hg⟩)
      refine given_ask fun available hav => ?_
      split
      · next ha => exact given_pure (.inr ⟨_, rfl, operational_library hav ha⟩)
      split
      · exact given_pure (.inl rfl)
      refine given_ask fun go hgo => ?_
      split
      · next hg => exact given_pure (.inr ⟨_, rfl, operational_progress hgo hg⟩)
      · exact given_pure (.inl rfl)

theorem first_chunk_size {total : UInt32} (h : bootPayloadMin.toNat ≤ total.toNat) :
    8 ≤ (if total - 0 > bootVerifyChunkBytes then bootVerifyChunkBytes
      else total - 0).toNat := by
  have h236 : bootPayloadMin.toNat = 236 := rfl
  have hchunk : bootVerifyChunkBytes.toNat = 256 := rfl
  split
  · omega
  · rw [UInt32.sub_zero]
    omega

/-- The vectors come out of the first chunk, which is long enough for them. -/
theorem first_chunk_vectors {mem : ByteMem} {m : BootManifest} {n : Nat}
    (hm : bootManifestValidate m = .ok) (hn : 8 ≤ n) :
    slice (mem.read m.executionBase.toNat n) 0 8 =
      slice (storedPayload mem m) 0 8 := by
  obtain ⟨-, -, hmin, -⟩ := manifestValidate_eq_ok hm
  have h236 : bootPayloadMin.toNat = 236 := rfl
  rw [UInt32.le_iff_toNat_le] at hmin
  rw [storedPayload, ByteMem.slice_read (by omega), ByteMem.slice_read (by omega)]

/-- What the hash loop has been fed when it ends. -/
def hashedPayload (mem : ByteMem) (m : BootManifest) : List UInt8 × List UInt8 :=
  (storedPayload mem m, slice (storedPayload mem m) 0 8)

theorem hashPayload_given (hE : ∀ e, E e → Truthful mem e) {m : BootManifest}
    (hm : bootManifestValidate m = .ok) (completed : UInt32)
    (sha vectors : List UInt8) (hle : completed ≤ m.payloadLength)
    (hsha : sha = mem.read m.executionBase.toNat completed.toNat)
    (hvec : completed ≠ 0 → vectors = slice (storedPayload mem m) 0 8) :
    Given E (hashPayload m completed sha vectors) fun r =>
      r = .ok (hashedPayload mem m) ∨ ∃ e, r = .error e ∧ Operational E e := by
  obtain ⟨hb, hb'⟩ := payload_bounds hm
  obtain ⟨-, -, hmin, -⟩ := manifestValidate_eq_ok hm
  induction hn : (m.payloadLength - completed).toNat using Nat.strong_induction_on
    generalizing completed sha vectors with
  | _ n ih =>
      rw [hashPayload]
      split
      · next hlt =>
          obtain ⟨hpos, hend, -, hadd⟩ := chunk_bounds hlt
          have haddr : (m.executionBase + completed).toNat =
              m.executionBase.toNat + completed.toNat := by
            rw [UInt32.toNat_add]
            omega
          refine given_ask fun r hr => ?_
          cases r with
          | none =>
              exact given_pure (.inr ⟨_, rfl, .inr (.inl rfl), _, hr,
                fun hc => hc rfl⟩)
          | some buffer =>
              have hbuf := hE _ hr _ _ buffer rfl
              rw [haddr] at hbuf
              refine given_ask fun available hav => ?_
              split
              · next ha =>
                  exact given_pure (.inr ⟨_, rfl, operational_library hav ha⟩)
              refine given_ask fun go hgo => ?_
              split
              · next hg =>
                  exact given_pure (.inr ⟨_, rfl, operational_progress hgo hg⟩)
              refine ih _ (hn ▸ chunk_decreases hlt) _ _ _ ?_ ?_ ?_ rfl
              · rw [UInt32.le_iff_toNat_le, hadd]
                exact hend
              · rw [hadd, ByteMem.read_add, ← hsha, hbuf]
              · intro _
                split
                · next h0 =>
                    subst h0
                    rw [hbuf]
                    refine first_chunk_vectors hm ?_
                    rw [UInt32.le_iff_toNat_le] at hmin
                    exact first_chunk_size hmin
                · next h0 => exact hvec h0
      · next hge =>
          have heq : completed = m.payloadLength := by
            rw [UInt32.not_lt] at hge
            exact UInt32.le_antisymm hle hge
          subst heq
          have h0 : m.payloadLength ≠ 0 := by
            intro h0
            rw [h0] at hmin
            exact absurd hmin (by decide)
          refine given_pure (.inl ?_)
          rw [hsha, hvec h0]
          rfl

/-- Verification of what a truthful reader shows is `storedResult`, unless the
attempt itself failed. -/
theorem verifyStored_given (hE : ∀ e, E e → Truthful mem e) (C : Crypto)
    (wire : List UInt8) (slot : UInt32) :
    Given E (bootVerifyStored C wire slot) fun r =>
      r = storedResult C mem wire slot ∨ ∃ e, r = .error e ∧ Operational E e := by
  unfold bootVerifyStored storedResult
  refine given_bind (verifyManifest_given C wire slot) fun r hr => ?_
  rcases hr with rfl | ⟨e, rfl, he⟩
  swap
  · exact given_pure (.inr ⟨e, rfl, he⟩)
  cases hadm : admittedManifest C wire slot with
  | error e => exact given_pure (.inl rfl)
  | ok m =>
      obtain ⟨-, hd, -⟩ := admittedManifest_ok.mp hadm
      refine given_ask fun available hav => ?_
      split
      · next ha => exact given_pure (.inr ⟨_, rfl, operational_library hav ha⟩)
      refine given_bind (hashPayload_given hE (manifestDecode_ok hd) 0 [] []
        (UInt32.zero_le) rfl fun h0 => absurd rfl h0) fun r hr => ?_
      rcases hr with rfl | ⟨e, rfl, he⟩
      · refine given_ask fun available hav => ?_
        split
        · next ha => exact given_pure (.inr ⟨_, rfl, operational_library hav ha⟩)
        · exact given_pure (.inl rfl)
      · exact given_pure (.inr ⟨e, rfl, he⟩)

end Given

theorem storedResult_ok {C : Crypto} {mem : ByteMem} {wire : List UInt8}
    {slot : UInt32} {image : BootVerifiedImage}
    (h : storedResult C mem wire slot = .ok image) :
    VerifiedFor C wire slot image ∧
      C.sha256 (storedPayload mem image.manifest) = image.manifest.payloadHash := by
  unfold storedResult at h
  split at h
  · cases h
  · next m hadm =>
      obtain ⟨-, hd, hslot, hsig⟩ := admittedManifest_ok.mp hadm
      obtain ⟨hh, rfl, hv⟩ := imageResult_ok h
      exact ⟨⟨hd, hslot, hsig, hv⟩, hh⟩

/-- Only the payload bytes matter. -/
theorem storedResult_congr {C : Crypto} {mem mem' : ByteMem} {wire : List UInt8}
    {slot : UInt32}
    (h : ByteMem.Agree mem mem' (slotBase slot).toNat bootPayloadMax.toNat) :
    storedResult C mem wire slot = storedResult C mem' wire slot := by
  unfold storedResult
  cases hadm : admittedManifest C wire slot with
  | error e => rfl
  | ok m =>
      obtain ⟨hs, hd, hslot, -⟩ := admittedManifest_ok.mp hadm
      obtain ⟨-, hb, -, hl, -⟩ := manifestValidate_eq_ok (manifestDecode_ok hd)
      have hmax := (slotManifest_bounds hs).2
      rw [hslot] at hb hl
      rw [UInt32.le_iff_toNat_le, hmax] at hl
      have hp : storedPayload mem m = storedPayload mem' m := by
        rw [storedPayload, storedPayload, hb]
        exact (h.mono (Nat.le_refl _) (by omega)).read_eq
      simp only [hp]

/-! ## A board that answers -/

/-- The callbacks of a board whose storage holds `mem` and never fails. -/
def verifyAnswers (mem : ByteMem) : (op : VerifyOp) → VerifySig.Ans op
  | .read address requested =>
      some ⟨mem.read address.toNat requested, ByteMem.length_readAt mem address requested⟩
  | .progress _ _ _ => true
  | .library => true

theorem verifyAnswers_complete (mem : ByteMem) (op : VerifyOp) :
    Truthful mem ⟨op, verifyAnswers mem op⟩ ∧ Completes ⟨op, verifyAnswers mem op⟩ := by
  cases op with
  | read address requested =>
      refine ⟨fun a n bytes he => ?_, fun hn => by cases hn⟩
      injection he with hop hans
      cases hop
      cases hans
      rfl
  | progress phase completed total =>
      exact ⟨fun a n bytes he => (by cases he), rfl⟩
  | library => exact ⟨fun a n bytes he => (by cases he), rfl⟩

/-- On such a board no attempt fails. -/
theorem board_given {mem : ByteMem} {β : Type} {p : Prog VerifySig (Except BootVerifyResult β)}
    {res : Except BootVerifyResult β}
    (h : Given (fun e => Truthful mem e ∧ Completes e) p fun r =>
      r = res ∨ ∃ e, r = .error e ∧
        Operational (fun e => Truthful mem e ∧ Completes e) e) :
    p.eval (verifyAnswers mem) = res := by
  rcases h.eval (verifyAnswers_complete mem) with h | ⟨e, -, -, ev, hev, hno⟩
  · exact h
  · exact absurd hev.2 hno

theorem board_manifest (C : Crypto) (mem : ByteMem) (wire : List UInt8) (slot : UInt32) :
    (bootVerifyManifest C wire slot).eval (verifyAnswers mem) =
      admittedManifest C wire slot := board_given (verifyManifest_given C wire slot)

theorem board_verify (C : Crypto) (mem : ByteMem) (wire : List UInt8)
    (slot : UInt32) :
    (bootVerifyStored C wire slot).eval (verifyAnswers mem) =
      storedResult C mem wire slot :=
  board_given (verifyStored_given (fun _ he => he.1) C wire slot)

/-! ## A package

The smallest package of each slot that the tests of the verifier carry: its
manifest is signed with the demo key, and its payload is the test's pattern
with a stack pointer and a reset vector in front. `packageCrypto` knows the
digests and signatures of these packages and no others. -/

def packageHash (slot : UInt32) : List UInt8 :=
  if slot = bootSlotA then
    [0x16, 0xc7, 0x4c, 0x50, 0x11, 0xec, 0xc8, 0xc7, 0xa8, 0xbf, 0x01, 0x14,
     0x35, 0xdd, 0x7c, 0x30, 0xd5, 0xdb, 0xec, 0xce, 0x77, 0x4b, 0x38, 0xb2,
     0x22, 0x3f, 0xff, 0x78, 0x3a, 0x39, 0x61, 0x30]
  else
    [0x5f, 0xd6, 0xe1, 0x40, 0x9f, 0x58, 0xf5, 0x2d, 0x87, 0x27, 0x4f, 0x31,
     0x80, 0x51, 0x0b, 0x41, 0xbf, 0x14, 0x52, 0xef, 0x0a, 0x98, 0x54, 0x39,
     0x1a, 0x54, 0x60, 0x6a, 0x04, 0xb8, 0x72, 0x96]

def packageSignature (slot : UInt32) : List UInt8 :=
  if slot = bootSlotA then
    [0x47, 0xb4, 0x08, 0xee, 0xec, 0x39, 0xf9, 0x4d, 0x66, 0xdd, 0x23, 0x11,
     0x4b, 0x62, 0x31, 0x7b, 0x02, 0xe8, 0x01, 0xa1, 0xdb, 0xbd, 0x79, 0x50,
     0x35, 0x49, 0xc8, 0xef, 0xd4, 0x49, 0xe3, 0x66, 0xdb, 0x28, 0xc0, 0x71,
     0xaf, 0x80, 0x9e, 0xd5, 0x94, 0x52, 0x25, 0x08, 0x4e, 0x80, 0xfe, 0x50,
     0x60, 0x63, 0xf4, 0x4c, 0x43, 0x48, 0x23, 0xbf, 0x13, 0x6d, 0x66, 0x0f,
     0x9f, 0x51, 0xa4, 0x47]
  else
    [0x2e, 0x3d, 0x06, 0x06, 0xa2, 0x54, 0xe7, 0x5e, 0x6a, 0x20, 0x88, 0xf6,
     0x73, 0xf0, 0x29, 0x58, 0xa5, 0x59, 0x9e, 0x40, 0x91, 0x8d, 0x64, 0x90,
     0xcb, 0xc9, 0x8d, 0x32, 0x20, 0x64, 0xd3, 0x7c, 0x09, 0x27, 0xb4, 0xc7,
     0x50, 0x8b, 0xc6, 0x9a, 0x0e, 0xbf, 0xd7, 0x46, 0x8c, 0x56, 0xcb, 0xaf,
     0x06, 0x67, 0x5c, 0x5e, 0xf0, 0x6c, 0x72, 0x66, 0x29, 0xf9, 0xd5, 0x68,
     0x4a, 0x62, 0x6e, 0xb4]

/-- The digest that was signed, of the first 96 bytes of the manifest. -/
def packageDigest (slot : UInt32) : List UInt8 :=
  if slot = bootSlotA then
    [0x02, 0xc7, 0xec, 0xe2, 0xab, 0xd9, 0x19, 0xbb, 0x8d, 0xf8, 0x32, 0xf5,
     0x92, 0x06, 0x12, 0x90, 0x14, 0x57, 0x44, 0xda, 0x44, 0x9f, 0x58, 0xa5,
     0xb7, 0x2a, 0x46, 0x3a, 0x68, 0xfa, 0xb7, 0xda]
  else
    [0x65, 0x83, 0xe4, 0x72, 0xf5, 0x09, 0x6d, 0xd5, 0xe1, 0xe4, 0x87, 0x69,
     0x8e, 0xc5, 0xa2, 0xf1, 0x90, 0x6a, 0xe7, 0xf5, 0xf9, 0x3f, 0x61, 0x0c,
     0x07, 0x15, 0x16, 0x83, 0xb7, 0x88, 0x17, 0xe6]

theorem length_packageHash (slot : UInt32) : (packageHash slot).length = 32 := by
  unfold packageHash
  split
  · rfl
  · rfl

theorem length_packageSignature (slot : UInt32) :
    (packageSignature slot).length = 64 := by
  unfold packageSignature
  split
  · rfl
  · rfl

theorem length_packageDigest (slot : UInt32) :
    (packageDigest slot).length = 32 := by
  unfold packageDigest
  split
  · rfl
  · rfl

def packagePrefix (slot : UInt32) : List UInt8 :=
  manifestDomain ++ put32 1 ++ put32 160 ++ put32 1 ++ put32 slot ++
    put32 (slotBase slot) ++ put32 236 ++ put32 0xffffffff ++ put32 0 ++
    packageHash slot ++ List.replicate 16 0

def packageWire (slot : UInt32) : List UInt8 :=
  packagePrefix slot ++ packageSignature slot

/-- The test's payload pattern between the vectors and the end. -/
def packageByte (slot : UInt32) (i : Nat) : UInt8 :=
  if 100 ≤ i ∧ i < 108 ∨ 232 ≤ i then 0xff
  else UInt8.ofNat (i * 17 + slot.toNat * 31)

def packagePayload (slot : UInt32) : List UInt8 :=
  put32 bootInitialMsp ++ put32 (slotBase slot + 9) ++
    (List.range 228).map fun i => packageByte slot (i + 8)

def packageManifest (slot : UInt32) : BootManifest where
  slot := slot
  executionBase := slotBase slot
  payloadLength := 236
  release := 0xffffffff
  payloadHash := ⟨packageHash slot, length_packageHash slot⟩
  signature := ⟨packageSignature slot, length_packageSignature slot⟩

def packageImage (slot : UInt32) : BootVerifiedImage :=
  ⟨packageManifest slot, bootInitialMsp, slotBase slot + 9⟩

def packageCrypto : Crypto where
  sha256 bytes :=
    if bytes = packagePayload bootSlotA then
      ⟨packageHash bootSlotA, length_packageHash _⟩
    else if bytes = packagePayload bootSlotB then
      ⟨packageHash bootSlotB, length_packageHash _⟩
    else if bytes = packagePrefix bootSlotA then
      ⟨packageDigest bootSlotA, length_packageDigest _⟩
    else if bytes = packagePrefix bootSlotB then
      ⟨packageDigest bootSlotB, length_packageDigest _⟩
    else ⟨List.replicate 32 0, length_zeroHash⟩
  ecdsaVerify digest signature :=
    (digest.val = packageDigest bootSlotA ∧
      signature.val = packageSignature bootSlotA) ∨
    (digest.val = packageDigest bootSlotB ∧
      signature.val = packageSignature bootSlotB)

set_option maxRecDepth 20000 in
theorem package_admitted {slot : UInt32} (hs : slotValid slot = true) :
    admittedManifest packageCrypto (packageWire slot) slot =
      .ok (packageManifest slot) := by
  rcases slotValid_iff.mp hs with rfl | rfl
  · decide
  · decide

set_option maxRecDepth 20000 in
theorem package_image {slot : UInt32} (hs : slotValid slot = true) :
    imageResult packageCrypto (packageManifest slot) (packagePayload slot)
      (slice (packagePayload slot) 0 8) = .ok (packageImage slot) := by
  rcases slotValid_iff.mp hs with rfl | rfl
  · decide
  · decide

/-- The package verifies where its payload is stored. -/
theorem package_stored {slot : UInt32} (hs : slotValid slot = true)
    {mem : ByteMem}
    (h : mem.read (slotBase slot).toNat 236 = packagePayload slot) :
    storedResult packageCrypto mem (packageWire slot) slot =
      .ok (packageImage slot) := by
  have hp : storedPayload mem (packageManifest slot) = packagePayload slot := h
  unfold storedResult
  rw [package_admitted hs]
  simp only [hp]
  exact package_image hs

end EkBareMetal.Boot

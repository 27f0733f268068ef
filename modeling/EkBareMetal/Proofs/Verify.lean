import EkBareMetal.Proofs.Lifecycle

/-!
# What a verification establishes

Whatever the callbacks answer, a verification that succeeds has seen a
manifest for the slot it was asked about, with the image checks passed, and it
has read nothing outside that slot's payload.
-/

namespace EkBareMetal.Boot

open Words Interact

theorem slotManifest_bounds {s : UInt32} (hs : slotValid s = true) :
    (slotBase s).toNat + bootPayloadMax.toNat ≤ (slotManifest s).toNat ∧
      (slotManifest s - slotBase s).toNat = bootPayloadMax.toNat := by
  rcases slotValid_iff.mp hs with rfl | rfl <;> decide

theorem manifestDecode_ok {wire : List UInt8} {m : BootManifest}
    (h : bootManifestDecode wire = .ok m) : bootManifestValidate m = .ok := by
  unfold bootManifestDecode at h
  split at h
  · cases h
  repeat' (split at h; · cases h)
  dsimp only at h
  split at h
  · injection h with h
    rw [← h]
    assumption
  · cases h

theorem manifestDecode_length {wire : List UInt8} {m : BootManifest}
    (h : bootManifestDecode wire = .ok m) : bootManifestBytes ≤ wire.length := by
  unfold bootManifestDecode at h
  split at h
  · cases h
  · next hlen => exact Nat.not_lt.mp hlen

/-- The payload of an admitted manifest ends before the manifest page. -/
theorem payload_bounds {m : BootManifest} (h : bootManifestValidate m = .ok) :
    m.executionBase.toNat + m.payloadLength.toNat ≤ (slotManifest m.slot).toNat ∧
      m.executionBase.toNat + m.payloadLength.toNat < 2 ^ 32 := by
  obtain ⟨hs, hb, -, hl, -⟩ := manifestValidate_eq_ok h
  obtain ⟨h1, h2⟩ := slotManifest_bounds hs
  have hlt := (slotManifest m.slot).toNat_lt
  rw [UInt32.le_iff_toNat_le, h2] at hl
  rw [hb]
  omega

/-- A request of a verification of `slot` reads only payload of `slot`. -/
def ReadsPayload (slot : UInt32) (e : Event VerifySig) : Prop :=
  ∀ address requested, e.op = .read address requested →
    (slotBase slot).toNat ≤ address.toNat ∧
      address.toNat + requested ≤ (slotManifest slot).toNat

theorem verifyManifest_safe (C : Crypto) (wire : List UInt8) (slot : UInt32) :
    Safe (ReadsPayload slot) (bootVerifyManifest C wire slot) fun r =>
      ∀ m, r = .ok m → bootManifestDecode wire = .ok m ∧ m.slot = slot ∧
        authentic C wire m = true := by
  have hno : ∀ {phase completed total r},
      ReadsPayload slot ⟨.progress phase completed total, r⟩ := by
    intro phase completed total r address requested he
    cases he
  unfold bootVerifyManifest
  split
  · exact safe_pure fun m hm => by cases hm
  split
  · exact safe_pure fun m hm => by cases hm
  next manifest hd =>
  split
  · exact safe_pure fun m hm => by cases hm
  next hslot =>
  refine safe_ask fun go => ⟨hno, ?_⟩
  split
  · exact safe_pure fun m hm => by cases hm
  refine safe_ask fun available => ⟨fun a n he => (by cases he), ?_⟩
  split
  · exact safe_pure fun m hm => by cases hm
  split
  · exact safe_pure fun m hm => by cases hm
  next hsig =>
  refine safe_ask fun go => ⟨hno, ?_⟩
  split
  · exact safe_pure fun m hm => by cases hm
  · refine safe_pure fun m hm => ?_
    injection hm with hm
    subst hm
    exact ⟨hd, not_not.mp hslot, by simpa using hsig⟩

/-- The size of the next chunk. -/
theorem chunk_bounds {completed total : UInt32} (h : completed < total) :
    let requested := if total - completed > bootVerifyChunkBytes then
      bootVerifyChunkBytes else total - completed
    0 < requested.toNat ∧ completed.toNat + requested.toNat ≤ total.toNat ∧
      requested.toNat ≤ 256 ∧
      (completed + requested).toNat = completed.toNat + requested.toNat := by
  have hlt := total.toNat_lt
  have hsub : (total - completed).toNat = total.toNat - completed.toNat :=
    UInt32.toNat_sub_of_le _ _ (UInt32.le_of_lt h)
  rw [UInt32.lt_iff_toNat_lt] at h
  have hchunk : bootVerifyChunkBytes.toNat = 256 := rfl
  dsimp only
  rw [UInt32.toNat_add]
  split
  · next hgt =>
      rw [gt_iff_lt, UInt32.lt_iff_toNat_lt] at hgt
      omega
  · next hgt =>
      rw [gt_iff_lt, UInt32.lt_iff_toNat_lt] at hgt
      omega

theorem hashPayload_safe {m : BootManifest} (hm : bootManifestValidate m = .ok)
    (completed : UInt32) (sha vectors : List UInt8) :
    Safe (ReadsPayload m.slot) (hashPayload m completed sha vectors)
      fun _ => True := by
  induction hn : (m.payloadLength - completed).toNat using Nat.strong_induction_on
    generalizing completed sha vectors with
  | _ n ih =>
      rw [hashPayload]
      split
      · next hlt =>
          obtain ⟨-, hend, -, hadd⟩ := chunk_bounds hlt
          obtain ⟨hb, hb'⟩ := payload_bounds hm
          obtain ⟨-, hbase, -⟩ := manifestValidate_eq_ok hm
          have haddr : (m.executionBase + completed).toNat =
              m.executionBase.toNat + completed.toNat := by
            rw [UInt32.toNat_add]
            omega
          refine safe_ask fun r => ⟨?_, ?_⟩
          · intro address requested he
            injection he with ha hr
            subst ha hr
            rw [haddr, ← hbase]
            omega
          split
          · exact safe_pure trivial
          refine safe_ask fun available => ⟨fun a n he => (by cases he), ?_⟩
          split
          · exact safe_pure trivial
          refine safe_ask fun go => ⟨fun a n he => (by cases he), ?_⟩
          split
          · exact safe_pure trivial
          · exact ih _ (hn ▸ chunk_decreases hlt) _ _ _ rfl
      · exact safe_pure trivial

/-- What a verified image is, whoever verified it. -/
structure VerifiedFor (C : Crypto) (wire : List UInt8) (slot : UInt32)
    (image : BootVerifiedImage) : Prop where
  decoded : bootManifestDecode wire = .ok image.manifest
  slot_eq : image.manifest.slot = slot
  signature : authentic C wire image.manifest = true
  vectors : vectorResult image.manifest image.initialMsp image.resetVector = .ok

theorem VerifiedFor.valid {C : Crypto} {wire : List UInt8} {slot : UInt32}
    {image : BootVerifiedImage} (h : VerifiedFor C wire slot image) :
    bootManifestValidate image.manifest = .ok := manifestDecode_ok h.decoded

theorem imageResult_ok {C : Crypto} {m : BootManifest} {sha vectors : List UInt8}
    {image : BootVerifiedImage} (h : imageResult C m sha vectors = .ok image) :
    C.sha256 sha = m.payloadHash ∧
      image = ⟨m, get32 vectors, get32 (vectors.drop 4)⟩ ∧
      vectorResult m image.initialMsp image.resetVector = .ok := by
  unfold imageResult at h
  split at h
  · cases h
  · next hh =>
      dsimp only at h
      split at h
      · next hv =>
          injection h with h
          subst h
          exact ⟨not_not.mp hh, rfl, hv⟩
      · cases h

theorem verifyStored_safe (C : Crypto) (wire : List UInt8) (slot : UInt32) :
    Safe (ReadsPayload slot) (bootVerifyStored C wire slot) fun r =>
      ∀ image, r = .ok image → VerifiedFor C wire slot image := by
  unfold bootVerifyStored
  refine safe_bind (verifyManifest_safe C wire slot) fun r hr => ?_
  split
  · exact safe_pure fun i hi => by cases hi
  next m =>
  obtain ⟨hd, hslot, hsig⟩ := hr m rfl
  refine safe_ask fun available => ⟨fun a n he => (by cases he), ?_⟩
  split
  · exact safe_pure fun i hi => by cases hi
  rw [← hslot]
  refine safe_bind (hashPayload_safe (manifestDecode_ok hd) 0 [] []) fun r _ => ?_
  split
  · exact safe_pure fun i hi => by cases hi
  next sha vectors =>
  refine safe_ask fun available => ⟨fun a n he => (by cases he), ?_⟩
  split
  · exact safe_pure fun i hi => by cases hi
  · refine safe_pure fun i hi => ?_
    obtain ⟨-, rfl, hv⟩ := imageResult_ok hi
    exact ⟨hd, rfl, hsig, hv⟩

end EkBareMetal.Boot

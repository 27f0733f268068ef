import EkBareMetal.Proofs.PowerCut
import EkBareMetal.Proofs.Stored

/-!
# Records that vouch for bytes

A nonempty image entry of the record says that the slot holds a verifiable
image. `Vouched` keeps that together with the authority of the record and the
slot that is running. It survives any work in a slot whose entry is empty, and
it passes to the next record of the two commits an update makes: the one that
empties the entry of the destination, and the one that fills it again once the
bytes are there.
-/

namespace EkBareMetal.Boot

open Words Interact ByteMem

/-! ## Where things are -/

def InMetadata (x : Nat) : Prop :=
  bootMetadataPage0.toNat ≤ x ∧ x < bootMetadataEnd.toNat

def InSlot (slot : UInt32) (x : Nat) : Prop :=
  slotValid slot = true ∧ (slotBase slot).toNat ≤ x ∧
    x < (slotBase slot).toNat + bootSlotBytes

section Places

variable {slot other : UInt32} {x : Nat}

/-- The bounds of the two slots as numbers. -/
theorem slot_bounds (h : slotValid slot = true) :
    (slot = bootSlotA ∧ (slotBase slot).toNat = 34816 ∧
      (slotManifest slot).toNat = 146432) ∨
    (slot = bootSlotB ∧ (slotBase slot).toNat = 147456 ∧
      (slotManifest slot).toNat = 259072) := by
  rcases slotValid_iff.mp h with rfl | rfl
  · exact .inl ⟨rfl, rfl, rfl⟩
  · exact .inr ⟨rfl, rfl, rfl⟩

theorem not_inMetadata_of_inSlot (h : InSlot slot x) : ¬ InMetadata x := by
  obtain ⟨hs, hlo, -⟩ := h
  have hend : bootMetadataEnd.toNat = 34816 := rfl
  rintro ⟨-, hhi⟩
  rcases slot_bounds hs with ⟨-, hb, -⟩ | ⟨-, hb, -⟩ <;> omega

theorem inSlot_disjoint (hne : slot ≠ other) (h : InSlot slot x) :
    ¬ InSlot other x := by
  rintro ⟨ho, hlo', hhi'⟩
  obtain ⟨hs, hlo, hhi⟩ := h
  simp only [bootSlotBytes] at hhi hhi'
  rcases slot_bounds hs with ⟨rfl, hb, -⟩ | ⟨rfl, hb, -⟩ <;>
    rcases slot_bounds ho with ⟨rfl, hb', -⟩ | ⟨rfl, hb', -⟩
  · exact hne rfl
  · omega
  · omega
  · exact hne rfl

theorem inSlot_manifest (hs : slotValid slot = true)
    (hlo : (slotManifest slot).toNat ≤ x)
    (hhi : x < (slotManifest slot).toNat + bootEraseBytes) : InSlot slot x := by
  simp only [bootEraseBytes] at hhi
  have h : (slotBase slot).toNat ≤ x ∧ x < (slotBase slot).toNat + 112640 := by
    rcases slot_bounds hs with ⟨-, hb, hm⟩ | ⟨-, hb, hm⟩ <;> omega
  exact ⟨hs, h.1, h.2⟩

theorem inSlot_payload (hs : slotValid slot = true)
    (hlo : (slotBase slot).toNat ≤ x)
    (hhi : x < (slotBase slot).toNat + bootPayloadMax.toNat) : InSlot slot x := by
  have hmax : bootPayloadMax.toNat = 111616 := rfl
  refine ⟨hs, hlo, ?_⟩
  simp only [bootSlotBytes]
  omega

theorem inMetadata_page {page : UInt32} (hlo : (pageAddress page).toNat ≤ x)
    (hhi : x < (pageAddress page).toNat + bootEraseBytes) : InMetadata x := by
  have h0 : bootMetadataPage0.toNat = 32768 := rfl
  have h1 : bootMetadataPage1.toNat = 33792 := rfl
  have hend : bootMetadataEnd.toNat = 34816 := rfl
  simp only [bootEraseBytes] at hhi
  unfold pageAddress at hlo hhi
  unfold InMetadata
  split at hlo <;> split at hhi <;> omega

end Places

/-! ## Backed entries -/

/-- The manifest bytes a slot holds. -/
def storedManifest (mem : ByteMem) (slot : UInt32) : List UInt8 :=
  mem.read (slotManifest slot).toNat bootManifestBytes

/-- What a verification of the slot answers on a board that holds `mem`. -/
def slotVerified (C : Crypto) (mem : ByteMem) (slot : UInt32) :
    Except BootVerifyResult BootVerifiedImage :=
  (bootVerifyStored C (storedManifest mem slot) slot).eval (verifyAnswers mem)

/-- What the entry of `slot` says is true of the bytes in the slot. -/
def Backed (C : Crypto) (mem : ByteMem) (r : BootMetadata) (slot : UInt32) :
    Prop :=
  (r.image slot).payloadLength ≠ 0 → ∃ image, slotVerified C mem slot = .ok image ∧
    bootMetadataImageMatches r image.manifest = .ok

section Backed

variable {C : Crypto} {mem mem' : ByteMem} {r r' : BootMetadata} {slot : UInt32}
  {P : Nat → Prop}

theorem slotVerified_eq (C : Crypto) (mem : ByteMem) (slot : UInt32) :
    slotVerified C mem slot =
      storedResult C mem (storedManifest mem slot) slot := board_verify C mem _ _

theorem storedManifest_congr (hs : slotValid slot = true) (h : Inside mem mem' P)
    (hP : ∀ x, InSlot slot x → ¬ P x) :
    storedManifest mem' slot = storedManifest mem slot := by
  have hagree : Agree mem mem' (slotManifest slot).toNat bootManifestBytes :=
    h.agree fun x hlo hhi => hP x (inSlot_manifest hs hlo (by
      simp only [bootManifestBytes] at hhi
      simp only [bootEraseBytes]
      omega))
  exact hagree.read_eq.symm

/-- Verification depends on the slot and on nothing outside it. -/
theorem slotVerified_congr (hs : slotValid slot = true) (h : Inside mem mem' P)
    (hP : ∀ x, InSlot slot x → ¬ P x) :
    slotVerified C mem' slot = slotVerified C mem slot := by
  have hagree : Agree mem mem' (slotBase slot).toNat bootPayloadMax.toNat :=
    h.agree fun x hlo hhi => hP x (inSlot_payload hs hlo hhi)
  rw [slotVerified_eq, slotVerified_eq, storedManifest_congr hs h hP,
    storedResult_congr hagree]

theorem Backed.inside (hb : Backed C mem r slot) (hs : slotValid slot = true)
    (h : Inside mem mem' P) (hP : ∀ x, InSlot slot x → ¬ P x) :
    Backed C mem' r slot := by
  intro hne
  obtain ⟨image, hv, hm⟩ := hb hne
  exact ⟨image, (slotVerified_congr hs h hP).trans hv, hm⟩

theorem backed_of_empty (h : (r.image slot).payloadLength = 0) :
    Backed C mem r slot := fun hne => absurd h hne

/-- The slot a verified image is for. -/
theorem slotVerified_slot {image : BootVerifiedImage}
    (h : slotVerified C mem slot = .ok image) : image.manifest.slot = slot := by
  rw [slotVerified_eq] at h
  exact (storedResult_ok h).1.slot_eq

/-- The entry may be carried into another record. -/
theorem Backed.carry (hb : Backed C mem r slot) (hr' : MetadataOk r')
    (himage : r'.image slot = r.image slot) : Backed C mem r' slot := by
  intro hne
  rw [himage] at hne
  obtain ⟨image, hv, hm⟩ := hb hne
  have hslot := slotVerified_slot hv
  refine ⟨image, hv, imageMatches_eq_ok.mpr ?_⟩
  refine (imageMatches_eq_ok.mp hm).of_image hr' ?_ ?_ ?_ <;> rw [hslot, himage]

end Backed

/-! ## The record and what it vouches for -/

theorem Authority.congr {mem mem' : ByteMem} {page : UInt32} {r : BootMetadata}
    (h : Authority mem page r) (hm : ∀ p, recordBytes mem' p = recordBytes mem p) :
    Authority mem' page r := by
  refine ⟨h.known, by rw [hm]; exact h.holds, fun r' hr' => ?_⟩
  rw [hm] at hr'
  rw [hm, hm]
  exact h.newest r' hr'

theorem recordBytes_congr {mem mem' : ByteMem} {P : Nat → Prop}
    (h : Inside mem mem' P) (hP : ∀ x, InMetadata x → ¬ P x) (page : UInt32) :
    recordBytes mem' page = recordBytes mem page := by
  have hagree : Agree mem mem' (pageAddress page).toNat bootMetadataBytes :=
    h.agree fun x hlo hhi => hP x (inMetadata_page hlo (by
      simp only [bootMetadataBytes] at hhi
      simp only [bootEraseBytes]
      omega))
  exact hagree.read_eq.symm

theorem Authority.valid {mem : ByteMem} {page : UInt32} {r : BootMetadata}
    (h : Authority mem page r) : MetadataOk r :=
  metadataValidate_eq_ok.mp (decode_ok_validate h.holds)

/-- Page `page` holds the record `r`, the slot `current` is the current one,
and the entries of the slots in `trusted` are backed. -/
structure Vouched (C : Crypto) (trusted : UInt32 → Prop) (current : UInt32)
    (mem : ByteMem) (page : UInt32) (r : BootMetadata) : Prop where
  authority : Authority mem page r
  current_eq : r.currentSlot = current
  backed : ∀ slot, slotValid slot = true → trusted slot → Backed C mem r slot

/-- Some record is the authority and vouches for the bytes. -/
def Durable (C : Crypto) (trusted : UInt32 → Prop) (current : UInt32)
    (mem : ByteMem) : Prop := ∃ page r, Vouched C trusted current mem page r

section Vouched

variable {C : Crypto} {trusted : UInt32 → Prop} {current page slot : UInt32}
  {mem mem' : ByteMem} {r d : BootMetadata} {e : BootUploadEvidence}

theorem Vouched.durable (h : Vouched C trusted current mem page r) :
    Durable C trusted current mem := ⟨page, r, h⟩

/-- Work in a slot whose entry is empty. -/
theorem Vouched.inside_slot (h : Vouched C trusted current mem page r)
    (hempty : (r.image slot).payloadLength = 0)
    (hm : Inside mem mem' (InSlot slot)) :
    Vouched C trusted current mem' page r := by
  refine ⟨h.authority.congr (recordBytes_congr hm
    fun x hx hs => not_inMetadata_of_inSlot hs hx), h.current_eq, ?_⟩
  intro s hs ht
  by_cases hne : s = slot
  · rw [hne]
    exact backed_of_empty hempty
  · exact (h.backed s hs ht).inside hs hm fun x hx => inSlot_disjoint hne hx

/-- Work in the metadata pages, with the authority known afterwards. -/
theorem Vouched.inside_metadata (h : Vouched C trusted current mem page r)
    (hm : Inside mem mem' InMetadata) {slot : UInt32}
    (hs : slotValid slot = true) (ht : trusted slot) :
    Backed C mem' r slot :=
  (h.backed slot hs ht).inside hs hm fun _ hx => not_inMetadata_of_inSlot hx

theorem Vouched.kept (h : Vouched C trusted current mem page r)
    (hm : Inside mem mem' InMetadata) (ha : Authority mem' page r) :
    Vouched C trusted current mem' page r :=
  ⟨ha, h.current_eq, fun _ hs ht => h.inside_metadata hm hs ht⟩

/-- The commit that empties the entry of the destination. -/
theorem Vouched.invalidated (h : Vouched C trusted current mem page r)
    (hd : Committed r (.invalidate e) d) (hm : Inside mem mem' InMetadata)
    {page' : UInt32} (ha : Authority mem' page' d) :
    Vouched C trusted current mem' page' d := by
  obtain ⟨hadm, hadv⟩ := invalidate_committed.mp hd
  refine ⟨ha, ?_, fun s hs ht => ?_⟩
  · rw [hadv.eq]
    exact h.current_eq
  by_cases hne : s = e.permittedSlot
  · refine backed_of_empty ?_
    rw [hadv.image, hne]
    exact congrArg _ BootMetadata.image_setImage_same
  · refine (h.inside_metadata hm hs ht).carry ha.valid ?_
    rw [hadv.image]
    exact BootMetadata.image_setImage_other hadm.permitted hs hne

theorem invalidated_empty (hd : Committed r (.invalidate e) d) :
    (d.image e.permittedSlot).payloadLength = 0 := by
  obtain ⟨-, hadv⟩ := invalidate_committed.mp hd
  rw [hadv.image]
  exact congrArg _ BootMetadata.image_setImage_same

/-- The commit that fills the entry of the destination. -/
theorem Vouched.accepted (h : Vouched C trusted current mem page r)
    {image : BootVerifiedImage} (hd : Committed r (.acceptReady e image) d)
    (hv : slotVerified C mem e.permittedSlot = .ok image)
    (hm : Inside mem mem' InMetadata) {page' : UInt32}
    (ha : Authority mem' page' d) : Vouched C trusted current mem' page' d := by
  obtain ⟨hacc, hadv⟩ := acceptReady_committed.mp hd
  have hslot := hacc.incomingSlot
  refine ⟨ha, ?_, fun s hs ht => ?_⟩
  · rw [hadv.eq]
    exact h.current_eq
  by_cases hne : s = e.permittedSlot
  · subst hne
    intro _
    refine ⟨image, ?_, imageMatches_eq_ok.mpr ?_⟩
    · exact (slotVerified_congr hs hm
        fun _ hx => not_inMetadata_of_inSlot hx).trans hv
    · have himage : d.image e.incoming.slot = _ :=
        (hadv.image e.incoming.slot).trans BootMetadata.image_setImage_same
      rw [hacc.identity]
      refine ⟨ha.valid, hacc.incoming, ?_, ?_, ?_⟩ <;> rw [himage]
  · refine (h.inside_metadata hm hs ht).carry ha.valid ?_
    rw [hadv.image]
    refine BootMetadata.image_setImage_other ?_ hs ?_
    · rw [hslot]
      exact hacc.permitted
    · rw [hslot]
      exact hne

end Vouched

end EkBareMetal.Boot

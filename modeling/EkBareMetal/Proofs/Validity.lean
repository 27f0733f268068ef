import EkBareMetal.Proofs.Format
import EkBareMetal.Boot.Lifecycle

/-!
# What validation means

`bootMetadataValidate` is read here once, as a record of facts with names, and
nothing later unfolds it. The two turns of the image loop become one statement
about both slots, which is what lets a proof about "the slot of the request"
go through without asking which of the two it is.
-/

namespace EkBareMetal.Boot

open Words

/-! ## Slots -/

theorem slotValid_iff {s : UInt32} :
    slotValid s = true ↔ s = bootSlotA ∨ s = bootSlotB := by
  simp [slotValid]

theorem roleValid_iff {s : UInt32} :
    roleValid s = true ↔ slotValid s = true ∨ s = bootSlotNone := by
  simp [roleValid]

theorem slotValid_ne_none {s : UInt32} (h : slotValid s = true) :
    s ≠ bootSlotNone := by
  rcases slotValid_iff.mp h with rfl | rfl <;> decide

theorem not_slotValid_none : ¬ slotValid bootSlotNone = true := by decide

/-- The comparison `slot <= BOOT_SLOT_B` that several functions make instead of
naming the two slots. -/
theorem slotValid_iff_le {s : UInt32} : slotValid s = true ↔ s ≤ bootSlotB := by
  rw [slotValid_iff]
  grind

namespace BootImages

theorem get_set_same {i : BootImages} {s : UInt32} {e : BootImageEntry} :
    (i.set s e).get s = e := by
  by_cases h : s = bootSlotA <;> simp [get, set, h]

theorem get_set_other {i : BootImages} {s t : UInt32} {e : BootImageEntry}
    (hs : slotValid s = true) (ht : slotValid t = true) (h : t ≠ s) :
    (i.set s e).get t = i.get t := by
  rw [slotValid_iff] at hs ht
  rcases hs with rfl | rfl <;> rcases ht with rfl | rfl <;>
    first | exact absurd rfl h | rfl

end BootImages

/-! ## The confirmation mask -/

/-- The mask after `mask &= ~(1 << slot)`. -/
def maskClear (mask slot : UInt32) : UInt32 := mask &&& ~~~(1 <<< slot)

/-- The mask after `mask |= 1 << slot`. -/
def maskSet (mask slot : UInt32) : UInt32 := mask ||| (1 <<< slot)

def maskBit (mask slot : UInt32) : Bool := mask &&& (1 <<< slot) != 0

theorem mask_cases {mask : UInt32} (h : mask &&& ~~~3 = 0) :
    mask = 0 ∨ mask = 1 ∨ mask = 2 ∨ mask = 3 := by
  have h4 : mask.toNat < 4 := (and_high_eq_zero (k := 2) (by decide)).mp h
  simp only [← UInt32.toNat_inj, UInt32.reduceToNat]
  omega

theorem maskBit_clear_same {mask s : UInt32} (h : mask &&& ~~~3 = 0)
    (hs : slotValid s = true) : maskBit (maskClear mask s) s = false := by
  rcases slotValid_iff.mp hs with rfl | rfl <;>
    rcases mask_cases h with rfl | rfl | rfl | rfl <;> decide

theorem maskBit_clear_other {mask s t : UInt32} (h : mask &&& ~~~3 = 0)
    (hs : slotValid s = true) (ht : slotValid t = true) (hne : t ≠ s) :
    maskBit (maskClear mask s) t = maskBit mask t := by
  rcases slotValid_iff.mp hs with rfl | rfl <;>
    rcases slotValid_iff.mp ht with rfl | rfl <;>
    first
    | exact absurd rfl hne
    | rcases mask_cases h with rfl | rfl | rfl | rfl <;> decide

theorem maskBit_set_same {mask s : UInt32} (h : mask &&& ~~~3 = 0)
    (hs : slotValid s = true) : maskBit (maskSet mask s) s = true := by
  rcases slotValid_iff.mp hs with rfl | rfl <;>
    rcases mask_cases h with rfl | rfl | rfl | rfl <;> decide

theorem maskBit_set_other {mask s t : UInt32} (h : mask &&& ~~~3 = 0)
    (hs : slotValid s = true) (ht : slotValid t = true) (hne : t ≠ s) :
    maskBit (maskSet mask s) t = maskBit mask t := by
  rcases slotValid_iff.mp hs with rfl | rfl <;>
    rcases slotValid_iff.mp ht with rfl | rfl <;>
    first
    | exact absurd rfl hne
    | rcases mask_cases h with rfl | rfl | rfl | rfl <;> decide

/-! ## Entries -/

structure LengthOk (length : UInt32) : Prop where
  min : bootPayloadMin ≤ length
  max : length ≤ bootPayloadMax
  aligned : length &&& 3 = 0

theorem zeroBytes_eq_replicate {p : List UInt8} (h : zeroBytes p = true) :
    p = List.replicate p.length 0 := by
  rw [zeroBytes, List.all_eq_true] at h
  exact List.eq_replicate_of_mem fun b hb => by simpa using h b hb

theorem entryValidate_eq_ok {e : BootImageEntry} :
    entryValidate e = .ok ↔
      e = BootImageEntry.empty ∨
        e.payloadLength ≠ 0 ∧ LengthOk e.payloadLength ∧
          accountValidate e.accounting = .ok := by
  unfold entryValidate
  constructor
  · intro h
    split at h
    · next h0 =>
        split at h
        · cases h
        · next hz =>
            left
            simp only [Bool.not_eq_true', not_or, not_not, Bool.not_eq_false] at hz
            obtain ⟨hh, hr, ha, ht⟩ := hz
            have hp := zeroBytes_eq_replicate hh
            rw [e.payloadHash.property] at hp
            cases e
            simp only [BootImageEntry.empty, BootImageEntry.mk.injEq]
            exact ⟨Subtype.ext hp, hr, h0, ha, ht⟩
    · next h0 =>
        split at h
        · cases h
        · next hl =>
            simp only [not_or, gt_iff_lt, UInt32.not_lt, not_not] at hl
            exact .inr ⟨h0, ⟨hl.1, hl.2.1, hl.2.2⟩, h⟩
  · rintro (rfl | ⟨h0, hl, ha⟩)
    · decide
    · rw [if_neg h0, if_neg]
      · exact ha
      · simp only [not_or, gt_iff_lt, UInt32.not_lt, not_not]
        exact ⟨hl.min, hl.max, hl.aligned⟩

/-! ## Records -/

/-- What validation says about the entry of one slot. -/
structure ImageOk (m : BootMetadata) (i : UInt32) : Prop where
  entry : entryValidate (m.image i) = .ok
  /-- Trial ids are acceptance sequences, so none is ahead of the record. -/
  trialId : (m.image i).trialId ≤ m.sequence
  /-- An empty entry has no role and no confirmation. -/
  role : (m.image i).payloadLength = 0 →
    m.confirmed i = false ∧ m.currentSlot ≠ i ∧ m.previousSlot ≠ i ∧
      m.candidateSlot ≠ i
  confirmed : m.confirmed i = true → m.state i = bootStateNone
  /-- READY and TRIAL are states of the candidate and of nothing else. -/
  pending : m.state i = bootStateReady ∨ m.state i = bootStateTrial →
    m.candidateSlot = i

structure RolesOk (m : BootMetadata) : Prop where
  current : m.currentSlot ≠ bootSlotNone → m.confirmed m.currentSlot = true
  previous : m.previousSlot ≠ bootSlotNone →
    m.confirmed m.previousSlot = true ∧ m.previousSlot ≠ m.currentSlot
  candidate : m.candidateSlot ≠ bootSlotNone →
    m.confirmed m.candidateSlot = false ∧ m.candidateSlot ≠ m.currentSlot ∧
      m.candidateSlot ≠ m.previousSlot ∧
      (m.state m.candidateSlot = bootStateReady ∨
        m.state m.candidateSlot = bootStateTrial)

/-- An intent is absent in its canonical form, or names the acceptance whose
trial is running. -/
def IntentOk (m : BootMetadata) : Prop :=
  (m.intentKind = bootIntentNone ∧ m.intentSlot = bootSlotNone ∧
    m.intentTrialId = 0) ∨
  (m.intentKind = bootIntentDeadline ∧ slotValid m.intentSlot = true ∧
    m.intentSlot = m.candidateSlot ∧ m.state m.intentSlot = bootStateTrial ∧
    (m.image m.intentSlot).trialId = m.intentTrialId)

structure MetadataOk (m : BootMetadata) : Prop where
  current : roleValid m.currentSlot = true
  candidate : roleValid m.candidateSlot = true
  previous : roleValid m.previousSlot = true
  mask : m.confirmedMask &&& ~~~3 = 0
  image : ∀ i, slotValid i = true → ImageOk m i
  roles : RolesOk m
  intent : IntentOk m

/-- A slot whose entry and confirmation a later record leaves alone, and whose
roles it does not add to, is still in order there. -/
theorem ImageOk.frame {m m' : BootMetadata} {t : UInt32} (h : ImageOk m t)
    (hseq : m.sequence ≤ m'.sequence) (himg : m'.image t = m.image t)
    (hconf : m'.confirmed t = m.confirmed t)
    (hcur : m'.currentSlot = t → m.currentSlot = t)
    (hprev : m'.previousSlot = t → m.previousSlot = t)
    (hcand : m'.candidateSlot = t ↔ m.candidateSlot = t) : ImageOk m' t := by
  have hst : m'.state t = m.state t := by
    rw [BootMetadata.state, himg, ← BootMetadata.state]
  refine ⟨?_, ?_, ?_, ?_, ?_⟩
  · rw [himg]
    exact h.entry
  · rw [himg]
    exact UInt32.le_trans h.trialId hseq
  · rw [himg, hconf]
    intro h0
    obtain ⟨h1, h2, h3, h4⟩ := h.role h0
    exact ⟨h1, fun he => h2 (hcur he), fun he => h3 (hprev he),
      fun he => h4 (hcand.mp he)⟩
  · rw [hconf, hst]
    exact h.confirmed
  · rw [hst]
    exact fun hs => hcand.mpr (h.pending hs)

theorem imageValidate_eq_ok {m : BootMetadata} {i : UInt32} :
    imageValidate m i = .ok ↔ ImageOk m i := by
  unfold imageValidate
  rw [BootResult.andThen_eq_ok]
  constructor
  · rintro ⟨he, h⟩
    split at h
    · cases h
    split at h
    · cases h
    split at h
    · cases h
    split at h
    · cases h
    · next h1 h2 h3 h4 =>
        refine ⟨he, by simpa using h1, ?_, ?_, ?_⟩
        · intro h0
          simp only [not_and, not_or, Bool.not_eq_true] at h2
          exact h2 h0
        · intro hc
          simpa [hc] using h3
        · intro hs
          simpa [hs] using h4
  · intro h
    refine ⟨h.entry, ?_⟩
    rw [if_neg (by simpa using h.trialId), if_neg, if_neg, if_neg]
    · rintro ⟨hs, hc⟩
      exact hc (h.pending hs)
    · rintro ⟨hc, hs⟩
      exact hs (h.confirmed hc)
    · rintro ⟨h0, hr⟩
      obtain ⟨hc, hcur, hprev, hcand⟩ := h.role h0
      rw [hc] at hr
      rcases hr with hr | hr | hr | hr
      · cases hr
      · exact hcur hr
      · exact hprev hr
      · exact hcand hr

theorem rolesValidate_eq_ok {m : BootMetadata} :
    rolesValidate m = .ok ↔ RolesOk m := by
  unfold rolesValidate
  constructor
  · intro h
    split at h
    · cases h
    split at h
    · cases h
    split at h
    · cases h
    · next h1 h2 h3 =>
        refine ⟨fun hc => ?_, fun hp => ?_, fun hc => ?_⟩
        · simpa [hc] using h1
        · simpa [hp] using h2
        · simp only [hc, ne_eq, not_false_eq_true, true_and, not_or,
            Bool.not_eq_true] at h3
          refine ⟨h3.1, h3.2.1, h3.2.2.1, ?_⟩
          have h4 := h3.2.2.2
          tauto
  · intro h
    rw [if_neg, if_neg, if_neg]
    · rintro ⟨hc, hbad⟩
      obtain ⟨h1, h2, h3, h4⟩ := h.candidate hc
      rw [h1] at hbad
      tauto
    · rintro ⟨hp, hbad⟩
      obtain ⟨h1, h2⟩ := h.previous hp
      tauto
    · rintro ⟨hc, hbad⟩
      exact hbad (h.current hc)

theorem intentValidate_eq_ok {m : BootMetadata} :
    intentValidate m = .ok ↔ IntentOk m := by
  unfold intentValidate IntentOk
  constructor
  · intro h
    split at h
    · next hk =>
        split at h
        · cases h
        · next hn => left; tauto
    · split at h
      · next hk =>
          split at h
          · cases h
          · next hn =>
              right
              simp only [Bool.not_eq_true', not_or, not_not,
                Bool.not_eq_false] at hn
              exact ⟨hk, hn⟩
      · cases h
  · rintro (⟨hk, hs, ht⟩ | ⟨hk, hv, hs, hst, ht⟩)
    · rw [if_pos hk, if_neg]
      tauto
    · rw [if_neg (by rw [hk]; decide), if_pos hk, if_neg]
      simp only [Bool.not_eq_true', not_or, not_not, Bool.not_eq_false]
      exact ⟨hv, hs, hst, ht⟩

theorem metadataValidate_eq_ok {m : BootMetadata} :
    bootMetadataValidate m = .ok ↔ MetadataOk m := by
  unfold bootMetadataValidate
  constructor
  · intro h
    split at h
    · cases h
    split at h
    · cases h
    · next hs hm =>
        simp only [BootResult.andThen_eq_ok, imageValidate_eq_ok,
          rolesValidate_eq_ok, intentValidate_eq_ok] at h
        simp only [Bool.or_eq_true, Bool.not_eq_true', not_or,
          Bool.not_eq_false] at hs
        refine ⟨hs.1.1, hs.1.2, hs.2, by simpa using hm, ?_, h.2.2.1, h.2.2.2⟩
        intro i hi
        rcases slotValid_iff.mp hi with rfl | rfl
        · exact h.1
        · exact h.2.1
  · intro h
    rw [if_neg, if_neg]
    · simp only [BootResult.andThen_eq_ok, imageValidate_eq_ok,
        rolesValidate_eq_ok, intentValidate_eq_ok]
      exact ⟨h.image _ (by decide), h.image _ (by decide), h.roles, h.intent⟩
    · simpa using h.mask
    · simp [h.current, h.candidate, h.previous]

namespace MetadataOk

variable {m : BootMetadata}

/-- A slot that is the candidate is one of the two slots, unconfirmed, and
READY or TRIAL. -/
theorem candidate_slotValid (h : MetadataOk m)
    (hc : m.candidateSlot ≠ bootSlotNone) : slotValid m.candidateSlot = true :=
  (roleValid_iff.mp h.candidate).resolve_right hc

theorem current_slotValid (h : MetadataOk m)
    (hc : m.currentSlot ≠ bootSlotNone) : slotValid m.currentSlot = true :=
  (roleValid_iff.mp h.current).resolve_right hc

/-- An empty entry is the canonical one. -/
theorem image_empty (h : MetadataOk m) {s : UInt32} (hs : slotValid s = true)
    (h0 : (m.image s).payloadLength = 0) : m.image s = BootImageEntry.empty := by
  rcases entryValidate_eq_ok.mp (h.image s hs).entry with he | ⟨hne, -⟩
  · exact he
  · exact absurd h0 hne

theorem account (h : MetadataOk m) {s : UInt32} (hs : slotValid s = true)
    (h0 : (m.image s).payloadLength ≠ 0) :
    accountValidate (m.image s).accounting = .ok := by
  rcases entryValidate_eq_ok.mp (h.image s hs).entry with he | ⟨-, -, ha⟩
  · rw [he] at h0
    exact absurd rfl h0
  · exact ha

end MetadataOk

end EkBareMetal.Boot

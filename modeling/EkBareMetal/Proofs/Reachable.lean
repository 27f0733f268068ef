import EkBareMetal.Proofs.Stored
import EkBareMetal.Lib.Transition

/-!
# What every run of commits keeps

The record as a state machine: a step commits the proposal of one lifecycle
call, with whatever evidence passes that call's checks. Two consequences are
drawn from the seven inversions, each stated for one slot. `entry_committed`
says that an entry is kept, emptied or filled, and by whom;
`confirmed_committed` says where a confirmation bit can come from. Everything
about runs rests on these two and on the sequence number.

Trial ids are acceptance sequences. Since the sequence only grows and no entry
ever carries an id ahead of it, an id handed out once is never handed out
again, and a request made out for one acceptance finds a different id in the
slot after the next one.
-/

namespace EkBareMetal.Boot

open Words Transition

/-! ## One commit -/

/-- Everything of an entry that says which acceptance it is. -/
def BootImageEntry.SameImage (e e' : BootImageEntry) : Prop :=
  e'.payloadHash = e.payloadHash ∧ e'.release = e.release ∧
    e'.payloadLength = e.payloadLength ∧ e'.trialId = e.trialId

theorem BootImageEntry.SameImage.trans {a b c : BootImageEntry}
    (h : a.SameImage b) (h' : b.SameImage c) : a.SameImage c :=
  ⟨h'.1.trans h.1, h'.2.1.trans h.2.1, h'.2.2.1.trans h.2.2.1,
    h'.2.2.2.trans h.2.2.2⟩

/-- An entry with new accounting is the entry of the same acceptance. -/
def Kept (r r' : BootMetadata) (s : UInt32) : Prop :=
  ∃ a, r'.image s = { r.image s with accounting := a }

def Emptied (op : LifecycleOp) (r' : BootMetadata) (s : UInt32) : Prop :=
  r'.image s = .empty ∧ ∃ e, op = .invalidate e ∧ e.permittedSlot = s

def Filled (r : BootMetadata) (op : LifecycleOp) (r' : BootMetadata)
    (s : UInt32) : Prop :=
  r.image s = .empty ∧ ∃ e stored, op = .acceptReady e stored ∧
    e.permittedSlot = s ∧ Accepting r e stored ∧
    r'.image s = (accepted r e.incoming).image s

theorem Committed.advances {r r' : BootMetadata} {op : LifecycleOp}
    (h : Committed r op r') : ∃ p, Advances r p r' := by
  cases op with
  | invalidate e => exact ⟨_, (invalidate_committed.mp h).2⟩
  | acceptReady e st => exact ⟨_, (acceptReady_committed.mp h).2⟩
  | beginTrial c => exact ⟨_, (beginTrial_committed.mp h).2.2.2⟩
  | confirm q i hl => exact ⟨_, (confirm_committed.mp h).2.2.2.2.2⟩
  | deadlineIntent q i => exact ⟨_, (deadlineIntent_committed.mp h).2.2.2.2⟩
  | applyCountedFailure f =>
      exact ⟨_, (applyCountedFailure_committed.mp h).2.2.2.2⟩
  | promotePrevious v p => exact ⟨_, (promotePrevious_committed.mp h).2.2.2.2.2.2⟩

theorem Committed.next {r r' : BootMetadata} {op : LifecycleOp} (h : Committed r op r') :
    bootMetadataNextSequence r = .ok r'.sequence := by
  obtain ⟨p, hr, hroom, heq, -⟩ := h.advances
  rw [heq]
  exact nextSequence_eq_ok hr hroom

theorem Committed.before {r r' : BootMetadata} {op : LifecycleOp}
    (h : Committed r op r') : MetadataOk r := h.advances.choose_spec.before

theorem Committed.after {r r' : BootMetadata} {op : LifecycleOp}
    (h : Committed r op r') : MetadataOk r' := h.advances.choose_spec.after

theorem Committed.sequence {r r' : BootMetadata} {op : LifecycleOp}
    (h : Committed r op r') : r'.sequence.toNat = r.sequence.toNat + 1 :=
  h.advances.choose_spec.sequence

theorem kept_setAccounting {r : BootMetadata} {s t a : UInt32}
    (hs : slotValid s = true) (ht : slotValid t = true) :
    Kept r (r.setAccounting t a) s := by
  by_cases h : s = t
  · subst h
    exact ⟨a, BootMetadata.image_setAccounting_same⟩
  · exact ⟨_, BootMetadata.image_setAccounting_other ht hs h⟩

/-- Kept is about the entries only. -/
theorem Kept.of_images {r p r' : BootMetadata} {s : UInt32} (h : Kept r p s)
    (hi : r'.image s = p.image s) : Kept r r' s := by
  obtain ⟨a, ha⟩ := h
  exact ⟨a, hi.trans ha⟩

theorem kept_charged {r : BootMetadata} {s t reason consume : UInt32}
    (hs : slotValid s = true) (ht : slotValid t = true) :
    Kept r (charged r t reason consume) s := by
  unfold charged
  dsimp only
  split
  · exact (kept_setAccounting hs ht).of_images rfl
  split
  · exact (kept_setAccounting hs ht).of_images rfl
  · exact kept_setAccounting hs ht

theorem entry_committed {r r' : BootMetadata} {op : LifecycleOp} {s : UInt32}
    (h : Committed r op r') (hs : slotValid s = true) :
    Kept r r' s ∨ Emptied op r' s ∨ Filled r op r' s := by
  cases op with
  | invalidate e =>
      obtain ⟨ha, hadv⟩ := invalidate_committed.mp h
      by_cases hsl : s = e.permittedSlot
      · subst hsl
        refine .inr (.inl ⟨?_, e, rfl, rfl⟩)
        rw [hadv.image]
        exact BootMetadata.image_setImage_same
      · refine .inl ⟨(r.image s).accounting, ?_⟩
        rw [hadv.image]
        exact BootMetadata.image_setImage_other ha.permitted hs hsl
  | acceptReady e st =>
      obtain ⟨ha, hadv⟩ := acceptReady_committed.mp h
      by_cases hsl : s = e.permittedSlot
      · subst hsl
        exact .inr (.inr ⟨hadv.before.image_empty hs ha.empty, e, st, rfl, rfl,
          ha, hadv.image _⟩)
      · refine .inl ⟨(r.image s).accounting, ?_⟩
        rw [hadv.image]
        refine BootMetadata.image_setImage_other ?_ hs ?_
        · rw [ha.incomingSlot]
          exact ha.permitted
        · rw [ha.incomingSlot]
          exact hsl
  | beginTrial c =>
      obtain ⟨hx, -, -, hadv⟩ := beginTrial_committed.mp h
      exact .inl ((kept_setAccounting hs hx.slotValid).of_images (hadv.image s))
  | confirm q i hl =>
      obtain ⟨hx, -, -, -, -, hadv⟩ := confirm_committed.mp h
      exact .inl ((kept_setAccounting hs hx.slotValid).of_images (hadv.image s))
  | deadlineIntent q i =>
      obtain ⟨-, -, -, -, hadv⟩ := deadlineIntent_committed.mp h
      exact .inl ⟨_, hadv.image s⟩
  | applyCountedFailure f =>
      obtain ⟨hx, -, -, -, hadv⟩ := applyCountedFailure_committed.mp h
      exact .inl ((kept_charged hs hx.resident.slot).of_images (hadv.image s))
  | promotePrevious v p =>
      obtain ⟨-, -, -, -, -, -, hadv⟩ := promotePrevious_committed.mp h
      exact .inl ⟨_, hadv.image s⟩

/-- What a confirmation did, seen from the slot it confirmed. -/
def ConfirmedBy (r : BootMetadata) (op : LifecycleOp) (r' : BootMetadata)
    (s : UInt32) : Prop :=
  (∃ q i, op = .confirm q i bootHealthRequired) ∧ r.candidateSlot = s ∧
    r.state s = bootStateTrial ∧ r'.currentSlot = s ∧
    r'.previousSlot = r.currentSlot

theorem confirmed_committed {r r' : BootMetadata} {op : LifecycleOp}
    {s : UInt32} (h : Committed r op r') (hs : slotValid s = true)
    (hno : r.confirmed s = false) (hyes : r'.confirmed s = true) :
    ConfirmedBy r op r' s := by
  have hmask := h.before.mask
  -- Every other operation keeps the mask or clears a bit of it.
  have hkeep : ∀ {p}, Advances r p r' → p.confirmedMask = r.confirmedMask →
      ConfirmedBy r op r' s := by
    intro p hadv hp
    rw [hadv.confirmed, BootMetadata.confirmed, hp] at hyes
    exact absurd (hyes.symm.trans hno) (by decide)
  have hclear : ∀ {p t}, slotValid t = true → Advances r p r' →
      p.confirmedMask = maskClear r.confirmedMask t → ConfirmedBy r op r' s := by
    intro p t ht hadv hp
    have hbit : maskBit (maskClear r.confirmedMask t) s = true := by
      rw [← hp]
      exact (hadv.confirmed s).symm.trans hyes
    by_cases hst : s = t
    · subst hst
      rw [maskBit_clear_same hmask hs] at hbit
      cases hbit
    · rw [maskBit_clear_other hmask ht hs hst] at hbit
      exact absurd (hbit.symm.trans hno) (by decide)
  cases op with
  | invalidate e =>
      obtain ⟨ha, hadv⟩ := invalidate_committed.mp h
      exact hclear ha.permitted hadv rfl
  | acceptReady e st => exact hkeep (acceptReady_committed.mp h).2 rfl
  | beginTrial c => exact hkeep (beginTrial_committed.mp h).2.2.2 rfl
  | confirm q i hl =>
      obtain ⟨hx, -, hcand, hst, hhl, hadv⟩ := confirm_committed.mp h
      subst hhl
      have hslot : s = i.manifest.slot := by
        by_contra hne
        have hbit : maskBit (maskSet r.confirmedMask i.manifest.slot) s = true :=
          (hadv.confirmed s).symm.trans hyes
        rw [maskBit_set_other hmask hx.slotValid hs hne] at hbit
        exact absurd (hbit.symm.trans hno) (by decide)
      subst hslot
      refine ⟨⟨q, i, rfl⟩, hcand, hst, ?_, ?_⟩
      · rw [hadv.eq]; rfl
      · rw [hadv.eq]; rfl
  | deadlineIntent q i =>
      exact hkeep (deadlineIntent_committed.mp h).2.2.2.2 rfl
  | applyCountedFailure f =>
      refine hkeep (applyCountedFailure_committed.mp h).2.2.2.2 ?_
      unfold charged
      dsimp only
      split
      · rfl
      split
      · rfl
      · rfl
  | promotePrevious v p =>
      obtain ⟨-, -, hi, -, -, -, hadv⟩ := promotePrevious_committed.mp h
      exact hclear hi.slot hadv rfl

/-- The current role never lapses: a commit leaves it alone, hands it to the
candidate it confirms, or to the previous slot. -/
theorem current_committed {r r' : BootMetadata} {op : LifecycleOp}
    (h : Committed r op r') (hcur : slotValid r.currentSlot = true) :
    slotValid r'.currentSlot = true := by
  cases op with
  | invalidate e => rw [(invalidate_committed.mp h).2.eq]; exact hcur
  | acceptReady e st => rw [(acceptReady_committed.mp h).2.eq]; exact hcur
  | beginTrial c => rw [(beginTrial_committed.mp h).2.2.2.eq]; exact hcur
  | confirm q i hl =>
      obtain ⟨hx, -, -, -, -, hadv⟩ := confirm_committed.mp h
      rw [hadv.eq]
      exact hx.slotValid
  | deadlineIntent q i =>
      rw [(deadlineIntent_committed.mp h).2.2.2.2.eq]; exact hcur
  | applyCountedFailure f =>
      rw [(applyCountedFailure_committed.mp h).2.2.2.2.eq]
      unfold charged
      dsimp only
      split
      · exact hcur
      split
      · exact hcur
      · exact hcur
  | promotePrevious v p =>
      obtain ⟨hx, -, -, -, hp, -, hadv⟩ := promotePrevious_committed.mp h
      rw [hadv.eq]
      show slotValid r.previousSlot = true
      rw [hp]
      exact hx.slotValid

/-! ## Runs of commits -/

section Runs

variable {r₀ r r' : BootMetadata} {tr : List (LifecycleOp × BootMetadata)}

theorem run_metadataOk (h : Run Committed r₀ tr r) (h₀ : MetadataOk r₀) :
    MetadataOk r := h.invariant (fun _ hs => hs.after) h₀

theorem run_sequence (h : Run Committed r₀ tr r) :
    r.sequence.toNat = r₀.sequence.toNat + tr.length := by
  induction h with
  | nil s => rfl
  | cons hs hr ih =>
      rw [ih, hs.sequence, List.length_cons]
      omega

theorem run_current (h : Run Committed r₀ tr r)
    (hcur : slotValid r₀.currentSlot = true) : slotValid r.currentSlot = true :=
  h.invariant (I := fun x => slotValid x.currentSlot = true)
    (fun hc hs => current_committed hs hc) hcur

theorem Kept.sameImage {s : UInt32} (h : Kept r r' s) :
    (r.image s).SameImage (r'.image s) := by
  obtain ⟨a, ha⟩ := h
  rw [ha]
  exact ⟨rfl, rfl, rfl, rfl⟩

/-- An entry that is there at every moment of a run is one acceptance. -/
theorem run_sameImage {s : UInt32} (hs : slotValid s = true)
    (h : Run Committed r₀ tr r) (h₀ : (r₀.image s).payloadLength ≠ 0)
    (hall : ∀ x ∈ tr, (x.2.image s).payloadLength ≠ 0) :
    (r₀.image s).SameImage (r.image s) := by
  induction h with
  | nil => exact ⟨rfl, rfl, rfl, rfl⟩
  | cons hc hr ih =>
      have hne := hall _ List.mem_cons_self
      have hrest := ih hne fun x hx => hall x (List.mem_cons_of_mem _ hx)
      rcases entry_committed hc hs with hk | ⟨he, -⟩ | ⟨he, -⟩
      · exact hk.sameImage.trans hrest
      · rw [he] at hne
        exact absurd rfl hne
      · rw [he] at h₀
        exact absurd rfl h₀

end Runs

/-! ## A life of one slot

The factory record and the four commits of a first update, as the inputs on
which the results below are run. -/

def packageEntry (slot accounting trialId : UInt32) : BootImageEntry where
  payloadHash := (packageManifest slot).payloadHash
  release := 0xffffffff
  payloadLength := 236
  accounting := accounting
  trialId := trialId

/-- Slot A current and confirmed, and nothing else. -/
def factoryRecord : BootMetadata where
  sequence := 1
  currentSlot := bootSlotA
  candidateSlot := bootSlotNone
  previousSlot := bootSlotNone
  confirmedMask := 1
  images := ⟨packageEntry bootSlotA 0 0, .empty⟩
  intentKind := bootIntentNone
  intentSlot := bootSlotNone
  intentTrialId := 0

def packageUpload : BootUploadEvidence where
  incoming := packageManifest bootSlotB
  running := packageImage bootSlotA
  permittedSlot := bootSlotB

def readyRecord : BootMetadata :=
  { factoryRecord with
    sequence := 3
    candidateSlot := bootSlotB
    images := ⟨packageEntry bootSlotA 0 0,
      packageEntry bootSlotB bootStateReady 3⟩ }

def trialRecord : BootMetadata :=
  { readyRecord with
    sequence := 4
    images := ⟨packageEntry bootSlotA 0 0,
      packageEntry bootSlotB bootStateTrial 3⟩ }

theorem factory_invalidated :
    Committed factoryRecord (.invalidate packageUpload)
      { factoryRecord with sequence := 2 } := by
  show bootLifecycleInvalidate _ _ = _
  decide

theorem factory_accepted :
    Committed { factoryRecord with sequence := 2 }
      (.acceptReady packageUpload (packageImage bootSlotB)) readyRecord := by
  show bootLifecycleAcceptReady _ _ _ = _
  decide

theorem factory_tried :
    Committed readyRecord (.beginTrial (packageImage bootSlotB)) trialRecord := by
  show bootLifecycleBeginTrial _ _ = _
  decide

/-- The trial record after failures that left `accounting`, at `sequence`. -/
def failedRecord (sequence accounting : UInt32) : BootMetadata :=
  { readyRecord with
    sequence := sequence
    images := ⟨packageEntry bootSlotA 0 0,
      packageEntry bootSlotB accounting 3⟩ }

/-- Two watchdog resets and a brown-out later. -/
def rejectedRecord : BootMetadata :=
  { failedRecord 7 0x193f with candidateSlot := bootSlotNone }

def readyAgainRecord : BootMetadata :=
  { factoryRecord with
    sequence := 9
    candidateSlot := bootSlotB
    images := ⟨packageEntry bootSlotA 0 0,
      packageEntry bootSlotB bootStateReady 9⟩ }

def packageFailure (reason : UInt32) : BootCountedFailure where
  identity := {
    slot := bootSlotB
    payloadHash := (packageManifest bootSlotB).payloadHash
    release := 0xffffffff
    payloadLength := 236
    trialId := 3 }
  reason := reason
  consumeIntent := 0

theorem trial_failed :
    Committed trialRecord (.applyCountedFailure (packageFailure 1))
      (failedRecord 5 0x26) := by
  show bootLifecycleApplyCountedFailure _ _ = _
  decide

theorem trial_failed_twice :
    Committed (failedRecord 5 0x26) (.applyCountedFailure (packageFailure 1))
      (failedRecord 6 0x12a) := by
  show bootLifecycleApplyCountedFailure _ _ = _
  decide

theorem trial_rejected :
    Committed (failedRecord 6 0x12a) (.applyCountedFailure (packageFailure 3))
      rejectedRecord := by
  show bootLifecycleApplyCountedFailure _ _ = _
  decide

theorem rejected_invalidated :
    Committed rejectedRecord (.invalidate packageUpload)
      { factoryRecord with sequence := 8 } := by
  show bootLifecycleInvalidate _ _ = _
  decide

theorem factory_accepted_again :
    Committed { factoryRecord with sequence := 8 }
      (.acceptReady packageUpload (packageImage bootSlotB)) readyAgainRecord := by
  show bootLifecycleAcceptReady _ _ _ = _
  decide

theorem rejection :
    Run Committed trialRecord
      [(.applyCountedFailure (packageFailure 1), failedRecord 5 0x26),
        (.applyCountedFailure (packageFailure 1), failedRecord 6 0x12a),
        (.applyCountedFailure (packageFailure 3), rejectedRecord),
        (.invalidate packageUpload, { factoryRecord with sequence := 8 })]
      { factoryRecord with sequence := 8 } :=
  .cons trial_failed (.cons trial_failed_twice (.cons trial_rejected
    (.cons rejected_invalidated (.nil _))))

theorem first_update :
    Run Committed factoryRecord
      [(.invalidate packageUpload, { factoryRecord with sequence := 2 }),
        (.acceptReady packageUpload (packageImage bootSlotB), readyRecord),
        (.beginTrial (packageImage bootSlotB), trialRecord)] trialRecord :=
  .cons factory_invalidated (.cons factory_accepted
    (.cons factory_tried (.nil _)))

/-! ## The reachable records -/

/-- Every record reached from a valid one by commits is valid with a confirmed
current slot, each commit is numbered by one and never wraps, and each change
to an entry or to a confirmation bit has one possible author. -/
theorem reachable_record {r₀ r : BootMetadata}
    {tr : List (LifecycleOp × BootMetadata)}
    (h₀ : bootMetadataValidate r₀ = .ok)
    (hcur : slotValid r₀.currentSlot = true) (hrun : Run Committed r₀ tr r) :
    bootMetadataValidate r = .ok ∧
    (slotValid r.currentSlot = true ∧ r.confirmed r.currentSlot = true) ∧
    r.sequence.toNat = r₀.sequence.toNat + tr.length ∧
    (∀ s, slotValid s = true → (r₀.image s).payloadLength ≠ 0 →
      (∀ x ∈ tr, (x.2.image s).payloadLength ≠ 0) →
      (r₀.image s).SameImage (r.image s)) ∧
    ∀ op r', Committed r op r' →
      r'.sequence.toNat = r.sequence.toNat + 1 ∧
      ∀ s, slotValid s = true →
        ((r.image s).payloadLength ≠ 0 → (r'.image s).payloadLength ≠ 0 →
          (r.image s).SameImage (r'.image s)) ∧
        ((r.image s).payloadLength ≠ 0 → (r'.image s).payloadLength = 0 →
          ∃ e, op = .invalidate e ∧ e.permittedSlot = s) ∧
        ((r.image s).payloadLength = 0 → (r'.image s).payloadLength ≠ 0 →
          ∃ e stored, op = .acceptReady e stored ∧ e.permittedSlot = s) ∧
        (∀ e stored, op = .acceptReady e stored → e.permittedSlot = s →
          (r.image s).payloadLength = 0) ∧
        (r.confirmed s = false → r'.confirmed s = true →
          (∃ q i, op = .confirm q i bootHealthRequired) ∧
            r.candidateSlot = s ∧ r.state s = bootStateTrial ∧
            r'.currentSlot = s ∧ r'.previousSlot = r.currentSlot) := by
  have hok := run_metadataOk hrun (metadataValidate_eq_ok.mp h₀)
  have hc := run_current hrun hcur
  refine ⟨metadataValidate_eq_ok.mpr hok,
    ⟨hc, hok.roles.current (slotValid_ne_none hc)⟩, run_sequence hrun,
    fun s hs hne hall => run_sameImage hs hrun hne hall, ?_⟩
  intro op r' hstep
  refine ⟨hstep.sequence, fun s hs => ⟨?_, ?_, ?_, ?_, ?_⟩⟩
  · intro hne hne'
    rcases entry_committed hstep hs with hk | ⟨he, -⟩ | ⟨he, -⟩
    · exact hk.sameImage
    · rw [he] at hne'
      exact absurd rfl hne'
    · rw [he] at hne
      exact absurd rfl hne
  · intro hne h0
    rcases entry_committed hstep hs with hk | ⟨-, he⟩ | ⟨he, -⟩
    · exact absurd (hk.sameImage.2.2.1.symm.trans h0) hne
    · exact he
    · rw [he] at hne
      exact absurd rfl hne
  · intro h0 hne
    rcases entry_committed hstep hs with hk | ⟨he, -⟩ | ⟨-, e, st, he, hsl, -⟩
    · exact absurd (hk.sameImage.2.2.1.trans h0) hne
    · rw [he] at hne
      exact absurd rfl hne
    · exact ⟨e, st, he, hsl⟩
  · rintro e st rfl rfl
    exact (acceptReady_committed.mp hstep).1.empty
  · exact confirmed_committed hstep hs

theorem reachable_record_first_update :
    bootMetadataValidate trialRecord = .ok ∧
      trialRecord.confirmed trialRecord.currentSlot = true ∧
      trialRecord.sequence.toNat = factoryRecord.sequence.toNat + 3 :=
  have h := reachable_record (by decide) (by decide) first_update
  ⟨h.1, h.2.1.2, h.2.2.1⟩

/-! ## Trial ids -/

/-- The trial ids the acceptances of a run handed out, in order. -/
def acceptedIds (tr : List (LifecycleOp × BootMetadata)) : List UInt32 :=
  tr.filterMap fun x =>
    match x.1 with
    | .acceptReady e _ => some (x.2.image e.permittedSlot).trialId
    | _ => none

theorem acceptReady_trialId {r r' : BootMetadata} {e : BootUploadEvidence}
    {stored : BootVerifiedImage} (h : Committed r (.acceptReady e stored) r') :
    (r'.image e.permittedSlot).trialId = r'.sequence := by
  obtain ⟨ha, hadv⟩ := acceptReady_committed.mp h
  rw [hadv.image, ← ha.incomingSlot, hadv.eq, accepted]
  exact congrArg BootImageEntry.trialId BootImages.get_set_same

/-- A valid record and every id in it are behind every later acceptance. -/
theorem trialId_lt_acceptance {r r' : BootMetadata} {n : Nat}
    (hr : MetadataOk r) (hn : r.sequence.toNat < n)
    (hr' : r'.sequence.toNat = n) :
    r.sequence < r'.sequence ∧
      ∀ s, slotValid s = true → (r.image s).trialId < r'.sequence := by
  have hlt : r.sequence < r'.sequence := by
    rw [UInt32.lt_iff_toNat_lt]
    omega
  refine ⟨hlt, fun s hs => ?_⟩
  have hid := (hr.image s hs).trialId
  rw [UInt32.lt_iff_toNat_lt] at hlt ⊢
  rw [UInt32.le_iff_toNat_le] at hid
  omega

theorem acceptedIds_bounds {r₀ r : BootMetadata}
    {tr : List (LifecycleOp × BootMetadata)} (h : Run Committed r₀ tr r) :
    (acceptedIds tr).Pairwise (· < ·) ∧
      ∀ t ∈ acceptedIds tr, r₀.sequence < t := by
  induction h with
  | nil => exact ⟨List.Pairwise.nil, fun t ht => absurd ht List.not_mem_nil⟩
  | @cons s s' s'' op rest hc hr ih =>
      have hseq := hc.sequence
      have hlater : ∀ t ∈ acceptedIds rest, s.sequence < t := by
        intro t ht
        have hlt := ih.2 t ht
        rw [UInt32.lt_iff_toNat_lt] at hlt ⊢
        omega
      cases op with
      | acceptReady e st =>
          have hid := acceptReady_trialId hc
          have hids : acceptedIds ((.acceptReady e st, s') :: rest) =
              s'.sequence :: acceptedIds rest := by
            rw [← hid]; rfl
          rw [hids]
          refine ⟨List.Pairwise.cons ih.2 ih.1, fun t ht => ?_⟩
          rcases List.mem_cons.mp ht with rfl | ht
          · rw [UInt32.lt_iff_toNat_lt]
            omega
          · exact hlater t ht
      | _ => exact ⟨ih.1, hlater⟩

/-- From some acceptance on, the slot is empty or carries an id at least as
young as the acceptance. -/
def YoungerThan (n : Nat) (s : UInt32) (r : BootMetadata) : Prop :=
  n ≤ r.sequence.toNat ∧
    ((r.image s).payloadLength ≠ 0 → n ≤ (r.image s).trialId.toNat)

theorem youngerThan_committed {n : Nat} {s : UInt32} (hs : slotValid s = true)
    {r r' : BootMetadata} {op : LifecycleOp} (hy : YoungerThan n s r)
    (h : Committed r op r') : YoungerThan n s r' := by
  have hseq := h.sequence
  refine ⟨by have := hy.1; omega, fun hne => ?_⟩
  rcases entry_committed h hs with hk | ⟨he, -⟩ | ⟨-, e, st, rfl, rfl, -, -⟩
  · obtain ⟨-, -, hlen, hid⟩ := hk.sameImage
    rw [hid]
    exact hy.2 (by rwa [← hlen])
  · rw [he] at hne
    exact absurd rfl hne
  · rw [acceptReady_trialId h]
    have := hy.1
    omega

/-- A request made out for an older acceptance is refused by all three calls
that name one. -/
theorem stale_request_refused {n : Nat} {s t : UInt32} {r : BootMetadata}
    (hy : YoungerThan n s r) (ht : t.toNat < n) :
    (∀ q i health, q.slot = s → q.trialId = t →
      ¬ Answers (bootLifecycleConfirm r q i health)) ∧
    (∀ q i, q.slot = s → q.trialId = t →
      ¬ Answers (bootLifecycleDeadlineIntent r q i)) ∧
    ∀ f, f.identity.slot = s → f.identity.trialId = t →
      ¬ Answers (bootLifecycleApplyCountedFailure r f) := by
  refine ⟨?_, ?_, ?_⟩
  · rintro q i health rfl rfl ha
    have hx := confirm_answers ha
    have hyoung := hy.2
    rw [hx.slot_eq, ← hx.trialId_eq] at hyoung
    exact absurd (hyoung hx.nonempty) (by omega)
  · rintro q i rfl rfl ha
    obtain ⟨hx, hsl, hid⟩ := deadlineIntent_answers ha
    have hyoung := hy.2
    rw [hsl, ← hid] at hyoung
    exact absurd (hyoung hx.nonempty) (by omega)
  · rintro f rfl rfl ha
    have hres := (applyCountedFailure_answers ha).resident
    have hyoung := hy.2 hres.nonempty
    rw [hres.trialId] at hyoung
    omega

/-- No trial id is handed out twice, each is ahead of everything before it,
and a request for one acceptance is never taken for a later one. -/
theorem trialId_fresh {r₀ r : BootMetadata}
    {tr : List (LifecycleOp × BootMetadata)}
    (h₀ : bootMetadataValidate r₀ = .ok) (hrun : Run Committed r₀ tr r) :
    (acceptedIds tr).Pairwise (· < ·) ∧
    ∀ e stored r', Committed r (.acceptReady e stored) r' →
      (∀ x ∈ r₀ :: tr.map Prod.snd,
        x.sequence < (r'.image e.permittedSlot).trialId ∧
        ∀ s, slotValid s = true →
          (x.image s).trialId < (r'.image e.permittedSlot).trialId) ∧
      ∀ tr₁ a e' stored' b tr₂ c, Run Committed r' tr₁ a →
        Committed a (.acceptReady e' stored') b →
        e'.permittedSlot = e.permittedSlot → Run Committed b tr₂ c →
        (∀ q i health, q.slot = e.permittedSlot →
          q.trialId = (r'.image e.permittedSlot).trialId →
          ¬ Answers (bootLifecycleConfirm c q i health)) ∧
        (∀ q i, q.slot = e.permittedSlot →
          q.trialId = (r'.image e.permittedSlot).trialId →
          ¬ Answers (bootLifecycleDeadlineIntent c q i)) ∧
        ∀ f, f.identity.slot = e.permittedSlot →
          f.identity.trialId = (r'.image e.permittedSlot).trialId →
          ¬ Answers (bootLifecycleApplyCountedFailure c f) := by
  refine ⟨(acceptedIds_bounds hrun).1, fun e stored r' hacc => ⟨?_, ?_⟩⟩
  · intro x hx
    have hid := acceptReady_trialId hacc
    have hseq := hacc.sequence
    rw [hid]
    have hx' : MetadataOk x ∧ x.sequence.toNat ≤ r.sequence.toNat := by
      rcases List.mem_cons.mp hx with rfl | hx
      · exact ⟨metadataValidate_eq_ok.mp h₀, by rw [run_sequence hrun]; omega⟩
      · obtain ⟨y, hy, rfl⟩ := List.mem_map.mp hx
        obtain ⟨t₁, t₂, a, -, -, hstep, hrest⟩ := hrun.split hy
        exact ⟨hstep.after, by rw [run_sequence hrest]; omega⟩
    exact trialId_lt_acceptance hx'.1 (by omega) rfl
  · intro tr₁ a e' stored' b tr₂ c h₁ hb hsl h₂
    have hpermitted := (acceptReady_committed.mp hb).1.permitted
    have hy : YoungerThan b.sequence.toNat e'.permittedSlot b :=
      ⟨Nat.le_refl _, fun _ => by rw [acceptReady_trialId hb]⟩
    have hyc : YoungerThan b.sequence.toNat e'.permittedSlot c :=
      h₂.invariant (fun hi hs => youngerThan_committed hpermitted hi hs) hy
    rw [hsl] at hyc
    refine stale_request_refused hyc ?_
    rw [acceptReady_trialId hacc, hb.sequence, run_sequence h₁]
    omega

theorem trialId_fresh_second_update :
    ¬ Answers (bootLifecycleConfirm readyAgainRecord
      ⟨bootSlotB, (packageManifest bootSlotB).payloadHash, 3⟩
      (packageImage bootSlotB) bootHealthRequired) :=
  have h := (trialId_fresh (by decide) (.cons factory_invalidated (.nil _))).2
    packageUpload _ _ factory_accepted
  (h.2 _ _ _ _ _ _ _ (.cons factory_tried rejection) factory_accepted_again rfl
    (.nil _)).1 _ _ _ rfl rfl

end EkBareMetal.Boot

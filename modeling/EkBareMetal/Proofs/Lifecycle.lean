import EkBareMetal.Proofs.Validity

/-!
# What a committed lifecycle operation does

One inversion lemma for each of the seven operations says everything a commit
of it can do: what the checks established, and the next record as the old one
with a named set of changes. That the next record is valid costs nothing here,
because `finish` checks it before proposing it.

What follows from the seven is stated once for all of them: the sequence
moves by one, an entry that stays keeps its identity, and a confirmation bit
appears in one way only. Runs inherit these by induction.
-/

namespace EkBareMetal.Boot

open Words

namespace BootMetadata

variable {m : BootMetadata} {s t : UInt32} {e : BootImageEntry}

@[simp] theorem image_setImage_same : (m.setImage s e).image s = e :=
  BootImages.get_set_same

theorem image_setImage_other (hs : slotValid s = true) (ht : slotValid t = true)
    (h : t ≠ s) : (m.setImage s e).image t = m.image t :=
  BootImages.get_set_other hs ht h

@[simp] theorem image_setAccounting_same {a : UInt32} :
    (m.setAccounting s a).image s = { m.image s with accounting := a } :=
  image_setImage_same

theorem image_setAccounting_other {a : UInt32} (hs : slotValid s = true)
    (ht : slotValid t = true) (h : t ≠ s) :
    (m.setAccounting s a).image t = m.image t := image_setImage_other hs ht h

end BootMetadata

/-! ## The checks -/

theorem span_slotValid {slot base length last : UInt32}
    (h : bootImageSpan slot base length = .ok last) :
    slotValid slot = true ∧ base = slotBase slot ∧ bootPayloadMin ≤ length ∧
      length ≤ slotManifest slot - base ∧ length &&& 3 = 0 ∧
      last = base + length := by
  unfold bootImageSpan at h
  dsimp only at h
  split at h
  · cases h
  split at h
  · cases h
  split at h
  · cases h
  · next hv hb hl =>
      injection h with h
      simp only [not_or, gt_iff_lt, UInt32.not_lt, not_not] at hl hb
      exact ⟨by simpa using hv, hb, hl.1, hl.2.1, hl.2.2, h.symm⟩

/-- An admitted manifest: its slot is one of the two and its payload fits. -/
theorem manifestValidate_eq_ok {m : BootManifest}
    (h : bootManifestValidate m = .ok) :
    slotValid m.slot = true ∧ m.executionBase = slotBase m.slot ∧
      bootPayloadMin ≤ m.payloadLength ∧
      m.payloadLength ≤ slotManifest m.slot - slotBase m.slot ∧
      m.payloadLength &&& 3 = 0 := by
  unfold bootManifestValidate at h
  split at h
  · next hs =>
      obtain ⟨hv, hb, hmin, hmax, hal, -⟩ := span_slotValid hs
      rw [hb] at hmax
      exact ⟨hv, hb, hmin, hmax, hal⟩
  · next e he =>
      subst h
      unfold bootImageSpan at he
      dsimp only at he
      repeat' (split at he; · cases he)
      cases he

theorem imageAdmissible_manifest {i : BootVerifiedImage}
    (h : imageAdmissible i = true) : bootManifestValidate i.manifest = .ok := by
  simp only [imageAdmissible, Bool.and_eq_true, beq_iff_eq] at h
  exact h.1

structure Matches (r : BootMetadata) (m : BootManifest) : Prop where
  record : MetadataOk r
  manifest : bootManifestValidate m = .ok
  payloadLength : (r.image m.slot).payloadLength = m.payloadLength
  release : (r.image m.slot).release = m.release
  payloadHash : (r.image m.slot).payloadHash = m.payloadHash

theorem imageMatches_eq_ok {r : BootMetadata} {m : BootManifest} :
    bootMetadataImageMatches r m = .ok ↔ Matches r m := by
  unfold bootMetadataImageMatches
  simp only [BootResult.andThen_eq_ok, metadataValidate_eq_ok]
  constructor
  · rintro ⟨hr, hm, h⟩
    split at h
    · cases h
    · next hne =>
        simp only [not_or, not_not] at hne
        exact ⟨hr, hm, hne.1, hne.2.1, hne.2.2⟩
  · intro h
    refine ⟨h.record, h.manifest, ?_⟩
    rw [if_neg]
    simp only [not_or, not_not]
    exact ⟨h.payloadLength, h.release, h.payloadHash⟩

namespace Matches

variable {r : BootMetadata} {m : BootManifest}

theorem slotValid (h : Matches r m) : slotValid m.slot = true :=
  (manifestValidate_eq_ok h.manifest).1

theorem nonempty (h : Matches r m) : (r.image m.slot).payloadLength ≠ 0 := by
  have hmin := (manifestValidate_eq_ok h.manifest).2.2.1
  rw [h.payloadLength]
  intro h0
  rw [h0] at hmin
  exact absurd hmin (by decide)

end Matches

theorem Matches.of_image {r r' : BootMetadata} {m : BootManifest}
    (h : Matches r m) (hr' : MetadataOk r')
    (hl : (r'.image m.slot).payloadLength = (r.image m.slot).payloadLength)
    (hv : (r'.image m.slot).release = (r.image m.slot).release)
    (hh : (r'.image m.slot).payloadHash = (r.image m.slot).payloadHash) :
    Matches r' m :=
  ⟨hr', h.manifest, hl.trans h.payloadLength, hv.trans h.release,
    hh.trans h.payloadHash⟩

/-- What `execution` has established when it answers CHANGE. -/
structure Executing (r : BootMetadata) (i : BootVerifiedImage) : Prop extends
    Matches r i.manifest where
  admissible : imageAdmissible i = true

theorem execution_eq_change {r : BootMetadata} {i : BootVerifiedImage} :
    execution r i = .change ↔ Executing r i := by
  unfold execution
  constructor
  · intro h
    split at h
    · cases h
    split at h
    · cases h
    split at h
    · cases h
    · next hr ha hm =>
        rw [not_not, imageMatches_eq_ok] at hm
        exact ⟨hm, by simpa using ha⟩
  · intro h
    rw [if_neg (by simpa [metadataValidate_eq_ok] using h.record),
      if_neg (by simp [h.admissible]),
      if_neg (by simpa [imageMatches_eq_ok] using h.toMatches)]

theorem execution_ne_noChange {r : BootMetadata} {i : BootVerifiedImage} :
    execution r i ≠ .noChange := by
  unfold execution
  repeat' (split; · decide)
  decide

/-- What `admission` has established when it answers CHANGE. -/
structure Admitted (r : BootMetadata) (e : BootUploadEvidence) : Prop where
  running : Executing r e.running
  incoming : bootManifestValidate e.incoming = .ok
  permitted : slotValid e.permittedSlot = true
  incomingSlot : e.incoming.slot = e.permittedSlot
  current : r.currentSlot = e.running.manifest.slot
  inactive : e.permittedSlot ≠ r.currentSlot
  candidate : r.candidateSlot = bootSlotNone
  confirmed : r.confirmed e.running.manifest.slot = true

theorem admission_eq_change {r : BootMetadata} {e : BootUploadEvidence} :
    admission r e = .change ↔ Admitted r e := by
  unfold admission
  constructor
  · intro h
    split at h
    · cases h
    split at h
    · cases h
    split at h
    · cases h
    split at h
    · cases h
    · next hr hi ha hm =>
        simp only [not_or, not_not, gt_iff_lt, UInt32.not_lt,
          ← slotValid_iff_le] at ha hi
        rw [not_not, imageMatches_eq_ok] at hm
        exact ⟨⟨hm, by simpa using hi.2⟩, hi.1, ha.1, ha.2.1, ha.2.2.1,
          ha.2.2.2.1, ha.2.2.2.2.1, ha.2.2.2.2.2⟩
  · intro h
    rw [if_neg (by simpa [metadataValidate_eq_ok] using h.running.record),
      if_neg (by simp [h.incoming, h.running.admissible]), if_neg,
      if_neg (by simpa [imageMatches_eq_ok] using h.running.toMatches)]
    simp only [not_or, not_not, gt_iff_lt, UInt32.not_lt, ← slotValid_iff_le]
    exact ⟨h.permitted, h.incomingSlot, h.current, h.inactive, h.candidate,
      h.confirmed⟩

/-! ## `finish` -/

/-- What every commit does besides the rewriting its operation is about. -/
structure Advances (r proposal r' : BootMetadata) : Prop where
  before : MetadataOk r
  room : r.sequence ≠ uint32Max
  eq : r' = { proposal with sequence := r.sequence + 1 }
  after : MetadataOk r'

theorem finish_eq_change {r p r' : BootMetadata} :
    finish r p = (.change, some r') ↔ Advances r p r' := by
  unfold finish bootMetadataNextSequence
  constructor
  · intro h
    split at h
    · cases h
    · cases h
    · next n hn =>
        split at hn
        · next hv =>
            split at hn
            · cases hn
            · next hs =>
                injection hn with hn
                subst hn
                dsimp only at h
                split at h
                · cases h
                · next hp =>
                    simp only [Prod.mk.injEq, Option.some.injEq, true_and] at h
                    subst h
                    exact ⟨metadataValidate_eq_ok.mp hv, hs, rfl,
                      metadataValidate_eq_ok.mp (not_not.mp hp)⟩
        · cases hn
  · intro h
    rw [metadataValidate_eq_ok.mpr h.before]
    simp only [h.room, if_false]
    rw [if_neg, h.eq]
    rw [not_not, ← h.eq]
    exact metadataValidate_eq_ok.mpr h.after

theorem finish_ne_noChange {r p : BootMetadata} : (finish r p).1 ≠ .noChange := by
  unfold finish
  split
  · simp
  · simp
  · dsimp only
    split <;> simp

namespace Advances

variable {r p r' : BootMetadata}

theorem sequence (h : Advances r p r') :
    r'.sequence.toNat = r.sequence.toNat + 1 := by
  have hr := h.room
  have hlt := r.sequence.toNat_lt
  rw [h.eq, UInt32.toNat_add]
  have hmax : uint32Max.toNat = 4294967295 := rfl
  rw [ne_eq, ← UInt32.toNat_inj] at hr
  simp only [UInt32.reduceToNat]
  omega

theorem image (h : Advances r p r') (s : UInt32) : r'.image s = p.image s := by
  rw [h.eq]; rfl

theorem confirmed (h : Advances r p r') (s : UInt32) :
    r'.confirmed s = p.confirmed s := by
  rw [h.eq]; rfl

end Advances

/-! ## Refusals in a row -/

section Replies

variable {result e : BootLifecycleResult} {rest : LifecycleReply}
  {r r' : BootMetadata} {c : Prop} [Decidable c]

theorem passing_eq_change :
    result.passing rest = (.change, some r') ↔
      result = .change ∧ rest = (.change, some r') := by
  by_cases h : result = .change <;> simp [BootLifecycleResult.passing, h]

theorem guard_eq_change (he : e ≠ .change) :
    (if c then (e, none) else rest) = (.change, some r') ↔
      ¬ c ∧ rest = (.change, some r') := by
  by_cases h : c <;> simp [h, he]

theorem unchanged_eq_change :
    (if c then unchanged r else rest) = (.change, some r') ↔
      ¬ c ∧ rest = (.change, some r') := by
  by_cases h : c <;> simp [h, unchanged]

/-- A call that proposes or reports that nothing needs to change, as opposed
to one that refuses. -/
def Answers (reply : LifecycleReply) : Prop :=
  reply.1 = .change ∨ reply.1 = .noChange

theorem answers_passing (hn : result ≠ .noChange) :
    Answers (result.passing rest) → result = .change ∧ Answers rest := by
  by_cases h : result = .change <;>
    simp [BootLifecycleResult.passing, h, Answers, hn]

theorem answers_guard (he : e ≠ .change) (hn : e ≠ .noChange) :
    Answers (if c then (e, none) else rest) → ¬ c ∧ Answers rest := by
  by_cases h : c <;> simp [h, Answers, he, hn]

end Replies

/-! ## The seven inversions -/

/-- The proposal of an invalidation. Admission has excluded the destination
from the current and candidate roles, so those stay. -/
def invalidated (r : BootMetadata) (slot : UInt32) : BootMetadata :=
  { r.setImage slot .empty with
    previousSlot := if r.previousSlot = slot then bootSlotNone
      else r.previousSlot
    confirmedMask := maskClear r.confirmedMask slot }

theorem invalidate_committed {r r' : BootMetadata} {e : BootUploadEvidence} :
    Committed r (.invalidate e) r' ↔
      Admitted r e ∧ Advances r (invalidated r e.permittedSlot) r' := by
  show bootLifecycleInvalidate r e = (.change, some r') ↔ _
  unfold bootLifecycleInvalidate
  rw [passing_eq_change, admission_eq_change]
  refine and_congr_right fun ha => ?_
  have hcur : (r.setImage e.permittedSlot .empty).currentSlot ≠ e.permittedSlot :=
    Ne.symm ha.inactive
  have hcand : (r.setImage e.permittedSlot .empty).candidateSlot ≠
      e.permittedSlot := by
    show r.candidateSlot ≠ _
    rw [ha.candidate]
    exact Ne.symm (slotValid_ne_none ha.permitted)
  dsimp only
  rw [finish_eq_change, if_neg hcur, if_neg hcand]
  rfl

/-- The proposal of an acceptance. -/
def accepted (r : BootMetadata) (m : BootManifest) : BootMetadata :=
  { r.setImage m.slot {
      payloadHash := m.payloadHash
      release := m.release
      payloadLength := m.payloadLength
      accounting := bootStateReady
      trialId := r.sequence + 1 } with
    candidateSlot := m.slot }

/-- What an acceptance has checked of the image it accepts. -/
structure Accepting (r : BootMetadata) (e : BootUploadEvidence)
    (stored : BootVerifiedImage) : Prop extends Admitted r e where
  empty : (r.image e.permittedSlot).payloadLength = 0
  stored_admissible : imageAdmissible stored = true
  identity : stored.manifest = e.incoming

theorem nextSequence_eq_ok {r : BootMetadata} (hr : MetadataOk r)
    (h : r.sequence ≠ uint32Max) :
    bootMetadataNextSequence r = .ok (r.sequence + 1) := by
  unfold bootMetadataNextSequence
  rw [metadataValidate_eq_ok.mpr hr]
  simp only [h, if_false]

theorem nextSequence_exhausted {r : BootMetadata} (hr : MetadataOk r)
    (h : r.sequence = uint32Max) :
    bootMetadataNextSequence r = .error .errorExhausted := by
  unfold bootMetadataNextSequence
  rw [metadataValidate_eq_ok.mpr hr]
  simp only [h, if_true]

/-- With a valid record, what is asked of the next sequence is asked of this one. -/
theorem nextSequence_change {r r' : BootMetadata} (hr : MetadataOk r)
    (propose : UInt32 → LifecycleReply) :
    (match bootMetadataNextSequence r with
      | .error .errorExhausted => (.errorExhausted, none)
      | .error _ => (.errorRecord, none)
      | .ok next => propose next) = ((.change, some r') : LifecycleReply) ↔
      r.sequence ≠ uint32Max ∧ propose (r.sequence + 1) = (.change, some r') := by
  by_cases hs : r.sequence = uint32Max
  · rw [nextSequence_exhausted hr hs]
    constructor
    · intro h
      cases h
    · intro h
      exact absurd hs h.1
  · rw [nextSequence_eq_ok hr hs]
    exact (and_iff_right hs).symm

theorem acceptReady_committed {r r' : BootMetadata} {e : BootUploadEvidence}
    {stored : BootVerifiedImage} :
    Committed r (.acceptReady e stored) r' ↔
      Accepting r e stored ∧ Advances r (accepted r e.incoming) r' := by
  show bootLifecycleAcceptReady r e stored = (.change, some r') ↔ _
  unfold bootLifecycleAcceptReady
  dsimp only
  rw [passing_eq_change, admission_eq_change, guard_eq_change (by decide),
    guard_eq_change (by decide), guard_eq_change (by decide)]
  simp only [not_not, Bool.not_eq_true', Bool.not_eq_false]
  have hproposal : Admitted r e → stored.manifest = e.incoming →
      ({ r.setImage e.permittedSlot {
          payloadHash := stored.manifest.payloadHash
          release := stored.manifest.release
          payloadLength := stored.manifest.payloadLength
          accounting := bootStateReady
          trialId := r.sequence + 1 } with
        candidateSlot := e.permittedSlot } : BootMetadata) = accepted r e.incoming := by
    intro ha hid
    rw [hid, ← ha.incomingSlot]
    rfl
  constructor
  · rintro ⟨ha, h0, hs, hid, h⟩
    have hfinish := ((nextSequence_change ha.running.record _).mp h).2
    rw [hproposal ha hid] at hfinish
    exact ⟨⟨ha, h0, hs, hid⟩, finish_eq_change.mp hfinish⟩
  · rintro ⟨h, hadv⟩
    refine ⟨h.toAdmitted, h.empty, h.stored_admissible, h.identity, ?_⟩
    refine (nextSequence_change h.running.record _).mpr ⟨hadv.room, ?_⟩
    rw [hproposal h.toAdmitted h.identity]
    exact finish_eq_change.mpr hadv

/-- The proposal that starts a trial. -/
def tried (r : BootMetadata) (slot : UInt32) : BootMetadata :=
  r.setAccounting slot
    ((r.image slot).accounting &&& ~~~bootAccountStateMask ||| bootStateTrial)

theorem beginTrial_committed {r r' : BootMetadata} {c : BootVerifiedImage} :
    Committed r (.beginTrial c) r' ↔
      Executing r c ∧ r.candidateSlot = c.manifest.slot ∧
        r.state c.manifest.slot ≠ bootStateTrial ∧
        Advances r (tried r c.manifest.slot) r' := by
  show bootLifecycleBeginTrial r c = (.change, some r') ↔ _
  unfold bootLifecycleBeginTrial
  dsimp only
  rw [passing_eq_change, execution_eq_change, guard_eq_change (by decide),
    unchanged_eq_change, finish_eq_change, not_not]
  exact Iff.rfl

/-- The proposal of a confirmation: the candidate becomes current, and the old
current previous. -/
def promotedCandidate (r : BootMetadata) (slot : UInt32) : BootMetadata :=
  clearIntent { r.setAccounting slot
      ((r.image slot).accounting &&& ~~~bootAccountStateMask) with
    previousSlot := r.currentSlot
    currentSlot := slot
    candidateSlot := bootSlotNone
    confirmedMask := maskSet r.confirmedMask slot }

/-- What a confirmation has checked, whether or not there is anything to do. -/
structure Requested (r : BootMetadata) (q : BootConfirmRequest)
    (i : BootVerifiedImage) : Prop extends Executing r i where
  slot_eq : q.slot = i.manifest.slot
  trialId_eq : q.trialId = (r.image i.manifest.slot).trialId
  hash_eq : q.payloadHash = i.manifest.payloadHash

theorem confirm_answers {r : BootMetadata} {q : BootConfirmRequest}
    {i : BootVerifiedImage} {health : UInt32}
    (h : Answers (bootLifecycleConfirm r q i health)) : Requested r q i := by
  unfold bootLifecycleConfirm at h
  obtain ⟨hx, h⟩ := answers_passing execution_ne_noChange h
  dsimp only at h
  obtain ⟨hid, -⟩ := answers_guard (by decide) (by decide) h
  simp only [not_or, not_not] at hid
  exact ⟨execution_eq_change.mp hx, hid.1, hid.2.1, hid.2.2⟩

theorem confirm_committed {r r' : BootMetadata} {q : BootConfirmRequest}
    {i : BootVerifiedImage} {health : UInt32} :
    Committed r (.confirm q i health) r' ↔
      Requested r q i ∧ r.confirmed i.manifest.slot = false ∧
        r.candidateSlot = i.manifest.slot ∧
        r.state i.manifest.slot = bootStateTrial ∧
        health = bootHealthRequired ∧
        Advances r (promotedCandidate r i.manifest.slot) r' := by
  show bootLifecycleConfirm r q i health = (.change, some r') ↔ _
  unfold bootLifecycleConfirm
  dsimp only
  rw [passing_eq_change, execution_eq_change, guard_eq_change (by decide),
    unchanged_eq_change, guard_eq_change (by decide),
    guard_eq_change (by decide), finish_eq_change]
  simp only [not_or, not_not, Bool.not_eq_true]
  constructor
  · rintro ⟨hx, ⟨hs, ht, hh⟩, hc, ⟨hcand, hst⟩, hhl, hadv⟩
    exact ⟨⟨hx, hs, ht, hh⟩, hc, hcand, hst, hhl, hadv⟩
  · rintro ⟨h, hc, hcand, hst, hhl, hadv⟩
    exact ⟨h.toExecuting, ⟨h.slot_eq, h.trialId_eq, h.hash_eq⟩, hc,
      ⟨hcand, hst⟩, hhl, hadv⟩

/-- The proposal that records a deadline intent. -/
def intended (r : BootMetadata) (slot trialId : UInt32) : BootMetadata :=
  { r with
    intentKind := bootIntentDeadline
    intentSlot := slot
    intentTrialId := trialId }

theorem deadlineIntent_answers {r : BootMetadata} {q : BootDeadlineRequest}
    {i : BootVerifiedImage} (h : Answers (bootLifecycleDeadlineIntent r q i)) :
    Executing r i ∧ q.slot = i.manifest.slot ∧
      q.trialId = (r.image i.manifest.slot).trialId := by
  unfold bootLifecycleDeadlineIntent at h
  obtain ⟨hx, h⟩ := answers_passing execution_ne_noChange h
  dsimp only at h
  obtain ⟨hid, -⟩ := answers_guard (by decide) (by decide) h
  simp only [not_or, not_not] at hid
  exact ⟨execution_eq_change.mp hx, hid.1, hid.2.1⟩

theorem deadlineIntent_committed {r r' : BootMetadata} {q : BootDeadlineRequest}
    {i : BootVerifiedImage} :
    Committed r (.deadlineIntent q i) r' ↔
      Executing r i ∧ (q.slot = i.manifest.slot ∧
        q.trialId = (r.image i.manifest.slot).trialId ∧
        q.reason = bootReasonDeadline) ∧
      (r.candidateSlot = i.manifest.slot ∧
        r.state i.manifest.slot = bootStateTrial) ∧
      ¬ (r.intentKind = bootIntentDeadline ∧ r.intentSlot = i.manifest.slot ∧
        r.intentTrialId = q.trialId) ∧
      Advances r (intended r i.manifest.slot q.trialId) r' := by
  show bootLifecycleDeadlineIntent r q i = (.change, some r') ↔ _
  unfold bootLifecycleDeadlineIntent
  dsimp only
  rw [passing_eq_change, execution_eq_change, guard_eq_change (by decide),
    guard_eq_change (by decide), unchanged_eq_change, finish_eq_change]
  simp only [not_or, not_not]
  exact Iff.rfl

structure Resident (r : BootMetadata) (id : BootResidentIdentity) : Prop where
  slot : slotValid id.slot = true
  nonempty : (r.image id.slot).payloadLength ≠ 0
  payloadLength : (r.image id.slot).payloadLength = id.payloadLength
  release : (r.image id.slot).release = id.release
  trialId : (r.image id.slot).trialId = id.trialId
  payloadHash : (r.image id.slot).payloadHash = id.payloadHash

theorem residentMatches_iff {r : BootMetadata} {id : BootResidentIdentity} :
    residentMatches r id = true ↔ Resident r id := by
  simp only [residentMatches, Bool.and_eq_true, decide_eq_true_eq, bne_iff_ne,
    beq_iff_eq, ← slotValid_iff_le]
  constructor
  · rintro ⟨hs, ⟨⟨⟨h0, hl⟩, hr⟩, ht⟩, hh⟩
    exact ⟨hs, h0, hl, hr, ht, hh⟩
  · intro h
    exact ⟨h.slot, ⟨⟨⟨⟨h.nonempty, h.payloadLength⟩, h.release⟩, h.trialId⟩,
      h.payloadHash⟩⟩

/-- What a counted failure has checked. -/
structure Countable (r : BootMetadata) (f : BootCountedFailure) : Prop where
  record : MetadataOk r
  reason : ¬ (f.reason < bootReasonWatchdog ∨ f.reason > bootReasonCombined ∨
    f.consumeIntent > 1)
  resident : Resident r f.identity

/-- The accounting word of the third failure. -/
def rejectedWord (accounting : UInt32) : UInt32 :=
  accounting &&& ~~~bootAccountStateMask ||| bootStateRejected |||
    bootAccountRollback

/-- The proposal of a counted failure. -/
def charged (r : BootMetadata) (slot reason consume : UInt32) : BootMetadata :=
  let accounting := (r.image slot).accounting
  let word := appendReason accounting (accountCount accounting) reason
  if accountCount accounting = 2 then
    clearIntent { r.setAccounting slot (rejectedWord word) with
      candidateSlot := bootSlotNone }
  else if consume ≠ 0 then clearIntent (r.setAccounting slot word)
  else r.setAccounting slot word

theorem applyCountedFailure_answers {r : BootMetadata} {f : BootCountedFailure}
    (h : Answers (bootLifecycleApplyCountedFailure r f)) : Countable r f := by
  unfold bootLifecycleApplyCountedFailure at h
  obtain ⟨hr, h⟩ := answers_guard (by decide) (by decide) h
  obtain ⟨ha, h⟩ := answers_guard (by decide) (by decide) h
  obtain ⟨hi, -⟩ := answers_guard (by decide) (by decide) h
  exact ⟨metadataValidate_eq_ok.mp (not_not.mp hr), ha,
    residentMatches_iff.mp (by simpa using hi)⟩

theorem applyCountedFailure_committed {r r' : BootMetadata}
    {f : BootCountedFailure} :
    Committed r (.applyCountedFailure f) r' ↔
      Countable r f ∧ r.candidateSlot = f.identity.slot ∧
        r.confirmed f.identity.slot = false ∧
        r.state f.identity.slot = bootStateTrial ∧
        Advances r (charged r f.identity.slot f.reason f.consumeIntent) r' := by
  show bootLifecycleApplyCountedFailure r f = (.change, some r') ↔ _
  unfold bootLifecycleApplyCountedFailure
  dsimp only
  rw [guard_eq_change (by decide), guard_eq_change (by decide),
    guard_eq_change (by decide), guard_eq_change (by decide),
    guard_eq_change (by decide), ← apply_ite (finish r),
    ← apply_ite (finish r), finish_eq_change]
  simp only [not_or, not_not, Bool.not_eq_true', Bool.not_eq_true,
    Bool.not_eq_false, metadataValidate_eq_ok, residentMatches_iff]
  constructor
  · rintro ⟨hr, ha, hi, ⟨hc, hm, hs⟩, -, hadv⟩
    exact ⟨⟨hr, by simpa only [not_or] using ha, hi⟩, hc, hm, hs, hadv⟩
  · rintro ⟨h, hc, hm, hs, hadv⟩
    exact ⟨h.record, by simpa only [not_or] using h.reason, h.resident,
      ⟨hc, hm, hs⟩, hadv.room, hadv⟩

/-- The proposal of a fallback: the previous slot becomes current, and the
invalid one keeps its entry but no role. -/
def promotedPrevious (r : BootMetadata) (invalid : UInt32) : BootMetadata :=
  { r with
    currentSlot := r.previousSlot
    previousSlot := bootSlotNone
    confirmedMask := maskClear r.confirmedMask invalid }

theorem promotePrevious_committed {r r' : BootMetadata} {v : BootInvalidCurrent}
    {p : BootVerifiedImage} :
    Committed r (.promotePrevious v p) r' ↔
      Executing r p ∧ invalidImageFailure v.failure = true ∧
        Resident r v.identity ∧ r.currentSlot = v.identity.slot ∧
        r.previousSlot = p.manifest.slot ∧ r.candidateSlot = bootSlotNone ∧
        Advances r (promotedPrevious r v.identity.slot) r' := by
  show bootLifecyclePromotePrevious r v p = (.change, some r') ↔ _
  unfold bootLifecyclePromotePrevious
  rw [passing_eq_change, execution_eq_change, guard_eq_change (by decide),
    guard_eq_change (by decide), guard_eq_change (by decide),
    guard_eq_change (by decide), finish_eq_change]
  simp only [not_or, not_not, Bool.not_eq_true', Bool.not_eq_false,
    residentMatches_iff]
  constructor
  · rintro ⟨hx, hv, ⟨hi, hc⟩, ⟨hp, hcand⟩, -, hadv⟩
    exact ⟨hx, hv, hi, hc, hp, hcand, hadv⟩
  · rintro ⟨hx, hv, hi, hc, hp, hcand, hadv⟩
    exact ⟨hx, hv, ⟨hi, hc⟩, ⟨hp, hcand⟩, hadv.room, hadv⟩

end EkBareMetal.Boot

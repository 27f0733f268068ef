import EkBareMetal.Proofs.Reset

/-!
# Every admitted proposal is a valid record

`finish` validates what it is about to propose and reports a record that fails
as an error of the record. It never has to: what each of the seven functions has
checked by then makes its proposal valid. So on a valid record a call proposes a
valid successor, says that nothing needs to change, or refuses with an error
about its evidence, and in the last case it has written nothing.
-/

namespace EkBareMetal.Boot

open Words

section Proposals

variable {r : BootMetadata} {s t : UInt32}

/-! ## Invalidation -/

theorem invalidated_imageOk (hr : MetadataOk r) (hroom : r.sequence ≠ uint32Max)
    (hs : slotValid s = true) (hcur : r.currentSlot ≠ s)
    (hcand : r.candidateSlot = bootSlotNone) (ht : slotValid t = true) :
    ImageOk { invalidated r s with sequence := r.sequence + 1 } t := by
  by_cases hts : t = s
  · subst hts
    have himg : ({ invalidated r t with sequence := r.sequence + 1 } :
        BootMetadata).image t = .empty := BootMetadata.image_setImage_same
    have hstate : ({ invalidated r t with sequence := r.sequence + 1 } :
        BootMetadata).state t = bootStateNone := by
      rw [BootMetadata.state, himg]
      rfl
    have hconf : ({ invalidated r t with sequence := r.sequence + 1 } :
        BootMetadata).confirmed t = false := maskBit_clear_same hr.mask ht
    refine ⟨?_, ?_, fun _ => ⟨hconf, hcur, ?_, ?_⟩, ?_, ?_⟩
    · rw [himg]
      decide
    · rw [himg]
      exact UInt32.zero_le
    · show (if r.previousSlot = t then bootSlotNone else r.previousSlot) ≠ t
      split
      · exact Ne.symm (slotValid_ne_none ht)
      · assumption
    · show r.candidateSlot ≠ t
      rw [hcand]
      exact Ne.symm (slotValid_ne_none ht)
    · intro hc
      rw [hconf] at hc
      cases hc
    · rw [hstate]
      intro hc
      exact absurd hc (by decide)
  · refine (hr.image t ht).frame (sequence_le_next hroom (UInt32.le_refl _))
      (BootMetadata.image_setImage_other hs ht hts)
      (maskBit_clear_other hr.mask hs ht hts) (fun he => he) ?_ Iff.rfl
    intro he
    replace he : (if r.previousSlot = s then bootSlotNone else r.previousSlot) =
      t := he
    split at he
    · exact absurd he.symm (slotValid_ne_none ht)
    · exact he

theorem maskClear_ok {mask : UInt32} (h : mask &&& ~~~3 = 0) :
    maskClear mask s &&& ~~~3 = 0 := by
  rw [maskClear, UInt32.and_assoc, UInt32.and_comm _ (~~~3), ← UInt32.and_assoc, h,
    UInt32.zero_and]

/-- Without a candidate there is no intent. -/
theorem MetadataOk.no_intent (hr : MetadataOk r) (hcand : ¬ slotValid r.candidateSlot = true) :
    r.intentKind = bootIntentNone ∧ r.intentSlot = bootSlotNone ∧ r.intentTrialId = 0 := by
  rcases hr.intent with h | ⟨-, hv, he, -⟩
  · exact h
  · rw [he] at hv
    exact absurd hv hcand

theorem invalidated_ok (hr : MetadataOk r) (hroom : r.sequence ≠ uint32Max)
    (hs : slotValid s = true) (hcur : r.currentSlot ≠ s)
    (hcand : r.candidateSlot = bootSlotNone) :
    MetadataOk { invalidated r s with sequence := r.sequence + 1 } := by
  have hkeep : ∀ t, slotValid t = true → t ≠ s →
      ({ invalidated r s with sequence := r.sequence + 1 } :
        BootMetadata).confirmed t = r.confirmed t :=
    fun t ht hts => maskBit_clear_other hr.mask hs ht hts
  refine ⟨hr.current, hr.candidate, ?_, maskClear_ok hr.mask,
    fun t ht => invalidated_imageOk hr hroom hs hcur hcand ht, ?_, ?_⟩
  · show roleValid (if r.previousSlot = s then bootSlotNone
      else r.previousSlot) = true
    split
    · decide
    · exact hr.previous
  · refine ⟨fun hne => ?_, fun hne => ?_, fun hne => absurd hcand hne⟩
    · show BootMetadata.confirmed _ r.currentSlot = true
      rw [hkeep _ (hr.current_slotValid hne) hcur]
      exact hr.roles.current hne
    · replace hne : (if r.previousSlot = s then bootSlotNone
        else r.previousSlot) ≠ bootSlotNone := hne
      show BootMetadata.confirmed _ (if r.previousSlot = s then bootSlotNone
          else r.previousSlot) = true ∧
        (if r.previousSlot = s then bootSlotNone else r.previousSlot) ≠
          r.currentSlot
      split at hne
      · exact absurd rfl hne
      · next hps =>
          obtain ⟨hc, hn⟩ := hr.roles.previous hne
          rw [if_neg hps, hkeep _ ?_ hps]
          · exact ⟨hc, hn⟩
          · exact (roleValid_iff.mp hr.previous).resolve_right hne
  · exact .inl (hr.no_intent (by rw [hcand]; exact not_slotValid_none))

/-! ## Acceptance -/

theorem manifest_length {m : BootManifest} (h : bootManifestValidate m = .ok) :
    LengthOk m.payloadLength ∧ m.payloadLength ≠ 0 := by
  obtain ⟨hs, -, hmin, hmax, hal⟩ := manifestValidate_eq_ok h
  have hsize : slotManifest m.slot - slotBase m.slot = bootPayloadMax := by
    rcases slotValid_iff.mp hs with he | he
    · rw [he]
      decide
    · rw [he]
      decide
  rw [hsize] at hmax
  refine ⟨⟨hmin, hmax, hal⟩, fun h0 => ?_⟩
  rw [h0] at hmin
  exact absurd hmin (by decide)

theorem roleValid_none : roleValid bootSlotNone = true := by decide

theorem accountValidate_ready : accountValidate bootStateReady = .ok := by decide

theorem accountState_ready : accountState bootStateReady = bootStateReady := by decide

theorem accountState_trial : accountState bootStateTrial = bootStateTrial := by decide

theorem accepted_imageOk {m : BootManifest} (hr : MetadataOk r)
    (hroom : r.sequence ≠ uint32Max) (hm : bootManifestValidate m = .ok)
    (h0 : (r.image m.slot).payloadLength = 0) (hcand : r.candidateSlot = bootSlotNone)
    (ht : slotValid t = true) :
    ImageOk { accepted r m with sequence := r.sequence + 1 } t := by
  have hs := (manifestValidate_eq_ok hm).1
  by_cases hts : t = m.slot
  · subst hts
    obtain ⟨hlen, hne⟩ := manifest_length hm
    obtain ⟨hconf, -⟩ := (hr.image _ ht).role h0
    have himg : ({ accepted r m with sequence := r.sequence + 1 } :
        BootMetadata).image m.slot = ⟨m.payloadHash, m.release, m.payloadLength,
          bootStateReady, r.sequence + 1⟩ := BootMetadata.image_setImage_same
    refine ⟨?_, ?_, ?_, ?_, fun _ => rfl⟩
    · rw [himg]
      exact entryValidate_eq_ok.mpr (.inr ⟨hne, hlen, accountValidate_ready⟩)
    · rw [himg]
      exact UInt32.le_refl _
    · rw [himg]
      exact fun he => absurd he hne
    · intro hc
      exact absurd (hconf.symm.trans hc) Bool.false_ne_true
  · refine (hr.image t ht).frame (sequence_le_next hroom (UInt32.le_refl _))
      (BootMetadata.image_setImage_other hs ht hts) rfl (fun he => he) (fun he => he) ?_
    constructor
    · intro he
      exact absurd he.symm hts
    · intro he
      rw [hcand] at he
      exact absurd he.symm (slotValid_ne_none ht)

theorem accepted_ok {m : BootManifest} (hr : MetadataOk r)
    (hroom : r.sequence ≠ uint32Max) (hm : bootManifestValidate m = .ok)
    (h0 : (r.image m.slot).payloadLength = 0) (hcand : r.candidateSlot = bootSlotNone) :
    MetadataOk { accepted r m with sequence := r.sequence + 1 } := by
  have hs := (manifestValidate_eq_ok hm).1
  obtain ⟨hconf, hcur, hprev, -⟩ := (hr.image _ hs).role h0
  have hstate : ({ accepted r m with sequence := r.sequence + 1 } :
      BootMetadata).state m.slot = bootStateReady := by
    have himg : ({ accepted r m with sequence := r.sequence + 1 } :
        BootMetadata).image m.slot = ⟨m.payloadHash, m.release, m.payloadLength,
          bootStateReady, r.sequence + 1⟩ := BootMetadata.image_setImage_same
    rw [BootMetadata.state, himg]
    exact accountState_ready
  refine ⟨hr.current, ?_, hr.previous, hr.mask,
    fun t ht => accepted_imageOk hr hroom hm h0 hcand ht, ?_, ?_⟩
  · exact roleValid_iff.mpr (.inl hs)
  · exact ⟨hr.roles.current, hr.roles.previous,
      fun _ => ⟨hconf, Ne.symm hcur, Ne.symm hprev, .inl hstate⟩⟩
  · exact .inl (hr.no_intent (by rw [hcand]; exact not_slotValid_none))

/-! ## A trial begins -/

/-- A candidate that is not in its trial is READY, and its word says no more. -/
theorem ready_word (hr : MetadataOk r) (hs : slotValid s = true)
    (hcand : r.candidateSlot = s) (hst : r.state s ≠ bootStateTrial)
    (h0 : (r.image s).payloadLength ≠ 0) :
    (r.image s).accounting = bootStateReady := by
  obtain ⟨-, -, -, hstate⟩ := hr.roles.candidate (by rw [hcand]; exact slotValid_ne_none hs)
  rw [hcand] at hstate
  obtain ⟨-, -, -, -, hready, -⟩ := accountValidate_fields (hr.account hs h0)
  exact hready (hstate.resolve_right hst)

/-- The entry of a slot with another valid word. -/
theorem entry_with_word (hr : MetadataOk r) (hs : slotValid s = true)
    (h0 : (r.image s).payloadLength ≠ 0) {w : UInt32} (hw : accountValidate w = .ok) :
    entryValidate { r.image s with accounting := w } = .ok := by
  have hentry := (entryValidate_eq_ok.mp (hr.image s hs).entry).resolve_left
    fun he => h0 (by rw [he]; rfl)
  exact entryValidate_eq_ok.mpr (.inr ⟨hentry.1, hentry.2.1, hw⟩)

theorem tried_ok (hr : MetadataOk r) (hroom : r.sequence ≠ uint32Max)
    (hs : slotValid s = true) (hcand : r.candidateSlot = s)
    (hst : r.state s ≠ bootStateTrial) (h0 : (r.image s).payloadLength ≠ 0) :
    MetadataOk { tried r s with sequence := r.sequence + 1 } := by
  have hword := ready_word hr hs hcand hst h0
  have hnone : r.candidateSlot ≠ bootSlotNone := by
    rw [hcand]
    exact slotValid_ne_none hs
  obtain ⟨hconf, hcur, hprev, hstate⟩ := hr.roles.candidate hnone
  have himg : ({ tried r s with sequence := r.sequence + 1 } : BootMetadata).image s =
      { r.image s with accounting := bootStateTrial } := by
    refine BootMetadata.image_setAccounting_same.trans ?_
    rw [hword]
    rfl
  have htrial : ({ tried r s with sequence := r.sequence + 1 } : BootMetadata).state s =
      bootStateTrial := by
    rw [BootMetadata.state, himg]
    exact accountState_trial
  refine ⟨hr.current, hr.candidate, hr.previous, hr.mask, fun t ht => ?_, ?_, ?_⟩
  · by_cases hts : t = s
    · subst hts
      refine ⟨?_, ?_, ?_, ?_, fun _ => hcand⟩
      · rw [himg]
        exact entry_with_word hr ht h0 (by decide)
      · rw [himg]
        exact sequence_le_next hroom (hr.image t ht).trialId
      · rw [himg]
        exact fun he => absurd he h0
      · intro hc
        rw [hcand] at hconf
        exact absurd (hconf.symm.trans hc) Bool.false_ne_true
    · exact (hr.image t ht).frame (sequence_le_next hroom (UInt32.le_refl _))
        (BootMetadata.image_setAccounting_other hs ht hts) rfl (fun he => he)
        (fun he => he) Iff.rfl
  · refine ⟨hr.roles.current, hr.roles.previous, fun _ => ⟨hconf, hcur, hprev, .inr ?_⟩⟩
    show BootMetadata.state _ r.candidateSlot = bootStateTrial
    rw [hcand]
    exact htrial
  · -- An intent would name a trial, and none is running yet.
    rcases hr.intent with h | ⟨-, -, he, hst', -⟩
    · exact .inl h
    · rw [he, hcand] at hst'
      exact absurd hst' hst

/-! ## Confirmation -/

theorem trialWords_stateless : ∀ w ∈ trialWords,
    accountState (w &&& ~~~bootAccountStateMask) = bootStateNone ∧
      accountValidate (w &&& ~~~bootAccountStateMask) = .ok := by
  have h : (trialWords.all fun w =>
      accountState (w &&& ~~~bootAccountStateMask) == bootStateNone &&
        accountValidate (w &&& ~~~bootAccountStateMask) == .ok) = true := by
    decide
  intro w hw
  have hall := List.all_eq_true.mp h w hw
  simp only [Bool.and_eq_true, beq_iff_eq] at hall
  exact hall

theorem maskSet_ok {mask : UInt32} (h : mask &&& ~~~3 = 0) (hs : slotValid s = true) :
    maskSet mask s &&& ~~~3 = 0 := by
  rcases slotValid_iff.mp hs with rfl | rfl <;>
    rcases mask_cases h with rfl | rfl | rfl | rfl <;> decide

theorem promotedCandidate_ok (hr : MetadataOk r) (hroom : r.sequence ≠ uint32Max)
    (hs : slotValid s = true) (hcand : r.candidateSlot = s)
    (hst : r.state s = bootStateTrial) (h0 : (r.image s).payloadLength ≠ 0) :
    MetadataOk { promotedCandidate r s with sequence := r.sequence + 1 } := by
  have hnone : r.candidateSlot ≠ bootSlotNone := by
    rw [hcand]
    exact slotValid_ne_none hs
  obtain ⟨-, hcur, -, -⟩ := hr.roles.candidate hnone
  rw [hcand] at hcur
  obtain ⟨hfree, hword⟩ := trialWords_stateless _ (trialWords_complete (hr.account hs h0) hst)
  have himg : ({ promotedCandidate r s with sequence := r.sequence + 1 } :
      BootMetadata).image s = { r.image s with
        accounting := (r.image s).accounting &&& ~~~bootAccountStateMask } :=
    BootMetadata.image_setAccounting_same
  have hkeep : ∀ t, slotValid t = true → t ≠ s →
      ({ promotedCandidate r s with sequence := r.sequence + 1 } :
        BootMetadata).confirmed t = r.confirmed t :=
    fun t ht hts => maskBit_set_other hr.mask hs ht hts
  refine ⟨roleValid_iff.mpr (.inl hs), roleValid_none, hr.current, maskSet_ok hr.mask hs,
    fun t ht => ?_, ?_, .inl ⟨rfl, rfl, rfl⟩⟩
  · have himage := hr.image t ht
    by_cases hts : t = s
    · subst hts
      have hstate : ({ promotedCandidate r t with sequence := r.sequence + 1 } :
          BootMetadata).state t = bootStateNone := by
        rw [BootMetadata.state, himg]
        exact hfree
      refine ⟨?_, ?_, ?_, fun _ => hstate, ?_⟩
      · rw [himg]
        exact entry_with_word hr ht h0 hword
      · rw [himg]
        exact sequence_le_next hroom himage.trialId
      · rw [himg]
        exact fun he => absurd he h0
      · rw [hstate]
        exact fun he => absurd he (by decide)
    · have hother : ({ promotedCandidate r s with sequence := r.sequence + 1 } :
          BootMetadata).image t = r.image t :=
        BootMetadata.image_setAccounting_other hs ht hts
      have hstate : ({ promotedCandidate r s with sequence := r.sequence + 1 } :
          BootMetadata).state t = r.state t := by
        rw [BootMetadata.state, hother, ← BootMetadata.state]
      refine ⟨?_, ?_, ?_, ?_, ?_⟩
      · rw [hother]
        exact himage.entry
      · rw [hother]
        exact sequence_le_next hroom himage.trialId
      · rw [hother, hkeep t ht hts]
        intro he
        obtain ⟨h1, h2, -, -⟩ := himage.role he
        exact ⟨h1, Ne.symm hts, h2, Ne.symm (slotValid_ne_none ht)⟩
      · rw [hkeep t ht hts, hstate]
        exact himage.confirmed
      · rw [hstate]
        intro he
        exact absurd ((himage.pending he).symm.trans hcand) hts
  · refine ⟨fun _ => maskBit_set_same hr.mask hs, fun hne => ?_, fun hne => absurd rfl hne⟩
    replace hne : r.currentSlot ≠ bootSlotNone := hne
    refine ⟨?_, Ne.symm hcur⟩
    show BootMetadata.confirmed _ r.currentSlot = true
    rw [hkeep _ (hr.current_slotValid hne) (Ne.symm hcur)]
    exact hr.roles.current hne

/-! ## A deadline and a fallback -/

theorem intended_ok (hr : MetadataOk r) (hroom : r.sequence ≠ uint32Max)
    (hs : slotValid s = true) (hcand : r.candidateSlot = s)
    (hst : r.state s = bootStateTrial) :
    MetadataOk { intended r s (r.image s).trialId with sequence := r.sequence + 1 } :=
  ⟨hr.current, hr.candidate, hr.previous, hr.mask,
    fun t ht => (hr.image t ht).frame (sequence_le_next hroom (UInt32.le_refl _)) rfl rfl
      (fun he => he) (fun he => he) Iff.rfl,
    ⟨hr.roles.current, hr.roles.previous, hr.roles.candidate⟩,
    .inr ⟨rfl, hs, hcand.symm, hst, rfl⟩⟩

theorem promotedPrevious_ok (hr : MetadataOk r) (hroom : r.sequence ≠ uint32Max)
    (hcur : r.currentSlot = s) (hs : slotValid s = true)
    (hprev : slotValid r.previousSlot = true) (hcand : r.candidateSlot = bootSlotNone) :
    MetadataOk { promotedPrevious r s with sequence := r.sequence + 1 } := by
  obtain ⟨hpconf, hpcur⟩ := hr.roles.previous (slotValid_ne_none hprev)
  rw [hcur] at hpcur
  have hkeep : ∀ t, slotValid t = true → t ≠ s →
      ({ promotedPrevious r s with sequence := r.sequence + 1 } :
        BootMetadata).confirmed t = r.confirmed t :=
    fun t ht hts => maskBit_clear_other hr.mask hs ht hts
  refine ⟨hr.previous, hr.candidate, roleValid_none, maskClear_ok hr.mask, fun t ht => ?_, ?_, ?_⟩
  · have himage := hr.image t ht
    refine ⟨himage.entry, sequence_le_next hroom himage.trialId, ?_, ?_, himage.pending⟩
    · intro he
      obtain ⟨h1, h2, h3, h4⟩ := himage.role he
      have hts : t ≠ s := fun hts => h2 (hcur.trans hts.symm)
      exact ⟨(hkeep t ht hts).trans h1, h3, Ne.symm (slotValid_ne_none ht), h4⟩
    · by_cases hts : t = s
      · subst hts
        intro hc
        have hclear : ({ promotedPrevious r t with sequence := r.sequence + 1 } :
            BootMetadata).confirmed t = false := maskBit_clear_same hr.mask ht
        exact absurd (hclear.symm.trans hc) Bool.false_ne_true
      · rw [hkeep t ht hts]
        exact himage.confirmed
  · refine ⟨fun _ => ?_, fun hne => absurd rfl hne, fun hne => absurd hcand hne⟩
    exact (hkeep _ hprev hpcur).trans hpconf
  · exact .inl (hr.no_intent (by rw [hcand]; exact not_slotValid_none))

end Proposals

/-! ## The seven calls -/

/-- What a call may answer on a valid record. -/
inductive Proper (r : BootMetadata) : LifecycleReply → Prop where
  | change {p : BootMetadata} (hroom : r.sequence ≠ uint32Max)
      (h : MetadataOk { p with sequence := r.sequence + 1 }) :
      Proper r (.change, some { p with sequence := r.sequence + 1 })
  | noChange : Proper r (.noChange, some r)
  | refused {e : BootLifecycleResult} (h : e ≠ .change ∧ e ≠ .noChange ∧ e ≠ .errorRecord) :
      Proper r (e, none)

section Proper

variable {r p : BootMetadata} {rest : LifecycleReply} {result : BootLifecycleResult}

theorem proper_finish (hr : MetadataOk r)
    (h : r.sequence ≠ uint32Max → MetadataOk { p with sequence := r.sequence + 1 }) :
    Proper r (finish r p) := by
  unfold finish
  by_cases hs : r.sequence = uint32Max
  · rw [nextSequence_exhausted hr hs]
    exact .refused (by decide)
  · rw [nextSequence_eq_ok hr hs]
    dsimp only
    rw [if_neg (not_not_intro (metadataValidate_eq_ok.mpr (h hs)))]
    exact .change hs (h hs)

theorem proper_guard {c : Prop} [Decidable c]
    (he : result ≠ .change ∧ result ≠ .noChange ∧ result ≠ .errorRecord)
    (h : ¬ c → Proper r rest) : Proper r (if c then (result, none) else rest) := by
  split
  · exact .refused he
  · next hc => exact h hc

theorem proper_passing (hrec : result ≠ .errorRecord) (hno : result ≠ .noChange)
    (h : result = .change → Proper r rest) : Proper r (result.passing rest) := by
  unfold BootLifecycleResult.passing
  by_cases hc : result = .change
  · rw [if_neg (not_not_intro hc)]
    exact h hc
  · rw [if_pos hc]
    exact .refused ⟨hc, hno, hrec⟩

theorem proper_unchanged {c : Prop} [Decidable c] (h : ¬ c → Proper r rest) :
    Proper r (if c then unchanged r else rest) := by
  split
  · exact .noChange
  · next hc => exact h hc

theorem admission_ne {e : BootUploadEvidence} (hr : MetadataOk r) :
    admission r e ≠ .errorRecord ∧ admission r e ≠ .noChange := by
  unfold admission
  rw [if_neg (not_not_intro (metadataValidate_eq_ok.mpr hr))]
  repeat' (split; · decide)
  decide

theorem execution_ne {i : BootVerifiedImage} (hr : MetadataOk r) :
    execution r i ≠ .errorRecord := by
  unfold execution
  rw [if_neg (not_not_intro (metadataValidate_eq_ok.mpr hr))]
  repeat' (split; · decide)
  decide

theorem invalidate_proper (hr : MetadataOk r) (e : BootUploadEvidence) :
    Proper r (bootLifecycleInvalidate r e) := by
  obtain ⟨hrec, hno⟩ := admission_ne (e := e) hr
  refine proper_passing hrec hno fun ha => ?_
  replace ha := admission_eq_change.mp ha
  have hcur : (r.setImage e.permittedSlot .empty).currentSlot ≠ e.permittedSlot :=
    Ne.symm ha.inactive
  have hcand : (r.setImage e.permittedSlot .empty).candidateSlot ≠ e.permittedSlot := by
    show r.candidateSlot ≠ _
    rw [ha.candidate]
    exact Ne.symm (slotValid_ne_none ha.permitted)
  dsimp only
  rw [if_neg hcur, if_neg hcand]
  exact proper_finish hr fun hroom =>
    invalidated_ok hr hroom ha.permitted (Ne.symm ha.inactive) ha.candidate

theorem acceptReady_proper (hr : MetadataOk r) (e : BootUploadEvidence)
    (stored : BootVerifiedImage) : Proper r (bootLifecycleAcceptReady r e stored) := by
  obtain ⟨hrec, hno⟩ := admission_ne (e := e) hr
  refine proper_passing hrec hno fun ha => ?_
  replace ha := admission_eq_change.mp ha
  dsimp only
  refine proper_guard (by decide) fun h0 => ?_
  refine proper_guard (by decide) fun himg => ?_
  refine proper_guard (by decide) fun hid => ?_
  rw [not_not] at h0 hid
  by_cases hs : r.sequence = uint32Max
  · rw [nextSequence_exhausted hr hs]
    exact .refused (by decide)
  rw [nextSequence_eq_ok hr hs, hid, ← ha.incomingSlot]
  rw [← ha.incomingSlot] at h0
  exact proper_finish hr fun hroom => accepted_ok hr hroom ha.incoming h0 ha.candidate

theorem beginTrial_proper (hr : MetadataOk r) (c : BootVerifiedImage) :
    Proper r (bootLifecycleBeginTrial r c) := by
  refine proper_passing (execution_ne hr) execution_ne_noChange fun hx => ?_
  replace hx := execution_eq_change.mp hx
  dsimp only
  refine proper_guard (by decide) fun hcand => ?_
  refine proper_unchanged fun hst => ?_
  exact proper_finish hr fun hroom =>
    tried_ok hr hroom hx.slotValid (not_not.mp hcand) hst hx.nonempty

theorem confirm_proper (hr : MetadataOk r) (q : BootConfirmRequest) (i : BootVerifiedImage)
    (health : UInt32) : Proper r (bootLifecycleConfirm r q i health) := by
  refine proper_passing (execution_ne hr) execution_ne_noChange fun hx => ?_
  replace hx := execution_eq_change.mp hx
  dsimp only
  refine proper_guard (by decide) fun _ => ?_
  refine proper_unchanged fun _ => ?_
  refine proper_guard (by decide) fun hin => ?_
  refine proper_guard (by decide) fun _ => ?_
  simp only [not_or, not_not] at hin
  exact proper_finish hr fun hroom =>
    promotedCandidate_ok hr hroom hx.slotValid hin.1 hin.2 hx.nonempty

theorem deadlineIntent_proper (hr : MetadataOk r) (q : BootDeadlineRequest)
    (i : BootVerifiedImage) : Proper r (bootLifecycleDeadlineIntent r q i) := by
  refine proper_passing (execution_ne hr) execution_ne_noChange fun hx => ?_
  replace hx := execution_eq_change.mp hx
  dsimp only
  refine proper_guard (by decide) fun hid => ?_
  refine proper_guard (by decide) fun hin => ?_
  refine proper_unchanged fun _ => ?_
  simp only [not_or, not_not] at hid hin
  rw [hid.2.1]
  exact proper_finish hr fun hroom => intended_ok hr hroom hx.slotValid hin.1 hin.2

theorem applyCountedFailure_proper (hr : MetadataOk r) (f : BootCountedFailure) :
    Proper r (bootLifecycleApplyCountedFailure r f) := by
  unfold bootLifecycleApplyCountedFailure
  rw [if_neg (not_not_intro (metadataValidate_eq_ok.mpr hr))]
  refine proper_guard (by decide) fun harg => ?_
  refine proper_guard (by decide) fun hid => ?_
  dsimp only
  refine proper_guard (by decide) fun hin => ?_
  refine proper_guard (by decide) fun _ => ?_
  simp only [not_or, not_not, Bool.not_eq_true] at hin
  rw [Bool.not_eq_true', Bool.not_eq_false] at hid
  replace hid := residentMatches_iff.mp hid
  rw [← apply_ite (finish r), ← apply_ite (finish r)]
  exact proper_finish hr fun hroom => charged_ok hr hroom hid.slot hin.1 hin.2.1 hin.2.2
    hid.nonempty (countable_reason ⟨hr, harg, hid⟩)

theorem promotePrevious_proper (hr : MetadataOk r) (v : BootInvalidCurrent)
    (previous : BootVerifiedImage) :
    Proper r (bootLifecyclePromotePrevious r v previous) := by
  refine proper_passing (execution_ne hr) execution_ne_noChange fun hx => ?_
  replace hx := execution_eq_change.mp hx
  refine proper_guard (by decide) fun _ => ?_
  refine proper_guard (by decide) fun hid => ?_
  refine proper_guard (by decide) fun hin => ?_
  refine proper_guard (by decide) fun _ => ?_
  simp only [not_or, not_not, Bool.not_eq_true', Bool.not_eq_false] at hid hin
  have hprev : slotValid r.previousSlot = true := by
    rw [hin.1]
    exact hx.slotValid
  exact proper_finish hr fun hroom => promotedPrevious_ok hr hroom hid.2
    (residentMatches_iff.mp hid.1).slot hprev hin.2

theorem apply_proper (hr : MetadataOk r) (op : LifecycleOp) : Proper r (op.apply r) := by
  cases op with
  | invalidate e => exact invalidate_proper hr e
  | acceptReady e stored => exact acceptReady_proper hr e stored
  | beginTrial c => exact beginTrial_proper hr c
  | confirm q i health => exact confirm_proper hr q i health
  | deadlineIntent q i => exact deadlineIntent_proper hr q i
  | applyCountedFailure f => exact applyCountedFailure_proper hr f
  | promotePrevious v previous => exact promotePrevious_proper hr v previous

/-- On a valid record no call blames the record. What it writes is a valid successor
or the record itself, it writes nothing with an error, and it proposes nothing when
the sequence is used up. -/
theorem lifecycle_total (h : bootMetadataValidate r = .ok) (op : LifecycleOp) :
    (op.apply r).1 ≠ .errorRecord ∧
    ((op.apply r).1 = .change → ∃ r', (op.apply r).2 = some r' ∧
      bootMetadataValidate r' = .ok ∧ r'.sequence.toNat = r.sequence.toNat + 1) ∧
    ((op.apply r).1 = .noChange → (op.apply r).2 = some r) ∧
    ((op.apply r).1 ≠ .change → (op.apply r).1 ≠ .noChange → (op.apply r).2 = none) ∧
    (r.sequence = uint32Max → (op.apply r).1 ≠ .change) := by
  have hr := metadataValidate_eq_ok.mp h
  have hproper := apply_proper hr op
  generalize op.apply r = reply at hproper
  cases hproper with
  | @change p hroom hp =>
      have hadv : Advances r p { p with sequence := r.sequence + 1 } := ⟨hr, hroom, rfl, hp⟩
      exact ⟨nofun, fun _ => ⟨_, rfl, metadataValidate_eq_ok.mpr hp, hadv.sequence⟩,
        nofun, fun hc => absurd rfl hc, fun hmax => absurd hmax hroom⟩
  | noChange =>
      exact ⟨nofun, nofun, fun _ => rfl, fun _ hn => absurd rfl hn, fun _ => nofun⟩
  | refused he =>
      exact ⟨he.2.2, fun hc => absurd hc he.1, fun hn => absurd hn he.2.1, fun _ _ => rfl,
        fun _ => he.1⟩

theorem lifecycle_total_tried :
    bootMetadataValidate trialRecord = .ok ∧ ∃ r',
      bootMetadataValidate r' = .ok ∧ r'.sequence.toNat = readyRecord.sequence.toNat + 1 := by
  have hready : bootMetadataValidate readyRecord = .ok := by decide
  have htrial : (LifecycleOp.apply (.beginTrial (packageImage bootSlotB)) readyRecord).1 =
      .change := congrArg Prod.fst factory_tried
  obtain ⟨r', -, hr', hseq⟩ :=
    (lifecycle_total hready (.beginTrial (packageImage bootSlotB))).2.1 htrial
  exact ⟨by decide, r', hr', hseq⟩

end Proper

end EkBareMetal.Boot

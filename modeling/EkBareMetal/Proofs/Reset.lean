import EkBareMetal.Proofs.Accounting
import EkBareMetal.Proofs.Reachable
import EkBareMetal.Boot.Reset

/-!
# What a boot charges

`bootResetPropose` against its purpose: it charges one failure to a candidate
in an unconfirmed trial, when and only when the captured flags name a cause,
and the only thing that can stop it is a sequence number with no successor.
The charged record is shown valid here, because "it always does" needs the
validity that the inversions get for nothing.
-/

namespace EkBareMetal.Boot

open Words Transition

/-! ## The causes -/

/-- The reasons of the categories present, in the order they are noted. -/
def presentReasons (flags : UInt32) (matching : Bool) : List UInt32 :=
  (if flags &&& bootResetWatchdog != 0 then [bootReasonWatchdog] else []) ++
  (if flags &&& bootResetExternal != 0 then [bootReasonExternal] else []) ++
  (if flags &&& bootResetBrownout != 0 then [bootReasonBrownout] else []) ++
  (if flags &&& bootResetSw != 0 && matching then [bootReasonDeadline] else [])

/-- One category is its own reason, several are COMBINED. -/
def chargeReason : List UInt32 → UInt32
  | [q] => q
  | _ => bootReasonCombined

theorem resetCategories_spec (flags : UInt32) (matching : Bool) :
    ((resetCategories flags matching).1 ≠ 0 ↔ presentReasons flags matching ≠ []) ∧
    (presentReasons flags matching ≠ [] →
      (if (resetCategories flags matching).1 > 1 then bootReasonCombined
        else (resetCategories flags matching).2) =
        chargeReason (presentReasons flags matching)) := by
  unfold resetCategories presentReasons
  generalize (flags &&& bootResetWatchdog != 0) = w
  generalize (flags &&& bootResetExternal != 0) = e
  generalize (flags &&& bootResetBrownout != 0) = b
  generalize (flags &&& bootResetSw != 0 && matching) = d
  revert w e b d
  decide

theorem chargeReason_mem (flags : UInt32) (matching : Bool) :
    chargeReason (presentReasons flags matching) ∈ reasonCodes := by
  unfold presentReasons
  generalize (flags &&& bootResetWatchdog != 0) = w
  generalize (flags &&& bootResetExternal != 0) = e
  generalize (flags &&& bootResetBrownout != 0) = b
  generalize (flags &&& bootResetSw != 0 && matching) = d
  revert w e b d
  decide

/-! ## The charged record is valid -/

theorem reasonCodes_bounds {q : UInt32} (h : q ∈ reasonCodes) :
    ¬ q < bootReasonWatchdog ∧ ¬ q > bootReasonCombined := by
  simp only [reasonCodes, List.mem_cons, List.not_mem_nil, or_false] at h
  rcases h with rfl | rfl | rfl | rfl | rfl <;> decide

section Charge

variable {r : BootMetadata} {s q consume : UInt32}

/-- The word a charge leaves behind, and the state it says. -/
theorem charged_word (hr : MetadataOk r) (hs : slotValid s = true)
    (h0 : (r.image s).payloadLength ≠ 0) (hst : r.state s = bootStateTrial)
    (hq : q ∈ reasonCodes) :
    ∃ w, (charged r s q consume).image s = { r.image s with accounting := w } ∧
      accountReasons w = accountReasons (r.image s).accounting ++ [q] ∧
      accountValidate w = .ok ∧
      (accountCount (r.image s).accounting = 2 →
        accountState w = bootStateRejected ∧ w &&& bootAccountRollback ≠ 0) ∧
      (accountCount (r.image s).accounting ≠ 2 →
        accountState w = bootStateTrial) := by
  have hmem := trialWords_complete (hr.account hs h0) hst
  unfold charged
  dsimp only
  by_cases hc : accountCount (r.image s).accounting = 2
  · rw [if_pos hc]
    obtain ⟨h1, h2, h3, h4⟩ := trialWords_reject _ hmem q hq hc
    exact ⟨_, BootMetadata.image_setAccounting_same, h1, h4,
      fun _ => ⟨h2, h3⟩, fun hne => absurd hc hne⟩
  · rw [if_neg hc]
    obtain ⟨h1, h2, h3⟩ := trialWords_append _ hmem q hq hc
    refine ⟨_, ?_, h1, h3, fun he => absurd he hc, fun _ => h2⟩
    split
    · exact BootMetadata.image_setAccounting_same
    · exact BootMetadata.image_setAccounting_same

theorem charged_image_other {t : UInt32} (hs : slotValid s = true)
    (ht : slotValid t = true) (hts : t ≠ s) :
    (charged r s q consume).image t = r.image t := by
  unfold charged
  dsimp only
  split
  · exact BootMetadata.image_setAccounting_other hs ht hts
  split
  · exact BootMetadata.image_setAccounting_other hs ht hts
  · exact BootMetadata.image_setAccounting_other hs ht hts

theorem charged_roles :
    (charged r s q consume).currentSlot = r.currentSlot ∧
    (charged r s q consume).previousSlot = r.previousSlot ∧
    (charged r s q consume).confirmedMask = r.confirmedMask ∧
    (charged r s q consume).candidateSlot =
      (if accountCount (r.image s).accounting = 2 then bootSlotNone
        else r.candidateSlot) := by
  unfold charged
  dsimp only
  split
  · exact ⟨rfl, rfl, rfl, rfl⟩
  split
  · exact ⟨rfl, rfl, rfl, rfl⟩
  · exact ⟨rfl, rfl, rfl, rfl⟩

/-- The intent goes with the third failure or with a consumption, and is
otherwise left as it was. -/
theorem charged_intent :
    let p := charged r s q consume
    (accountCount (r.image s).accounting = 2 ∨ consume ≠ 0 →
      p.intentKind = bootIntentNone ∧ p.intentSlot = bootSlotNone ∧
        p.intentTrialId = 0) ∧
    (¬ (accountCount (r.image s).accounting = 2 ∨ consume ≠ 0) →
      p.intentKind = r.intentKind ∧ p.intentSlot = r.intentSlot ∧
        p.intentTrialId = r.intentTrialId) := by
  unfold charged
  dsimp only
  by_cases hc : accountCount (r.image s).accounting = 2
  · rw [if_pos hc]
    exact ⟨fun _ => ⟨rfl, rfl, rfl⟩, fun hn => absurd (.inl hc) hn⟩
  · rw [if_neg hc]
    by_cases hk : consume ≠ 0
    · rw [if_pos hk]
      exact ⟨fun _ => ⟨rfl, rfl, rfl⟩, fun hn => absurd (.inr hk) hn⟩
    · rw [if_neg hk]
      exact ⟨fun hn => absurd hn (by tauto), fun _ => ⟨rfl, rfl, rfl⟩⟩

theorem sequence_le_next {r : BootMetadata} (h : r.sequence ≠ uint32Max)
    {t : UInt32} (ht : t ≤ r.sequence) : t ≤ r.sequence + 1 := by
  have hmax : uint32Max.toNat = 4294967295 := rfl
  have hlt := r.sequence.toNat_lt
  rw [ne_eq, ← UInt32.toNat_inj] at h
  rw [UInt32.le_iff_toNat_le] at ht ⊢
  rw [UInt32.toNat_add]
  simp only [UInt32.reduceToNat]
  omega

theorem charged_imageOk {t : UInt32} (hr : MetadataOk r)
    (hroom : r.sequence ≠ uint32Max) (hs : slotValid s = true)
    (hcand : r.candidateSlot = s) (hconf : r.confirmed s = false)
    (hst : r.state s = bootStateTrial) (h0 : (r.image s).payloadLength ≠ 0)
    (hq : q ∈ reasonCodes) (ht : slotValid t = true) :
    ImageOk { charged r s q consume with sequence := r.sequence + 1 } t := by
  obtain ⟨hcur, hprev, hmask, hc⟩ := @charged_roles r s q consume
  have hi := hr.image t ht
  by_cases hts : t = s
  · subst hts
    obtain ⟨w, hw, -, hval, hrej, -⟩ :=
      @charged_word r t q consume hr hs h0 hst hq
    have hentry := (entryValidate_eq_ok.mp hi.entry).resolve_left
      fun he => h0 (by rw [he]; rfl)
    refine ⟨?_, ?_, ?_, ?_, ?_⟩
    · show entryValidate ((charged r t q consume).image t) = .ok
      rw [hw]
      exact entryValidate_eq_ok.mpr (.inr ⟨hentry.1, hentry.2.1, hval⟩)
    · show ((charged r t q consume).image t).trialId ≤ r.sequence + 1
      rw [hw]
      exact sequence_le_next hroom hi.trialId
    · intro he
      replace he : ((charged r t q consume).image t).payloadLength = 0 := he
      rw [hw] at he
      exact absurd he h0
    · intro he
      replace he : maskBit (charged r t q consume).confirmedMask t = true := he
      rw [hmask] at he
      exact absurd (he.symm.trans hconf) (by decide)
    · intro he
      show (charged r t q consume).candidateSlot = t
      replace he : accountState ((charged r t q consume).image t).accounting =
        bootStateReady ∨ accountState ((charged r t q consume).image t).accounting =
        bootStateTrial := he
      rw [hw] at he
      rw [hc, if_neg, hcand]
      intro h2
      rw [(hrej h2).1] at he
      exact absurd he (by decide)
  · have hne : (charged r s q consume).candidateSlot ≠ t := by
      rw [hc]
      split
      · exact Ne.symm (slotValid_ne_none ht)
      · rw [hcand]
        exact Ne.symm hts
    refine hi.frame (sequence_le_next hroom (UInt32.le_refl _))
      (charged_image_other hs ht hts) ?_ ?_ ?_ ?_
    · show maskBit (charged r s q consume).confirmedMask t = _
      rw [hmask]
      rfl
    · exact fun he => hcur.symm.trans he
    · exact fun he => hprev.symm.trans he
    · exact ⟨fun he => absurd he hne,
        fun he => absurd (he.symm.trans hcand) hts⟩

theorem charged_ok (hr : MetadataOk r) (hroom : r.sequence ≠ uint32Max)
    (hs : slotValid s = true) (hcand : r.candidateSlot = s)
    (hconf : r.confirmed s = false) (hst : r.state s = bootStateTrial)
    (h0 : (r.image s).payloadLength ≠ 0) (hq : q ∈ reasonCodes) :
    MetadataOk { charged r s q consume with sequence := r.sequence + 1 } := by
  obtain ⟨hcur, hprev, hmask, hc⟩ := @charged_roles r s q consume
  obtain ⟨w, hw, -, -, -, htri⟩ :=
    @charged_word r s q consume hr hs h0 hst hq
  have hconf' : ∀ t, maskBit (charged r s q consume).confirmedMask t =
      r.confirmed t := by
    intro t
    rw [hmask]
    rfl
  have hstate : accountCount (r.image s).accounting ≠ 2 →
      accountState ((charged r s q consume).image s).accounting =
        bootStateTrial := by
    intro h2
    rw [hw]
    exact htri h2
  refine ⟨?_, ?_, ?_, ?_, ?_, ?_, ?_⟩
  · show roleValid (charged r s q consume).currentSlot = true
    rw [hcur]
    exact hr.current
  · show roleValid (charged r s q consume).candidateSlot = true
    rw [hc]
    split
    · decide
    · exact hr.candidate
  · show roleValid (charged r s q consume).previousSlot = true
    rw [hprev]
    exact hr.previous
  · show (charged r s q consume).confirmedMask &&& _ = 0
    rw [hmask]
    exact hr.mask
  · exact fun t ht => charged_imageOk hr hroom hs hcand hconf hst h0 hq ht
  · refine ⟨?_, ?_, ?_⟩
    · show (charged r s q consume).currentSlot ≠ _ →
        maskBit (charged r s q consume).confirmedMask
          (charged r s q consume).currentSlot = true
      rw [hcur, hconf']
      exact hr.roles.current
    · show (charged r s q consume).previousSlot ≠ _ →
        maskBit (charged r s q consume).confirmedMask
            (charged r s q consume).previousSlot = true ∧
          (charged r s q consume).previousSlot ≠
            (charged r s q consume).currentSlot
      rw [hcur, hprev, hconf']
      exact hr.roles.previous
    · intro hne
      replace hne : (charged r s q consume).candidateSlot ≠ bootSlotNone := hne
      have h2 : accountCount (r.image s).accounting ≠ 2 := by
        intro h2
        rw [hc, if_pos h2] at hne
        exact hne rfl
      rw [if_neg h2, hcand] at hc
      obtain ⟨-, h3, h4, -⟩ := hr.roles.candidate
        (by rw [hcand]; exact slotValid_ne_none hs)
      rw [hcand] at h3 h4
      show maskBit (charged r s q consume).confirmedMask
          (charged r s q consume).candidateSlot = false ∧
        (charged r s q consume).candidateSlot ≠
          (charged r s q consume).currentSlot ∧
        (charged r s q consume).candidateSlot ≠
          (charged r s q consume).previousSlot ∧
        (accountState ((charged r s q consume).image
          (charged r s q consume).candidateSlot).accounting = bootStateReady ∨
        accountState ((charged r s q consume).image
          (charged r s q consume).candidateSlot).accounting = bootStateTrial)
      rw [hc, hconf', hcur, hprev]
      exact ⟨hconf, h3, h4, .inr (hstate h2)⟩
  · obtain ⟨hgone, hkept⟩ := @charged_intent r s q consume
    by_cases hk : accountCount (r.image s).accounting = 2 ∨ consume ≠ 0
    · exact .inl (hgone hk)
    · obtain ⟨h1, h2, h3⟩ := hkept hk
      rw [not_or] at hk
      rw [if_neg hk.1] at hc
      rcases hr.intent with ⟨g1, g2, g3⟩ | ⟨g1, g2, g3, g4, g5⟩
      · exact .inl ⟨h1.trans g1, h2.trans g2, h3.trans g3⟩
      · refine .inr ⟨h1.trans g1, ?_, ?_, ?_, ?_⟩
        · show slotValid (charged r s q consume).intentSlot = true
          rw [h2]
          exact g2
        · show (charged r s q consume).intentSlot =
            (charged r s q consume).candidateSlot
          rw [h2, hc, g3]
        · show accountState ((charged r s q consume).image
            (charged r s q consume).intentSlot).accounting = _
          rw [h2, g3, hcand]
          exact hstate hk.1
        · show ((charged r s q consume).image
              (charged r s q consume).intentSlot).trialId =
            (charged r s q consume).intentTrialId
          rw [h2, h3, ← g5, g3, hcand, hw]

end Charge

/-! ## The proposal -/

theorem trialApplicable_iff {r : BootMetadata} :
    trialApplicable r = true ↔
      slotValid r.candidateSlot = true ∧ r.confirmed r.candidateSlot = false ∧
        r.state r.candidateSlot = bootStateTrial := by
  simp only [trialApplicable, Bool.and_eq_true, decide_eq_true_eq,
    Bool.not_eq_true', beq_iff_eq, ← slotValid_iff_le, and_assoc]

/-- The causes a boot with these flags finds for the candidate of `r`. -/
def resetCauses (r : BootMetadata) (flags : UInt32) : List UInt32 :=
  presentReasons (flags &&& bootResetSupported) (intentMatches r)

/-- The decision of a boot that counts a failure. -/
def countedDecision (r : BootMetadata) (flags : UInt32) : BootResetDecision where
  supportedFlags := flags &&& bootResetSupported
  trialApplicable := true
  counted := true
  reason := chargeReason (resetCauses r flags)
  consumeIntent := intentMatches r

/-- The failure such a boot charges. -/
def bootFailure (r : BootMetadata) (flags : UInt32) : BootCountedFailure :=
  resetFailure r (chargeReason (resetCauses r flags)) (intentMatches r)

theorem resetPropose_eq {r : BootMetadata} (flags : UInt32) (hr : MetadataOk r)
    (happ : trialApplicable r = true) (hc : resetCauses r flags ≠ []) :
    bootResetPropose r flags =
      match bootLifecycleApplyCountedFailure r (bootFailure r flags) with
      | (.change, some proposal) =>
          (.change, some (proposal, countedDecision r flags))
      | (result, _) => (result, none) := by
  obtain ⟨h1, h2⟩ := resetCategories_spec (flags &&& bootResetSupported)
    (intentMatches r)
  unfold bootResetPropose
  rw [if_neg (by simpa [metadataValidate_eq_ok] using hr)]
  simp only [happ, if_true, if_pos (h1.mpr hc), h2 hc]
  rfl

/-- A boot leaves the record alone when there is no trial or no cause. -/
theorem resetPropose_noChange {r : BootMetadata} (flags : UInt32)
    (hr : MetadataOk r)
    (h : ¬ (trialApplicable r = true ∧ resetCauses r flags ≠ [])) :
    ∃ d, bootResetPropose r flags = (.noChange, some (r, d)) := by
  obtain ⟨h1, -⟩ := resetCategories_spec (flags &&& bootResetSupported)
    (intentMatches r)
  unfold bootResetPropose
  rw [if_neg (by simpa [metadataValidate_eq_ok] using hr)]
  by_cases happ : trialApplicable r = true
  · have hnone : ¬ (resetCategories (flags &&& bootResetSupported)
        (intentMatches r)).1 ≠ 0 := fun hne => h ⟨happ, h1.mp hne⟩
    simp only [happ, if_true, if_neg hnone]
    exact ⟨_, rfl⟩
  · simp only [happ]
    exact ⟨_, rfl⟩

/-- The charge to the candidate goes through whenever there is a sequence
number left for it. -/
theorem bootFailure_committed {r : BootMetadata} (flags : UInt32)
    (hr : MetadataOk r) (happ : trialApplicable r = true)
    (hroom : r.sequence ≠ uint32Max) :
    Committed r (.applyCountedFailure (bootFailure r flags))
      { charged r r.candidateSlot (chargeReason (resetCauses r flags))
          (if intentMatches r then 1 else 0) with
        sequence := r.sequence + 1 } := by
  obtain ⟨hs, hconf, hst⟩ := trialApplicable_iff.mp happ
  have hmem : chargeReason (resetCauses r flags) ∈ reasonCodes :=
    chargeReason_mem _ _
  have h0 : (r.image r.candidateSlot).payloadLength ≠ 0 := by
    intro h0
    exact ((hr.image _ hs).role h0).2.2.2 rfl
  have hb := reasonCodes_bounds hmem
  refine applyCountedFailure_committed.mpr ⟨⟨hr, ?_, ?_⟩, rfl, hconf, hst, hr,
    hroom, rfl, charged_ok hr hroom hs rfl hconf hst h0 hmem⟩
  · simp only [bootFailure, resetFailure, not_or]
    refine ⟨hb.1, hb.2, ?_⟩
    split
    · decide
    · decide
  · exact ⟨hs, h0, rfl, rfl, rfl, rfl⟩

theorem resetPropose_change {r r' : BootMetadata} {flags : UInt32}
    {d : BootResetDecision} :
    bootResetPropose r flags = (.change, some (r', d)) ↔
      MetadataOk r ∧ trialApplicable r = true ∧ resetCauses r flags ≠ [] ∧
        d = countedDecision r flags ∧
        Committed r (.applyCountedFailure (bootFailure r flags)) r' := by
  constructor
  · intro h
    have hr : MetadataOk r := by
      by_contra hno
      unfold bootResetPropose at h
      rw [if_pos (by simpa [metadataValidate_eq_ok] using hno)] at h
      cases h
    by_cases hc : trialApplicable r = true ∧ resetCauses r flags ≠ []
    · rw [resetPropose_eq flags hr hc.1 hc.2] at h
      split at h
      · next p hp =>
          simp only [Prod.mk.injEq, Option.some.injEq, true_and] at h
          obtain ⟨rfl, rfl⟩ := h
          exact ⟨hr, hc.1, hc.2, rfl, hp⟩
      · cases h
    · obtain ⟨d', hd⟩ := resetPropose_noChange flags hr hc
      rw [hd] at h
      cases h
  · rintro ⟨hr, happ, hc, rfl, hcom⟩
    rw [resetPropose_eq flags hr happ hc]
    have hcom' : bootLifecycleApplyCountedFailure r (bootFailure r flags) =
      (.change, some r') := hcom
    rw [hcom']

end EkBareMetal.Boot

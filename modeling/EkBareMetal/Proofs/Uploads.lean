import EkBareMetal.Proofs.Handler
import EkBareMetal.Proofs.Proposals
import EkBareMetal.Proofs.Selection

/-!
# What unblocks an upload

A board that keeps booting its confirmed current image because the candidate
in the other slot is invalid. A TRIAL candidate is charged with every watchdog
reset until the third one takes its candidacy away, and then a new upload is
admitted. A READY candidate is never charged, and a selection that falls back
leaves it alone, so nothing the board does by itself makes room again.
-/

namespace EkBareMetal.Boot

open Words Interact Transition

/-! ## Invalidation goes through -/

/-- An image the verifier passed is one that admission accepts. -/
theorem VerifiedFor.admissible {C : Crypto} {wire : List UInt8} {slot : UInt32}
    {image : BootVerifiedImage} (h : VerifiedFor C wire slot image) :
    imageAdmissible image = true := by
  have hv := h.vectors
  unfold vectorResult at hv
  split at hv
  · cases hv
  next hmsp =>
  split at hv
  · cases hv
  next hthumb =>
  dsimp only at hv
  split at hv
  · cases hv
  next hrange =>
  have hspan : bootImageSpan image.manifest.slot image.manifest.executionBase
      image.manifest.payloadLength =
        .ok (image.manifest.executionBase + image.manifest.payloadLength) := by
    have hvalid := h.valid
    unfold bootManifestValidate at hvalid
    split at hvalid
    · next hs =>
        rw [hs, (span_slotValid hs).2.2.2.2.2]
    · next e he =>
        subst hvalid
        unfold bootImageSpan at he
        dsimp only at he
        repeat' (split at he; · cases he)
        cases he
  simp only [not_or, not_not, ge_iff_le, UInt32.not_lt, UInt32.not_le] at hmsp hrange
  unfold imageAdmissible
  rw [h.valid, hspan]
  simp only [Bool.and_eq_true, beq_iff_eq, bne_iff_ne, decide_eq_true_eq]
  exact ⟨trivial, ⟨⟨hmsp, hthumb⟩, hrange.1⟩, hrange.2⟩

/-! ## A board that works -/

section Board

variable (C : Crypto) (mem : ByteMem) (images : BootSelectImages)

/-- The calls of a selection on a board whose store works and whose slots hold
what `mem` holds. -/
def selectAnswers (s : BootStoreSnapshot) : (op : SelectCall) → SelectSig.Ans op
  | .load => .ok s
  | .replace _ desired => .ok ⟨desired, 1 - s.page⟩
  | .verify wire slot => storedResult C mem wire slot

@[simp] theorem eval_askLoad (s : BootStoreSnapshot) :
    SelectCall.askLoad.eval (selectAnswers C mem s) = .ok s := rfl

@[simp] theorem eval_askVerify (s : BootStoreSnapshot) (wire : List UInt8)
    (slot : UInt32) :
    (SelectCall.askVerify wire slot).eval (selectAnswers C mem s) =
      storedResult C mem wire slot := rfl

def boardSelect (s : BootStoreSnapshot) : SelectReply :=
  (bootSelectCalls s images).eval (selectAnswers C mem s)

/-- The durable authority, and the image that is running, if any is. -/
structure Stage where
  snapshot : BootStoreSnapshot
  running : Option BootVerifiedImage

/-- Reset accounting with its change committed. -/
inductive AccountedFor (flags : UInt32) :
    BootStoreSnapshot → BootStoreSnapshot → Prop where
  | kept {s : BootStoreSnapshot} {d : BootResetDecision}
      (h : bootResetPropose s.record flags = (.noChange, some (s.record, d))) :
      AccountedFor flags s s
  | charged {s : BootStoreSnapshot} {r' : BootMetadata} {d : BootResetDecision}
      (h : bootResetPropose s.record flags = (.change, some (r', d))) :
      AccountedFor flags s ⟨r', 1 - s.page⟩

/-- What a selection leaves. -/
def selected (after : BootStoreSnapshot) : Stage :=
  match boardSelect C mem images after with
  | (_, some d) => ⟨d.snapshot, some d.image⟩
  | (_, none) => ⟨after, none⟩

/-- The operations an image can call for with itself as the evidence. A trial
begins, a failure is charged and the previous slot is promoted at boot only. -/
def LifecycleOp.CalledBy (running : BootVerifiedImage) : LifecycleOp → Prop
  | .invalidate e => e.running = running
  | .acceptReady e _ => e.running = running
  | .confirm _ image _ => image = running
  | .deadlineIntent _ image => image = running
  | _ => False

inductive StageLabel where
  | boot (flags : UInt32)
  | op (o : LifecycleOp)

inductive StageStep : Stage → StageLabel → Stage → Prop where
  | boot {s after : BootStoreSnapshot} {running : Option BootVerifiedImage}
      {flags : UInt32} (h : AccountedFor flags s after) :
      StageStep ⟨s, running⟩ (.boot flags) (selected C mem images after)
  | op {s : BootStoreSnapshot} {running : BootVerifiedImage} {o : LifecycleOp}
      {r' : BootMetadata} (hby : o.CalledBy running)
      (hc : Committed s.record o r') :
      StageStep ⟨s, some running⟩ (.op o) ⟨⟨r', 1 - s.page⟩, some running⟩

/-- Any valid manifest for `slot` is let in by the running image. -/
def Admits (st : Stage) (slot : UInt32) : Prop :=
  ∃ running, st.running = some running ∧
    ∀ incoming, bootManifestValidate incoming = .ok → incoming.slot = slot →
      ∃ r', Committed st.snapshot.record
        (.invalidate ⟨incoming, running, slot⟩) r'

/-- The board boots the confirmed current image, the candidate being absent
or invalid. -/
structure Serving (s : BootStoreSnapshot) (image : BootVerifiedImage) : Prop where
  page : ¬ s.page > 1
  record : MetadataOk s.record
  confirmed : confirmed s.record s.record.currentSlot = true
  verdict : storedResult C mem (images.stored s.record.currentSlot)
    s.record.currentSlot = .ok image
  matching : Matches s.record image.manifest
  candidate : slotValid s.record.candidateSlot = true →
    ∃ e, storedResult C mem (images.stored s.record.candidateSlot)
      s.record.candidateSlot = .error e ∧ invalidImageFailure e = true

end Board

section Serving

variable {C : Crypto} {mem : ByteMem} {images : BootSelectImages}
  {s : BootStoreSnapshot} {image : BootVerifiedImage}

theorem Serving.slot (h : Serving C mem images s image) :
    image.manifest.slot = s.record.currentSlot :=
  (storedResult_ok h.verdict).1.slot_eq

theorem Serving.executing (h : Serving C mem images s image) :
    Executing s.record image :=
  ⟨h.matching, (storedResult_ok h.verdict).1.admissible⟩

theorem current_eval (h : Serving C mem images s image)
    (result : BootSelectResult) :
    ∃ result', (selectCurrent images s result).eval (selectAnswers C mem s) =
      (result', some ⟨image, s⟩) := by
  have hsame : sameSnapshot s s = true := sameSnapshot_iff.mpr ⟨rfl, h.record⟩
  have hm : bootMetadataImageMatches s.record image.manifest = .ok :=
    imageMatches_eq_ok.mpr h.matching
  unfold selectCurrent
  simp only [h.confirmed, Bool.not_true, Bool.false_eq_true, if_false,
    Prog.eval_bind, eval_askLoad, eval_askVerify, h.verdict, hm, ne_eq,
    not_true_eq_false, hsame, Prog.eval_pure]
  exact ⟨_, rfl⟩

/-- A board that serves its current image publishes it. -/
theorem Serving.select (h : Serving C mem images s image) :
    ∃ result, boardSelect C mem images s = (result, some ⟨image, s⟩) := by
  have hsame : sameSnapshot s s = true := sameSnapshot_iff.mpr ⟨rfl, h.record⟩
  have hv : bootMetadataValidate s.record = .ok :=
    metadataValidate_eq_ok.mpr h.record
  have hp : ¬ (s.page > 1 ∨ bootMetadataValidate s.record ≠ .ok) := by
    simp [hv, h.page]
  unfold boardSelect bootSelectCalls
  simp only [if_neg hp, Prog.eval_bind, eval_askLoad, hsame, Bool.not_true,
    Bool.false_eq_true, if_false]
  split
  · next hle =>
      have hs := slotValid_iff_le.mpr hle
      obtain ⟨e, he, hinv⟩ := h.candidate hs
      have hst : ¬ (s.record.state s.record.candidateSlot ≠ bootStateReady ∧
          s.record.state s.record.candidateSlot ≠ bootStateTrial) := by
        have hr := (h.record.roles.candidate (slotValid_ne_none hs)).2.2.2
        tauto
      have hgt : ¬ s.record.candidateSlot > bootSlotB := by
        rw [gt_iff_lt, UInt32.not_lt]
        exact hle
      have hlaunch : (bootLaunchCandidate s
          (images.stored s.record.candidateSlot)).eval (selectAnswers C mem s) =
            (⟨.imageInvalid, e, .noChange, .ok⟩, none) := by
        unfold bootLaunchCandidate
        simp only [if_neg hp, Prog.eval_bind, eval_askLoad, eval_askVerify, hsame,
          Bool.not_true, Bool.false_eq_true, if_false, if_neg hgt, if_neg hst, he,
          hinv, if_true, Prog.eval_pure]
      simp only [Prog.eval_bind, hlaunch]
      exact current_eval h _
  · exact current_eval h _

/-- The calls of a selection that published the current image. -/
theorem current_serving {tr : List (Event SelectSig)} {reply : SelectReply}
    {d : BootLaunchDecision} (h : CurrentTrace images s tr reply)
    (htr : ∀ e ∈ tr, e.ans = selectAnswers C mem s e.op)
    (hd : reply.2 = some d) (hr : MetadataOk s.record)
    (hcur : d.image.manifest.slot = s.record.currentSlot) :
    d.snapshot = s ∧ storedResult C mem (images.stored s.record.currentSlot)
        s.record.currentSlot = .ok d.image ∧
      Matches s.record d.image.manifest ∧
      confirmed s.record s.record.currentSlot = true := by
  cases h with
  | absent hw => rw [hw.2] at hd; cases hd
  | withheld hw => rw [hw.2] at hd; cases hd
  | @rechecked image r reply hc hm hpub =>
      rcases hpub with hw | ⟨-, hpub⟩
      · rw [hw.2] at hd; cases hd
      rw [hpub.2] at hd
      injection hd with hd
      subst hd
      exact ⟨rfl, (htr _ List.mem_cons_self).symm, hm, hc⟩
  | @invalid e tr reply hc he hprev =>
      cases hprev with
      | absent hw => rw [hw.2] at hd; cases hd
      | withheld hw => rw [hw.2] at hd; cases hd
      | @promoted image desired r reply hc' hm hp hpub =>
          rcases hpub with ⟨e', -, hw⟩ | ⟨snapshot, -, hpub⟩
          · rw [hw.2] at hd; cases hd
          rw [hpub.2] at hd
          injection hd with hd
          subst hd
          obtain ⟨-, -, -, -, hslot, -⟩ := promotePrevious_committed.mp hp
          obtain ⟨hv, -⟩ := confirmed_iff.mp hc'
          have hne := (hr.roles.previous (slotValid_ne_none hv)).2
          exact absurd (hslot.trans hcur) hne

/-- Publishing the current image takes no other way. -/
theorem serving_of_select {result : BootSelectResult} {d : BootLaunchDecision}
    (h : boardSelect C mem images s = (result, some d))
    (hcur : d.image.manifest.slot = s.record.currentSlot) :
    d.snapshot = s ∧ Serving C mem images s d.image := by
  have hguard : ¬ (s.page > 1 ∨ bootMetadataValidate s.record ≠ .ok) := by
    intro hg
    rw [boardSelect, bootSelectCalls] at h
    simp only [if_pos hg, Prog.eval_pure, selectStoreFailed] at h
    cases h
  rw [not_or, not_not, metadataValidate_eq_ok] at hguard
  obtain ⟨hp, hr⟩ := hguard
  obtain ⟨tr, hrun, htr⟩ := runs_eval (selectAnswers C mem s)
    (bootSelectCalls s images)
  have heval : (bootSelectCalls s images).eval (selectAnswers C mem s) =
    (result, some d) := h
  rw [heval] at hrun
  cases select_trace hrun with
  | stale _ hw => cases hw.2
  | @noCandidate tr reply hc hct =>
      obtain ⟨hs, hv, hm, hconf⟩ := current_serving hct
        (fun e he => htr e (List.mem_cons_of_mem _ he)) rfl hr hcur
      exact ⟨hs, hp, hr, hconf, hv, hm, fun hv' => absurd hv' (by simp [hc])⟩
  | @fallback e tr reply hc he hct =>
      obtain ⟨hs, hv, hm, hconf⟩ := current_serving hct
        (fun e he => htr e (by simp [he])) rfl hr hcur
      refine ⟨hs, hp, hr, hconf, hv, hm, fun _ => ⟨e, ?_, he⟩⟩
      exact (htr (verified (images.stored s.record.candidateSlot)
        s.record.candidateSlot (.error e)) (by simp)).symm
  | @candidate tr launch reply hc hl hne hrep =>
      have hls : launch.1.status = .ok := by
        by_contra hno
        cases (hrep.1 hno).2
      obtain ⟨-, hout⟩ := hrep.2 hls
      have hcand := hr.roles.candidate (slotValid_ne_none hc)
      have hother : s.record.candidateSlot ≠ d.image.manifest.slot := by
        rw [hcur]
        exact hcand.2.1
      cases hl with
      | refused _ hno => exact absurd hls hno.1
      | unverified hst =>
          rw [hls] at hst
          split at hst <;> cases hst
      | ineligible hst => rw [hls] at hst; cases hst
      | begun hb hr' =>
          rcases hr' with ⟨e, -, hst, -⟩ | ⟨snapshot, -, -, hd⟩
          · rw [hls] at hst
            rcases hst with hst | hst <;> cases hst
          · rw [← hout] at hd
            cases hd
            exact absurd (beginTrial_committed.mp hb).2.1 hother
      | retried hx hc' ht hr' =>
          rcases hr' with ⟨hst, -⟩ | ⟨-, -, hd⟩
          · rw [hls] at hst
            rcases hst with hst | hst <;> cases hst
          · rw [← hout] at hd
            cases hd
            exact absurd hc' hother

/-- A served image asks for an upload and gets it, once there is no candidate. -/
theorem Serving.admits (h : Serving C mem images s image) {slot : UInt32}
    (hslot : slotValid slot = true) (hother : slot ≠ s.record.currentSlot)
    (hcand : s.record.candidateSlot = bootSlotNone)
    (hroom : s.record.sequence ≠ uint32Max) :
    Admits ⟨s, some image⟩ slot := by
  refine ⟨image, rfl, fun incoming hi his => ?_⟩
  refine ⟨_, invalidate_committed.mpr ⟨⟨h.executing, hi, hslot, his, h.slot.symm,
    hother, hcand, ?_⟩, h.record, hroom, rfl,
    invalidated_ok h.record hroom hslot (Ne.symm hother) hcand⟩⟩
  rw [h.slot]
  exact (confirmed_iff.mp h.confirmed).2

/-- A watchdog reset of a board that serves its current image while a trial is
on: the trial is charged and the board serves on. -/
theorem Serving.charge (h : Serving C mem images s image)
    (hslot : slotValid s.record.candidateSlot = true)
    (ht : s.record.state s.record.candidateSlot = bootStateTrial)
    (hroom : s.record.sequence ≠ uint32Max) :
    let s' : BootStoreSnapshot :=
      ⟨chargedRecord s.record bootResetWatchdog, 1 - s.page⟩
    Serving C mem images s' image ∧
      StageStep C mem images ⟨s, some image⟩ (.boot bootResetWatchdog)
        ⟨s', some image⟩ := by
  intro s'
  have hconf := (h.record.roles.candidate (slotValid_ne_none hslot)).1
  have hne := (h.record.roles.candidate (slotValid_ne_none hslot)).2.1
  have hch : Chargeable s.record bootResetWatchdog :=
    ⟨hslot, hconf, ht, .inl (by decide)⟩
  have hcharges := charges_intro h.record hch hroom
  obtain ⟨hcs, -, hmask, hcand⟩ := @charged_roles s.record
    s.record.candidateSlot
    (chargeReason (resetCauses s.record bootResetWatchdog))
    (if intentMatches s.record then 1 else 0)
  have hpropose := resetPropose_change_iff.mpr ⟨h.record, hch, hroom, rfl, rfl⟩
  have hcur : s'.record.currentSlot = s.record.currentSlot := hcs
  have hvalid := (confirmed_iff.mp h.confirmed).1
  have himg : s'.record.image s.record.currentSlot =
      s.record.image s.record.currentSlot :=
    hcharges.others _ hvalid (Ne.symm hne)
  have hafter : MetadataOk s'.record :=
    (resetPropose_change.mp hpropose).2.2.2.2.after
  have hserving : Serving C mem images s' image := by
    refine ⟨?_, hafter, ?_, ?_, ?_, ?_⟩
    · show ¬ 1 - s.page > 1
      have hp := h.page
      grind
    · rw [hcur, confirmed_iff]
      refine ⟨hvalid, ?_⟩
      show maskBit (charged _ _ _ _).confirmedMask _ = true
      rw [hmask]
      exact (confirmed_iff.mp h.confirmed).2
    · rw [hcur]
      exact h.verdict
    · refine h.matching.of_image hafter ?_ ?_ ?_ <;>
      · rw [h.slot, himg]
    · intro hv
      have hc' : s'.record.candidateSlot = s.record.candidateSlot := by
        have hc'' : s'.record.candidateSlot = _ := hcand
        rw [hc''] at hv ⊢
        split at hv
        · exact absurd hv (by decide)
        · next h2 => rw [if_neg h2]
      rw [hc']
      exact h.candidate hslot
  refine ⟨hserving, ?_⟩
  obtain ⟨result, hsel⟩ := hserving.select
  have hstep := @StageStep.boot C mem images s s' (some image) _
    (.charged hpropose)
  rwa [selected, hsel] at hstep

/-- Where a charged trial stands: one failure further, or out of its role. -/
theorem chargedRecord_trial {r : BootMetadata} {flags : UInt32}
    (hr : MetadataOk r) (hc : Chargeable r flags) :
    (chargedRecord r flags).candidateSlot = bootSlotNone ∨
      (chargedRecord r flags).candidateSlot = r.candidateSlot ∧
      (chargedRecord r flags).state r.candidateSlot = bootStateTrial ∧
      (accountCount ((chargedRecord r flags).image
        r.candidateSlot).accounting).toNat =
        (accountCount (r.image r.candidateSlot).accounting).toNat + 1 := by
  have h0 : (r.image r.candidateSlot).payloadLength ≠ 0 := by
    intro h0
    exact ((hr.image _ hc.slot).role h0).2.2.2 rfl
  obtain ⟨w, hw, hreasons, -, -, htrial⟩ := @charged_word r r.candidateSlot _
    (if intentMatches r then 1 else 0) hr hc.slot h0 hc.trial
    (chargeReason_mem (flags &&& bootResetSupported) (intentMatches r))
  have himg : (chargedRecord r flags).image r.candidateSlot =
    { r.image r.candidateSlot with accounting := w } := hw
  have hcand : (chargedRecord r flags).candidateSlot = _ :=
    (@charged_roles r r.candidateSlot
      (chargeReason (resetCauses r flags))
      (if intentMatches r then 1 else 0)).2.2.2
  by_cases h2 : accountCount (r.image r.candidateSlot).accounting = 2
  · rw [if_pos h2] at hcand
    exact .inl hcand
  · rw [if_neg h2] at hcand
    refine .inr ⟨hcand, ?_, ?_⟩
    · rw [BootMetadata.state, himg]
      exact htrial h2
    · have hlen := congrArg List.length hreasons
      rw [List.length_append, length_accountReasons, length_accountReasons] at hlen
      rw [himg]
      exact hlen

theorem ne_max_of_room {q : UInt32} {n : Nat}
    (h : q.toNat + n < uint32Max.toNat) : q ≠ uint32Max := by
  rintro rfl
  omega

/-- The boots that are left until the third failure, `n` of them, and then the
upload. -/
theorem Serving.unblocked (n : Nat) {slot : UInt32}
    (h : Serving C mem images s image) (hslot : slotValid slot = true)
    (hother : slot ≠ s.record.currentSlot)
    (hcand : s.record.candidateSlot = bootSlotNone ∨
      slotValid s.record.candidateSlot = true ∧
      s.record.state s.record.candidateSlot = bootStateTrial ∧
      (accountCount (s.record.image s.record.candidateSlot).accounting).toNat + n
        = 3)
    (hroom : s.record.sequence.toNat + n < uint32Max.toNat) :
    ∃ tr st, Run (StageStep C mem images) ⟨s, some image⟩ tr st ∧
      Admits st slot := by
  induction n generalizing s with
  | zero =>
      rcases hcand with hnone | ⟨hs, ht, hthree⟩
      · exact ⟨[], _, .nil _,
          h.admits hslot hother hnone (ne_max_of_room hroom)⟩
      · -- A running trial has two failures at most.
        have h0 : (s.record.image s.record.candidateSlot).payloadLength ≠ 0 :=
          fun h0 => ((h.record.image _ hs).role h0).2.2.2 rfl
        have hf := (accountValidate_fields (h.record.account hs h0)).2.2.2.2.2.1
        have hrej : s.record.state s.record.candidateSlot ≠ bootStateRejected := by
          rw [ht]
          decide
        exact absurd (UInt32.toNat_inj.mp hthree) (hf hrej).1
  | succ n ih =>
      have hne := ne_max_of_room hroom
      rcases hcand with hnone | ⟨hs, ht, hcount⟩
      · exact ⟨[], _, .nil _, h.admits hslot hother hnone hne⟩
      obtain ⟨hserving, hstep⟩ := h.charge hs ht hne
      have hconf := (h.record.roles.candidate (slotValid_ne_none hs)).1
      have hnext := @chargedRecord_trial _ bootResetWatchdog
        h.record ⟨hs, hconf, ht, .inl (by decide)⟩
      have hcur : (chargedRecord s.record bootResetWatchdog).currentSlot =
          s.record.currentSlot := charged_roles.1
      have hseq : (chargedRecord s.record bootResetWatchdog).sequence.toNat =
          s.record.sequence.toNat + 1 := by
        have hmax : uint32Max.toNat = 4294967295 := rfl
        have hone : (1 : UInt32).toNat = 1 := rfl
        show (s.record.sequence + 1).toNat = _
        rw [UInt32.toNat_add, hone]
        omega
      obtain ⟨tr, st, hrun, hadmits⟩ := ih hserving (by rw [hcur]; exact hother)
        (by
          rcases hnext with hnone | ⟨hc, ht', hcount'⟩
          · exact .inl hnone
          · refine .inr ⟨?_, ?_, ?_⟩
            · rw [hc]
              exact hs
            · rw [hc]
              exact ht'
            · rw [hc, hcount']
              omega) (by rw [hseq]; omega)
      exact ⟨_, st, .cons hstep hrun, hadmits⟩

/-- A READY candidate stays: every boot selects the current image again and
changes nothing, and the running image has no operation that would commit. -/
theorem Serving.stuck (h : Serving C mem images s image)
    (hslot : slotValid s.record.candidateSlot = true)
    (hready : s.record.state s.record.candidateSlot = bootStateReady)
    {l : StageLabel} {st : Stage}
    (hstep : StageStep C mem images ⟨s, some image⟩ l st) :
    st = ⟨s, some image⟩ := by
  have hsome := slotValid_ne_none hslot
  have hne := (h.record.roles.candidate hsome).2.1
  cases hstep with
  | boot hacc =>
      cases hacc with
      | kept hp =>
          obtain ⟨result, hsel⟩ := h.select
          rw [selected, hsel]
      | charged hp =>
          obtain ⟨-, hc, -⟩ := resetPropose_change_iff.mp hp
          have ht := hc.trial
          rw [hready] at ht
          exact absurd ht (by decide)
  | @op _ _ o r' hby hc =>
      exfalso
      cases o with
      | invalidate e => exact hsome (invalidate_committed.mp hc).1.candidate
      | acceptReady e st => exact hsome (acceptReady_committed.mp hc).1.candidate
      | confirm q i health =>
          have hi : i = image := hby
          have hcand := (confirm_committed.mp hc).2.2.1
          rw [hi, h.slot] at hcand
          exact hne hcand
      | deadlineIntent q i =>
          have hi : i = image := hby
          have hcand := (deadlineIntent_committed.mp hc).2.2.1
          rw [hi, h.slot] at hcand
          exact hne hcand.1
      | beginTrial c => exact hby
      | applyCountedFailure f => exact hby
      | promotePrevious i p => exact hby

theorem Serving.stuck_run (h : Serving C mem images s image)
    (hslot : slotValid s.record.candidateSlot = true)
    (hready : s.record.state s.record.candidateSlot = bootStateReady)
    {tr : List (StageLabel × Stage)} {st : Stage}
    (hrun : Run (StageStep C mem images) ⟨s, some image⟩ tr st) :
    st = ⟨s, some image⟩ ∧
      ∀ e r', ¬ Committed s.record (.invalidate e) r' := by
  refine ⟨?_, fun e r' hc => ?_⟩
  · exact @Run.invariant _ _ _ _ _ _ (fun st => st = ⟨s, some image⟩)
      (fun {a l b} hi hs => by subst hi; exact h.stuck hslot hready hs) hrun rfl
  · exact slotValid_ne_none hslot (invalidate_committed.mp hc).1.candidate

end Serving

/-! ## Uploads -/

/-- One confirmed current slot and nothing else. -/
structure Factory (f : BootMetadata) : Prop where
  valid : bootMetadataValidate f = .ok
  current : slotValid f.currentSlot = true
  candidate : f.candidateSlot = bootSlotNone
  previous : f.previousSlot = bootSlotNone
  mask : f.confirmedMask = 1 <<< f.currentSlot
  empty : ∀ s, slotValid s = true → s ≠ f.currentSlot → f.image s = .empty
  intent : f.intentKind = bootIntentNone

/-- The slots of a board whose slot B lost its manifest. -/
def erasedImages : BootSelectImages where
  a := packageImages.a
  b := ⟨⟨List.replicate 160 0xff, List.length_replicate⟩, 160⟩

theorem factoryRecord_factory : Factory factoryRecord := by
  refine ⟨by decide, by decide, rfl, rfl, rfl, ?_, rfl⟩
  intro s hs hne
  rcases slotValid_iff.mp hs with rfl | rfl
  · exact absurd rfl hne
  · rfl

theorem ready_selected :
    boardSelect packageCrypto factoryMemory erasedImages ⟨readyRecord, 0⟩ =
      (⟨.ok, 3, ⟨.ok, .errorFormat⟩, .noChange, .ok⟩,
        some ⟨packageImage bootSlotA, ⟨readyRecord, 0⟩⟩) := by
  decide +kernel

/-- Accepted and then erased before its first trial: the board boots its
current image for ever, and never admits another upload. -/
theorem ready_candidate_blocks :
    Factory factoryRecord ∧
    Run Committed factoryRecord
      [(.invalidate packageUpload, { factoryRecord with sequence := 2 }),
        (.acceptReady packageUpload (packageImage bootSlotB), readyRecord)]
      readyRecord ∧
    (boardSelect packageCrypto factoryMemory erasedImages ⟨readyRecord, 0⟩).2 =
      some ⟨packageImage bootSlotA, ⟨readyRecord, 0⟩⟩ ∧
    (packageImage bootSlotA).manifest.slot = readyRecord.currentSlot ∧
    ¬ ∃ tr st, Run (StageStep packageCrypto factoryMemory erasedImages)
        ⟨⟨readyRecord, 0⟩, some (packageImage bootSlotA)⟩ tr st ∧
      ∃ e r', Committed st.snapshot.record (.invalidate e) r' := by
  obtain ⟨-, hserving⟩ := serving_of_select ready_selected rfl
  refine ⟨factoryRecord_factory,
    .cons factory_invalidated (.cons factory_accepted (.nil _)),
    by rw [ready_selected], rfl, ?_⟩
  rintro ⟨tr, st, hrun, e, r', hc⟩
  obtain ⟨rfl, hno⟩ := hserving.stuck_run (by decide) (by decide) hrun
  exact hno e r' hc

/-- A board that boots its confirmed current image admits an upload into the
other slot after finitely many boots, unless its candidate is still READY; and
then it never does. -/
theorem upload_unblocked {C : Crypto} {mem : ByteMem}
    {images : BootSelectImages} {f r : BootMetadata}
    {tr : List (LifecycleOp × BootMetadata)} {page : UInt32}
    {result : BootSelectResult} {d : BootLaunchDecision} {slot : UInt32}
    (_ : Factory f) (_ : Run Committed f tr r)
    (hsel : boardSelect C mem images ⟨r, page⟩ = (result, some d))
    (hcur : d.image.manifest.slot = r.currentSlot)
    (hroom : r.sequence.toNat + 4 ≤ uint32Max.toNat)
    (hslot : slotValid slot = true) (hother : slot ≠ r.currentSlot) :
    (¬ (slotValid r.candidateSlot = true ∧
        r.state r.candidateSlot = bootStateReady) →
      ∃ tr' st, Run (StageStep C mem images) ⟨⟨r, page⟩, some d.image⟩ tr' st ∧
        Admits st slot) ∧
    (slotValid r.candidateSlot = true →
      r.state r.candidateSlot = bootStateReady →
      ∀ tr' st, Run (StageStep C mem images) ⟨⟨r, page⟩, some d.image⟩ tr' st →
        st = ⟨⟨r, page⟩, some d.image⟩ ∧
          ∀ e r', ¬ Committed st.snapshot.record (.invalidate e) r') := by
  obtain ⟨-, hserving⟩ := serving_of_select hsel hcur
  have hr := hserving.record
  refine ⟨fun hno => ?_, fun hs hready tr' st hrun => ?_⟩
  · by_cases hnone : r.candidateSlot = bootSlotNone
    · exact hserving.unblocked 0 hslot hother (.inl hnone) (by simp; omega)
    · have hs := hr.candidate_slotValid hnone
      have ht := (hr.roles.candidate hnone).2.2.2.resolve_left
        fun hready => hno ⟨hs, hready⟩
      have hcount := accountCount_le (r.image r.candidateSlot).accounting
      exact hserving.unblocked
        (3 - (accountCount (r.image r.candidateSlot).accounting).toNat)
        hslot hother (.inr ⟨hs, ht, by simp; omega⟩) (by simp; omega)
  · obtain ⟨rfl, hnever⟩ := hserving.stuck_run hs hready hrun
    exact ⟨rfl, hnever⟩

theorem trial_selected :
    boardSelect packageCrypto factoryMemory erasedImages ⟨trialRecord, 1⟩ =
      (⟨.ok, 3, ⟨.ok, .errorFormat⟩, .noChange, .ok⟩,
        some ⟨packageImage bootSlotA, ⟨trialRecord, 1⟩⟩) := by
  decide +kernel

theorem upload_unblocked_trial :
    ∃ tr st, Run (StageStep packageCrypto factoryMemory erasedImages)
      ⟨⟨trialRecord, 1⟩, some (packageImage bootSlotA)⟩ tr st ∧
        Admits st bootSlotB :=
  (upload_unblocked factoryRecord_factory first_update trial_selected rfl (by decide)
    (by decide) (by decide)).1 (by decide)

end EkBareMetal.Boot

import EkBareMetal.Proofs.Lifecycle
import EkBareMetal.Boot.Select

/-!
# The calls a selection makes

Launch and selection make at most seven calls, and which of them follow which
is the whole of their policy. The four inductive predicates below list the
call sequences each of the functions has, with what was known at each call;
the theorems say that every transcript is one of them. What a selection
promises is then read off a handful of short lists.

A call answers whatever it answers here. What the programs behind the calls
add (a replacement that answers a snapshot answers the one asked for, a
verified manifest is of the slot asked about) comes in when the calls are
served.
-/

namespace EkBareMetal.Boot

open Words Interact

/-! ## Snapshots -/

theorem encode_eq_ok_iff {m : BootMetadata} {w : List UInt8} :
    bootMetadataEncode m bootCommitValid bootMetadataBytes = .ok w ↔
      MetadataOk m ∧ w = metadataWire m bootCommitValid := by
  constructor
  · intro h
    obtain ⟨hv, hw⟩ := encode_ok h
    exact ⟨metadataValidate_eq_ok.mp hv, hw⟩
  · rintro ⟨hm, rfl⟩
    exact encode_valid (metadataValidate_eq_ok.mpr hm) (.inr rfl) (Nat.le_refl _)

/-- Two snapshots with one page and one encoding are one snapshot. -/
theorem sameSnapshot_iff {a b : BootStoreSnapshot} :
    sameSnapshot a b = true ↔ a = b ∧ MetadataOk a.record := by
  unfold sameSnapshot
  constructor
  · intro h
    rw [Bool.and_eq_true, beq_iff_eq] at h
    obtain ⟨hp, h⟩ := h
    split at h
    · next aw bw ha hb =>
        obtain ⟨hma, rfl⟩ := encode_eq_ok_iff.mp ha
        obtain ⟨hmb, rfl⟩ := encode_eq_ok_iff.mp hb
        have hr := wire_injective (metadataValidate_eq_ok.mpr hma)
          (metadataValidate_eq_ok.mpr hmb) (beq_iff_eq.mp h)
        have hab : a = b := by
          cases a
          cases b
          simp only at hp hr
          rw [hp, hr]
        exact ⟨hab, hma⟩
    · cases h
  · rintro ⟨rfl, hm⟩
    have he := encode_eq_ok_iff.mpr ⟨hm, rfl⟩
    rw [he]
    simp

/-! ## Calls -/

abbrev loaded (r : Except BootStoreResult BootStoreSnapshot) :
    Event SelectSig := ⟨.load, r⟩

abbrev replaced (expected : BootStoreSnapshot) (desired : BootMetadata)
    (r : Except BootStoreResult BootStoreSnapshot) : Event SelectSig :=
  ⟨.replace expected desired, r⟩

abbrev verified (wire : List UInt8) (slot : UInt32)
    (r : Except BootVerifyResult BootVerifiedImage) : Event SelectSig :=
  ⟨.verify wire slot, r⟩

/-- A reply that published nothing, and one that published `d`. -/
def Withheld (reply : SelectReply) : Prop :=
  reply.1.status ≠ .ok ∧ reply.2 = none

def Published (reply : SelectReply) (d : BootLaunchDecision) : Prop :=
  reply.1.status = .ok ∧ reply.2 = some d

/-! ## The candidate -/

inductive LaunchTrace (expected : BootStoreSnapshot) (wire : List UInt8) :
    List (Event SelectSig) → LaunchReply → Prop where
  /-- Nothing was verified. -/
  | refused {tr reply} (htr : tr = [] ∨ ∃ r, tr = [loaded r])
      (hs : reply.1.status ≠ .ok ∧ reply.1.status ≠ .imageInvalid)
      (ho : reply.2 = none) : LaunchTrace expected wire tr reply
  | unverified {e reply}
      (hs : reply.1.status = if invalidImageFailure e then .imageInvalid
        else .verifyFailed) (ho : reply.2 = none) :
      LaunchTrace expected wire
        [loaded (.ok expected),
          verified wire expected.record.candidateSlot (.error e)] reply
  | ineligible {image reply} (hs : reply.1.status = .lifecycleFailed)
      (ho : reply.2 = none) :
      LaunchTrace expected wire
        [loaded (.ok expected),
          verified wire expected.record.candidateSlot (.ok image)] reply
  /-- A READY candidate became a trial, if the replacement says so. -/
  | begun {image desired r reply}
      (hb : Committed expected.record (.beginTrial image) desired)
      (hr : (∃ e, r = .error e ∧
          (reply.1.status = .storeFailed ∨ reply.1.status = .reconcile) ∧
          reply.2 = none) ∨
        ∃ snapshot, r = .ok snapshot ∧ reply.1.status = .ok ∧
          reply.2 = some ⟨image, snapshot⟩) :
      LaunchTrace expected wire
        [loaded (.ok expected),
          verified wire expected.record.candidateSlot (.ok image),
          replaced expected desired r] reply
  /-- A trial was retried, if the authority is still the same. -/
  | retried {image r reply} (hx : Executing expected.record image)
      (hc : expected.record.candidateSlot = image.manifest.slot)
      (ht : expected.record.state image.manifest.slot = bootStateTrial)
      (hr : ((reply.1.status = .storeFailed ∨ reply.1.status = .reconcile) ∧
          reply.2 = none) ∨
        r = .ok expected ∧ reply.1.status = .ok ∧
          reply.2 = some ⟨image, expected⟩) :
      LaunchTrace expected wire
        [loaded (.ok expected),
          verified wire expected.record.candidateSlot (.ok image), loaded r] reply

/-- The three things `begin_trial` can say. -/
theorem beginTrial_noChange {r : BootMetadata} {c : BootVerifiedImage}
    {o : Option BootMetadata} (h : bootLifecycleBeginTrial r c = (.noChange, o)) :
    Executing r c ∧ r.candidateSlot = c.manifest.slot ∧
      r.state c.manifest.slot = bootStateTrial := by
  have ha : Answers (bootLifecycleBeginTrial r c) := .inr (by rw [h])
  unfold bootLifecycleBeginTrial at ha h
  obtain ⟨hx, ha⟩ := answers_passing execution_ne_noChange ha
  dsimp only at ha h
  obtain ⟨hc, -⟩ := answers_guard (by decide) (by decide) ha
  refine ⟨execution_eq_change.mp hx, not_not.mp hc, ?_⟩
  by_contra ht
  rw [hx, BootLifecycleResult.passing, if_neg (by decide), if_neg hc,
    if_neg ht] at h
  exact finish_ne_noChange (congrArg Prod.fst h)

theorem launch_storeFailed_status (result : BootLaunchResult)
    (e : BootStoreResult) :
    ((launchStoreFailed result e).1.status = .storeFailed ∨
      (launchStoreFailed result e).1.status = .reconcile) ∧
    (launchStoreFailed result e).2 = none := by
  unfold launchStoreFailed
  refine ⟨?_, rfl⟩
  by_cases he : e = .uncertain
  · exact .inr (if_pos he)
  · exact .inl (if_neg he)

theorem launchVerified_trace {expected : BootStoreSnapshot} {wire : List UInt8}
    {result : BootLaunchResult} {image : BootVerifiedImage}
    {tr : List (Event SelectSig)} {reply : LaunchReply}
    (h : Runs (launchVerified result expected image) tr reply) :
    LaunchTrace expected wire (loaded (.ok expected) ::
      verified wire expected.record.candidateSlot (.ok image) :: tr) reply := by
  unfold launchVerified at h
  split at h
  · next desired hb =>
      rw [runs_ask_iff] at h
      obtain ⟨r, rest, rfl, h⟩ := h
      cases r with
      | error e =>
          obtain ⟨rfl, rfl⟩ := runs_pure_iff.mp h
          exact .begun hb (.inl ⟨e, rfl, launch_storeFailed_status _ e⟩)
      | ok snapshot =>
          obtain ⟨rfl, rfl⟩ := runs_pure_iff.mp h
          exact .begun hb (.inr ⟨snapshot, rfl, rfl, rfl⟩)
  · next o hb =>
      obtain ⟨hx, hc, ht⟩ := beginTrial_noChange hb
      rw [runs_ask_iff] at h
      obtain ⟨r, rest, rfl, h⟩ := h
      cases r with
      | error e =>
          obtain ⟨rfl, rfl⟩ := runs_pure_iff.mp h
          exact .retried hx hc ht (.inl (launch_storeFailed_status _ e))
      | ok snapshot =>
          dsimp only at h
          split at h
          · obtain ⟨rfl, rfl⟩ := runs_pure_iff.mp h
            exact .retried hx hc ht (.inl (launch_storeFailed_status _ _))
          · next hsame =>
              obtain ⟨rfl, rfl⟩ := runs_pure_iff.mp h
              obtain ⟨rfl, -⟩ := sameSnapshot_iff.mp (by simpa using hsame)
              exact .retried hx hc ht (.inr ⟨rfl, rfl, rfl⟩)
  · obtain ⟨rfl, rfl⟩ := runs_pure_iff.mp h
    exact .ineligible rfl rfl

theorem launch_trace {expected : BootStoreSnapshot} {wire : List UInt8}
    {tr : List (Event SelectSig)} {reply : LaunchReply}
    (h : Runs (bootLaunchCandidate expected wire) tr reply) :
    LaunchTrace expected wire tr reply := by
  unfold bootLaunchCandidate at h
  dsimp only at h
  split at h
  · obtain ⟨rfl, rfl⟩ := runs_pure_iff.mp h
    exact .refused (.inl rfl) (by simp) rfl
  rw [runs_ask_iff] at h
  obtain ⟨r, rest, rfl, h⟩ := h
  have hfailed : ∀ e, LaunchTrace expected wire [loaded r]
      (launchStoreFailed ⟨.argument, .ok, .noChange, .ok⟩ e) := by
    intro e
    obtain ⟨hs, ho⟩ := launch_storeFailed_status
      ⟨.argument, .ok, .noChange, .ok⟩ e
    refine .refused (.inr ⟨r, rfl⟩) ?_ ho
    rcases hs with hs | hs
    · simp [hs]
    · simp [hs]
  cases r with
  | error e =>
      obtain ⟨rfl, rfl⟩ := runs_pure_iff.mp h
      exact hfailed e
  | ok current =>
      dsimp only at h
      split at h
      · obtain ⟨rfl, rfl⟩ := runs_pure_iff.mp h
        exact hfailed .stale
      next hsame =>
      obtain ⟨rfl, -⟩ := sameSnapshot_iff.mp (by simpa using hsame)
      split at h
      · obtain ⟨rfl, rfl⟩ := runs_pure_iff.mp h
        exact .refused (.inr ⟨_, rfl⟩) (by simp) rfl
      split at h
      · obtain ⟨rfl, rfl⟩ := runs_pure_iff.mp h
        exact .refused (.inr ⟨_, rfl⟩) (by simp) rfl
      rw [runs_ask_iff] at h
      obtain ⟨r, rest', rfl, h⟩ := h
      cases r with
      | error e =>
          obtain ⟨rfl, rfl⟩ := runs_pure_iff.mp h
          exact .unverified rfl rfl
      | ok image => exact launchVerified_trace h

/-! ## The previous slot -/

inductive PreviousTrace (images : BootSelectImages) (current : BootStoreSnapshot)
    (failure : BootVerifyResult) :
    List (Event SelectSig) → SelectReply → Prop where
  | absent {reply} (h : Withheld reply) :
      PreviousTrace images current failure [] reply
  | withheld {v reply} (h : Withheld reply) :
      PreviousTrace images current failure
        [verified (images.stored current.record.previousSlot)
          current.record.previousSlot v] reply
  | promoted {image desired r reply}
      (hc : confirmed current.record current.record.previousSlot = true)
      (hm : Matches current.record image.manifest)
      (hp : Committed current.record
        (.promotePrevious (invalidCurrent current.record failure) image) desired)
      (hr : (∃ e, r = .error e ∧ Withheld reply) ∨
        ∃ snapshot, r = .ok snapshot ∧ Published reply ⟨image, snapshot⟩) :
      PreviousTrace images current failure
        [verified (images.stored current.record.previousSlot)
          current.record.previousSlot (.ok image),
          replaced current desired r] reply

theorem withheld_failed {result : BootSelectResult} {status : BootSelectStatus}
    (h : status ≠ .ok) : Withheld (selectFailed result status) := ⟨h, rfl⟩

theorem withheld_storeFailed (result : BootSelectResult) (e : BootStoreResult) :
    Withheld (selectStoreFailed result e) := by
  refine ⟨?_, rfl⟩
  show storeStatus e ≠ .ok
  unfold storeStatus
  split
  · decide
  split
  · decide
  · decide

theorem previous_trace {images : BootSelectImages} {current : BootStoreSnapshot}
    {failure : BootVerifyResult} {result : BootSelectResult}
    {tr : List (Event SelectSig)} {reply : SelectReply}
    (h : Runs (selectPrevious images current failure result) tr reply) :
    PreviousTrace images current failure tr reply := by
  unfold selectPrevious at h
  dsimp only at h
  split at h
  · obtain ⟨rfl, rfl⟩ := runs_pure_iff.mp h
    exact .absent (withheld_failed (by decide))
  next hrole =>
  rw [runs_ask_iff] at h
  obtain ⟨v, rest, rfl, h⟩ := h
  cases v with
  | error e =>
      dsimp only at h
      split at h
      · obtain ⟨rfl, rfl⟩ := runs_pure_iff.mp h
        exact .withheld (withheld_failed (by decide))
      · obtain ⟨rfl, rfl⟩ := runs_pure_iff.mp h
        exact .withheld (withheld_failed (by decide))
  | ok image =>
      dsimp only at h
      split at h
      · obtain ⟨rfl, rfl⟩ := runs_pure_iff.mp h
        exact .withheld (withheld_failed (by decide))
      next hm =>
      simp only [Bool.or_eq_true, Bool.not_eq_true', not_or,
        Bool.not_eq_false] at hrole
      rw [not_not, imageMatches_eq_ok] at hm
      split at h
      · next desired hp =>
          rw [runs_ask_iff] at h
          obtain ⟨r, rest, rfl, h⟩ := h
          cases r with
          | error e =>
              obtain ⟨rfl, rfl⟩ := runs_pure_iff.mp h
              exact .promoted hrole.1.1 hm hp
                (.inl ⟨e, rfl, withheld_storeFailed _ e⟩)
          | ok snapshot =>
              obtain ⟨rfl, rfl⟩ := runs_pure_iff.mp h
              exact .promoted hrole.1.1 hm hp
                (.inr ⟨snapshot, rfl, rfl, rfl⟩)
      · obtain ⟨rfl, rfl⟩ := runs_pure_iff.mp h
        exact .withheld (withheld_failed (by decide))

/-! ## The current slot -/

inductive CurrentTrace (images : BootSelectImages) (current : BootStoreSnapshot) :
    List (Event SelectSig) → SelectReply → Prop where
  | absent {reply} (h : Withheld reply) : CurrentTrace images current [] reply
  | withheld {v reply} (h : Withheld reply) :
      CurrentTrace images current
        [verified (images.stored current.record.currentSlot)
          current.record.currentSlot v] reply
  | rechecked {image r reply}
      (hc : confirmed current.record current.record.currentSlot = true)
      (hm : Matches current.record image.manifest)
      (hr : Withheld reply ∨ r = .ok current ∧ Published reply ⟨image, current⟩) :
      CurrentTrace images current
        [verified (images.stored current.record.currentSlot)
          current.record.currentSlot (.ok image), loaded r] reply
  | invalid {e tr reply}
      (hc : confirmed current.record current.record.currentSlot = true)
      (he : invalidImageFailure e = true)
      (h : PreviousTrace images current e tr reply) :
      CurrentTrace images current
        (verified (images.stored current.record.currentSlot)
          current.record.currentSlot (.error e) :: tr) reply

theorem current_trace {images : BootSelectImages} {current : BootStoreSnapshot}
    {result : BootSelectResult} {tr : List (Event SelectSig)}
    {reply : SelectReply}
    (h : Runs (selectCurrent images current result) tr reply) :
    CurrentTrace images current tr reply := by
  unfold selectCurrent at h
  dsimp only at h
  split at h
  · obtain ⟨rfl, rfl⟩ := runs_pure_iff.mp h
    exact .absent (withheld_failed (by decide))
  next hc =>
  rw [runs_ask_iff] at h
  obtain ⟨v, rest, rfl, h⟩ := h
  cases v with
  | error e =>
      dsimp only at h
      split at h
      · obtain ⟨rfl, rfl⟩ := runs_pure_iff.mp h
        exact .withheld (withheld_failed (by decide))
      · next he =>
          exact .invalid (by simpa using hc) (by simpa using he)
            (previous_trace h)
  | ok image =>
      dsimp only at h
      split at h
      · obtain ⟨rfl, rfl⟩ := runs_pure_iff.mp h
        exact .withheld (withheld_failed (by decide))
      next hm =>
      rw [not_not, imageMatches_eq_ok] at hm
      rw [runs_ask_iff] at h
      obtain ⟨r, rest, rfl, h⟩ := h
      cases r with
      | error e =>
          obtain ⟨rfl, rfl⟩ := runs_pure_iff.mp h
          exact .rechecked (by simpa using hc) hm
            (.inl (withheld_storeFailed _ e))
      | ok snapshot =>
          dsimp only at h
          split at h
          · obtain ⟨rfl, rfl⟩ := runs_pure_iff.mp h
            exact .rechecked (by simpa using hc) hm
              (.inl (withheld_storeFailed _ .stale))
          · next hsame =>
              obtain ⟨rfl, rfl⟩ := runs_pure_iff.mp h
              obtain ⟨rfl, -⟩ := sameSnapshot_iff.mp (by simpa using hsame)
              exact .rechecked (by simpa using hc) hm
                (.inr ⟨rfl, rfl, rfl⟩)

/-! ## The selection -/

inductive SelectTrace (expected : BootStoreSnapshot) (images : BootSelectImages) :
    List (Event SelectSig) → SelectReply → Prop where
  /-- The expected snapshot is not the authority, or nothing can be loaded. -/
  | stale {tr reply} (htr : tr = [] ∨ ∃ r, tr = [loaded r]) (h : Withheld reply) :
      SelectTrace expected images tr reply
  | noCandidate {tr reply}
      (hc : slotValid expected.record.candidateSlot = false)
      (h : CurrentTrace images expected tr reply) :
      SelectTrace expected images (loaded (.ok expected) :: tr) reply
  | candidate {tr launch reply}
      (hc : slotValid expected.record.candidateSlot = true)
      (hl : LaunchTrace expected
        (images.stored expected.record.candidateSlot) tr launch)
      (hs : launch.1.status ≠ .imageInvalid)
      (hr : (launch.1.status ≠ .ok → Withheld reply) ∧
        (launch.1.status = .ok → reply.1.status = .ok ∧ reply.2 = launch.2)) :
      SelectTrace expected images (loaded (.ok expected) :: tr) reply
  | fallback {e tr reply}
      (hc : slotValid expected.record.candidateSlot = true)
      (he : invalidImageFailure e = true)
      (h : CurrentTrace images expected tr reply) :
      SelectTrace expected images
        (loaded (.ok expected) :: loaded (.ok expected) ::
          verified (images.stored expected.record.candidateSlot)
            expected.record.candidateSlot (.error e) :: tr) reply

/-- Only an invalid image makes a launch say so, and then it made two calls. -/
theorem LaunchTrace.imageInvalid {expected : BootStoreSnapshot}
    {wire : List UInt8} {tr : List (Event SelectSig)} {reply : LaunchReply}
    (h : LaunchTrace expected wire tr reply)
    (hs : reply.1.status = .imageInvalid) :
    ∃ e, invalidImageFailure e = true ∧
      tr = [loaded (.ok expected),
        verified wire expected.record.candidateSlot (.error e)] := by
  cases h with
  | refused _ hne => exact absurd hs hne.2
  | @unverified e reply he =>
      refine ⟨e, ?_, rfl⟩
      by_contra hv
      rw [if_neg hv, hs] at he
      cases he
  | ineligible he => rw [hs] at he; cases he
  | begun _ hr =>
      rcases hr with ⟨e, -, he, -⟩ | ⟨sn, -, he, -⟩
      · rw [hs] at he
        rcases he with he | he <;> cases he
      · rw [hs] at he; cases he
  | retried _ _ _ hr =>
      rcases hr with ⟨he, -⟩ | ⟨-, he, -⟩
      · rw [hs] at he
        rcases he with he | he <;> cases he
      · rw [hs] at he; cases he

theorem select_trace {expected : BootStoreSnapshot} {images : BootSelectImages}
    {tr : List (Event SelectSig)} {reply : SelectReply}
    (h : Runs (bootSelectCalls expected images) tr reply) :
    SelectTrace expected images tr reply := by
  unfold bootSelectCalls at h
  dsimp only at h
  split at h
  · obtain ⟨rfl, rfl⟩ := runs_pure_iff.mp h
    exact .stale (.inl rfl) (withheld_storeFailed _ _)
  rw [runs_ask_iff] at h
  obtain ⟨r, rest, rfl, h⟩ := h
  cases r with
  | error e =>
      obtain ⟨rfl, rfl⟩ := runs_pure_iff.mp h
      exact .stale (.inr ⟨_, rfl⟩) (withheld_storeFailed _ e)
  | ok current =>
      dsimp only at h
      split at h
      · obtain ⟨rfl, rfl⟩ := runs_pure_iff.mp h
        exact .stale (.inr ⟨_, rfl⟩) (withheld_storeFailed _ .stale)
      next hsame =>
      obtain ⟨rfl, -⟩ := sameSnapshot_iff.mp (by simpa using hsame)
      split at h
      · next hle =>
          have hc := slotValid_iff_le.mpr hle
          rw [runs_bind_iff'] at h
          obtain ⟨tr₁, ⟨launch, written⟩, tr₂, rfl, hl, h⟩ := h
          have hlt := launch_trace hl
          dsimp only at h
          split at h
          · next hs =>
              obtain ⟨rfl, rfl⟩ := runs_pure_iff.mp h
              rw [List.append_nil]
              exact .candidate hc hlt (by simp [hs]) ⟨fun hn => absurd hs hn,
                fun _ => ⟨rfl, rfl⟩⟩
          · next hs =>
              obtain ⟨rfl, rfl⟩ := runs_pure_iff.mp h
              rw [List.append_nil]
              exact .candidate hc hlt (by simp [hs])
                ⟨fun _ => withheld_storeFailed _ _, fun he => by simp [hs] at he⟩
          · next hs =>
              obtain ⟨rfl, rfl⟩ := runs_pure_iff.mp h
              rw [List.append_nil]
              exact .candidate hc hlt (by simp [hs])
                ⟨fun _ => withheld_storeFailed _ _, fun he => by simp [hs] at he⟩
          · next hs =>
              obtain ⟨e, he, rfl⟩ := hlt.imageInvalid hs
              exact .fallback hc he (current_trace h)
          · next hs =>
              obtain ⟨rfl, rfl⟩ := runs_pure_iff.mp h
              rw [List.append_nil]
              exact .candidate hc hlt (by simp [hs])
                ⟨fun _ => withheld_failed (by decide),
                  fun he => by simp [hs] at he⟩
          · next h1 h2 h3 h4 h5 =>
              obtain ⟨rfl, rfl⟩ := runs_pure_iff.mp h
              rw [List.append_nil]
              exact .candidate hc hlt h4
                ⟨fun _ => withheld_failed (by decide), fun he => absurd he h1⟩
      · next hle =>
          refine .noCandidate ?_ (current_trace h)
          rw [← Bool.not_eq_true, slotValid_iff_le]
          exact hle

end EkBareMetal.Boot

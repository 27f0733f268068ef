import EkBareMetal.Boot.ProtectedLaunch
import EkBareMetal.Lib.Halting
import EkBareMetal.Proofs.Streaming

/-!
# What follows a failed callback

Each part of the protected launch on its own: when one of its callbacks fails,
the part makes no further request and its result says so. The watchdog is the
exception, whose service closes the lock again. The parts are composed as the
source composes them, and a failure inside of one is a failed request of the
part that called it.
-/

namespace EkBareMetal.Boot

open Words Interact

/-! ## The store -/

def StoreFailed : Event StoreSig → Prop
  | ⟨.read _ _, r⟩ => r = none
  | ⟨.erasePage _, done⟩ => done = false
  | ⟨.programWord _ _, done⟩ => done = false

/-- The answer of a call of the store that did not succeed. -/
abbrev StoreError (r : Except BootStoreResult BootStoreSnapshot) : Prop :=
  ∃ e, r = .error e

theorem not_storeError {s : BootStoreSnapshot} : ¬ StoreError (.ok s) := by
  rintro ⟨e, he⟩
  cases he

theorem load_halts : Halts StoreFailed Silent bootStoreLoad StoreError := by
  refine halts_ask_bind fun r => ?_
  cases r with
  | none => exact stops_here rfl ⟨_, rfl⟩
  | some page0 =>
      refine goes_on (by rintro ⟨⟩) (halts_ask_bind fun r => ?_)
      cases r with
      | none => exact stops_here rfl ⟨_, rfl⟩
      | some page1 => exact goes_on (by rintro ⟨⟩) (halts_pure _)

theorem stageWords_halts (destination : UInt32) (wanted : List UInt8) (n i : Nat) :
    Halts StoreFailed Silent (stageWords destination wanted n i) (· = false) := by
  induction n generalizing i with
  | zero => exact halts_pure _
  | succ n ih =>
      refine halts_ask_bind fun done => ?_
      cases done with
      | false => exact stops_here rfl rfl
      | true => exact goes_on (by rintro ⟨⟩) (ih _)

theorem commitRecord_halts (expected : BootStoreSnapshot) (desired : BootMetadata)
    (destination : UInt32) :
    Halts StoreFailed Silent (commitRecord expected desired destination) StoreError := by
  refine halts_ask_bind fun done => ?_
  cases done with
  | false => exact stops_here rfl ⟨_, rfl⟩
  | true =>
  refine goes_on (by rintro ⟨⟩) (halts_ask_bind fun r => ?_)
  cases r with
  | none => exact stops_here rfl ⟨_, rfl⟩
  | some readback =>
  refine goes_on (by rintro ⟨⟩) ?_
  dsimp only
  split
  · exact halts_pure _
  refine halts_bind load_halts ?_ fun r => ?_
  · rintro _ ⟨e, rfl⟩
    exact tail_pure rfl ⟨_, rfl⟩
  · cases r with
    | error e => exact halts_pure _
    | ok snapshot =>
        dsimp only
        split
        · exact halts_pure _
        split
        · exact halts_pure _
        · exact halts_pure _

theorem stageRecord_halts (expected : BootStoreSnapshot) (desired : BootMetadata)
    (destination : UInt32) :
    Halts StoreFailed Silent (stageRecord expected desired destination) StoreError := by
  refine halts_ask_bind fun erased => ?_
  cases erased with
  | false => exact stops_here rfl ⟨_, rfl⟩
  | true =>
  refine goes_on (by rintro ⟨⟩) (halts_ask_bind fun r => ?_)
  cases r with
  | none => exact stops_here rfl ⟨_, rfl⟩
  | some blank =>
  refine goes_on (by rintro ⟨⟩) ?_
  dsimp only
  split
  · exact halts_pure _
  refine halts_bind (stageWords_halts _ _ _ _) ?_ fun staged => ?_
  · rintro _ rfl
    exact tail_pure rfl ⟨_, rfl⟩
  cases staged with
  | false => exact halts_pure _
  | true =>
  refine halts_ask_bind fun r => ?_
  cases r with
  | none => exact stops_here rfl ⟨_, rfl⟩
  | some readback =>
      refine goes_on (by rintro ⟨⟩) ?_
      dsimp only
      split
      · exact halts_pure _
      · exact commitRecord_halts _ _ _

theorem replace_halts (expected : BootStoreSnapshot) (desired : BootMetadata) :
    Halts StoreFailed Silent (bootStoreReplace expected desired) StoreError := by
  unfold bootStoreReplace
  split
  · exact halts_pure _
  split
  · exact halts_pure _
  · exact halts_pure _
  split
  · exact halts_pure _
  split
  · exact halts_pure _
  refine halts_bind load_halts ?_ fun r => ?_
  · rintro _ ⟨e, rfl⟩
    exact tail_pure rfl ⟨_, rfl⟩
  cases r with
  | error e => exact halts_pure _
  | ok snapshot =>
      dsimp only
      split
      · exact halts_pure _
      split
      · exact halts_pure _
      · exact stageRecord_halts _ _ _

/-! ## The reset handler -/

def RegisterError : Event RegisterSig → Prop
  | ⟨.read, r⟩ => r = none
  | ⟨.write _, done⟩ => done = false

def ResetCallFailed : Event ResetSig → Prop
  | ⟨.readRegister, r⟩ => r = none
  | ⟨.writeRegister _, done⟩ => done = false
  | ⟨.load, r⟩ => StoreError r
  | ⟨.replace _ _, r⟩ => StoreError r

abbrev HandlerFailed (reply : HandlerReply) : Prop := reply.1 ≠ .ok

theorem handlerClassify_halts (p : BootResetHandlerReport) (loaded : BootStoreSnapshot) :
    Halts ResetCallFailed Silent (handlerClassify p loaded) HandlerFailed := by
  unfold handlerClassify
  split
  · refine halts_ask_bind fun r => ?_
    cases r with
    | error e => exact stops_here rfl (by rintro ⟨⟩)
    | ok committed => exact goes_on not_storeError (halts_pure _)
  · exact halts_pure _
  · exact halts_pure _

theorem handlerLoad_halts (p : BootResetHandlerReport) :
    Halts ResetCallFailed Silent (handlerLoad p) HandlerFailed := by
  refine halts_ask_bind fun r => ?_
  cases r with
  | error e =>
      dsimp only
      split
      · exact stops_here rfl (by rintro ⟨⟩)
      · exact stops_here rfl (by rintro ⟨⟩)
  | ok loaded =>
      exact goes_on not_storeError (handlerClassify_halts _ _)

theorem resetHandlerCalls_halts :
    Halts ResetCallFailed Silent resetHandlerCalls HandlerFailed := by
  refine halts_ask_bind fun r => ?_
  cases r with
  | none => exact stops_here rfl (by rintro ⟨⟩)
  | some captured =>
  refine goes_on (by rintro ⟨⟩) ?_
  dsimp only
  split
  · refine halts_ask_bind fun r => ?_
    cases r with
    | none => exact stops_here rfl (by rintro ⟨⟩)
    | some fresh =>
        refine goes_on (by rintro ⟨⟩) (halts_ask_bind fun cleared => ?_)
        cases cleared with
        | false => exact stops_here rfl (by rintro ⟨⟩)
        | true => exact goes_on (by rintro ⟨⟩) (handlerLoad_halts _)
  · exact handlerLoad_halts _

theorem reset_halts :
    Halts (OnSum RegisterError StoreFailed) Silent bootResetHandlerRun HandlerFailed := by
  refine halts_inline (fun op => ?_) resetHandlerCalls_halts
  cases op with
  | readRegister => exact halts_left (halts_ask silent_nil _)
  | writeRegister flags => exact halts_left (halts_ask silent_nil _)
  | load => exact halts_right load_halts
  | replace expected desired => exact halts_right (replace_halts expected desired)

/-! ## The selection -/

/-- A verification that was cut off has failed, one that found its image invalid
has not. -/
def SelectCallFailed : Event SelectSig → Prop
  | ⟨.load, r⟩ => StoreError r
  | ⟨.replace _ _, r⟩ => StoreError r
  | ⟨.verify _ _, r⟩ => ∃ e, r = .error e ∧ invalidImageFailure e = false

theorem stored_halts (C : Crypto) (wire : List UInt8) (slot : UInt32) :
    Halts (fun e => ¬ Completes e) Silent (bootVerifyStored C wire slot) fun r =>
      ∃ e, r = .error e ∧ invalidImageFailure e = false := by
  refine halts_of_runs fun front e back r hr he => ?_
  rcases verifyStored_cases hr with hall | hcut
  · exact absurd (hall e (List.mem_append_right _ List.mem_cons_self)) he
  · obtain ⟨hback, rfl⟩ := hcut.stops rfl he
    refine ⟨hback, _, rfl, ?_⟩
    cases e.op <;> rfl

/-- The candidate's results behind which the selection ends. -/
def LaunchStopped (reply : LaunchReply) : Prop :=
  reply.1.status = .storeFailed ∨ reply.1.status = .reconcile ∨
    reply.1.status = .verifyFailed

theorem launchStoreFailed_stopped (result : BootLaunchResult) (e : BootStoreResult) :
    LaunchStopped (launchStoreFailed result e) := by
  unfold LaunchStopped launchStoreFailed
  dsimp only
  split
  · exact .inr (.inl rfl)
  · exact .inl rfl

theorem launchVerified_halts (result : BootLaunchResult) (current : BootStoreSnapshot)
    (image : BootVerifiedImage) :
    Halts SelectCallFailed Silent (launchVerified result current image) LaunchStopped := by
  unfold launchVerified
  split
  · refine halts_ask_bind fun r => ?_
    cases r with
    | error e => exact stops_here rfl (launchStoreFailed_stopped _ e)
    | ok snapshot => exact goes_on not_storeError (halts_pure _)
  · refine halts_ask_bind fun r => ?_
    cases r with
    | error e => exact stops_here rfl (launchStoreFailed_stopped _ e)
    | ok snapshot =>
        refine goes_on not_storeError ?_
        dsimp only
        split
        · exact halts_pure _
        · exact halts_pure _
  · exact halts_pure _

theorem launchCandidate_halts (expected : BootStoreSnapshot) (wire : List UInt8) :
    Halts SelectCallFailed Silent (bootLaunchCandidate expected wire) LaunchStopped := by
  unfold bootLaunchCandidate
  dsimp only
  split
  · exact halts_pure _
  refine halts_ask_bind fun r => ?_
  cases r with
  | error e => exact stops_here rfl (launchStoreFailed_stopped _ e)
  | ok current =>
  refine goes_on not_storeError ?_
  dsimp only
  split
  · exact halts_pure _
  split
  · exact halts_pure _
  split
  · exact halts_pure _
  refine halts_ask_bind fun v => ?_
  cases v with
  | error e =>
      refine ⟨?_, halts_pure _⟩
      rintro ⟨e', he, hinvalid⟩
      injection he with he
      subst he
      refine tail_pure rfl (.inr (.inr ?_))
      dsimp only
      rw [hinvalid]
      rfl
  | ok image =>
      exact goes_on (by rintro ⟨e, ⟨⟩, -⟩) (launchVerified_halts _ _ _)

abbrev SelectFailed (reply : SelectReply) : Prop := reply.1.status ≠ .ok

theorem selectStoreFailed_failed (result : BootSelectResult) (e : BootStoreResult) :
    SelectFailed (selectStoreFailed result e) := by
  unfold SelectFailed selectStoreFailed storeStatus
  dsimp only
  split
  · decide
  split
  · decide
  · decide

theorem selectPrevious_halts (images : BootSelectImages) (current : BootStoreSnapshot)
    (failure : BootVerifyResult) (result : BootSelectResult) :
    Halts SelectCallFailed Silent (selectPrevious images current failure result)
      SelectFailed := by
  unfold selectPrevious
  dsimp only
  split
  · exact halts_pure _
  refine halts_ask_bind fun v => ?_
  cases v with
  | error e =>
      dsimp only
      split
      · exact stops_here rfl (by rintro ⟨⟩)
      · exact stops_here rfl (by rintro ⟨⟩)
  | ok image =>
  refine goes_on (by rintro ⟨e, ⟨⟩, -⟩) ?_
  dsimp only
  split
  · exact halts_pure _
  split
  · refine halts_ask_bind fun r => ?_
    cases r with
    | error e => exact stops_here rfl (selectStoreFailed_failed _ e)
    | ok snapshot => exact goes_on not_storeError (halts_pure _)
  · exact halts_pure _

theorem selectCurrent_halts (images : BootSelectImages) (current : BootStoreSnapshot)
    (result : BootSelectResult) :
    Halts SelectCallFailed Silent (selectCurrent images current result) SelectFailed := by
  unfold selectCurrent
  dsimp only
  split
  · exact halts_pure _
  refine halts_ask_bind fun v => ?_
  cases v with
  | error e =>
      dsimp only
      split
      · exact stops_here rfl (by rintro ⟨⟩)
      · next hinvalid =>
          refine goes_on ?_ (selectPrevious_halts _ _ _ _)
          rintro ⟨e', he, hoperational⟩
          injection he with he
          subst he
          rw [hoperational] at hinvalid
          exact hinvalid rfl
  | ok image =>
  refine goes_on (by rintro ⟨e, ⟨⟩, -⟩) ?_
  dsimp only
  split
  · exact halts_pure _
  refine halts_ask_bind fun r => ?_
  cases r with
  | error e => exact stops_here rfl (selectStoreFailed_failed _ e)
  | ok snapshot =>
      refine goes_on not_storeError ?_
      dsimp only
      split
      · exact halts_pure _
      · exact halts_pure _

theorem selectCalls_halts (expected : BootStoreSnapshot) (images : BootSelectImages) :
    Halts SelectCallFailed Silent (bootSelectCalls expected images) SelectFailed := by
  unfold bootSelectCalls
  dsimp only
  split
  · exact halts_pure _
  refine halts_ask_bind fun r => ?_
  cases r with
  | error e => exact stops_here rfl (selectStoreFailed_failed _ e)
  | ok current =>
  refine goes_on not_storeError ?_
  dsimp only
  split
  · exact halts_pure _
  split
  · refine halts_bind (launchCandidate_halts current _) ?_ ?_
    · rintro ⟨candidate, written⟩ (hs | hs | hs)
      · dsimp only at hs ⊢
        rw [hs]
        exact tail_pure rfl (selectStoreFailed_failed _ _)
      · dsimp only at hs ⊢
        rw [hs]
        exact tail_pure rfl (selectStoreFailed_failed _ _)
      · dsimp only at hs ⊢
        rw [hs]
        exact tail_pure rfl (by rintro ⟨⟩)
    · rintro ⟨candidate, written⟩
      dsimp only
      split
      · exact halts_pure _
      · exact halts_pure _
      · exact halts_pure _
      · exact selectCurrent_halts _ _ _
      · exact halts_pure _
      · exact halts_pure _
  · exact selectCurrent_halts _ _ _

theorem select_halts (C : Crypto) (expected : BootStoreSnapshot)
    (images : BootSelectImages) :
    Halts (OnSum StoreFailed fun e => ¬ Completes e) Silent
      (bootSelect C expected images) SelectFailed := by
  refine halts_inline (fun op => ?_) (selectCalls_halts expected images)
  cases op with
  | load => exact halts_left load_halts
  | replace expected desired => exact halts_left (replace_halts expected desired)
  | verify wire slot => exact halts_right (stored_halts C wire slot)

/-! ## The runtime -/

abbrev RuntimeFailed : Event RuntimeSig → Prop :=
  OnSum RegisterError (OnSum StoreFailed fun e => ¬ Completes e)

theorem resetFailed_ne_ok (report : BootResetHandlerReport) :
    resetFailed report ≠ .ok := by
  unfold resetFailed
  split
  · decide
  · decide

theorem runtimeStages_halts (C : Crypto) (images : BootSelectImages) :
    Halts RuntimeFailed Silent (runtimeStages C images) fun x => x.1.status ≠ .ok := by
  have hreset : Halts RuntimeFailed Silent (bootResetHandlerRun.inline runtimeReset)
      HandlerFailed := by
    refine halts_inline (fun op => ?_) reset_halts
    cases op with
    | inl op => exact halts_ask (F := RuntimeFailed) silent_nil (.inl op)
    | inr op => exact halts_ask (F := RuntimeFailed) silent_nil (.inr (.inl op))
  refine halts_bind hreset ?_ ?_
  · rintro ⟨resetStatus, reset⟩ hfailed
    dsimp only at hfailed ⊢
    split
    · exact absurd rfl hfailed
    · exact tail_pure silent_nil (resetFailed_ne_ok _)
  · rintro ⟨resetStatus, reset⟩
    dsimp only
    split
    · next snapshot _ =>
        refine halts_bind (halts_right (select_halts C snapshot images)) ?_ ?_
        · rintro ⟨selection, decision⟩ hfailed
          dsimp only at hfailed ⊢
          rw [if_pos hfailed]
          refine tail_pure silent_nil ?_
          dsimp only
          split
          · decide
          · decide
        · rintro ⟨selection, decision⟩
          dsimp only
          split
          · exact halts_pure _
          · exact halts_pure _
    · exact halts_pure _

theorem runtime_halts (C : Crypto) (arguments : Bool) (runtime : BootRuntime)
    (images : BootSelectImages) :
    Halts RuntimeFailed Silent (bootRuntimeRun C arguments runtime images)
      fun reply => reply.result.status ≠ .ok := by
  unfold bootRuntimeRun
  split
  · exact halts_pure _
  split
  · exact halts_pure _
  split
  · exact halts_pure _
  · exact halts_bind (runtimeStages_halts C images)
      (fun _ hfailed => tail_pure silent_nil hfailed) fun _ => halts_pure _

/-! ## The watchdog -/

def WatchdogFailed : Event WatchdogSig → Prop
  | ⟨.readRegister _, r⟩ => r = none
  | ⟨.writeRegister _ _, done⟩ => done = false

/-- Closing the lock and reading it back, as far as it gets. -/
def Relock (tr : List (Event WatchdogSig)) : Prop :=
  tr.map (·.op) <+:
    [.writeRegister bootWatchdogLock 0, .readRegister bootWatchdogLock]

theorem relock_nil : Relock [] := List.nil_prefix

abbrev NotOk (r : BootWatchdogResult) : Prop := r ≠ .ok

theorem expect_halts (address : UInt32) (good : UInt32 → Bool) :
    Halts WatchdogFailed Silent (expect address good) NotOk := by
  refine halts_ask_bind fun r => ?_
  cases r with
  | none => exact stops_here silent_nil (by decide)
  | some value => exact goes_on (by rintro ⟨⟩) (halts_pure _)

theorem writeExpect_halts (address value readBack : UInt32) (good : UInt32 → Bool) :
    Halts WatchdogFailed Silent (writeExpect address value readBack good) NotOk := by
  refine halts_ask_bind fun done => ?_
  cases done with
  | false => exact stops_here silent_nil (by decide)
  | true => exact goes_on (by rintro ⟨⟩) (expect_halts readBack good)

theorem andThen_halts {p q : Prog WatchdogSig BootWatchdogResult}
    (hp : Halts WatchdogFailed Silent p NotOk)
    (hq : Halts WatchdogFailed Silent q NotOk) :
    Halts WatchdogFailed Silent (andThen p q) NotOk := by
  refine halts_bind hp (fun result hfailed => ?_) fun result => ?_
  · rw [if_pos hfailed]
    exact tail_pure silent_nil hfailed
  · split
    · exact halts_pure _
    · exact hq

theorem checkProtection_halts (reload : UInt32) :
    Halts WatchdogFailed Silent (checkProtection reload) NotOk :=
  andThen_halts (expect_halts _ _) (andThen_halts (expect_halts _ _) (expect_halts _ _))

theorem feedUnlocked_halts : Halts WatchdogFailed Silent feedUnlocked NotOk :=
  andThen_halts (writeExpect_halts _ _ _ _)
    (andThen_halts (writeExpect_halts _ _ _ _) (writeExpect_halts _ _ _ _))

theorem relock_lock : Tail Relock (lock 0 1) fun _ => True := by
  intro tr r hr
  refine ⟨?_, trivial⟩
  obtain ⟨done, rest, rfl, hrest⟩ := runs_ask_iff.mp hr
  cases done with
  | false =>
      obtain ⟨rfl, -⟩ := runs_pure_iff.mp hrest
      exact ⟨[.readRegister bootWatchdogLock], rfl⟩
  | true =>
      obtain ⟨value, last, rfl, hlast⟩ := runs_ask_iff.mp hrest
      cases value with
      | none =>
          obtain ⟨rfl, -⟩ := runs_pure_iff.mp hlast
          exact ⟨[], rfl⟩
      | some value =>
          obtain ⟨rfl, -⟩ := runs_pure_iff.mp hlast
          exact ⟨[], rfl⟩

theorem faultHeld_relocks (w : BootWatchdog) {result : BootWatchdogResult}
    (h : result ≠ .ok) : Tail Relock (faultHeld w result) fun x => x.1 ≠ .ok := by
  intro tr x hr
  obtain ⟨tr₁, r, tr₂, rfl, h₁, h₂⟩ := runs_bind_iff'.mp hr
  obtain ⟨rfl, rfl⟩ := runs_pure_iff.mp h₂
  rw [List.append_nil]
  exact ⟨(relock_lock tr₁ r h₁).1, h⟩

theorem service_halts (w : BootWatchdog) (owner : BootWatchdogOwner) (epoch : UInt32) :
    Halts WatchdogFailed Relock (bootWatchdogServiceHeld w owner epoch)
      fun x => x.1 ≠ .ok := by
  unfold bootWatchdogServiceHeld
  dsimp only
  split
  · exact halts_pure _
  split
  · exact halts_pure _
  split
  · exact halts_pure _
  refine halts_bind (checkProtection_halts _) (fun result hfailed => ?_) fun result => ?_
  · rw [if_pos hfailed]
    exact tail_pure relock_nil hfailed
  split
  · exact halts_pure _
  refine halts_bind feedUnlocked_halts (fun result hfailed => ?_) fun result => ?_
  · rw [if_pos hfailed]
    exact faultHeld_relocks _ hfailed
  split
  · next hfailed =>
      refine halts_bind (writeExpect_halts _ _ _ _) (fun r _ => ?_) fun r => halts_pure _
      exact tail_pure relock_nil hfailed
  · exact halts_pure _

/-- The progress callback answers no. -/
abbrev Refuses (x : (Bool × BootProgressRecord) × BootWatchdog) : Prop :=
  x.1.1 = false

theorem progressReport_halts (w : BootWatchdog) (r : BootProgressRecord) :
    Halts WatchdogFailed Relock (progressReport w r) Refuses := by
  unfold progressReport
  dsimp only
  split
  · exact halts_pure _
  split
  · exact halts_pure _
  refine halts_then (service_halts _ _ _) (fun x hfailed => ?_) fun x => halts_pure _
  exact tail_pure silent_nil (beq_eq_false_iff_ne.mpr hfailed)

theorem progress_halts (w : BootWatchdog) (phase : BootVerifyPhase)
    (completed total : UInt32) :
    Halts WatchdogFailed Relock (progress w phase completed total) Refuses := by
  unfold progress
  dsimp only
  split
  · split
    · exact halts_pure _
    · exact progressReport_halts _ _
  · exact progressReport_halts _ _

/-! ## The handoff -/

abbrev HandoffFailed (e : Event HandoffSig) : Prop := e.ans = false

theorem handoffOperations_halts (vtor : UInt32) (ops : List BootHandoffOperation) :
    Halts HandoffFailed Silent (handoffOperations vtor ops) (· = false) := by
  induction ops with
  | nil => exact halts_pure _
  | cons op rest ih =>
      refine halts_ask_bind fun done => ?_
      cases done with
      | false => exact stops_here silent_nil rfl
      | true => exact goes_on (by rintro ⟨⟩) ih

theorem handoffAdmitted_halts (held : Bool) (h : BootHandoff) (w : BootWatchdog)
    (epoch : UInt32) (intent : BootHandoffIntent) :
    Halts HandoffFailed Silent (handoffAdmitted held h w epoch intent)
      fun reply => reply.result ≠ .ok := by
  refine halts_bind (handoffOperations_halts _ _) ?_ fun done => ?_
  · rintro _ rfl
    exact tail_pure silent_nil (by rintro ⟨⟩)
  split
  · exact halts_pure _
  rcases handoffTransfer held w epoch with ⟨result, w'⟩
  dsimp only
  split
  · exact halts_pure _
  refine halts_ask_bind fun done => ?_
  cases done with
  | false => exact stops_here silent_nil (by rintro ⟨⟩)
  | true => exact goes_on (by rintro ⟨⟩) (halts_pure _)

theorem handoff_halts (h : BootHandoff) (w : BootWatchdog) (request : BootHandoffRequest) :
    Halts HandoffFailed Silent (bootHandoffRunHeld h w request)
      fun reply => reply.result ≠ .ok := by
  unfold bootHandoffRunHeld handoffRun
  split
  · exact halts_pure _
  split
  · exact halts_pure _
  split
  · exact halts_pure _
  split
  · exact halts_pure _
  split
  · exact halts_pure _
  · exact handoffAdmitted_halts _ _ _ _ _

end EkBareMetal.Boot

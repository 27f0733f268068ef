import EkBareMetal.Proofs.Halting
import EkBareMetal.Proofs.Selection
import EkBareMetal.Proofs.Progress
import EkBareMetal.Proofs.Watchdog

/-!
# The protected launch is all or quarantine

`run` of `boot_runtime_watchdog.c` as a whole. The weight is in two places: a
failed callback anywhere below stops everything above (`Proofs/Halting`, lifted
here through the progress callback), and the image that the handoff is about is
the one whose verification stands in the transcript. For the second the served
transcript is cut where the verifier's own is (`ServedBy`). The tests in front
of the transaction are one predicate, `LaunchReady`, and a launch is told by it.
-/

namespace EkBareMetal.Boot

open Words Interact

/-! ## The callbacks of a launch -/

def LaunchFailed : Event LaunchSig → Prop
  | ⟨.register op, r⟩ => RegisterError ⟨op, r⟩
  | ⟨.store op, r⟩ => StoreFailed ⟨op, r⟩
  | ⟨.read _ _, r⟩ => r = none
  | ⟨.library, available⟩ => available = false
  | ⟨.watchdog op, r⟩ => WatchdogFailed ⟨op, r⟩
  | ⟨.handoff _, done⟩ => done = false

/-- The relock accesses of the watchdog, as far as they get. -/
def LaunchRelock (tr : List (Event LaunchSig)) : Prop :=
  tr.map (·.op) <+: [.watchdog (.writeRegister bootWatchdogLock 0),
    .watchdog (.readRegister bootWatchdogLock)]

theorem launchRelock_nil : LaunchRelock [] := List.nil_prefix

def watchdogEvent (e : Event WatchdogSig) : Event LaunchSig := ⟨.watchdog e.op, e.ans⟩

def handoffEvent (e : Event HandoffSig) : Event LaunchSig := ⟨.handoff e.op, e.ans⟩

theorem embeds_watchdog : Embeds askWatchdog watchdogEvent := by
  intro op tr r hr
  obtain ⟨r', rest, rfl, h⟩ := runs_call_iff.mp hr
  obtain ⟨rfl, rfl⟩ := runs_ret_iff.mp h
  rfl

theorem embeds_handoff : Embeds askHandoff handoffEvent := by
  intro op tr r hr
  obtain ⟨r', rest, rfl, h⟩ := runs_call_iff.mp hr
  obtain ⟨rfl, rfl⟩ := runs_ret_iff.mp h
  rfl

theorem relock_launch {tr : List (Event WatchdogSig)} (h : Relock tr) :
    LaunchRelock (tr.map watchdogEvent) := by
  have := h.map LaunchOp.watchdog
  rw [LaunchRelock, List.map_map]
  rwa [List.map_map] at this

/-! ## After a failed callback -/

/-- A callback that is passed on as it is. -/
theorem passed_halts (op : LaunchOp) (G : LaunchSig.Ans op → Prop)
    (hF : ∀ r, LaunchFailed ⟨op, r⟩ → G r) (s : ProgressState) :
    Halts LaunchFailed LaunchRelock (do
      let r ← Prog.ask (S := LaunchSig) op
      pure (r, s)) fun x => G x.1 := by
  refine halts_ask_bind fun r => ⟨fun he => ?_, halts_pure _⟩
  exact tail_pure launchRelock_nil (hF r he)

theorem serveRuntime_halts (op : RuntimeSig.Op) (s : ProgressState) :
    Halts LaunchFailed LaunchRelock (serveRuntime op s)
      fun x => RuntimeFailed ⟨op, x.1⟩ := by
  match op with
  | .inl op => exact passed_halts (.register op) _ (fun _ h => h) s
  | .inr (.inl op) => exact passed_halts (.store op) _ (fun _ h => h) s
  | .inr (.inr (.read address requested)) =>
      exact passed_halts (.read address requested)
        (fun r => RuntimeFailed ⟨.inr (.inr (.read address requested)), r⟩)
        (fun r h hc => hc h) s
  | .inr (.inr .library) =>
      exact passed_halts .library
        (fun r => RuntimeFailed ⟨.inr (.inr .library), r⟩)
        (fun r h hc => Bool.false_ne_true (h.symm.trans hc)) s
  | .inr (.inr (.progress phase completed total)) =>
      refine halts_then (halts_embed embeds_watchdog (fun _ h => h)
        (fun _ => relock_launch) (progress_halts s.1 phase completed total))
        (fun x hrefused => ?_) fun x => halts_pure _
      exact tail_pure silent_nil fun hc : x.1.1 = true =>
        Bool.false_ne_true (hrefused.symm.trans hc)

/-- The call did not succeed. -/
abbrev LaunchEnded (reply : ProtectedReply) : Prop := reply.result.status ≠ .ok

theorem launchSelected_halts (observation : BootHandoffContext)
    (result : BootRuntimeWatchdogResult) (s : LaunchObjects)
    (decision : BootLaunchDecision) :
    Halts LaunchFailed LaunchRelock (launchSelected observation result s decision)
      LaunchEnded := by
  refine halts_bind (halts_embed embeds_handoff (fun _ h => h)
    (fun tr (htr : Silent tr) => by rw [htr]; rfl) (handoff_halts _ _ _)) ?_ ?_
  · intro reply hfailed
    dsimp only
    split
    · next h _ => exact absurd h hfailed
    · exact tail_pure launchRelock_nil (by rintro ⟨⟩)
  · intro reply
    dsimp only
    split
    · exact halts_pure _
    · exact halts_pure _

theorem launchAdmitted_halts (C : Crypto) (launch : Bool) (a : LaunchArguments)
    (result : BootRuntimeWatchdogResult) (s : LaunchObjects) :
    Halts LaunchFailed LaunchRelock (launchAdmitted C launch a result s)
      LaunchEnded := by
  refine halts_then (halts_interp serveRuntime_halts (runtime_halts _ _ _ _) _) ?_ ?_
  · rintro ⟨reply, w, record⟩ hfailed
    dsimp only at hfailed ⊢
    split
    · next h _ => exact absurd h hfailed
    · exact tail_pure silent_nil (by rintro ⟨⟩)
  · rintro ⟨reply, w, record⟩
    dsimp only
    split
    · split
      · exact launchSelected_halts _ _ _ _
      · exact halts_pure _
    · exact halts_pure _

theorem watchdogHeld_halts (C : Crypto) (launch : Bool) (a : LaunchArguments)
    (s : LaunchObjects) :
    Halts LaunchFailed LaunchRelock (launchWatchdogHeld C launch a s) LaunchEnded := by
  unfold launchWatchdogHeld
  dsimp only
  split
  · exact halts_pure _
  split
  · exact launchAdmitted_halts _ _ _ _ _
  split
  · exact halts_pure _
  split
  · exact halts_pure _
  · exact halts_then (launchAdmitted_halts _ _ _ _ _)
      (fun _ hended => tail_pure silent_nil hended) fun _ => halts_pure _

theorem bridgeHeld_halts (C : Crypto) (launch : Bool) (a : LaunchArguments)
    (s : LaunchObjects) :
    Halts LaunchFailed LaunchRelock (launchBridgeHeld C launch a s) LaunchEnded := by
  unfold launchBridgeHeld
  split
  · exact halts_pure _
  split
  · exact halts_pure _
  split
  · exact halts_pure _
  · exact halts_then (watchdogHeld_halts _ _ _ _)
      (fun _ hended => tail_pure silent_nil hended) fun _ => halts_pure _

/-- Both entries stop at the first callback that fails. -/
theorem protectedRun_halts (C : Crypto) (launch : Bool) (a : LaunchArguments)
    (s : LaunchObjects) :
    Halts LaunchFailed LaunchRelock (protectedRun C launch a s) LaunchEnded := by
  unfold protectedRun
  split
  · exact halts_pure _
  split
  · exact halts_pure _
  · exact halts_then (bridgeHeld_halts _ _ _ _)
      (fun _ hended => tail_pure silent_nil hended) fun _ => halts_pure _

/-! ## Admission -/

/-- What the tests in front of the transaction let through. -/
structure LaunchReady (a : LaunchArguments) (s : LaunchObjects) : Prop where
  present : a.bridge.isNull = false
  bridgeFree : s.bridge.entered = false
  fresh : s.bridge.consumed = false
  sound : a.sound true = true
  watchdogFree : s.watchdog.entered = false
  watchdogReady : a.watchdogPreflight s.watchdog = .ok
  handoffFree : s.handoff.entered = false
  handoffReady : a.handoffPreflight s.handoff = .ok

/-- The statuses of a call that was not admitted. -/
def BootRuntimeWatchdogStatus.Rejects (status : BootRuntimeWatchdogStatus) : Prop :=
  status = .argument ∨ status = .busy ∨ status = .consumed ∨ status = .rejected

/-- The objects with the guards of a launch taken, and with them left. -/
def LaunchObjects.guarded (entered : Bool) (s : LaunchObjects) : LaunchObjects where
  bridge := { s.bridge with entered := entered }
  watchdog := { s.watchdog with entered := entered }
  handoff := { s.handoff with entered := entered }

/-- A call that is turned away has called nothing, and changed nothing. -/
structure LaunchRefused (s : LaunchObjects) (tr : List (Event LaunchSig))
    (reply : ProtectedReply) : Prop where
  silent : tr = []
  status : reply.result.status.Rejects
  objects : reply.objects = s
  out : reply.out = none

section Admission

variable {C : Crypto} {a : LaunchArguments} {s : LaunchObjects}
  {tr : List (Event LaunchSig)} {reply : ProtectedReply}

/-- A guard that was taken and left is as it was. -/
theorem released_bridge (h : s.bridge.entered = false) :
    { s with bridge := { s.bridge with entered := false } } = s := by
  rw [← h]

theorem released_watchdog (h : s.watchdog.entered = false) :
    { s with watchdog := { s.watchdog with entered := false } } = s := by
  rw [← h]

theorem launchRefused_pure {result : BootRuntimeWatchdogResult}
    (h : Runs (pure ⟨result, none, s⟩) tr reply) (hr : result.status.Rejects) :
    LaunchRefused s tr reply := by
  obtain ⟨rfl, rfl⟩ := runs_pure_iff.mp h
  exact ⟨rfl, hr, rfl, rfl⟩

theorem watchdogHeld_runs (h : Runs (launchWatchdogHeld C true a s) tr reply) :
    (¬ (a.watchdogPreflight s.watchdog = .ok ∧ s.handoff.entered = false ∧
        a.handoffPreflight s.handoff = .ok) ∧ LaunchRefused s tr reply) ∨
    (a.watchdogPreflight s.watchdog = .ok ∧ s.handoff.entered = false ∧
      a.handoffPreflight s.handoff = .ok ∧ ∃ result inner,
        Runs (launchAdmitted C true a result
          { s with handoff := { s.handoff with entered := true } }) tr inner ∧
        reply = { inner with objects := { inner.objects with
          handoff := { inner.objects.handoff with entered := false } } }) := by
  have hrejected : BootRuntimeWatchdogStatus.rejected.Rejects := .inr (.inr (.inr rfl))
  rw [launchWatchdogHeld] at h
  dsimp only at h
  split at h
  · next hne => exact .inl ⟨fun hall => hne hall.1, launchRefused_pure h hrejected⟩
  next hready =>
  rw [if_neg (by decide)] at h
  split at h
  · next hbusy =>
      refine .inl ⟨fun hall => ?_, launchRefused_pure h hrejected⟩
      exact Bool.false_ne_true (hall.2.1.symm.trans hbusy)
  next hfree =>
  split at h
  · next hne => exact .inl ⟨fun hall => hne hall.2.2, launchRefused_pure h hrejected⟩
  next hhandoff =>
  obtain ⟨tr₁, inner, tr₂, rfl, h₁, h₂⟩ := runs_bind_iff'.mp h
  obtain ⟨rfl, rfl⟩ := runs_pure_iff.mp h₂
  rw [List.append_nil]
  exact .inr ⟨not_not.mp hready, Bool.eq_false_iff.mpr hfree, not_not.mp hhandoff, _,
    inner, h₁, rfl⟩

theorem bridgeHeld_runs (h : Runs (launchBridgeHeld C true a s) tr reply) :
    (¬ (s.bridge.consumed = false ∧ a.sound true = true ∧
        s.watchdog.entered = false) ∧ LaunchRefused s tr reply) ∨
    (s.bridge.consumed = false ∧ a.sound true = true ∧ s.watchdog.entered = false ∧
      ∃ inner, Runs (launchWatchdogHeld C true a
          { s with watchdog := { s.watchdog with entered := true } }) tr inner ∧
        reply = { inner with objects := { inner.objects with
          watchdog := { inner.objects.watchdog with entered := false } } }) := by
  rw [launchBridgeHeld] at h
  split at h
  · next hconsumed =>
      refine .inl ⟨fun hall => ?_, launchRefused_pure h (.inr (.inr (.inl rfl)))⟩
      exact Bool.false_ne_true (hall.1.symm.trans hconsumed)
  next hfresh =>
  split at h
  · next hunsound =>
      refine .inl ⟨fun hall => ?_, launchRefused_pure h (.inl rfl)⟩
      rw [hall.2.1] at hunsound
      cases hunsound
  next hsound =>
  split at h
  · next hbusy =>
      refine .inl ⟨fun hall => ?_, launchRefused_pure h (.inr (.inr (.inr rfl)))⟩
      exact Bool.false_ne_true (hall.2.2.symm.trans hbusy)
  next hfree =>
  obtain ⟨tr₁, inner, tr₂, rfl, h₁, h₂⟩ := runs_bind_iff'.mp h
  obtain ⟨rfl, rfl⟩ := runs_pure_iff.mp h₂
  rw [List.append_nil]
  exact .inr ⟨Bool.eq_false_iff.mpr hfresh, by simpa using hsound,
    Bool.eq_false_iff.mpr hfree, inner, h₁, rfl⟩

/-- A launch is refused or made under all three guards, according to the tests in
front of the transaction. -/
theorem protectedLaunch_runs (h : Runs (bootRuntimeWatchdogLaunch C a s) tr reply) :
    (¬ LaunchReady a s ∧ LaunchRefused s tr reply) ∨
    (LaunchReady a s ∧ ∃ result inner,
      Runs (launchAdmitted C true a result (s.guarded true)) tr inner ∧
      reply = { inner with objects := inner.objects.guarded false }) := by
  rw [bootRuntimeWatchdogLaunch, protectedRun] at h
  split at h
  · next hnull =>
      refine .inl ⟨fun hall => ?_, launchRefused_pure h (.inl rfl)⟩
      exact Bool.false_ne_true (hall.present.symm.trans hnull)
  next hpresent =>
  split at h
  · next hbusy =>
      refine .inl ⟨fun hall => ?_, launchRefused_pure h (.inr (.inl rfl))⟩
      exact Bool.false_ne_true (hall.bridgeFree.symm.trans hbusy)
  next hbridge =>
  obtain ⟨tr₁, held, tr₂, rfl, h₁, h₂⟩ := runs_bind_iff'.mp h
  obtain ⟨rfl, rfl⟩ := runs_pure_iff.mp h₂
  rw [List.append_nil]
  have hbridge := Bool.eq_false_iff.mpr hbridge
  rcases bridgeHeld_runs h₁ with
    ⟨hnot, haway⟩ | ⟨hfresh, hsound, hwatchdog, held', hw, rfl⟩
  · refine .inl ⟨fun hall => hnot ⟨hall.fresh, hall.sound, hall.watchdogFree⟩,
      haway.silent, haway.status, ?_, haway.out⟩
    rw [haway.objects]
    exact released_bridge hbridge
  have hwatchdog : s.watchdog.entered = false := hwatchdog
  rcases watchdogHeld_runs hw with
    ⟨hnot, haway⟩ | ⟨hready, hfree, hhandoff, result, inner, hi, rfl⟩
  · refine .inl ⟨fun hall => hnot ⟨hall.watchdogReady, hall.handoffFree,
      hall.handoffReady⟩, haway.silent, haway.status, ?_, haway.out⟩
    dsimp only
    rw [haway.objects]
    refine Eq.trans ?_ (released_bridge hbridge)
    rw [LaunchObjects.mk.injEq]
    exact ⟨rfl, congrArg (·.watchdog) (released_watchdog hwatchdog), rfl⟩
  · exact .inr ⟨⟨Bool.eq_false_iff.mpr hpresent, hbridge, hfresh, hsound, hwatchdog,
      hready, hfree, hhandoff⟩, result, inner, hi, rfl⟩

end Admission

/-! ## A handoff that succeeds -/

/-- The requests of a whole handoff, in their order. -/
def handoffCalls (intent : BootHandoffIntent) : List HandoffOp :=
  handoffOrder.map (fun op => .operation op (if op = .setVtor then intent.vtor else 0)) ++
    [.terminalIntent intent]

section Handoff

variable {h : BootHandoff} {w : BootWatchdog} {request : BootHandoffRequest}
  {tr : List (Event HandoffSig)} {reply : HandoffReply}

theorem handoffOperations_runs {vtor : UInt32} {ops : List BootHandoffOperation}
    (hr : Runs (handoffOperations vtor ops) tr true) :
    tr.map (·.op) =
      ops.map fun op => .operation op (if op = .setVtor then vtor else 0) := by
  induction ops generalizing tr with
  | nil =>
      obtain ⟨rfl, -⟩ := runs_pure_iff.mp hr
      rfl
  | cons op rest ih =>
      obtain ⟨done, tail, rfl, hrest⟩ := runs_ask_iff.mp hr
      cases done with
      | false =>
          obtain ⟨-, hfalse⟩ := runs_pure_iff.mp hrest
          cases hfalse
      | true => rw [List.map_cons, List.map_cons, ih hrest]

theorem handoffAdmission_ne_ok : bootHandoffAdmit request ≠ .error .ok := by
  rw [bootHandoffAdmit]
  split
  · rintro ⟨⟩
  · dsimp only
    split
    · rintro ⟨⟩
    · rintro ⟨⟩

/-- The intent is the image's, at the epoch after the request's. -/
theorem handoffAdmission_intent {intent : BootHandoffIntent}
    (ha : bootHandoffAdmit request = .ok intent) :
    intent.vtor = request.image.manifest.executionBase ∧
      intent.msp = request.image.initialMsp ∧
      intent.resetVector = request.image.resetVector ∧
      intent.applicationEpoch = request.watchdogEpoch + 1 := by
  rw [bootHandoffAdmit] at ha
  split at ha
  · cases ha
  dsimp only at ha
  split at ha
  · cases ha
  · next hgood =>
      simp only [not_or, not_not] at hgood
      cases ha
      exact ⟨hgood.2.1.symm, rfl, rfl, rfl⟩

/-- What a handoff that returned OK has done to its objects. -/
structure HandedOver (h : BootHandoff) (w : BootWatchdog) (request : BootHandoffRequest)
    (tr : List (Event HandoffSig)) (reply : HandoffReply) (intent : BootHandoffIntent) :
    Prop where
  admission : bootHandoffAdmit request = .ok intent
  out : reply.out = some intent
  calls : tr.map (·.op) = handoffCalls intent
  finished : reply.handoff = { h with finished := true }
  epoch : w.epoch = request.watchdogEpoch
  watchdog : reply.watchdog =
    { w with owner := .application, evidence := 0, epoch := w.epoch + 1 }

theorem transferHeld_ok {epoch : UInt32} {w' : BootWatchdog}
    (ht : handoffTransfer true w epoch = (.ok, w')) :
    w.epoch = epoch ∧
      w' = { w with owner := .application, evidence := 0, epoch := w.epoch + 1 } := by
  have hwas : bootWatchdogTransferHeld w epoch = (.ok, w') := ht
  cases transfer_outcome hwas with
  | refuses hr => exact absurd rfl hr
  | quarantines hr => exact absurd rfl hr
  | transfers hready hmax => exact ⟨(ready_ok hready).2.2.2.symm, rfl⟩

theorem handoffAdmitted_ok {epoch : UInt32} {intent : BootHandoffIntent}
    (hr : Runs (handoffAdmitted true h w epoch intent) tr reply)
    (hok : reply.result = .ok) :
    reply.out = some intent ∧ tr.map (·.op) = handoffCalls intent ∧
      reply.handoff = { h with finished := true } ∧ w.epoch = epoch ∧
      reply.watchdog =
        { w with owner := .application, evidence := 0, epoch := w.epoch + 1 } := by
  obtain ⟨tr₁, done, tr₂, rfl, h₁, h₂⟩ := runs_bind_iff'.mp hr
  cases done with
  | false =>
      obtain ⟨-, rfl⟩ := runs_pure_iff.mp h₂
      cases hok
  | true =>
  have hops := handoffOperations_runs h₁
  rw [if_neg (by decide)] at h₂
  cases ht : handoffTransfer true w epoch with
  | mk result w' =>
  rw [ht] at h₂
  dsimp only at h₂
  split at h₂
  · obtain ⟨-, rfl⟩ := runs_pure_iff.mp h₂
    cases hok
  next hresult =>
  rw [not_not.mp hresult] at ht
  obtain ⟨hepoch, rfl⟩ := transferHeld_ok ht
  obtain ⟨recorded, last, rfl, h₃⟩ := runs_ask_iff.mp h₂
  cases recorded with
  | false =>
      obtain ⟨-, rfl⟩ := runs_pure_iff.mp h₃
      cases hok
  | true =>
      obtain ⟨rfl, rfl⟩ := runs_pure_iff.mp h₃
      refine ⟨rfl, ?_, rfl, hepoch, rfl⟩
      rw [List.map_append, hops]
      rfl

theorem handoff_ok (hr : Runs (bootHandoffRunHeld h w request) tr reply)
    (hok : reply.result = .ok) : ∃ intent, HandedOver h w request tr reply intent := by
  rw [bootHandoffRunHeld, handoffRun] at hr
  split at hr
  · obtain ⟨-, rfl⟩ := runs_pure_iff.mp hr
    cases hok
  split at hr
  · obtain ⟨-, rfl⟩ := runs_pure_iff.mp hr
    cases hok
  cases hadmission : bootHandoffAdmit request with
  | error e =>
      rw [hadmission] at hr
      obtain ⟨-, rfl⟩ := runs_pure_iff.mp hr
      rw [show e = .ok from hok] at hadmission
      exact absurd hadmission handoffAdmission_ne_ok
  | ok intent =>
  rw [hadmission] at hr
  dsimp only at hr
  split at hr
  · obtain ⟨-, rfl⟩ := runs_pure_iff.mp hr
    cases hok
  split at hr
  · obtain ⟨-, rfl⟩ := runs_pure_iff.mp hr
    cases hok
  obtain ⟨hout, hcalls, hfinished, hepoch, hwatchdog⟩ := handoffAdmitted_ok hr hok
  exact ⟨intent, hadmission, hout, hcalls, hfinished, hepoch, hwatchdog⟩

end Handoff

/-! ## What was selected -/

/-- The bytes the reader has returned. -/
def launchBytes : List (Event LaunchSig) → List UInt8
  | [] => []
  | ⟨.read _ _, some bytes⟩ :: tr => bytes.val ++ launchBytes tr
  | _ :: tr => launchBytes tr

/-- The handoff requests of a launch. -/
def handoffCall (e : Event LaunchSig) : Option HandoffOp :=
  match e.op with
  | .handoff op => some op
  | _ => none

/-- A part of the launch has read a payload that the image is the whole of. -/
def AuthenticatedIn (C : Crypto) (images : BootSelectImages) (tr : List (Event LaunchSig))
    (image : BootVerifiedImage) : Prop :=
  ∃ front part back, tr = front ++ part ++ back ∧
    Whole C (images.stored image.manifest.slot) image.manifest.slot
      (launchBytes part) image

/-- A request of the verifier among those of the runtime. -/
abbrev verifyEvent (e : Event VerifySig) : Event RuntimeSig := e.right.right

section Selected

variable {C : Crypto} {images : BootSelectImages}

/-- The runtime publishes what its selection has published. -/
theorem runtime_published {arguments : Bool} {runtime : BootRuntime}
    {evs : List (Event RuntimeSig)} {reply : RuntimeReply}
    (hr : Runs (bootRuntimeRun C arguments runtime images) evs reply)
    (hok : reply.result.status = .ok) :
    ∃ d, reply.out = some d ∧ Bootable d.snapshot.record d.image.manifest.slot ∧
      ∃ front sub back, evs = front ++ sub.map verifyEvent ++ back ∧
        Runs (bootVerifyStored C (images.stored d.image.manifest.slot)
          d.image.manifest.slot) sub (.ok d.image) := by
  rw [bootRuntimeRun] at hr
  split at hr
  · obtain ⟨-, rfl⟩ := runs_pure_iff.mp hr
    cases hok
  split at hr
  · obtain ⟨-, rfl⟩ := runs_pure_iff.mp hr
    cases hok
  split at hr
  · obtain ⟨-, rfl⟩ := runs_pure_iff.mp hr
    cases hok
  obtain ⟨evs₁, ⟨result, out⟩, evs₂, rfl, h₁, h₂⟩ := runs_bind_iff'.mp hr
  obtain ⟨rfl, rfl⟩ := runs_pure_iff.mp h₂
  obtain ⟨reset, ⟨status, report⟩, rest, rfl, -, h₃⟩ := runs_bind_iff'.mp h₁
  dsimp only at h₃ hok
  split at h₃
  swap
  · obtain ⟨-, he⟩ := runs_pure_iff.mp h₃
    cases he
    exact absurd hok (resetFailed_ne_ok report)
  next snapshot hsnapshot =>
  obtain ⟨select, ⟨selection, decision⟩, rest, rfl, h₄, h₅⟩ := runs_bind_iff'.mp h₃
  dsimp only at h₅
  split at h₅
  · obtain ⟨-, he⟩ := runs_pure_iff.mp h₅
    cases he
    dsimp only at hok
    split at hok
    · cases hok
    · cases hok
  next hselected =>
  obtain ⟨rfl, he⟩ := runs_pure_iff.mp h₅
  cases he
  obtain ⟨select', rfl, hselect⟩ := runs_right h₄
  obtain ⟨calls, d, rfl, hd, hp⟩ := select_published hselect (not_not.mp hselected)
  obtain ⟨front, sub, back, heq, hverified⟩ := hp.served
  refine ⟨d, hd, hp.bootable, reset ++ front.map Event.right, sub,
    back.map Event.right, ?_, hverified⟩
  rw [heq]
  simp only [List.map_append, List.map_map, List.append_assoc, List.append_nil]
  rfl

theorem passed_runs (op : LaunchOp) {s : ProgressState}
    {sub : List (Event LaunchSig)} {x : LaunchSig.Ans op × ProgressState}
    (h : Runs (do
      let r ← Prog.ask (S := LaunchSig) op
      pure (r, s)) sub x) : sub = [⟨op, x.1⟩] := by
  obtain ⟨r, rest, rfl, hrest⟩ := runs_ask_iff.mp h
  obtain ⟨rfl, rfl⟩ := runs_pure_iff.mp hrest
  rfl

theorem progress_runs {phase : BootVerifyPhase} {completed total : UInt32}
    {s : ProgressState} {sub : List (Event LaunchSig)} {x : Bool × ProgressState}
    (h : Runs (serveRuntime (.inr (.inr (.progress phase completed total))) s) sub x) :
    ∃ tr : List (Event WatchdogSig), sub = tr.map watchdogEvent := by
  obtain ⟨tr₁, y, tr₂, rfl, h₁, h₂⟩ := runs_bind_iff'.mp h
  obtain ⟨rfl, -⟩ := runs_pure_iff.mp h₂
  obtain ⟨tr, rfl, -⟩ := runs_embed embeds_watchdog h₁
  exact ⟨tr, List.append_nil _⟩

theorem launchBytes_append (tr₁ tr₂ : List (Event LaunchSig)) :
    launchBytes (tr₁ ++ tr₂) = launchBytes tr₁ ++ launchBytes tr₂ := by
  induction tr₁ with
  | nil => rfl
  | cons e tr₁ ih =>
      obtain ⟨op, r⟩ := e
      cases op with
      | read address requested =>
          cases r with
          | none => exact ih
          | some bytes =>
              rw [List.cons_append, launchBytes, launchBytes, ih, List.append_assoc]
      | register op => exact ih
      | store op => exact ih
      | library => exact ih
      | watchdog op => exact ih
      | handoff op => exact ih

theorem launchBytes_watchdog (tr : List (Event WatchdogSig)) :
    launchBytes (tr.map watchdogEvent) = [] := by
  induction tr with
  | nil => rfl
  | cons e tr ih => exact ih

/-- Serving the verifier reads what the verifier reads. -/
theorem served_bytes {s s' : ProgressState} {evs : List (Event VerifySig)}
    {tr : List (Event LaunchSig)}
    (h : ServedBy serveRuntime s (evs.map verifyEvent) tr s') :
    launchBytes tr = fedBytes evs := by
  induction evs generalizing s tr with
  | nil =>
      cases h
      rfl
  | cons e evs ih =>
      cases h with
      | cons hop hrest =>
          rw [launchBytes_append, ih hrest]
          obtain ⟨op, r⟩ := e
          cases op with
          | read address requested =>
              rw [passed_runs (.read address requested) hop]
              cases r with
              | none => rfl
              | some bytes =>
                  rw [fedBytes]
                  exact congrArg (· ++ fedBytes evs) (List.append_nil bytes.val)
          | library =>
              rw [passed_runs .library hop]
              rfl
          | progress phase completed total =>
              obtain ⟨wtr, rfl⟩ := progress_runs hop
              rw [launchBytes_watchdog]
              rfl

/-- Nothing is handed over while the runtime is served. -/
theorem served_handoff {s s' : ProgressState} {evs : List (Event RuntimeSig)}
    {tr : List (Event LaunchSig)} (h : ServedBy serveRuntime s evs tr s') :
    tr.filterMap handoffCall = [] := by
  induction h with
  | nil s => rfl
  | @cons s s₁ s' e evs sub tr hop hrest ih =>
      rw [List.filterMap_append, ih, List.append_nil]
      obtain ⟨op, r⟩ := e
      match op with
      | .inl op => rw [passed_runs (.register op) hop]; rfl
      | .inr (.inl op) => rw [passed_runs (.store op) hop]; rfl
      | .inr (.inr (.read address requested)) =>
          rw [passed_runs (.read address requested) hop]; rfl
      | .inr (.inr .library) => rw [passed_runs .library hop]; rfl
      | .inr (.inr (.progress phase completed total)) =>
          obtain ⟨wtr, rfl⟩ := progress_runs hop
          rw [List.filterMap_map, List.filterMap_eq_nil_iff]
          exact fun e _ => rfl

/-- The image of a runtime that succeeded was authenticated on the way. -/
theorem runtime_authenticated {arguments : Bool} {runtime : BootRuntime}
    {s s' : ProgressState} {tr : List (Event LaunchSig)} {reply : RuntimeReply}
    (hr : Runs ((bootRuntimeRun C arguments runtime images).interp serveRuntime s) tr
      (reply, s')) :
    tr.filterMap handoffCall = [] ∧
    (reply.result.status = .ok →
      ∃ d, reply.out = some d ∧ Bootable d.snapshot.record d.image.manifest.slot ∧
        AuthenticatedIn C images tr d.image) := by
  obtain ⟨evs, hruns, hserved⟩ := runs_interp hr
  refine ⟨served_handoff hserved, fun hok => ?_⟩
  obtain ⟨d, hd, hboot, front, sub, back, rfl, hv⟩ := runtime_published hruns hok
  obtain ⟨tr₁, s₁, tr₂, rfl, h₁, h₂⟩ := hserved.split
  obtain ⟨tr₃, s₂, tr₄, rfl, h₃, h₄⟩ := h₁.split
  refine ⟨d, hd, hboot, tr₃, tr₄, tr₂, rfl, ?_⟩
  rw [served_bytes h₄]
  exact verifyStored_whole hv

end Selected

/-! ## All or quarantine -/

/-- What a launch that returned OK has done, with the decision and the intent it
has published. -/
structure Launched (C : Crypto) (a : LaunchArguments) (tr : List (Event LaunchSig))
    (reply : ProtectedReply) (decision : BootLaunchDecision)
    (intent : BootHandoffIntent) : Prop where
  out : reply.out = some (.launch decision intent)
  finished : reply.objects.handoff.finished = true
  owner : reply.objects.watchdog.owner = .application
  epoch : intent.applicationEpoch = reply.objects.watchdog.epoch
  vtor : intent.vtor = decision.image.manifest.executionBase
  resetVector : intent.resetVector = decision.image.resetVector
  msp : intent.msp = decision.image.initialMsp
  bootable : Bootable decision.snapshot.record decision.image.manifest.slot
  authenticated : AuthenticatedIn C a.prefixes tr decision.image
  calls : tr.filterMap handoffCall = handoffCalls intent

/-- What a launch that failed has left behind. -/
structure Quarantined (reply : ProtectedReply) : Prop where
  blocked : reply.objects.watchdog.blocked = true
  evidence : reply.objects.watchdog.evidence = 0
  handoff : reply.objects.handoff.blocked = true
  out : reply.out = none

structure LaunchOutcome (C : Crypto) (a : LaunchArguments) (s : LaunchObjects)
    (tr : List (Event LaunchSig)) (reply : ProtectedReply) : Prop where
  refused : ¬ LaunchReady a s → LaunchRefused s tr reply
  admitted : LaunchReady a s → ¬ reply.result.status.Rejects
  launched : reply.result.status = .ok →
    ∃ decision intent, Launched C a tr reply decision intent
  failed : LaunchReady a s → reply.result.status ≠ .ok → Quarantined reply
  stops : ∀ front e back, tr = front ++ e :: back → LaunchFailed e →
    LaunchRelock back ∧ reply.result.status ≠ .ok

section Outcome

variable {C : Crypto} {a : LaunchArguments} {s : LaunchObjects}
  {tr : List (Event LaunchSig)} {reply : ProtectedReply}

/-- The two ways an admitted call ends. -/
inductive Settled (C : Crypto) (a : LaunchArguments) (tr : List (Event LaunchSig))
    (reply : ProtectedReply) : Prop where
  | launched {decision : BootLaunchDecision} {intent : BootHandoffIntent}
      (hok : reply.result.status = .ok) (h : Launched C a tr reply decision intent) :
      Settled C a tr reply
  | quarantined (hs : reply.result.status = .runtimeFailed ∨
      reply.result.status = .handoffFailed) (h : Quarantined reply) :
      Settled C a tr reply

theorem quarantined_quarantine {result : BootRuntimeWatchdogResult} :
    Quarantined ⟨result, none, s.quarantine true⟩ := ⟨rfl, rfl, rfl, rfl⟩

theorem handoffEvents_calls (tr : List (Event HandoffSig)) :
    (tr.map handoffEvent).filterMap handoffCall = tr.map (·.op) := by
  rw [List.filterMap_map]
  exact List.filterMap_eq_map_iff_forall_eq_some.mpr fun _ _ => rfl

/-- The handoff stage, of a decision whose image `front` has authenticated. -/
theorem selected_settled {result : BootRuntimeWatchdogResult}
    {decision : BootLaunchDecision} {front : List (Event LaunchSig)}
    (hfront : front.filterMap handoffCall = [])
    (hboot : Bootable decision.snapshot.record decision.image.manifest.slot)
    (hauth : AuthenticatedIn C a.prefixes front decision.image)
    (hr : Runs (launchSelected a.observation result s decision) tr reply) :
    Settled C a (front ++ tr) reply := by
  obtain ⟨tr₁, handoff, tr₂, rfl, h₁, h₂⟩ := runs_bind_iff'.mp hr
  obtain ⟨htr, rfl, hhandoff⟩ := runs_embed embeds_handoff h₁
  dsimp only at h₂
  split at h₂
  swap
  · obtain ⟨-, rfl⟩ := runs_pure_iff.mp h₂
    exact .quarantined (.inr rfl) quarantined_quarantine
  next intent hok hout =>
  obtain ⟨rfl, rfl⟩ := runs_pure_iff.mp h₂
  obtain ⟨intent', hover⟩ := handoff_ok hhandoff hok
  obtain rfl : intent' = intent := Option.some.inj (hover.out.symm.trans hout)
  obtain ⟨hvtor, hmsp, hreset, hepoch⟩ := handoffAdmission_intent hover.admission
  obtain ⟨before, part, after, rfl, hwhole⟩ := hauth
  refine .launched rfl ⟨rfl, ?_, ?_, ?_, hvtor, hreset, hmsp, hboot, ?_, ?_⟩
  · rw [hover.finished]
  · rw [hover.watchdog]
  · rw [hover.watchdog, hepoch]
  · refine ⟨before, part, after ++ htr.map handoffEvent, ?_, hwhole⟩
    simp only [List.append_assoc, List.append_nil]
  · rw [List.filterMap_append, hfront, List.nil_append, List.append_nil,
      handoffEvents_calls, hover.calls]

theorem admitted_settled {result : BootRuntimeWatchdogResult}
    (hr : Runs (launchAdmitted C true a result s) tr reply) : Settled C a tr reply := by
  obtain ⟨tr₁, ⟨runtime, w, record⟩, tr₂, rfl, h₁, h₂⟩ := runs_bind_iff'.mp hr
  obtain ⟨hfront, hruntime⟩ := runtime_authenticated h₁
  dsimp only at h₂
  split at h₂
  swap
  · obtain ⟨rfl, rfl⟩ := runs_pure_iff.mp h₂
    exact .quarantined (.inl rfl) quarantined_quarantine
  next decision hok hout =>
  rw [if_pos rfl] at h₂
  obtain ⟨d, hd, hboot, hauth⟩ := hruntime hok
  obtain rfl : d = decision := Option.some.inj (hd.symm.trans hout)
  exact selected_settled hfront hboot hauth h₂

/-- Leaving the guards changes nothing that the outcome speaks of. -/
theorem Settled.released (h : Settled C a tr reply) :
    Settled C a tr { reply with objects := reply.objects.guarded false } := by
  cases h with
  | launched hok h =>
      exact .launched hok ⟨h.out, h.finished, h.owner, h.epoch, h.vtor, h.resetVector,
        h.msp, h.bootable, h.authenticated, h.calls⟩
  | quarantined hs h => exact .quarantined hs ⟨h.blocked, h.evidence, h.handoff, h.out⟩

theorem not_rejects_ok : ¬ BootRuntimeWatchdogStatus.ok.Rejects := by
  rintro (h | h | h | h) <;> cases h

theorem Settled.admitted (h : Settled C a tr reply) :
    ¬ reply.result.status.Rejects := by
  cases h with
  | launched hok h => rw [hok]; exact not_rejects_ok
  | quarantined hs h =>
      rcases hs with hs | hs <;>
      · rw [hs]
        rintro (h | h | h | h) <;> cases h

/-- A protected launch is everything or a quarantine. One that is turned away has
touched nothing; one that returns OK has authenticated and selected the image
its intent names, handed over in the fixed order and given the watchdog away;
any other has blocked the watchdog and the handoff, and behind a callback that
failed there is at most the watchdog's own relock. -/
theorem launch_all_or_quarantine
    (hr : Runs (bootRuntimeWatchdogLaunch C a s) tr reply) :
    LaunchOutcome C a s tr reply := by
  have hstops : Halts LaunchFailed LaunchRelock (bootRuntimeWatchdogLaunch C a s)
      LaunchEnded := protectedRun_halts C true a s
  have hstop : ∀ front e back, tr = front ++ e :: back → LaunchFailed e →
      LaunchRelock back ∧ reply.result.status ≠ .ok := by
    rintro front e back rfl he
    exact hstops.runs hr he
  rcases protectedLaunch_runs hr with ⟨hnot, haway⟩ | ⟨hready, result, inner, hinner, rfl⟩
  · refine ⟨fun _ => haway, fun hready => absurd hready hnot, fun hok => ?_,
      fun hready => absurd hready hnot, hstop⟩
    have hrejects := haway.status
    rw [hok] at hrejects
    exact absurd hrejects not_rejects_ok
  · have hsettled := (admitted_settled hinner).released
    refine ⟨fun hnot => absurd hready hnot, fun _ => hsettled.admitted, fun hok => ?_,
      fun _ hne => ?_, hstop⟩
    · cases hsettled with
      | launched _ h => exact ⟨_, _, h⟩
      | quarantined hs h =>
          rw [hok] at hs
          rcases hs with hs | hs <;> cases hs
    · cases hsettled with
      | launched hok h => exact absurd hok hne
      | quarantined hs h => exact h

end Outcome

/-! ## A board that launches

The factory board with its watchdog configured: no reset flag is set, no
callback fails and the controller's registers behave. -/

def launchDevice (mem : ByteMem) : (op : LaunchOp) → WatchdogRegisters →
    LaunchSig.Ans op × WatchdogRegisters
  | .register .read, d => (some 0, d)
  | .register (.write _), d => (true, d)
  | .store op, d => (storeAnswers mem op, d)
  | .read address requested, d => (verifyAnswers mem (.read address requested), d)
  | .library, d => (true, d)
  | .watchdog op, d => watchdogDevice op d
  | .handoff _, d => (true, d)

def factoryArguments : LaunchArguments where
  bridge := ⟨0x2000e000, 20⟩
  watchdog := ⟨0x2000e100, 60⟩
  handoff := ⟨0x2000e200, 24⟩
  observed := ⟨0x2000e300, 20⟩
  registers := ⟨0x2000e400, 12⟩
  store := ⟨0x2000e500, 16⟩
  images := ⟨0x2000e600, 16⟩
  out := ⟨0x2000e800, 400⟩
  callbacks := ⟨true, true, true, true, true, true, true, true, true, true⟩
  observation := ⟨0, 0, 1, 0, 0⟩
  prefixes := packageImages

def factoryObjects : LaunchObjects where
  bridge := bootRuntimeWatchdogInit
  watchdog := packageStart.1
  handoff := ⟨false, false, false⟩

/-- What a launch returns on such a board. -/
def boardLaunch (C : Crypto) (mem : ByteMem) (a : LaunchArguments) (s : LaunchObjects)
    (d : WatchdogRegisters) : ProtectedReply :=
  ((bootRuntimeWatchdogLaunch C a s).run (launchDevice mem) d).1

theorem boardLaunch_runs (C : Crypto) (mem : ByteMem) (a : LaunchArguments)
    (s : LaunchObjects) (d : WatchdogRegisters) :
    ∃ tr, Runs (bootRuntimeWatchdogLaunch C a s) tr (boardLaunch C mem a s d) :=
  ⟨_, runs_trace _ _ _⟩

def factoryLaunch : ProtectedReply :=
  boardLaunch packageCrypto factoryMemory factoryArguments factoryObjects packageStart.2

theorem factoryLaunch_ok : factoryLaunch.result.status = .ok := by decide +kernel

theorem launch_all_or_quarantine_factory :
    ∃ tr decision intent,
      Launched packageCrypto factoryArguments tr factoryLaunch decision intent := by
  obtain ⟨tr, hr : Runs _ tr factoryLaunch⟩ := boardLaunch_runs packageCrypto
    factoryMemory factoryArguments factoryObjects packageStart.2
  obtain ⟨decision, intent, hl⟩ :=
    (launch_all_or_quarantine hr).launched factoryLaunch_ok
  exact ⟨tr, decision, intent, hl⟩

end EkBareMetal.Boot

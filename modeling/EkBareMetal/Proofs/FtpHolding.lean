import EkBareMetal.Proofs.FtpCommands

/-!
# What the calls leave of a session

A session is opened by one call, read by one, and asked to close by the reply
that drains a QUIT. Every other call leaves it as it was, or ends it. `Holding`
says so of a program whatever it is answered, with rules that follow the program,
and `call_holding` says it of all of these calls.
-/

namespace EkBareMetal.Ftp

open Interact

/-! ## The bits of the actions -/

section Bits

variable {a m bit : UInt32}

theorem bit_or (hm : m &&& bit = 0) : (a ||| m) &&& bit = a &&& bit := by
  have h : (a ||| m) &&& bit = a &&& bit ||| m &&& bit :=
    UInt32.toBitVec_inj.mp BitVec.and_or_distrib_right
  rw [h, hm, UInt32.or_zero]

theorem bit_and (h : a &&& m &&& bit ≠ 0) : a &&& bit ≠ 0 := by
  intro ha
  rw [UInt32.and_assoc, UInt32.and_comm m, ← UInt32.and_assoc, ha, UInt32.zero_and] at h
  exact h rfl

theorem bit_clear (hm : m &&& bit = 0) : a &&& m &&& bit = 0 := by
  rw [UInt32.and_assoc, hm, UInt32.and_zero]

end Bits

namespace FtpCore

/-- The close of the control connection is among the requested actions. -/
def closesControl (c : FtpCore) : Prop := c.actions &&& ftpCloseControl ≠ 0

theorem closesControl_torn {c : FtpCore} (h : c.torn.closesControl) : c.closesControl := by
  unfold closesControl torn at h
  dsimp only at h
  have hbit := bit_and h
  split at hbit
  · rw [bit_or (by decide)] at hbit
    split at hbit
    · rwa [bit_or (by decide)] at hbit
    · exact hbit
  · split at hbit
    · rwa [bit_or (by decide)] at hbit
    · exact hbit

theorem not_closesControl_left (c : FtpCore) : ¬ c.left.closesControl := by
  intro h
  unfold closesControl left at h
  dsimp only at h
  rw [bit_or (by decide)] at h
  exact h (bit_clear (by decide))

end FtpCore

/-! ## Programs that leave a session -/

/-- The session is the same one, at the same place of its input, and is asked to
close only if it was; or it is over. -/
def SameSession (s s' : FtpState) : Prop :=
  (s'.core.parser = s.core.parser ∧ s'.core.session = s.core.session ∧
    s'.core.quitting = s.core.quitting ∧ (s'.core.closesControl → s.core.closesControl)) ∨
  s'.core.session = false ∧ s'.core.parser = .zero ∧ ¬ s'.core.closesControl

/-- Every run of the program, whatever it is answered. -/
abbrev Holding {α : Type} (s : FtpState) (p : FtpProg α) (f : α → FtpState) : Prop :=
  Safe (fun _ => True) p fun a => SameSession s (f a)

section Holding

variable {s s₁ s₂ : FtpState} {text : List UInt8} {now : UInt32} {α : Type}

theorem SameSession.refl (s : FtpState) : SameSession s s := .inl ⟨rfl, rfl, rfl, id⟩

theorem SameSession.trans (h₁ : SameSession s s₁) (h₂ : SameSession s₁ s₂) :
    SameSession s s₂ := by
  obtain ⟨hp₂, hs₂, hq₂, hc₂⟩ | h₂ := h₂
  · obtain ⟨hp₁, hs₁, hq₁, hc₁⟩ | ⟨hs₁, hp₁, hc₁⟩ := h₁
    · exact .inl ⟨hp₂.trans hp₁, hs₂.trans hs₁, hq₂.trans hq₁, fun h => hc₁ (hc₂ h)⟩
    · exact .inr ⟨hs₂.trans hs₁, hp₂.trans hp₁, fun h => hc₁ (hc₂ h)⟩
  · exact .inr h₂

theorem SameSession.closes (h : SameSession s s') (hc : s'.core.closesControl) :
    s.core.closesControl := by
  obtain ⟨-, -, -, h⟩ | ⟨-, -, h⟩ := h
  · exact h hc
  · exact absurd hc h

theorem holding_from {p : FtpProg α} {f : α → FtpState} (h : SameSession s s₁)
    (hp : Holding s₁ p f) : Holding s p f := hp.mono (fun _ => id) fun _ => h.trans

theorem holding_pure (a : α) {f : α → FtpState} (h : SameSession s (f a)) :
    Holding s (pure a : FtpProg α) f := safe_pure h

theorem holding_bind {β : Type} {p : FtpProg α} {g : α → FtpProg β} {f : α → FtpState}
    {f' : β → FtpState} (hp : Holding s p f) (hg : ∀ a, Holding (f a) (g a) f') :
    Holding s (p >>= g) f' := safe_bind hp fun a ha => holding_from ha (hg a)

theorem holding_ask {op : FtpOp} {g : FtpSig.Ans op → FtpProg α} {f : α → FtpState}
    (h : ∀ r, Holding s (g r) f) : Holding s (Prog.ask (S := FtpSig) op >>= g) f :=
  safe_ask fun r => ⟨trivial, h r⟩

theorem holding_teardown (s : FtpState) : Holding s (teardown s) id := by
  intro tr s' hr
  obtain ⟨-, rfl⟩ := teardown_runs hr
  exact ⟨fun _ _ => trivial, .inl ⟨rfl, rfl, rfl, FtpCore.closesControl_torn⟩⟩

theorem holding_lost (s : FtpState) : Holding s (lost s) id := by
  unfold lost
  split
  · exact holding_pure _ (.refl s)
  · exact holding_bind (holding_teardown s) fun s₁ =>
      holding_pure _ (.inr ⟨rfl, rfl, s₁.core.not_closesControl_left⟩)

theorem holding_reply {start : Bool} (s : FtpState) :
    Holding s (reply s text start now) (·.2) := by
  unfold reply
  split
  · exact holding_ask fun _ => holding_bind (holding_lost s) fun s₁ => holding_pure _ (.refl s₁)
  · exact holding_ask fun _ => holding_pure _ (.inl ⟨rfl, rfl, rfl, id⟩)

theorem holding_answer (s : FtpState) : Holding s (answer s text now) id :=
  holding_bind (holding_reply s) fun r => holding_pure r.2 (.refl r.2)

theorem holding_failure (s : FtpState) : Holding s (failure s text now) id :=
  holding_bind (holding_teardown s) fun s₁ => holding_answer s₁

theorem holding_failed {f : FtpState → α} {g : α → FtpState} (s : FtpState)
    (h : ∀ s, g (f s) = s) :
    Holding s (failure s text now >>= fun s => pure (f s)) g :=
  holding_bind (holding_failure s) fun s₁ => holding_pure _ (by rw [h]; exact .refl s₁)

theorem holding_unit {p : FtpProg FtpState} (h : Holding s p id) :
    Holding s (returnUnit p) (·.2) :=
  holding_bind h fun s₁ => holding_pure _ (.refl s₁)

theorem holding_bool {p : FtpProg (Bool × FtpState)} (h : Holding s p (·.2)) :
    Holding s (returnBool p) (·.2) :=
  holding_bind h fun r => holding_pure (FtpReturn.bool r.1, r.2) (.refl r.2)

theorem holding_input {p : FtpProg ((FtpInput × Nat) × FtpState)} (h : Holding s p (·.2)) :
    Holding s (returnInput p) (·.2) :=
  holding_bind h fun r => holding_pure (FtpReturn.input r.1.1 r.1.2, r.2) (.refl r.2)

end Holding

/-! ## The calls -/

section Calls

variable {s : FtpState} {now : UInt32}

theorem sameSession_progressed (s : FtpState) (n : Nat) :
    SameSession s { s with core := s.core.progressed n now } := by
  unfold FtpCore.progressed
  split
  · exact .inl ⟨rfl, rfl, rfl, id⟩
  · exact .refl s

theorem sameSession_closeData (s : FtpState) :
    SameSession s { s with core := s.core.closeData now } :=
  .inl ⟨rfl, rfl, rfl, fun h => by
    unfold FtpCore.closesControl FtpCore.closeData at h
    rwa [bit_or (by decide)] at h⟩

theorem sameSession_downloaded {c : FtpCore} (h : SameSession s { s with core := c }) :
    SameSession s { s with core := c.downloaded now } := by
  unfold FtpCore.downloaded
  split
  · exact h.trans (sameSession_closeData { s with core := c })
  · exact h

theorem holding_uploadSpan (bytes : List UInt8) :
    Holding s (ftpCoreUploadSpan s bytes now) (·.2) := by
  unfold ftpCoreUploadSpan
  split
  · exact holding_pure _ (.refl s)
  split
  · refine holding_ask fun r => ?_
    dsimp only
    generalize (if r.2 > bytes.length then FtpOperationResult.error else r.1) = result
    generalize (if r.2 > bytes.length then 0 else r.2) = taken
    have hprogressed : SameSession s { s with core := s.core.progressed taken now } :=
      sameSession_progressed s taken
    refine holding_from hprogressed ?_
    split
    · exact holding_failed _ fun _ => rfl
    · exact holding_pure _ (.refl _)
  · refine holding_ask fun r => ?_
    split
    · exact holding_failed _ fun _ => rfl
    · exact holding_pure _ (sameSession_progressed s _)

theorem holding_uploadEof : Holding s (ftpCoreUploadEof s now) (·.2) := by
  unfold ftpCoreUploadEof
  split
  · exact holding_pure _ (.refl s)
  have heof : SameSession s { s with core := { s.core with eof := true } } :=
    .inl ⟨rfl, rfl, rfl, id⟩
  dsimp only
  split
  · refine holding_ask fun r => ?_
    split
    · exact holding_from heof (holding_failed _ fun _ => rfl)
    · exact holding_pure _ heof
  · exact holding_pure _ (heof.trans (sameSession_closeData _))

theorem holding_foreground : Holding s (ftpCoreForeground s now) id := by
  unfold ftpCoreForeground
  split
  · exact holding_pure _ (.refl s)
  refine holding_ask fun r => ?_
  split
  · split
    · exact holding_failure s
    · have haccepted : SameSession s { s with core := { s.core with accepted := true } } :=
        .inl ⟨rfl, rfl, rfl, id⟩
      exact holding_pure _ (haccepted.trans (sameSession_closeData _))
  split
  · exact holding_failure s
  · exact holding_pure _ (.refl s)

theorem holding_commit (s : FtpState) : Holding s (commitUpload s) fun _ => s := by
  unfold commitUpload
  split
  · exact holding_pure _ (.refl s)
  split
  · exact holding_pure _ (.refl s)
  split
  · exact holding_pure _ (.refl s)
  · exact holding_ask fun _ => holding_pure _ (.refl s)

theorem holding_dataCloseResult {accepted : Bool} :
    Holding s (ftpCoreDataCloseResult s accepted now) (·.2) := by
  unfold ftpCoreDataCloseResult
  split
  · exact holding_pure _ (.refl s)
  split
  · exact holding_pure _ (.refl s)
  split
  · exact holding_ask fun _ => holding_bind (holding_lost s) fun s₁ => holding_pure _ (.refl s₁)
  refine holding_bind (holding_commit s) fun committed => ?_
  refine holding_bind (holding_from (.inl ⟨rfl, rfl, rfl, id⟩) (holding_teardown _))
    fun s₁ => ?_
  refine holding_bind (holding_from ?_ (holding_reply _)) fun r => ?_
  · exact .inl ⟨rfl, rfl, rfl, bit_and⟩
  · exact holding_pure (committed && r.1, r.2) (.refl r.2)

theorem holding_dataError : Holding s (ftpCoreDataError s now) id := by
  unfold ftpCoreDataError
  split
  · exact holding_failure s
  split
  · exact holding_failure s
  · exact holding_pure _ (.refl s)

theorem holding_tick : Holding s (ftpCoreTick s now) id := by
  unfold ftpCoreTick
  dsimp only
  split
  · exact holding_pure _ (.refl s)
  split
  · exact holding_lost s
  split
  · exact holding_failure s
  split
  · exact holding_failure s
  split
  · exact holding_failure s
  split
  · exact holding_failure s
  split
  · exact holding_failure s
  · exact holding_pure _ (.refl s)

theorem holding_controlClosed : Holding s (ftpCoreControlClosed s) id :=
  holding_bind (holding_lost s) fun _ => holding_pure _ (.inl ⟨rfl, rfl, rfl, bit_and⟩)

theorem holding_passiveResult {success : Bool} {address : Option (Fin 4 → UInt8)}
    {port : UInt16} :
    Holding s (ftpCorePassiveResult s success address port now) (·.2) := by
  unfold ftpCorePassiveResult
  split
  · exact holding_pure _ (.refl s)
  dsimp only
  split
  · refine holding_from ?_ (holding_failed _ fun _ => rfl)
    exact .inl ⟨rfl, rfl, rfl, bit_and⟩
  · refine holding_from ?_ (holding_reply _)
    exact .inl ⟨rfl, rfl, rfl, bit_and⟩

theorem sameSession_takeActions (s : FtpState) : SameSession s (ftpCoreTakeActions s).2 :=
  .inl ⟨rfl, rfl, rfl, fun h => absurd UInt32.zero_and h⟩

theorem sameSession_dataConnected (s : FtpState) :
    SameSession s (ftpCoreDataConnected s now).2 := by
  unfold ftpCoreDataConnected
  split
  · exact .refl s
  · exact .inl ⟨rfl, rfl, rfl, fun h => by
      unfold FtpCore.closesControl at h
      rwa [bit_or (by decide)] at h⟩

theorem sameSession_downloadEnqueued (s : FtpState) (n : Nat) :
    SameSession s (ftpCoreDownloadEnqueued s n now).2 := by
  unfold ftpCoreDownloadEnqueued
  split
  · exact .refl s
  · refine sameSession_downloaded ?_
    split
    · exact .inl ⟨rfl, rfl, rfl, id⟩
    · exact .inl ⟨rfl, rfl, rfl, id⟩

theorem sameSession_downloadAcked (s : FtpState) (n : Nat) :
    SameSession s (ftpCoreDownloadAcked s n now).2 := by
  unfold ftpCoreDownloadAcked
  split
  · exact .refl s
  · refine sameSession_downloaded ?_
    unfold FtpCore.progressed
    split
    · exact .inl ⟨rfl, rfl, rfl, id⟩
    · exact .inl ⟨rfl, rfl, rfl, id⟩

/-- No call moves the input of a session, besides its opening, a span and a drained
reply. -/
theorem call_holding (call : FtpCall) (hspan : ∀ bytes now, call ≠ .controlSpan bytes now)
    (hopen : ∀ now, call ≠ .sessionOpen now) (hreply : ∀ n now, call ≠ .replyConsume n now) :
    Holding s (call.perform s) (·.2) := by
  cases call with
  | init binding =>
      refine holding_bool (holding_pure _ ?_)
      unfold ftpCoreInit
      split
      · exact .refl s
      · exact .inr ⟨rfl, rfl, fun h => h UInt32.zero_and⟩
  | bindOperation binding =>
      refine holding_bool (holding_pure _ ?_)
      unfold ftpCoreBindOperation
      split
      · exact .refl s
      · exact .inl ⟨rfl, rfl, rfl, id⟩
  | reset =>
      refine holding_unit fun tr s' hr => ?_
      obtain ⟨-, rfl⟩ := reset_runs hr
      exact ⟨fun _ _ => trivial, .inr ⟨rfl, rfl, fun h => h UInt32.zero_and⟩⟩
  | sessionOpen now => exact absurd rfl (hopen now)
  | sessionLost => exact holding_unit (holding_lost s)
  | controlClosed => exact holding_unit holding_controlClosed
  | takeActions => exact holding_pure _ (sameSession_takeActions s)
  | replyPeek => exact holding_pure _ (.refl s)
  | replyConsume n now => exact absurd rfl (hreply n now)
  | controlSpan bytes now => exact absurd rfl (hspan bytes now)
  | passiveResult success address port now => exact holding_bool holding_passiveResult
  | dataConnected now =>
      exact holding_bool (holding_pure _ (sameSession_dataConnected s))
  | uploadChunk bytes now =>
      refine holding_bool ?_
      unfold ftpCoreUploadChunk
      split
      · exact holding_pure _ (.refl s)
      · exact holding_bind (holding_uploadSpan bytes) fun r =>
          holding_pure (decide (r.1.1 = .ok), r.2) (.refl r.2)
  | uploadSpan bytes now => exact holding_input (holding_uploadSpan bytes)
  | uploadEof now => exact holding_bool holding_uploadEof
  | foreground now => exact holding_unit holding_foreground
  | downloadSpan => exact holding_pure _ (.refl s)
  | downloadEnqueued n now =>
      exact holding_bool (holding_pure _ (sameSession_downloadEnqueued s n))
  | downloadAcked n now =>
      exact holding_bool (holding_pure _ (sameSession_downloadAcked s n))
  | dataCloseResult accepted now => exact holding_bool holding_dataCloseResult
  | dataError now => exact holding_unit holding_dataError
  | file =>
      show Holding s (ftpCoreFile s >>= fun view => pure (FtpReturn.view view, s)) (·.2)
      unfold ftpCoreFile
      split
      · exact holding_pure _ (.refl s)
      · exact holding_ask fun _ => holding_pure _ (.refl s)
  | tick now => exact holding_unit holding_tick

end Calls

/-! ## Control input -/

section Input

variable {s s' : FtpState} {tr : List Ev} {now : UInt32} {line arg : List UInt8}

theorem holding_openTransfer {upload : Bool} {view : FtpStorageView} :
    Holding s (openTransfer s upload view now) id := by
  have hstarted : SameSession s { s with core := s.core.started upload view now } :=
    .inl ⟨rfl, rfl, rfl, id⟩
  exact holding_from hstarted (holding_bind (holding_reply _) fun r =>
    holding_pure r.2 (.refl r.2))

theorem holding_startTransfer {upload special : Bool} {view : FtpStorageView} :
    Holding s (startTransfer s arg upload special view now) id := by
  unfold startTransfer
  split
  · refine holding_ask fun begun => ?_
    cases begun with
    | none => exact holding_failure s
    | some view =>
        have hoperation : SameSession s
            { s with core := { s.core with operation := true } } := .inl ⟨rfl, rfl, rfl, id⟩
        exact holding_from hoperation holding_openTransfer
  split
  · refine holding_ask fun result => ?_
    split
    · exact holding_failure s
    · exact holding_openTransfer
  · exact holding_openTransfer

theorem holding_commandTransfer {upload : Bool} :
    Holding s (commandTransfer s arg upload now) id := by
  have hquiet : ∀ {α : Type} (p : FtpProg α), Holding s p fun _ => s :=
    fun p tr a _ => ⟨fun _ _ => trivial, .refl s⟩
  refine holding_bind (hquiet _) fun special => ?_
  refine holding_bind (hquiet _) fun view => ?_
  refine holding_bind (hquiet _) fun refused => ?_
  split
  · exact holding_answer s
  split
  · exact holding_answer s
  split
  · exact holding_answer s
  · exact holding_startTransfer

/-- A command that asks for a close is a QUIT, and even that one leaves the asking to
its reply. -/
theorem command_closes (hr : Runs (command s line now) tr s')
    (h : s'.core.closesControl) : s.core.closesControl := by
  cases command_cases hr with
  | answers _ hr => exact (holding_answer _ _ _ hr).2.closes h
  | tears _ hr => exact FtpCore.closesControl_torn ((holding_answer _ _ _ hr).2.closes h)
  | loggedIn _ hr =>
      cases hr with
      | answers _ hr => exact (holding_answer _ _ _ hr).2.closes h
      | listens _ =>
          unfold FtpCore.closesControl at h
          dsimp only at h
          rw [bit_or (by decide)] at h
          exact FtpCore.closesControl_torn h
      | sizes _ hr => exact (holding_answer _ _ _ hr).2.closes h
      | transfers hr => exact (holding_commandTransfer _ _ hr).2.closes h

theorem executeLine_closes {p : Parser} (hr : Runs (executeLine s p now) tr s')
    (h : s'.core.closesControl) : s.core.closesControl := by
  unfold executeLine at hr
  split at hr
  · exact (holding_answer _ _ _ hr).2.closes h
  · exact command_closes hr h

theorem closesControl_parsing {p : Parser} :
    (s.parsing p).core.closesControl ↔ s.core.closesControl := Iff.rfl

theorem Looped.closes {bytes : List UInt8} {a n : Nat} (hl : Looped now s a bytes tr n s')
    (h : s'.core.closesControl) : s.core.closesControl := by
  induction hl with
  | nil => exact h
  | skip _ _ ih => exact closesControl_parsing.mp (ih h)
  | line _ hx _ _ _ ih =>
      exact closesControl_parsing.mp (executeLine_closes hx (closesControl_parsing.mp (ih h)))
  | quits _ hx _ =>
      exact closesControl_parsing.mp (executeLine_closes hx (closesControl_parsing.mp h))
  | opens _ hx _ _ =>
      exact closesControl_parsing.mp (executeLine_closes hx (closesControl_parsing.mp h))

theorem Looped.single {byte : UInt8} {a n : Nat} (hl : Looped now s a [byte] tr n s') :
    n = a + 1 := by
  cases hl with
  | skip _ h => cases h; rfl
  | line _ _ _ _ h => cases h; rfl
  | quits _ _ _ => rfl
  | opens _ _ _ _ => rfl

end Input

/-! ## The input of a session that is over or quits -/

namespace FtpCore

/-- Nothing more is read from the control connection. -/
def shut (c : FtpCore) : Prop := c.session = false ∨ c.quitting = true

/-- Only a session that quits asks for the close of the control connection. -/
def Orderly (c : FtpCore) : Prop := c.closesControl → c.quitting = true

end FtpCore

section Shut

variable {s s' : FtpState} {now : UInt32}

theorem SameSession.shut (h : SameSession s s') (hs : s.core.shut) : s'.core.shut := by
  obtain ⟨-, hsession, hquitting, -⟩ | ⟨hover, -, -⟩ := h
  · exact hs.imp hsession.trans hquitting.trans
  · exact .inl hover

theorem SameSession.orderly (h : SameSession s s') (hs : s.core.Orderly) : s'.core.Orderly := by
  obtain ⟨-, -, hquitting, hcloses⟩ | ⟨-, -, hcloses⟩ := h
  · exact fun hc => hquitting.trans (hs (hcloses hc))
  · exact fun hc => absurd hc hcloses

theorem consumed_frame (c : FtpCore) (r : Reply) (now : UInt32) :
    (c.consumed r now).session = c.session ∧ (c.consumed r now).quitting = c.quitting ∧
      (c.consumed r now).actions = c.actions := by
  unfold FtpCore.consumed
  dsimp only
  split
  · split <;> exact ⟨rfl, rfl, rfl⟩
  · exact ⟨rfl, rfl, rfl⟩

theorem replyConsume_shut (n : Nat) (hs : s.core.shut) :
    (ftpCoreReplyConsume s n now).2.core.shut := by
  unfold ftpCoreReplyConsume
  dsimp only
  split
  · exact hs
  obtain ⟨hsession, hquitting, -⟩ := consumed_frame s.core
    { s.core.replies.front with offset := s.core.replies.front.offset + n } now
  unfold FtpCore.drained
  split
  · exact hs.imp hsession.trans hquitting.trans
  · exact hs.imp hsession.trans hquitting.trans

/-- The one place where the close is asked for. -/
theorem replyConsume_orderly (n : Nat) (hs : s.core.Orderly) :
    (ftpCoreReplyConsume s n now).2.core.Orderly := by
  unfold ftpCoreReplyConsume
  dsimp only
  split
  · exact hs
  obtain ⟨-, hquitting, hactions⟩ := consumed_frame s.core
    { s.core.replies.front with offset := s.core.replies.front.offset + n } now
  unfold FtpCore.drained
  split
  · next hdrained =>
      rw [Bool.and_eq_true] at hdrained
      exact fun _ => hdrained.1
  · intro hc
    unfold FtpCore.closesControl at hc
    rw [hactions] at hc
    exact hquitting.trans (hs hc)

theorem sessionOpen_orderly :
    Safe (fun _ => True) (ftpCoreSessionOpen s now) fun r =>
      s.core.Orderly → r.2.core.Orderly := by
  unfold ftpCoreSessionOpen
  split
  · exact safe_pure id
  · refine (holding_reply _).mono (fun _ => id) fun r hr hs => hr.orderly ?_
    exact hs

/-- What a span of the control connection comes to. -/
structure SpanOutcome (s : FtpState) (bytes : List UInt8) (r : (FtpInput × Nat) × FtpState) :
    Prop where
  shut : s.core.shut → r.1.2 = 0 ∧ r.2 = s
  orderly : s.core.Orderly → r.2.core.Orderly
  whole : r.1.1 = .ok → r.1.2 = bytes.length
  none : bytes.length = 1 → r.1.1 ≠ .ok → r.1.2 = 0

theorem controlSpan_outcome (bytes : List UInt8) :
    Safe (fun _ => True) (ftpCoreControlSpan s bytes now) (SpanOutcome s bytes) := by
  unfold ftpCoreControlSpan
  split
  · exact safe_pure ⟨fun _ => ⟨rfl, rfl⟩, id, nofun, fun _ _ => rfl⟩
  next hin =>
  split
  · exact safe_pure ⟨fun _ => ⟨rfl, rfl⟩, id, nofun, fun _ _ => rfl⟩
  dsimp only
  split
  · exact safe_pure ⟨fun _ => ⟨rfl, rfl⟩, id, nofun, fun _ _ => rfl⟩
  intro tr r hr
  refine ⟨fun _ _ => trivial, ?_⟩
  obtain ⟨tr₁, ⟨n, s₁⟩, tr₂, rfl, h₁, h₂⟩ := runs_bind_iff'.mp hr
  obtain ⟨-, rfl⟩ := runs_pure_iff.mp h₂
  have hloop := controlLoop_looped h₁
  simp only [not_or, Bool.not_eq_true', Bool.not_eq_false, Bool.not_eq_true] at hin
  refine ⟨fun hs => ?_, fun hs => ?_, fun hok => ?_, fun hone hno => ?_⟩
  · obtain hs | hs := hs
    · rw [hin.1] at hs
      cases hs
    · rw [hin.2.1] at hs
      cases hs
  · intro hc
    have hcloses : s₁.core.closesControl := by
      dsimp only at hc
      split at hc
      · exact hc
      · exact hc
    have hquitting := hs (hloop.closes hcloses)
    rw [hin.2.1] at hquitting
    cases hquitting
  · dsimp only at hok ⊢
    split at hok
    · assumption
    · cases hok
  · obtain ⟨byte, rfl⟩ := List.length_eq_one_iff.mp hone
    obtain rfl := hloop.single
    exact absurd rfl hno

theorem uploadSpan_accepted (bytes : List UInt8) :
    Safe (fun _ => True) (ftpCoreUploadSpan s bytes now) fun r => r.1.2 ≤ bytes.length := by
  have hrest : ∀ {α β : Type} {p : FtpProg α} {f : α → FtpProg β} {Q : β → Prop},
      (∀ a, Safe (fun _ => True) (f a) Q) → Safe (fun _ => True) (p >>= f) Q :=
    fun {α β p f Q} hf => safe_bind (fun _ _ _ => ⟨fun _ _ => trivial, trivial⟩)
      fun a (_ : True) => hf a
  unfold ftpCoreUploadSpan
  split
  · exact safe_pure (Nat.zero_le _)
  split
  · refine safe_ask fun r => ⟨trivial, ?_⟩
    dsimp only
    have hle : (if r.2 > bytes.length then 0 else r.2) ≤ bytes.length := by
      split <;> omega
    generalize (if r.2 > bytes.length then FtpOperationResult.error else r.1) = result
    generalize (if r.2 > bytes.length then 0 else r.2) = taken at hle ⊢
    split
    · exact hrest fun s => safe_pure hle
    · exact safe_pure hle
  · refine safe_ask fun r => ⟨trivial, ?_⟩
    split
    · exact hrest fun s => safe_pure (Nat.zero_le _)
    · exact safe_pure (Nat.le_refl _)

end Shut

end EkBareMetal.Ftp

import EkBareMetal.Lib.Alike
import EkBareMetal.Proofs.FtpTransfer

/-!
# The timestamps of a session

The core compares timestamps with the `now` of a call in one way: it subtracts.
So two cores that differ in their timestamps only do the same, as long as those
that are still read lie the same distance behind their `now`. `Stamps` says of
each timestamp when it is still read, and relates it to its counterpart then; a
timestamp that is not read any more need not be related to anything. Every
function of the core is shown to keep the relation and to ask the same. One
relation gives that a clock may be set forward by any amount, another that
every timestamp that is read was taken in the session.
-/

namespace EkBareMetal.Ftp

open Interact Transition

structure Times where
  control : UInt32
  since : UInt32
  output : UInt32
  dataOutput : UInt32
  passive : UInt32
  start : UInt32
  progress : UInt32
  close : UInt32

/-- The record with other timestamps. -/
def FtpCore.retimed (c : FtpCore) (t : Times) : FtpCore :=
  { c with
    parser := { c.parser with since := t.since }
    controlTime := t.control
    outputTime := t.output
    dataOutputTime := t.dataOutput
    passiveTime := t.passive
    startTime := t.start
    progressTime := t.progress
    closeTime := t.close }

def FtpState.retimed (s : FtpState) (t : Times) : FtpState :=
  { s with core := s.core.retimed t }

/-- Each timestamp that may still be read is related to its counterpart. -/
structure Stamps (R : UInt32 → UInt32 → Prop) (c : FtpCore) (t : Times) : Prop where
  control : c.session = true → R c.controlTime t.control
  since : c.parser.active = true → R c.parser.since t.since
  output : c.replies.count ≠ 0 → R c.outputTime t.output
  dataOutput : c.connected = true → R c.dataOutputTime t.dataOutput
  passive : c.opening = true ∨ c.passive = true → R c.passiveTime t.passive
  start : c.direction ≠ .idle → R c.startTime t.start
  progress : c.direction ≠ .idle → R c.progressTime t.progress
  closing : c.closing = true → R c.closeTime t.close
  quitting : c.quitting = true → c.replies.count = 0 → R c.closeTime t.close
  silent : c.session = false → c.parser.active = false

/-- Related times lie the same distance apart. -/
def Even (R : UInt32 → UInt32 → Prop) : Prop :=
  ∀ {x y n m : UInt32}, R x y → R n m → m - y = n - x

/-- The states differ in their timestamps only. -/
def Timed (R : UInt32 → UInt32 → Prop) (s s' : FtpState) : Prop :=
  ∃ t, s' = s.retimed t ∧ Stamps R s.core t

def Both {α : Type} (R : UInt32 → UInt32 → Prop) (x y : α × FtpState) : Prop :=
  y.1 = x.1 ∧ Timed R x.2 y.2

section Stamps

variable {R : UInt32 → UInt32 → Prop} {c : FtpCore} {t : Times} {now later : UInt32}

theorem Stamps.torn (h : Stamps R c t) : Stamps R c.torn t where
  control := h.control
  since := h.since
  output := h.output
  dataOutput := nofun
  passive := fun h => h.elim nofun nofun
  start := fun hd => absurd rfl hd
  progress := fun hd => absurd rfl hd
  closing := nofun
  quitting := h.quitting
  silent := h.silent

theorem Stamps.left (h : Stamps R c t) : Stamps R c.left { t with since := 0 } where
  control := nofun
  since := nofun
  output := fun hne => absurd rfl hne
  dataOutput := h.dataOutput
  passive := h.passive
  start := h.start
  progress := h.progress
  closing := h.closing
  quitting := nofun
  silent := fun _ => rfl

theorem Stamps.queue (h : Stamps R c t) (hn : R now later) {text : List UInt8}
    {start : Bool} (hlt : c.replies.count < ftpReplySlots) :
    Stamps R (c.queue text start now hlt)
      { t with output := if c.replies.count = 0 then later else t.output } where
  control := h.control
  since := h.since
  output := fun _ => by
    show R (if c.replies.count = 0 then now else c.outputTime) _
    by_cases hempty : c.replies.count = 0
    · rw [if_pos hempty, if_pos hempty]
      exact hn
    · rw [if_neg hempty, if_neg hempty]
      exact h.output hempty
  dataOutput := h.dataOutput
  passive := h.passive
  start := h.start
  progress := h.progress
  closing := h.closing
  quitting := fun _ hnone => absurd hnone (Nat.succ_ne_zero _)
  silent := h.silent

theorem stamps_zero : Stamps R .zero ⟨0, 0, 0, 0, 0, 0, 0, 0⟩ where
  control := nofun
  since := nofun
  output := fun hne => absurd rfl hne
  dataOutput := nofun
  passive := fun h => h.elim nofun nofun
  start := fun hd => absurd rfl hd
  progress := fun hd => absurd rfl hd
  closing := nofun
  quitting := nofun
  silent := fun _ => rfl

/-- A larger relation relates as much. -/
theorem Stamps.mono {R' : UInt32 → UInt32 → Prop} (h : Stamps R c t)
    (hsub : ∀ x y, R x y → R' x y) : Stamps R' c t where
  control := fun hc => hsub _ _ (h.control hc)
  since := fun hc => hsub _ _ (h.since hc)
  output := fun hc => hsub _ _ (h.output hc)
  dataOutput := fun hc => hsub _ _ (h.dataOutput hc)
  passive := fun hc => hsub _ _ (h.passive hc)
  start := fun hc => hsub _ _ (h.start hc)
  progress := fun hc => hsub _ _ (h.progress hc)
  closing := fun hc => hsub _ _ (h.closing hc)
  quitting := fun hq hc => hsub _ _ (h.quitting hq hc)
  silent := h.silent

end Stamps

/-! ## Teardown and replies -/

section Replies

variable {R : UInt32 → UInt32 → Prop} {s : FtpState} {t : Times} {now later : UInt32}
  {text : List UInt8}

theorem teardown_alike (h : Stamps R s.core t) :
    Alike (Timed R) (teardown s) (teardown (s.retimed t)) := by
  refine alike_bind (alike_refl (endOperation s)) fun _ _ _ => ?_
  refine alike_ite Iff.rfl (fun _ => ?_) fun _ => ?_
  · exact alike_pure ⟨t, rfl, h.torn⟩
  · exact alike_ask fun _ => alike_pure ⟨t, rfl, h.torn⟩

theorem lost_alike (h : Stamps R s.core t) :
    Alike (Timed R) (lost s) (lost (s.retimed t)) := by
  refine alike_ite Iff.rfl (fun _ => alike_pure ⟨t, rfl, h⟩) fun _ => ?_
  refine alike_bind (teardown_alike h) fun s₁ s₂ h₁ => ?_
  obtain ⟨t₁, rfl, h₁⟩ := h₁
  exact alike_pure ⟨_, rfl, h₁.left⟩

theorem reply_alike (h : Stamps R s.core t) (hn : R now later) {start : Bool} :
    Alike (Both R) (reply s text start now) (reply (s.retimed t) text start later) := by
  unfold reply
  by_cases hfull : s.core.replies.count = ftpReplySlots
  · rw [dif_pos hfull, dif_pos (by exact hfull)]
    refine alike_ask fun _ => alike_bind (lost_alike h) fun s₁ s₂ h₁ => ?_
    exact alike_pure ⟨rfl, h₁⟩
  · rw [dif_neg hfull, dif_neg (by exact hfull)]
    exact alike_ask fun _ => alike_pure ⟨rfl, _, rfl, h.queue hn _⟩

theorem answer_alike (h : Stamps R s.core t) (hn : R now later) :
    Alike (Timed R) (answer s text now) (answer (s.retimed t) text later) :=
  alike_bind (reply_alike h hn) fun _ _ h₁ => alike_pure h₁.2

theorem failure_alike (h : Stamps R s.core t) (hn : R now later) :
    Alike (Timed R) (failure s text now) (failure (s.retimed t) text later) := by
  refine alike_bind (teardown_alike h) fun s₁ s₂ h₁ => ?_
  obtain ⟨t₁, rfl, h₁⟩ := h₁
  exact answer_alike h₁ hn

end Replies

/-! ## Control input -/

section Commands

variable {R : UInt32 → UInt32 → Prop} {s : FtpState} {t : Times} {now later : UInt32}
  {line arg : List UInt8}

theorem Stamps.started {c : FtpCore} (h : Stamps R c t) (hn : R now later)
    {upload : Bool} {view : FtpStorageView} :
    Stamps R (c.started upload view now) { t with start := later, progress := later } where
  control := h.control
  since := h.since
  output := h.output
  dataOutput := h.dataOutput
  passive := h.passive
  start := fun _ => hn
  progress := fun _ => hn
  closing := h.closing
  quitting := h.quitting
  silent := h.silent

theorem openTransfer_alike (h : Stamps R s.core t) (hn : R now later) {upload : Bool}
    {view : FtpStorageView} : Alike (Timed R) (openTransfer s upload view now)
      (openTransfer (s.retimed t) upload view later) := by
  refine alike_bind (reply_alike (s := { s with core := s.core.started upload view now })
    (h.started hn) hn) fun _ _ h₁ => alike_pure h₁.2

theorem startTransfer_alike (h : Stamps R s.core t) (hn : R now later)
    {upload special : Bool} {view : FtpStorageView} :
    Alike (Timed R) (startTransfer s arg upload special view now)
      (startTransfer (s.retimed t) arg upload special view later) := by
  refine alike_ite Iff.rfl (fun _ => alike_ask fun result => ?_) fun _ => ?_
  · cases result with
    | none => exact failure_alike h hn
    | some view =>
        exact openTransfer_alike (s := { s with core := { s.core with operation := true } })
          ⟨h.control, h.since, h.output, h.dataOutput, h.passive, h.start, h.progress,
            h.closing, h.quitting, h.silent⟩ hn
  refine alike_ite Iff.rfl (fun _ => alike_ask fun result => ?_) fun _ => ?_
  · exact alike_ite Iff.rfl (fun _ => failure_alike h hn)
      fun _ => openTransfer_alike h hn
  · exact openTransfer_alike h hn

theorem commandTransfer_alike (h : Stamps R s.core t) (hn : R now later) {upload : Bool} :
    Alike (Timed R) (commandTransfer s arg upload now)
      (commandTransfer (s.retimed t) arg upload later) := by
  refine alike_bind (alike_refl (operationMatches s arg upload)) fun special _ hs => ?_
  subst hs
  refine alike_bind (alike_refl (viewUnless s special)) fun view _ hv => ?_
  subst hv
  refine alike_bind (alike_refl (unavailable s arg upload special view))
    fun refused _ hr => ?_
  subst hr
  refine alike_ite Iff.rfl (fun _ => answer_alike h hn) fun _ => ?_
  refine alike_ite Iff.rfl (fun _ => answer_alike h hn) fun _ => ?_
  refine alike_ite Iff.rfl (fun _ => answer_alike h hn) fun _ => ?_
  exact startTransfer_alike h hn

theorem commandLoggedIn_alike (h : Stamps R s.core t) (hn : R now later)
    {verb : List UInt8} : Alike (Timed R) (commandLoggedIn s verb arg now)
      (commandLoggedIn (s.retimed t) verb arg later) := by
  refine alike_ite Iff.rfl (fun _ => answer_alike h hn) fun _ => ?_
  refine alike_ite Iff.rfl (fun _ => answer_alike h hn) fun _ => ?_
  refine alike_ite Iff.rfl (fun _ => answer_alike h hn) fun _ => ?_
  refine alike_ite Iff.rfl (fun _ => ?_) fun _ => ?_
  · refine alike_ite Iff.rfl (fun _ => ?_) fun _ => ?_
    · exact answer_alike (s := { s with core := { s.core with binary := true } })
        ⟨h.control, h.since, h.output, h.dataOutput, h.passive, h.start, h.progress,
          h.closing, h.quitting, h.silent⟩ hn
    · exact answer_alike (s := { s with core := { s.core with binary := false } })
        ⟨h.control, h.since, h.output, h.dataOutput, h.passive, h.start, h.progress,
          h.closing, h.quitting, h.silent⟩ hn
  refine alike_ite Iff.rfl (fun _ => ?_) fun _ => ?_
  · refine alike_bind (teardown_alike h) fun s₁ s₂ h₁ => ?_
    obtain ⟨t₁, rfl, h₁⟩ := h₁
    refine alike_pure ⟨{ t₁ with passive := later }, rfl, ?_⟩
    exact ⟨h₁.control, h₁.since, h₁.output, h₁.dataOutput, fun _ => hn, h₁.start,
      h₁.progress, h₁.closing, h₁.quitting, h₁.silent⟩
  refine alike_ite Iff.rfl (fun _ => ?_) fun _ => ?_
  · refine alike_ask fun view => alike_ask fun served => ?_
    exact alike_ite Iff.rfl (fun _ => answer_alike h hn) fun _ => answer_alike h hn
  refine alike_ite Iff.rfl (fun _ => commandTransfer_alike h hn) fun _ => ?_
  exact answer_alike h hn

/-- Of a session that quits the closing time is read once its ring is empty. -/
theorem Stamps.quit {c : FtpCore} (h : Stamps R c t) (hne : c.replies.count ≠ 0) :
    Stamps R { c with quitting := true } t :=
  ⟨h.control, h.since, h.output, h.dataOutput, h.passive, h.start, h.progress, h.closing,
    fun _ hempty => absurd hempty hne, h.silent⟩

theorem goodbye_alike (h : Stamps R s.core t) (hn : R now later) {text : List UInt8} :
    Alike (Timed R)
      (answer { s with core := { s.core with quitting := true } } text now)
      (answer { s.retimed t with core := { (s.retimed t).core with quitting := true } }
        text later) := by
  by_cases hempty : s.core.replies.count = 0
  · have hfull : s.core.replies.count ≠ ftpReplySlots := by
      rw [hempty]
      decide
    unfold answer reply
    rw [dif_neg (by exact hfull), dif_neg (by exact hfull)]
    have hlt := Nat.lt_of_le_of_ne s.core.replies.count_le hfull
    exact alike_ask fun _ => alike_pure
      ⟨_, rfl, (h.queue hn hlt).quit (Nat.succ_ne_zero _)⟩
  · exact answer_alike (s := { s with core := { s.core with quitting := true } })
      (h.quit hempty) hn

theorem command_alike (h : Stamps R s.core t) (hn : R now later) :
    Alike (Timed R) (command s line now) (command (s.retimed t) line later) := by
  refine alike_ite Iff.rfl (fun _ => ?_) fun _ => ?_
  · refine alike_bind (teardown_alike h) fun s₁ s₂ h₁ => ?_
    obtain ⟨t₁, rfl, h₁⟩ := h₁
    exact goodbye_alike h₁ hn
  refine alike_ite Iff.rfl (fun _ => ?_) fun _ => ?_
  · refine alike_bind (teardown_alike h) fun s₁ s₂ h₁ => ?_
    obtain ⟨t₁, rfl, h₁⟩ := h₁
    exact answer_alike h₁ hn
  refine alike_ite Iff.rfl (fun _ => answer_alike h hn) fun _ => ?_
  refine alike_ite Iff.rfl (fun _ => answer_alike h hn) fun _ => ?_
  refine alike_ite Iff.rfl (fun _ => answer_alike h hn) fun _ => ?_
  refine alike_ite Iff.rfl (fun _ => answer_alike h hn) fun _ => ?_
  refine alike_ite Iff.rfl (fun _ => ?_) fun _ => ?_
  · refine alike_bind (teardown_alike h) fun s₁ s₂ h₁ => ?_
    obtain ⟨t₁, rfl, h₁⟩ := h₁
    exact answer_alike (s := { s₁ with core := { s₁.core with
        user := argOf line = ascii "anonymous"
        login := false
        binary := false } })
      ⟨h₁.control, h₁.since, h₁.output, h₁.dataOutput, h₁.passive, h₁.start, h₁.progress,
        h₁.closing, h₁.quitting, h₁.silent⟩ hn
  refine alike_ite Iff.rfl (fun _ => ?_) fun _ => ?_
  · refine alike_ite Iff.rfl (fun _ => ?_) fun _ => answer_alike h hn
    exact answer_alike (s := { s with core := { s.core with login := true } })
      ⟨h.control, h.since, h.output, h.dataOutput, h.passive, h.start, h.progress,
        h.closing, h.quitting, h.silent⟩ hn
  refine alike_ite Iff.rfl (fun _ => answer_alike h hn) fun _ => ?_
  exact commandLoggedIn_alike h hn

/-- What a parser makes of a byte depends on the time in one field only. -/
theorem parseByte_since (p : Parser) (byte : UInt8) (now : UInt32) :
    parseByte p byte now =
      ((parseByte { p with active := true, since := 0 } byte 0).1,
        { (parseByte { p with active := true, since := 0 } byte 0).2 with
          since := if p.active then p.since else now }) := by
  have hstart : (if p.active then p else { p with active := true, since := now }) =
      { p with active := true, since := if p.active then p.since else now } := by
    obtain ⟨text, bad, cr, active, since⟩ := p
    cases active <;> rfl
  unfold parseByte
  rw [hstart, if_pos rfl]
  dsimp only
  by_cases hline : (p.cr && byte == 0x0a) = true
  · rw [if_pos hline, if_pos hline]
  rw [if_neg hline, if_neg hline]
  by_cases hcr : byte = 0x0d
  · rw [if_pos hcr, if_pos hcr]
  rw [if_neg hcr, if_neg hcr]
  by_cases hlen : p.text.length < ftpControlCapacity - 1
  · rw [if_pos hlen, if_pos hlen]
  · rw [if_neg hlen, if_neg hlen]

/-- A parser that took its first byte at another time reads on alike. -/
theorem parseByte_alike {p : Parser} {u : UInt32} (byte : UInt8)
    (h : p.active = true → R p.since u) (hn : R now later) :
    ∃ u', parseByte { p with since := u } byte later =
        ((parseByte p byte now).1, { (parseByte p byte now).2 with since := u' }) ∧
      R (parseByte p byte now).2.since u' := by
  rw [parseByte_since p, parseByte_since { p with since := u }]
  refine ⟨if p.active then u else later, rfl, ?_⟩
  dsimp only
  split
  · next hactive => exact h hactive
  · exact hn

theorem countLines_alike {p : Parser} {u : UInt32} {bytes : List UInt8} :
    countLines { p with since := u } later bytes = countLines p now bytes := by
  induction bytes generalizing p u with
  | nil => rfl
  | cons byte bytes ih =>
      obtain ⟨u', hp, -⟩ := @parseByte_alike (fun _ _ => True) now later p u byte
        (fun _ => trivial) trivial
      have hzero : countLines .zero later bytes = countLines .zero now bytes :=
        ih (p := .zero) (u := 0)
      rw [countLines, countLines, hp]
      dsimp only
      rw [hzero, ih]

theorem executeLine_alike (h : Stamps R s.core t) (hn : R now later) {p : Parser}
    {u : UInt32} : Alike (Timed R) (executeLine s p now)
      (executeLine (s.retimed t) { p with since := u } later) := by
  refine alike_ite Iff.rfl (fun _ => answer_alike h hn) fun _ => ?_
  exact command_alike h hn

theorem Stamps.parsed {c : FtpCore} (h : Stamps R c t) {p : Parser} {u : UInt32}
    (hu : p.active = true → R p.since u) (hs : c.session = true) :
    Stamps R { c with parser := p } { t with since := u } :=
  ⟨h.control, hu, h.output, h.dataOutput, h.passive, h.start, h.progress, h.closing,
    h.quitting, fun hf => by rw [show c.session = true from hs] at hf; cases hf⟩

/-- No line of the span loses the session, so the parser only ever runs in one. -/
theorem controlLoop_alike {bytes : List UInt8} {accepted : Nat} (h : Stamps R s.core t)
    (hn : R now later) (hs : Readable s now bytes) :
    Alike (Both R) (controlLoop s now accepted bytes)
      (controlLoop (s.retimed t) later accepted bytes) := by
  induction bytes generalizing s t accepted with
  | nil => exact alike_pure ⟨rfl, t, rfl, h⟩
  | cons byte bytes ih =>
      obtain ⟨u, hp, hu⟩ := parseByte_alike byte h.since hn
      have hparsed := h.parsed (fun _ => hu) hs.session
      unfold controlLoop
      rw [show parseByte (s.retimed t).core.parser byte later = _ from hp]
      generalize hq : parseByte s.core.parser byte now = parsed at hparsed
      obtain ⟨line, p⟩ := parsed
      dsimp only at hparsed ⊢
      refine alike_ite Iff.rfl (fun hline => ?_) fun hline => ?_
      · subst hline
        refine alike_bind_runs (executeLine_alike (s := s.parsing p) hparsed hn)
          fun tr s₁ s₂ hr h₁ => ?_
        obtain ⟨he, hx⟩ := executeLine_effects (hs.ready hq) hr
        obtain ⟨t₁, rfl, h₁⟩ := h₁
        have hcleared := h₁.parsed (p := .zero) (u := 0) (fun hused => absurd hused Bool.false_ne_true) hx.session
        refine alike_ite Iff.rfl (fun _ => alike_pure ⟨rfl, _, rfl, hcleared⟩) fun _ => ?_
        refine alike_ite Iff.rfl (fun _ => alike_pure ⟨rfl, _, rfl, hcleared⟩)
          fun hopen => ?_
        exact ih (s := s₁.parsing .zero) hcleared
          (hs.line hq hr (Bool.eq_false_iff.mpr hopen))
      · rw [Bool.not_eq_true] at hline
        subst hline
        exact ih (s := s.parsing p) hparsed (hs.skip hq)

theorem controlSpan_alike {bytes : List UInt8} (h : Stamps R s.core t) (hn : R now later)
    (hs : Sound s) : Alike (Both R) (ftpCoreControlSpan s bytes now)
      (ftpCoreControlSpan (s.retimed t) bytes later) := by
  have hlines : countLines (s.retimed t).core.parser later bytes =
      countLines s.core.parser now bytes := countLines_alike
  unfold ftpCoreControlSpan
  dsimp only
  rw [hlines]
  refine alike_ite Iff.rfl (fun _ => alike_pure ⟨rfl, t, rfl, h⟩) fun hin => ?_
  refine alike_ite Iff.rfl (fun _ => alike_pure ⟨rfl, t, rfl, h⟩) fun hopen => ?_
  refine alike_ite Iff.rfl (fun _ => alike_pure ⟨rfl, t, rfl, h⟩) fun hroom => ?_
  simp only [not_or, Bool.not_eq_true', Bool.not_eq_false] at hin
  have hloop : Alike (Both R) (controlLoop s now 0 bytes)
      (controlLoop (s.retimed t) later 0 bytes) := by
    refine controlLoop_alike h hn ⟨hs, hin.1, Bool.eq_false_iff.mpr hopen, fun hpos => ?_⟩
    have h8 : ftpReplySlots - 1 = 7 := rfl
    rw [h8] at hroom
    omega
  refine alike_bind hloop ?_
  rintro ⟨n, s₁⟩ ⟨m, s₂⟩ ⟨hnm, t₁, hs₂, h₁⟩
  dsimp only at hnm hs₂ h₁
  subst hnm
  subst hs₂
  refine alike_pure ⟨rfl, ?_⟩
  dsimp only
  split
  · exact ⟨{ t₁ with control := later }, rfl, fun _ => hn, h₁.since, h₁.output,
      h₁.dataOutput, h₁.passive, h₁.start, h₁.progress, h₁.closing, h₁.quitting, h₁.silent⟩
  · exact ⟨t₁, rfl, h₁⟩

end Commands

/-! ## The data connection -/

section Data

variable {R : UInt32 → UInt32 → Prop} {s : FtpState} {t : Times} {now later : UInt32}

theorem passiveResult_alike {success : Bool} {address : Option (Fin 4 → UInt8)}
    {port : UInt16} (h : Stamps R s.core t) (hn : R now later) :
    Alike (Both R) (ftpCorePassiveResult s success address port now)
      (ftpCorePassiveResult (s.retimed t) success address port later) := by
  refine alike_ite Iff.rfl (fun _ => alike_pure ⟨rfl, t, rfl, h⟩) fun hin => ?_
  simp only [not_or, Bool.not_eq_true', Bool.not_eq_false] at hin
  refine alike_ite Iff.rfl (fun _ => ?_) fun _ => ?_
  · refine alike_bind (failure_alike (s := { s with core := { s.core with
      actions := s.core.actions &&& ~~~ftpOpenPassive } }) ?_ hn)
      fun _ _ h₁ => alike_pure ⟨rfl, h₁⟩
    exact ⟨h.control, h.since, h.output, h.dataOutput, h.passive, h.start, h.progress,
      h.closing, h.quitting, h.silent⟩
  · refine reply_alike (s := { s with core := { s.core with
      actions := s.core.actions &&& ~~~ftpOpenPassive
      opening := false
      passive := true } }) ?_ hn
    exact ⟨h.control, h.since, h.output, h.dataOutput, fun _ => h.passive (.inl hin.2),
      h.start, h.progress, h.closing, h.quitting, h.silent⟩

theorem dataConnected_alike (h : Stamps R s.core t) (hn : R now later) :
    Both R (ftpCoreDataConnected s now) (ftpCoreDataConnected (s.retimed t) later) := by
  unfold ftpCoreDataConnected
  by_cases hno : (!s.core.session) = true ∨ (!s.core.passive) = true ∨
      s.core.connected = true ∨ s.core.closing = true
  · rw [if_pos hno, if_pos (by exact hno)]
    exact ⟨rfl, t, rfl, h⟩
  · rw [if_neg hno, if_neg (by exact hno)]
    exact ⟨rfl, { t with progress := later, dataOutput := later }, rfl, h.control, h.since,
      h.output, fun _ => hn, h.passive, h.start, fun _ => hn, h.closing, h.quitting,
      h.silent⟩

/-- The times after progress. -/
theorem Stamps.progressed {c : FtpCore} (h : Stamps R c t) (hn : R now later) (n : Nat) :
    ∃ t', (c.retimed t).progressed n later = (c.progressed n now).retimed t' ∧
      Stamps R (c.progressed n now) t' := by
  unfold FtpCore.progressed
  by_cases hpos : n ≠ 0
  · rw [if_pos hpos, if_pos hpos]
    exact ⟨{ t with progress := later }, rfl, h.control, h.since, h.output, h.dataOutput,
      h.passive, h.start, fun _ => hn, h.closing, h.quitting, h.silent⟩
  · rw [if_neg hpos, if_neg hpos]
    exact ⟨t, rfl, h⟩

theorem Stamps.closeData {c : FtpCore} (h : Stamps R c t) (hn : R now later) :
    Stamps R (c.closeData now) { t with close := later } :=
  ⟨h.control, h.since, h.output, h.dataOutput, h.passive, h.start, h.progress, fun _ => hn,
    fun _ _ => hn, h.silent⟩

theorem feedOperation_alike {bytes : List UInt8} (h : Stamps R s.core t)
    (hn : R now later) : Alike (Both R) (feedOperation s bytes now)
      (feedOperation (s.retimed t) bytes later) := by
  refine alike_ask fun r => ?_
  obtain ⟨r, accepted⟩ := r
  dsimp only
  generalize (if accepted > bytes.length then 0 else accepted) = n
  generalize (if accepted > bytes.length then FtpOperationResult.error else r) = r'
  obtain ⟨t', heq, ht'⟩ := h.progressed hn n
  rw [show (s.retimed t).core.progressed n later = _ from heq]
  refine alike_ite Iff.rfl (fun _ => ?_) fun _ => alike_pure ⟨rfl, t', rfl, ht'⟩
  exact alike_bind (failure_alike (s := { s with core := s.core.progressed n now }) ht' hn)
    fun _ _ h₁ => alike_pure ⟨rfl, h₁⟩

theorem appendStorage_alike {bytes : List UInt8} (h : Stamps R s.core t)
    (hn : R now later) : Alike (Both R) (appendStorage s bytes now)
      (appendStorage (s.retimed t) bytes later) := by
  refine alike_ask fun result => ?_
  refine alike_ite Iff.rfl (fun _ => ?_) fun _ => ?_
  · exact alike_bind (failure_alike h hn) fun _ _ h₁ => alike_pure ⟨rfl, h₁⟩
  · obtain ⟨t', heq, ht'⟩ := h.progressed hn bytes.length
    exact alike_pure ⟨rfl, t', congrArg (FtpState.mk s.storage s.operation) heq, ht'⟩

theorem uploadSpan_alike {bytes : List UInt8} (h : Stamps R s.core t) (hn : R now later) :
    Alike (Both R) (ftpCoreUploadSpan s bytes now)
      (ftpCoreUploadSpan (s.retimed t) bytes later) := by
  refine alike_ite Iff.rfl (fun _ => alike_pure ⟨rfl, t, rfl, h⟩) fun _ => ?_
  exact alike_ite Iff.rfl (fun _ => feedOperation_alike h hn)
    fun _ => appendStorage_alike h hn

theorem uploadChunk_alike {bytes : List UInt8} (h : Stamps R s.core t)
    (hn : R now later) : Alike (Both R) (ftpCoreUploadChunk s bytes now)
      (ftpCoreUploadChunk (s.retimed t) bytes later) := by
  refine alike_ite Iff.rfl (fun _ => alike_pure ⟨rfl, t, rfl, h⟩) fun _ => ?_
  refine alike_bind (uploadSpan_alike h hn) ?_
  rintro ⟨out, s₁⟩ ⟨out', s₂⟩ ⟨hout, h₁⟩
  dsimp only at hout h₁
  subst hout
  exact alike_pure ⟨rfl, h₁⟩

theorem uploadEof_alike (h : Stamps R s.core t) (hn : R now later) :
    Alike (Both R) (ftpCoreUploadEof s now) (ftpCoreUploadEof (s.retimed t) later) := by
  have heof : Stamps R { s.core with eof := true } t :=
    ⟨h.control, h.since, h.output, h.dataOutput, h.passive, h.start, h.progress, h.closing,
      h.quitting, h.silent⟩
  refine alike_ite Iff.rfl (fun _ => alike_pure ⟨rfl, t, rfl, h⟩) fun _ => ?_
  refine alike_ite Iff.rfl (fun _ => alike_ask fun done => ?_) fun _ => ?_
  · refine alike_ite Iff.rfl (fun _ => ?_) fun _ => alike_pure ⟨rfl, t, rfl, heof⟩
    exact alike_bind (failure_alike (s := { s with core := { s.core with eof := true } })
      heof hn) fun _ _ h₁ => alike_pure ⟨rfl, h₁⟩
  · exact alike_pure ⟨rfl, _, rfl, heof.closeData hn⟩

theorem foreground_alike (h : Stamps R s.core t) (hn : R now later) :
    Alike (Timed R) (ftpCoreForeground s now) (ftpCoreForeground (s.retimed t) later) := by
  refine alike_ite Iff.rfl (fun _ => alike_pure ⟨t, rfl, h⟩) fun _ => ?_
  refine alike_ask fun r => ?_
  refine alike_ite Iff.rfl (fun _ => ?_) fun _ => ?_
  · refine alike_ite Iff.rfl (fun _ => failure_alike h hn) fun _ => ?_
    refine alike_pure ⟨{ t with close := later }, rfl, ?_⟩
    exact ⟨h.control, h.since, h.output, h.dataOutput, h.passive, h.start, h.progress,
      fun _ => hn, fun _ _ => hn, h.silent⟩
  refine alike_ite Iff.rfl (fun _ => failure_alike h hn) fun _ => ?_
  exact alike_pure ⟨t, rfl, h⟩

/-- The times after a download that may have come to its end. -/
theorem Stamps.downloaded {c : FtpCore} (h : Stamps R c t) (hn : R now later) :
    ∃ t', (c.retimed t).downloaded later = (c.downloaded now).retimed t' ∧
      Stamps R (c.downloaded now) t' := by
  unfold FtpCore.downloaded
  by_cases hdone : c.enqueued = c.download.length ∧ c.acked = c.download.length
  · rw [if_pos hdone, if_pos (by exact hdone)]
    exact ⟨_, rfl, h.closeData hn⟩
  · rw [if_neg hdone, if_neg (by exact hdone)]
    exact ⟨t, rfl, h⟩

theorem downloadEnqueued_alike {n : Nat} (h : Stamps R s.core t) (hn : R now later) :
    Both R (ftpCoreDownloadEnqueued s n now)
      (ftpCoreDownloadEnqueued (s.retimed t) n later) := by
  unfold ftpCoreDownloadEnqueued
  by_cases hno : (!s.core.transferReady) = true ∨ s.core.direction ≠ .download ∨
      n > s.core.download.length - s.core.enqueued
  · rw [if_pos hno, if_pos (by exact hno)]
    exact ⟨rfl, t, rfl, h⟩
  rw [if_neg hno, if_neg (by exact hno)]
  dsimp only
  by_cases hpos : n ≠ 0
  · rw [if_pos hpos, if_pos hpos]
    have hsent : Stamps R { s.core with
        enqueued := s.core.enqueued + n
        progressTime := now
        dataOutputTime := now } { t with progress := later, dataOutput := later } :=
      ⟨h.control, h.since, h.output, fun _ => hn, h.passive, h.start, fun _ => hn,
        h.closing, h.quitting, h.silent⟩
    obtain ⟨t', heq, ht'⟩ := hsent.downloaded hn
    exact ⟨rfl, t', congrArg (FtpState.mk s.storage s.operation) heq, ht'⟩
  · rw [if_neg hpos, if_neg hpos]
    have hsent : Stamps R { s.core with enqueued := s.core.enqueued + n } t :=
      ⟨h.control, h.since, h.output, h.dataOutput, h.passive, h.start, h.progress,
        h.closing, h.quitting, h.silent⟩
    obtain ⟨t', heq, ht'⟩ := hsent.downloaded hn
    exact ⟨rfl, t', congrArg (FtpState.mk s.storage s.operation) heq, ht'⟩

theorem downloadAcked_alike {n : Nat} (h : Stamps R s.core t) (hn : R now later) :
    Both R (ftpCoreDownloadAcked s n now) (ftpCoreDownloadAcked (s.retimed t) n later) := by
  unfold ftpCoreDownloadAcked
  by_cases hno : (!s.core.transferReady) = true ∨ s.core.direction ≠ .download ∨
      n > s.core.enqueued - s.core.acked
  · rw [if_pos hno, if_pos (by exact hno)]
    exact ⟨rfl, t, rfl, h⟩
  rw [if_neg hno, if_neg (by exact hno)]
  dsimp only
  have hacked : Stamps R { s.core with acked := s.core.acked + n } t :=
    ⟨h.control, h.since, h.output, h.dataOutput, h.passive, h.start, h.progress, h.closing,
      h.quitting, h.silent⟩
  obtain ⟨t₁, heq₁, h₁⟩ := hacked.progressed hn n
  obtain ⟨t₂, heq₂, h₂⟩ := h₁.downloaded hn
  refine ⟨rfl, t₂, ?_, h₂⟩
  rw [← heq₁] at heq₂
  exact congrArg (FtpState.mk s.storage s.operation) heq₂

theorem dataCloseResult_alike {accepted : Bool} (h : Stamps R s.core t)
    (hn : R now later) : Alike (Both R) (ftpCoreDataCloseResult s accepted now)
      (ftpCoreDataCloseResult (s.retimed t) accepted later) := by
  refine alike_ite Iff.rfl (fun _ => alike_pure ⟨rfl, t, rfl, h⟩) fun _ => ?_
  refine alike_ite Iff.rfl (fun _ => alike_pure ⟨rfl, t, rfl, h⟩) fun _ => ?_
  refine alike_ite Iff.rfl (fun _ => ?_) fun _ => ?_
  · exact alike_ask fun _ => alike_bind (lost_alike h)
      fun _ _ h₁ => alike_pure ⟨rfl, h₁⟩
  refine alike_bind (alike_refl (commitUpload s)) fun committed _ hc => ?_
  subst hc
  have hclosed : Stamps R { s.core with connected := false, closing := false } t :=
    ⟨h.control, h.since, h.output, nofun, h.passive, h.start, h.progress, nofun,
      h.quitting, h.silent⟩
  refine alike_bind (teardown_alike (s := { s with core := { s.core with
    connected := false
    closing := false } }) hclosed) fun s₁ s₂ h₁ => ?_
  obtain ⟨t₁, rfl, h₁⟩ := h₁
  have hmasked : Stamps R { s₁.core with
      actions := s₁.core.actions &&& ~~~(ftpAbortData ||| ftpCloseData) } t₁ :=
    ⟨h₁.control, h₁.since, h₁.output, h₁.dataOutput, h₁.passive, h₁.start, h₁.progress,
      h₁.closing, h₁.quitting, h₁.silent⟩
  refine alike_bind (reply_alike (s := { s₁ with core := { s₁.core with
    actions := s₁.core.actions &&& ~~~(ftpAbortData ||| ftpCloseData) } }) hmasked hn) ?_
  rintro ⟨queued, s₂⟩ ⟨queued', s₃⟩ ⟨hq, h₂⟩
  dsimp only at hq h₂
  subst hq
  exact alike_pure ⟨rfl, h₂⟩

theorem dataError_alike (h : Stamps R s.core t) (hn : R now later) :
    Alike (Timed R) (ftpCoreDataError s now) (ftpCoreDataError (s.retimed t) later) := by
  refine alike_ite Iff.rfl (fun _ => failure_alike h hn) fun _ => ?_
  refine alike_ite Iff.rfl (fun _ => failure_alike h hn) fun _ => ?_
  exact alike_pure ⟨t, rfl, h⟩

end Data

/-! ## Deadlines -/

section Deadlines

variable {R : UInt32 → UInt32 → Prop} {s : FtpState} {t : Times} {now later : UInt32}

theorem elapsed_even (heven : Even R) (hn : R now later) {x y limit : UInt32}
    (h : R x y) : elapsed later y limit = elapsed now x limit := by
  unfold elapsed
  rw [heven h hn]

/-- A deadline that is evaluated only while `b` holds. -/
theorem guarded_even (heven : Even R) (hn : R now later) {b : Bool} {x y limit : UInt32}
    (h : b = true → R x y) : (b && elapsed later y limit) = (b && elapsed now x limit) := by
  cases b with
  | false => rfl
  | true => rw [elapsed_even heven hn (h rfl)]

theorem expired_alike (heven : Even R) (h : Stamps R s.core t) (hn : R now later)
    (hs : s.core.session = true) :
    (s.core.retimed t).expired later = s.core.expired now := by
  have hquit : (s.core.quitting && s.core.replies.count == 0) = true →
      R s.core.closeTime t.close := by
    intro hb
    rw [Bool.and_eq_true, beq_iff_eq] at hb
    exact h.quitting hb.1 hb.2
  have houtput : (s.core.replies.count != 0) = true → R s.core.outputTime t.output :=
    fun hb => h.output (bne_iff_ne.mp hb)
  unfold FtpCore.expired
  rw [← guarded_even heven hn h.since, ← guarded_even heven hn houtput,
    ← guarded_even heven hn hquit, ← elapsed_even heven hn (h.control hs)]
  rfl

theorem tick_alike (heven : Even R) (h : Stamps R s.core t) (hn : R now later) :
    Alike (Timed R) (ftpCoreTick s now) (ftpCoreTick (s.retimed t) later) := by
  refine alike_ite Iff.rfl (fun _ => alike_pure ⟨t, rfl, h⟩) fun hs => ?_
  rw [Bool.not_eq_true', Bool.not_eq_false] at hs
  refine alike_ite ?_ (fun _ => lost_alike h) fun _ => ?_
  · rw [show (s.retimed t).core.expired later = _ from expired_alike heven h hn hs]
  -- A deadline is compared once what comes before it says that its time is read.
  have hlate : ∀ {x y limit : UInt32}, R x y →
      (elapsed now x limit = true ↔ elapsed later y limit = true) := by
    intro x y limit hxy
    rw [elapsed_even heven hn hxy]
  refine alike_ite (and_congr_right fun hc => hlate (h.closing hc))
    (fun _ => failure_alike h hn) fun _ => ?_
  refine alike_ite (and_congr_right fun _ => and_congr_right fun hc => and_congr_right
      fun _ => and_congr_right fun _ => and_congr_right fun _ => hlate (h.dataOutput hc))
    (fun _ => failure_alike h hn) fun _ => ?_
  refine alike_ite (and_congr_right fun hd => hlate (h.start hd))
    (fun _ => failure_alike h hn) fun _ => ?_
  refine alike_ite (and_congr_right fun hd => hlate (h.progress hd))
    (fun _ => failure_alike h hn) fun _ => ?_
  refine alike_ite (and_congr_right fun hp => hlate (h.passive ?_))
    (fun _ => failure_alike h hn) fun _ => alike_pure ⟨t, rfl, h⟩
  rcases hp with ho | ⟨hp, -⟩ | ⟨hp, -⟩
  · exact .inl ho
  · exact .inr hp
  · exact .inr hp

end Deadlines

/-! ## The calls -/

namespace FtpCall

/-- The times a call is told. -/
def nows : FtpCall → List UInt32
  | .sessionOpen now => [now]
  | .replyConsume _ now => [now]
  | .controlSpan _ now => [now]
  | .passiveResult _ _ _ now => [now]
  | .dataConnected now => [now]
  | .uploadChunk _ now => [now]
  | .uploadSpan _ now => [now]
  | .uploadEof now => [now]
  | .foreground now => [now]
  | .downloadEnqueued _ now => [now]
  | .downloadAcked _ now => [now]
  | .dataCloseResult _ now => [now]
  | .dataError now => [now]
  | .tick now => [now]
  | _ => []

/-- The call, told other times. -/
def retime (f : UInt32 → UInt32) : FtpCall → FtpCall
  | .sessionOpen now => .sessionOpen (f now)
  | .replyConsume n now => .replyConsume n (f now)
  | .controlSpan bytes now => .controlSpan bytes (f now)
  | .passiveResult success address port now => .passiveResult success address port (f now)
  | .dataConnected now => .dataConnected (f now)
  | .uploadChunk bytes now => .uploadChunk bytes (f now)
  | .uploadSpan bytes now => .uploadSpan bytes (f now)
  | .uploadEof now => .uploadEof (f now)
  | .foreground now => .foreground (f now)
  | .downloadEnqueued n now => .downloadEnqueued n (f now)
  | .downloadAcked n now => .downloadAcked n (f now)
  | .dataCloseResult accepted now => .dataCloseResult accepted (f now)
  | .dataError now => .dataError (f now)
  | .tick now => .tick (f now)
  | call => call

end FtpCall

section Calls

variable {R : UInt32 → UInt32 → Prop} {s : FtpState} {t : Times} {now later : UInt32}

theorem unit_alike {p q : FtpProg FtpState} (h : Alike (Timed R) p q) :
    Alike (Both R) (returnUnit p) (returnUnit q) :=
  alike_bind h fun _ _ h₁ => alike_pure ⟨rfl, h₁⟩

theorem bool_alike {p q : FtpProg (Bool × FtpState)} (h : Alike (Both R) p q) :
    Alike (Both R) (returnBool p) (returnBool q) :=
  alike_bind h fun _ _ h₁ => alike_pure ⟨congrArg FtpReturn.bool h₁.1, h₁.2⟩

theorem input_alike {p q : FtpProg ((FtpInput × Nat) × FtpState)}
    (h : Alike (Both R) p q) : Alike (Both R) (returnInput p) (returnInput q) := by
  refine alike_bind h fun x y h₁ => alike_pure ⟨?_, h₁.2⟩
  show FtpReturn.input y.1.1 y.1.2 = .input x.1.1 x.1.2
  rw [h₁.1]

theorem init_alike {binding : FtpStorage} (h : Stamps R s.core t) :
    Both R (ftpCoreInit s binding) (ftpCoreInit (s.retimed t) binding) := by
  unfold ftpCoreInit
  by_cases hno : binding.capacity = 0 ∨ binding.capacity > 0xffffffff ∨
      (!binding.complete) = true ∨ (!s.core.quiescent) = true
  · rw [if_pos hno, if_pos (by exact hno)]
    exact ⟨rfl, t, rfl, h⟩
  · rw [if_neg hno, if_neg (by exact hno)]
    exact ⟨rfl, _, rfl, stamps_zero⟩

theorem bindOperation_alike {binding : Option FtpOperation} (h : Stamps R s.core t) :
    Both R (ftpCoreBindOperation s binding)
      (ftpCoreBindOperation (s.retimed t) binding) := by
  unfold ftpCoreBindOperation
  by_cases hno : (!s.core.quiescent) = true ∨ (binding.any fun b => !b.complete) = true
  · rw [if_pos hno, if_pos (by exact hno)]
    exact ⟨rfl, t, rfl, h⟩
  · rw [if_neg hno, if_neg (by exact hno)]
    exact ⟨rfl, t, rfl, h⟩

theorem reset_alike : Alike (Timed R) (ftpCoreReset s) (ftpCoreReset (s.retimed t)) := by
  refine alike_bind (alike_refl (endOperation s)) fun _ _ _ => ?_
  refine alike_ite Iff.rfl (fun _ => ?_) fun _ => ?_
  · exact alike_pure ⟨_, rfl, stamps_zero⟩
  · exact alike_ask fun _ => alike_pure ⟨_, rfl, stamps_zero⟩

theorem sessionOpen_alike (h : Stamps R s.core t) (hn : R now later) :
    Alike (Both R) (ftpCoreSessionOpen s now)
      (ftpCoreSessionOpen (s.retimed t) later) := by
  refine alike_ite Iff.rfl (fun _ => alike_pure ⟨rfl, t, rfl, h⟩) fun _ => ?_
  refine reply_alike (s := { s with
    core := { s.core with session := true, controlTime := now } })
    (t := { t with control := later }) ?_ hn
  exact ⟨fun _ => hn, h.since, h.output, h.dataOutput, h.passive, h.start, h.progress,
    h.closing, h.quitting, nofun⟩

theorem controlClosed_alike (h : Stamps R s.core t) :
    Alike (Timed R) (ftpCoreControlClosed s) (ftpCoreControlClosed (s.retimed t)) := by
  refine alike_bind (lost_alike h) fun s₁ s₂ h₁ => ?_
  obtain ⟨t₁, rfl, h₁⟩ := h₁
  exact alike_pure ⟨t₁, rfl, h₁.control, h₁.since, h₁.output, h₁.dataOutput, h₁.passive,
    h₁.start, h₁.progress, h₁.closing, h₁.quitting, h₁.silent⟩

theorem Stamps.drained {c : FtpCore} (h : Stamps R { c with quitting := false } t)
    (hn : R now later) : ∃ t', (c.retimed t).drained later = (c.drained now).retimed t' ∧
      Stamps R (c.drained now) t' := by
  unfold FtpCore.drained
  by_cases hdone : (c.quitting && c.replies.count == 0) = true
  · rw [if_pos hdone, if_pos (by exact hdone)]
    exact ⟨{ t with close := later }, rfl, h.control, h.since, h.output, h.dataOutput,
      h.passive, h.start, h.progress, fun _ => hn, fun _ _ => hn, h.silent⟩
  · rw [if_neg hdone, if_neg (by exact hdone)]
    refine ⟨t, rfl, h.control, h.since, h.output, h.dataOutput, h.passive, h.start,
      h.progress, h.closing, fun hq hc => absurd ?_ hdone, h.silent⟩
    rw [hq, Bool.true_and, beq_iff_eq]
    exact hc

/-- Up to what a session that quits still needs. -/
theorem Stamps.consumed {c : FtpCore} (h : Stamps R c t) (hn : R now later) (r : Reply) :
    ∃ t', (c.retimed t).consumed r later = (c.consumed r now).retimed t' ∧
      Stamps R { c.consumed r now with quitting := false } t' := by
  unfold FtpCore.consumed
  dsimp only
  by_cases hfull : r.offset = r.length
  · rw [if_pos hfull, if_pos hfull]
    by_cases hstart : (r.start && c.direction != .idle) = true
    · rw [if_pos hstart, if_pos (by exact hstart)]
      exact ⟨{ t with output := later, dataOutput := later }, rfl, h.control, h.since,
        fun _ => hn, fun _ => hn, h.passive, h.start, h.progress, h.closing, nofun,
        h.silent⟩
    · rw [if_neg hstart, if_neg (by exact hstart)]
      exact ⟨{ t with output := later }, rfl, h.control, h.since, fun _ => hn,
        h.dataOutput, h.passive, h.start, h.progress, h.closing, nofun, h.silent⟩
  · rw [if_neg hfull, if_neg hfull]
    exact ⟨{ t with output := later }, rfl, h.control, h.since, fun _ => hn, h.dataOutput,
      h.passive, h.start, h.progress, h.closing, nofun, h.silent⟩

theorem replyConsume_alike {n : Nat} (h : Stamps R s.core t) (hn : R now later) :
    Both R (ftpCoreReplyConsume s n now) (ftpCoreReplyConsume (s.retimed t) n later) := by
  unfold ftpCoreReplyConsume
  dsimp only
  by_cases hno : s.core.replies.count = 0 ∨ n = 0 ∨
      n > s.core.replies.front.length - s.core.replies.front.offset
  · rw [if_pos hno, if_pos (by exact hno)]
    exact ⟨rfl, t, rfl, h⟩
  rw [if_neg hno, if_neg (by exact hno)]
  obtain ⟨t₁, heq₁, h₁⟩ := h.consumed hn
    { s.core.replies.front with offset := s.core.replies.front.offset + n }
  obtain ⟨t₂, heq₂, h₂⟩ := h₁.drained hn
  refine ⟨rfl, t₂, ?_, h₂⟩
  rw [← heq₁] at heq₂
  exact congrArg (FtpState.mk s.storage s.operation) heq₂

/-- Every call of the interface, told related times. -/
theorem perform_alike (heven : Even R) (f : UInt32 → UInt32) {call : FtpCall}
    (hs : Sound s) (h : Stamps R s.core t) (hf : ∀ now ∈ call.nows, R now (f now)) :
    Alike (Both R) (call.perform s) ((call.retime f).perform (s.retimed t)) := by
  have hone : ∀ {now}, call.nows = [now] → R now (f now) := by
    intro now hnows
    refine hf now ?_
    rw [hnows]
    exact List.mem_cons_self
  cases call with
  | init binding => exact bool_alike (alike_pure (init_alike h))
  | bindOperation binding => exact bool_alike (alike_pure (bindOperation_alike h))
  | reset => exact unit_alike reset_alike
  | sessionOpen now => exact bool_alike (sessionOpen_alike h (hone rfl))
  | sessionLost => exact unit_alike (lost_alike h)
  | controlClosed => exact unit_alike (controlClosed_alike h)
  | takeActions =>
      exact alike_pure ⟨rfl, t, rfl, h.control, h.since, h.output, h.dataOutput, h.passive,
        h.start, h.progress, h.closing, h.quitting, h.silent⟩
  | replyPeek => exact alike_pure ⟨rfl, t, rfl, h⟩
  | replyConsume n now => exact bool_alike (alike_pure (replyConsume_alike h (hone rfl)))
  | controlSpan bytes now => exact input_alike (controlSpan_alike h (hone rfl) hs)
  | passiveResult success address port now =>
      exact bool_alike (passiveResult_alike h (hone rfl))
  | dataConnected now => exact bool_alike (alike_pure (dataConnected_alike h (hone rfl)))
  | uploadChunk bytes now => exact bool_alike (uploadChunk_alike h (hone rfl))
  | uploadSpan bytes now => exact input_alike (uploadSpan_alike h (hone rfl))
  | uploadEof now => exact bool_alike (uploadEof_alike h (hone rfl))
  | foreground now => exact unit_alike (foreground_alike h (hone rfl))
  | downloadSpan => exact alike_pure ⟨rfl, t, rfl, h⟩
  | downloadEnqueued n now =>
      exact bool_alike (alike_pure (downloadEnqueued_alike h (hone rfl)))
  | downloadAcked n now => exact bool_alike (alike_pure (downloadAcked_alike h (hone rfl)))
  | dataCloseResult accepted now => exact bool_alike (dataCloseResult_alike h (hone rfl))
  | dataError now => exact unit_alike (dataError_alike h (hone rfl))
  | file =>
      refine alike_bind (alike_refl (ftpCoreFile s)) fun view _ hv => ?_
      subst hv
      exact alike_pure ⟨rfl, t, rfl, h⟩
  | tick now => exact unit_alike (tick_alike heven h (hone rfl))

end Calls

/-! ## Runs -/

/-- The call, told other times, with the same events and the same result. -/
def FtpLabel.retime (f : UInt32 → UInt32) (l : FtpLabel) : FtpLabel :=
  { l with call := l.call.retime f }

/-- What the calls of some run did. -/
def Traced (labels : List FtpLabel) : Prop :=
  ∃ tr s, Run FtpStep .start tr s ∧ tr.map Prod.fst = labels

/-- The times told since the session opened. -/
def sessionTimes (tr : List (FtpLabel × FtpState)) : List UInt32 :=
  tr.foldl (fun times x =>
    if x.1.call.opened x.1.result then x.1.call.nows else times ++ x.1.call.nows) []

/-- Every timestamp that a deadline is evaluated against is one of `times`. -/
structure Dated (times : List UInt32) (c : FtpCore) : Prop where
  control : c.controlTime ∈ times
  since : c.parser.active = true → c.parser.since ∈ times
  output : c.replies.count ≠ 0 → c.outputTime ∈ times
  close : c.closing = true ∨ c.quitting = true ∧ c.replies.count = 0 → c.closeTime ∈ times
  dataOutput : c.connected = true → c.dataOutputTime ∈ times
  start : c.direction ≠ .idle → c.startTime ∈ times
  progress : c.direction ≠ .idle → c.progressTime ∈ times
  passive : c.opening = true ∨ c.passive = true → c.passiveTime ∈ times

section Runs

variable {R : UInt32 → UInt32 → Prop} {s s' : FtpState} {t : Times} {l : FtpLabel}
  {tr : List (FtpLabel × FtpState)}

theorem run_alike (heven : Even R) (f : UInt32 → UInt32) (h : Run FtpStep s tr s')
    (hs : Sound s) (ht : Stamps R s.core t)
    (hf : ∀ x ∈ tr, ∀ now ∈ x.1.call.nows, R now (f now)) :
    ∃ tr' t', Run FtpStep (s.retimed t) tr' (s'.retimed t') ∧
      tr'.map Prod.fst = tr.map fun x => x.1.retime f := by
  induction h generalizing t with
  | nil => exact ⟨[], t, .nil _, rfl⟩
  | @cons s s₁ s' l tr hstep _ ih =>
      obtain ⟨hfirst, hrest⟩ := List.forall_mem_cons.mp hf
      obtain ⟨⟨r, s₂⟩, hr, hresult, t₁, hs₂, ht₁⟩ :=
        (perform_alike heven f hs ht hfirst).runs hstep
      dsimp only at hresult hs₂ ht₁
      subst hresult
      subst hs₂
      obtain ⟨tr', t', hrun, hlabels⟩ := ih (step_sound hs hstep) ht₁ hrest
      have hstep' : FtpStep (s.retimed t) (l.retime f) (s₁.retimed t₁) := hr
      exact ⟨(l.retime f, s₁.retimed t₁) :: tr', t', .cons hstep' hrun,
        congrArg (l.retime f :: ·) hlabels⟩

theorem play_alike {σ : Type} (heven : Even R) (f : UInt32 → UInt32)
    (d : (op : FtpOp) → σ → FtpSig.Ans op × σ) (e : σ) {calls : List FtpCall}
    (hs : Sound s) (ht : Stamps R s.core t)
    (hf : ∀ call ∈ calls, ∀ now ∈ call.nows, R now (f now)) :
    (play d (s.retimed t) e (calls.map (FtpCall.retime f))).map Prod.fst =
      (play d s e calls).map fun x => x.1.retime f := by
  induction calls generalizing s t e with
  | nil => rfl
  | cons call calls ih =>
      obtain ⟨hfirst, hrest⟩ := List.forall_mem_cons.mp hf
      obtain ⟨htrace, hstate, hresult, t₁, hs₁, ht₁⟩ :=
        (perform_alike heven f hs ht hfirst).device d e
      have hstep : FtpStep s ⟨call, (call.perform s).trace d e,
          ((call.perform s).run d e).1.1⟩ ((call.perform s).run d e).1.2 :=
        runs_trace (S := FtpSig) d (call.perform s) e
      have hsound := step_sound hs hstep
      have hnext := ih ((call.perform s).run d e).2 hsound ht₁ hrest
      rw [List.map_cons, play, play, List.map_cons, List.map_cons, htrace, hresult, hs₁,
        hstate, hnext]
      rfl

/-- Without a session no timestamp is read. -/
theorem stamps_closed (hs : Sound s) (hl : Linked s.core)
    (hsilent : s.core.parser.active = false) (hsession : s.core.session = false)
    (R : UInt32 → UInt32 → Prop) (t : Times) : Stamps R s.core t := by
  have hi := hs.closed hsession
  have hconn : s.core.connected = false := by
    refine Bool.eq_false_iff.mpr fun hc => ?_
    have hp := hl.connected hc
    rw [hi.passive] at hp
    cases hp
  have hno : ∀ {b : Bool} {p : Prop}, b = false → b = true → p := by
    intro b p hf ht
    rw [hf] at ht
    cases ht
  exact ⟨hno hsession, hno hsilent, fun h => absurd (hs.empty hsession) h, hno hconn,
    fun h => h.elim (hno hi.opening) (hno hi.passive), fun h => absurd hi.direction h,
    fun h => absurd hi.direction h, hno hi.closing,
    hno (hs.quitting hsession), fun _ => hsilent⟩

theorem sessionTimes_snoc (tr : List (FtpLabel × FtpState)) (x : FtpLabel × FtpState) :
    sessionTimes (tr ++ [x]) = if x.1.call.opened x.1.result then x.1.call.nows
      else sessionTimes tr ++ x.1.call.nows := by
  rw [sessionTimes, List.foldl_append]
  rfl

/-- The timestamps that are read are times told since the session opened. -/
def Told (times : List UInt32) (s : FtpState) : Prop :=
  ∃ t, Stamps (fun x y => y = x ∧ x ∈ times) s.core t

theorem step_told (hs : Sound s) (hl : Linked s.core) (h : FtpStep s l s')
    (hi : Told (sessionTimes tr) s) : Told (sessionTimes (tr ++ [(l, s')])) s' := by
  rw [sessionTimes_snoc]
  obtain ⟨t, ht⟩ := hi
  have heven : ∀ times : List UInt32, Even fun x y => y = x ∧ x ∈ times := by
    rintro times x y n m ⟨rfl, -⟩ ⟨rfl, -⟩
    rfl
  have hnext : ∀ times : List UInt32, (∀ now ∈ l.call.nows, now ∈ times) →
      Stamps (fun x y => y = x ∧ x ∈ times) s.core t → Told times s' := by
    intro times htimes hstamps
    have halike : Alike _ (l.call.perform s) _ := perform_alike (heven times) id hs hstamps
      fun now hnow => ⟨rfl, htimes now hnow⟩
    obtain ⟨⟨r, s₂⟩, -, -, t₁, -, ht₁⟩ := halike.runs h
    exact ⟨t₁, ht₁⟩
  split
  · next hopened =>
      have hsession : s.core.session = false := by
        obtain ⟨call, evs, r⟩ := l
        cases call_acts hs h with
        | moves hq _ =>
            have hclosed : call.opened r = false := hq.opened
            rw [show call.opened r = true from hopened] at hclosed
            cases hclosed
        | opens hn _ _ => exact hn
        | _ => cases hopened
      exact hnext _ (fun _ hn => hn) (stamps_closed hs hl (ht.silent hsession) hsession _ _)
  · exact hnext _ (fun _ hn => List.mem_append_right _ hn)
      (ht.mono fun x y hxy => ⟨hxy.1, List.mem_append_left _ hxy.2⟩)

theorem run_told (h : Run FtpStep .start tr s) : Told (sessionTimes tr) s := by
  refine h.history (I := fun tr s => Told (sessionTimes tr) s) (fun hrun hi hstep => ?_)
    ⟨_, stamps_zero⟩
  exact step_told (run_sound hrun) (run_linked hrun) hstep hi

theorem Told.dated {times : List UInt32} (h : Told times s)
    (hs : s.core.session = true) : Dated times s.core := by
  obtain ⟨t, ht⟩ := h
  exact ⟨(ht.control hs).2, fun hc => (ht.since hc).2, fun hc => (ht.output hc).2,
    fun hc => hc.elim (fun hc => (ht.closing hc).2) fun hc => (ht.quitting hc.1 hc.2).2,
    fun hc => (ht.dataOutput hc).2, fun hc => (ht.start hc).2,
    fun hc => (ht.progress hc).2, fun hc => (ht.passive hc).2⟩

theorem even_shift (c : UInt32) : Even fun x y => y = x + c := by
  intro x y n m hy hm
  subst hy
  subst hm
  rw [UInt32.sub_eq_add_neg, UInt32.neg_add, UInt32.sub_eq_add_neg, UInt32.add_assoc,
    UInt32.add_comm (-x), ← UInt32.add_assoc c, ← UInt32.sub_eq_add_neg c,
    UInt32.sub_self, UInt32.zero_add, ← UInt32.sub_eq_add_neg]

/-- A clock that is set forward by `c`, wrapping where it wraps, changes nothing
that a run shows: neither what the calls return, nor the replies and actions, nor
what is asked of the storage and the operation. And in a session every deadline is
evaluated against a time that one of its calls was told. -/
theorem timer_wrap (c : UInt32) :
    (∀ labels, Traced labels → Traced (labels.map (FtpLabel.retime (· + c)))) ∧
    (∀ {σ : Type} (d : (op : FtpOp) → σ → FtpSig.Ans op × σ) (e : σ)
      (calls : List FtpCall),
        (play d .start e (calls.map (FtpCall.retime (· + c)))).map Prod.fst =
          (play d .start e calls).map fun x => x.1.retime (· + c)) ∧
    (∀ tr s, Run FtpStep .start tr s → s.core.session = true →
      Dated (sessionTimes tr) s.core) := by
  refine ⟨?_, fun d e calls => ?_, fun tr s h hs => (run_told h).dated hs⟩
  · rintro labels ⟨tr, s, h, rfl⟩
    obtain ⟨tr', t', hrun, hlabels⟩ :=
      run_alike (even_shift c) (· + c) h .zero stamps_zero fun _ _ _ _ => rfl
    refine ⟨tr', _, hrun, ?_⟩
    rw [hlabels, List.map_map]
    rfl
  · exact play_alike (even_shift c) (· + c) d e .zero stamps_zero fun _ _ _ _ => rfl

end Runs

/-- A session that idles to its deadline. -/
def idleCalls : List FtpCall :=
  [.init ⟨0, true, 4⟩, .sessionOpen 0, .replyConsume 20 0, .tick 59999, .tick 60000]

/-- The same when its clock wraps between the opening and the deadline. -/
theorem timer_wrap_idle :
    (played fileDevice .start emptyFile idleCalls).core.session = false ∧
    (play fileDevice .start emptyFile
        (idleCalls.map (FtpCall.retime (· + 4294967295)))).map Prod.fst =
      (play fileDevice .start emptyFile idleCalls).map
        fun x => x.1.retime (· + 4294967295) :=
  ⟨by decide +kernel, (timer_wrap 4294967295).2.1 fileDevice emptyFile idleCalls⟩

end EkBareMetal.Ftp

import EkBareMetal.Lib.Alike
import EkBareMetal.Proofs.FtpFile

/-!
# Fragments of the control connection

`ftp_core_control_span` is handed what a segment happened to contain. A span
that is accepted whole may have come in two fragments as well: the loop over the
bytes stops only behind QUIT and behind a request for a listener, and the lines
of either fragment fit the slots that the lines of the whole fit. What the two
calls do differently is to set the time of the last input in between, and no
command reads it.
-/

namespace EkBareMetal.Ftp

open Interact Transition

/-! ## The time of the last input -/

def FtpState.heard (s : FtpState) (v : UInt32) : FtpState :=
  { s with core := { s.core with controlTime := v } }

/-- The same result, and the same state but for the time of the last input. -/
def HeardAt {α : Type} (v : UInt32) (x y : α × FtpState) : Prop :=
  y.1 = x.1 ∧ y.2 = x.2.heard v

section Heard

variable {s : FtpState} {v now : UInt32} {text line arg : List UInt8}

theorem teardown_heard :
    Alike (fun x y => y = x.heard v) (teardown s) (teardown (s.heard v)) := by
  refine alike_bind (alike_refl (endOperation s)) fun _ _ _ => ?_
  refine alike_ite Iff.rfl (fun _ => alike_pure rfl) fun _ => ?_
  exact alike_ask fun _ => alike_pure rfl

theorem lost_heard :
    Alike (fun x y => y = x.heard v) (lost s) (lost (s.heard v)) := by
  refine alike_ite Iff.rfl (fun _ => alike_pure rfl) fun _ => ?_
  refine alike_bind teardown_heard fun s₁ s₂ h₁ => ?_
  subst h₁
  exact alike_pure rfl

theorem reply_heard {start : Bool} :
    Alike (HeardAt v) (reply s text start now) (reply (s.heard v) text start now) := by
  unfold reply
  by_cases hfull : s.core.replies.count = ftpReplySlots
  · rw [dif_pos hfull, dif_pos (by exact hfull)]
    refine alike_ask fun _ => alike_bind lost_heard fun s₁ s₂ h₁ => ?_
    exact alike_pure ⟨rfl, h₁⟩
  · rw [dif_neg hfull, dif_neg (by exact hfull)]
    exact alike_ask fun _ => alike_pure ⟨rfl, rfl⟩

theorem answer_heard :
    Alike (fun x y => y = x.heard v) (answer s text now) (answer (s.heard v) text now) :=
  alike_bind reply_heard fun _ _ h₁ => alike_pure h₁.2

theorem failure_heard :
    Alike (fun x y => y = x.heard v) (failure s text now) (failure (s.heard v) text now) := by
  refine alike_bind teardown_heard fun s₁ s₂ h₁ => ?_
  subst h₁
  exact answer_heard

theorem openTransfer_heard {upload : Bool} {view : FtpStorageView} :
    Alike (fun x y => y = x.heard v) (openTransfer s upload view now)
      (openTransfer (s.heard v) upload view now) :=
  alike_bind (reply_heard (s := { s with core := s.core.started upload view now }))
    fun _ _ h₁ => alike_pure h₁.2

theorem startTransfer_heard {upload special : Bool} {view : FtpStorageView} :
    Alike (fun x y => y = x.heard v) (startTransfer s arg upload special view now)
      (startTransfer (s.heard v) arg upload special view now) := by
  refine alike_ite Iff.rfl (fun _ => alike_ask fun result => ?_) fun _ => ?_
  · cases result with
    | none => exact failure_heard
    | some view =>
        exact openTransfer_heard (s := { s with core := { s.core with operation := true } })
  refine alike_ite Iff.rfl (fun _ => alike_ask fun result => ?_) fun _ => ?_
  · exact alike_ite Iff.rfl (fun _ => failure_heard) fun _ => openTransfer_heard
  · exact openTransfer_heard

theorem commandTransfer_heard {upload : Bool} :
    Alike (fun x y => y = x.heard v) (commandTransfer s arg upload now)
      (commandTransfer (s.heard v) arg upload now) := by
  refine alike_bind (alike_refl (operationMatches s arg upload)) fun special _ hs => ?_
  subst hs
  refine alike_bind (alike_refl (viewUnless s special)) fun view _ hv => ?_
  subst hv
  refine alike_bind (alike_refl (unavailable s arg upload special view))
    fun refused _ hr => ?_
  subst hr
  refine alike_ite Iff.rfl (fun _ => answer_heard) fun _ => ?_
  refine alike_ite Iff.rfl (fun _ => answer_heard) fun _ => ?_
  refine alike_ite Iff.rfl (fun _ => answer_heard) fun _ => ?_
  exact startTransfer_heard

theorem commandLoggedIn_heard {verb : List UInt8} :
    Alike (fun x y => y = x.heard v) (commandLoggedIn s verb arg now)
      (commandLoggedIn (s.heard v) verb arg now) := by
  refine alike_ite Iff.rfl (fun _ => answer_heard) fun _ => ?_
  refine alike_ite Iff.rfl (fun _ => answer_heard) fun _ => ?_
  refine alike_ite Iff.rfl (fun _ => answer_heard) fun _ => ?_
  refine alike_ite Iff.rfl (fun _ => ?_) fun _ => ?_
  · refine alike_ite Iff.rfl (fun _ => ?_) fun _ => ?_
    · exact answer_heard (s := { s with core := { s.core with binary := true } })
    · exact answer_heard (s := { s with core := { s.core with binary := false } })
  refine alike_ite Iff.rfl (fun _ => ?_) fun _ => ?_
  · refine alike_bind teardown_heard fun s₁ s₂ h₁ => ?_
    subst h₁
    exact alike_pure rfl
  refine alike_ite Iff.rfl (fun _ => ?_) fun _ => ?_
  · refine alike_ask fun view => alike_ask fun served => ?_
    exact alike_ite Iff.rfl (fun _ => answer_heard) fun _ => answer_heard
  exact alike_ite Iff.rfl (fun _ => commandTransfer_heard) fun _ => answer_heard

theorem command_heard :
    Alike (fun x y => y = x.heard v) (command s line now) (command (s.heard v) line now) := by
  refine alike_ite Iff.rfl (fun _ => ?_) fun _ => ?_
  · refine alike_bind teardown_heard fun s₁ s₂ h₁ => ?_
    subst h₁
    exact answer_heard (s := { s₁ with core := { s₁.core with quitting := true } })
  refine alike_ite Iff.rfl (fun _ => ?_) fun _ => ?_
  · refine alike_bind teardown_heard fun s₁ s₂ h₁ => ?_
    subst h₁
    exact answer_heard
  refine alike_ite Iff.rfl (fun _ => answer_heard) fun _ => ?_
  refine alike_ite Iff.rfl (fun _ => answer_heard) fun _ => ?_
  refine alike_ite Iff.rfl (fun _ => answer_heard) fun _ => ?_
  refine alike_ite Iff.rfl (fun _ => answer_heard) fun _ => ?_
  refine alike_ite Iff.rfl (fun _ => ?_) fun _ => ?_
  · refine alike_bind teardown_heard fun s₁ s₂ h₁ => ?_
    subst h₁
    exact answer_heard (s := { s₁ with core := { s₁.core with
      user := argOf line = ascii "anonymous"
      login := false
      binary := false } })
  refine alike_ite Iff.rfl (fun _ => ?_) fun _ => ?_
  · refine alike_ite Iff.rfl (fun _ => ?_) fun _ => answer_heard
    exact answer_heard (s := { s with core := { s.core with login := true } })
  exact alike_ite Iff.rfl (fun _ => answer_heard) fun _ => commandLoggedIn_heard

theorem executeLine_heard {p : Parser} :
    Alike (fun x y => y = x.heard v) (executeLine s p now)
      (executeLine (s.heard v) p now) :=
  alike_ite Iff.rfl (fun _ => answer_heard) fun _ => command_heard

/-- Where the loop is entered moves the accepted count, and nothing else. -/
theorem controlLoop_heard {bytes : List UInt8} {a n k : Nat} (hn : n = a + k) :
    Alike (fun x y => x.1 = a + y.1 ∧ y.2 = x.2.heard v)
      (controlLoop s now n bytes) (controlLoop (s.heard v) now k bytes) := by
  induction bytes generalizing s n k with
  | nil => exact alike_pure ⟨hn, rfl⟩
  | cons byte bytes ih =>
      have hnext : n + 1 = a + (k + 1) := by omega
      unfold controlLoop
      rw [show (s.heard v).core.parser = s.core.parser from rfl]
      generalize parseByte s.core.parser byte now = parsed
      obtain ⟨isLine, p⟩ := parsed
      dsimp only
      refine alike_ite Iff.rfl (fun _ => ?_) fun _ => ?_
      · refine alike_bind (executeLine_heard
          (s := { s with core := { s.core with parser := p } })) fun s₁ s₂ h₁ => ?_
        subst h₁
        refine alike_ite Iff.rfl (fun _ => alike_pure ⟨?_, rfl⟩) fun _ => ?_
        · show n + 1 + bytes.length = a + (k + 1 + bytes.length)
          omega
        refine alike_ite Iff.rfl (fun _ => alike_pure ⟨hnext, rfl⟩) fun _ => ?_
        exact ih (s := { s₁ with core := { s₁.core with parser := .zero } }) hnext
      · exact ih (s := { s with core := { s.core with parser := p } }) hnext

end Heard

/-! ## The line that stops the loop -/

/-- A request for a listener. -/
def Requests (line : List UInt8) : Prop :=
  (verbOf line = ascii "EPSV" ∨ verbOf line = ascii "PASV") ∧ argOf line = []

section Requests

variable {s s' : FtpState} {tr : List Ev} {now : UInt32} {text line arg : List UInt8}

theorem answer_shut (hr : Runs (answer s text now) tr s')
    (hlt : s.core.replies.count < ftpReplySlots) (ho : s.core.opening = false) :
    s'.core.opening = false := by
  obtain ⟨tr₁, ⟨b, s₁⟩, tr₂, rfl, h₁, h₂⟩ := runs_bind_iff'.mp hr
  obtain ⟨rfl, rfl⟩ := runs_pure_iff.mp h₂
  obtain ⟨-, -, rfl⟩ := reply_runs hlt h₁
  exact ho

theorem failure_shut (hlt : s.core.replies.count < ftpReplySlots)
    (hr : Runs (failure s text now) tr s') : s'.core.opening = false := by
  obtain ⟨tr₁, s₁, tr₂, rfl, h₁, h₂⟩ := runs_bind_iff'.mp hr
  obtain ⟨rfl, rfl⟩ := teardown_runs h₁
  exact answer_shut h₂ hlt rfl

theorem openTransfer_shut {upload : Bool} {view : FtpStorageView}
    (hlt : s.core.replies.count < ftpReplySlots) (ho : s.core.opening = false)
    (hr : Runs (openTransfer s upload view now) tr s') : s'.core.opening = false := by
  obtain ⟨tr₁, ⟨b, s₁⟩, tr₂, rfl, h₁, h₂⟩ := runs_bind_iff'.mp hr
  obtain ⟨rfl, rfl⟩ := runs_pure_iff.mp h₂
  obtain ⟨-, -, rfl⟩ := reply_runs (by exact hlt) h₁
  exact ho

theorem startTransfer_shut {upload special : Bool} {view : FtpStorageView}
    (hlt : s.core.replies.count < ftpReplySlots) (ho : s.core.opening = false)
    (hr : Runs (startTransfer s arg upload special view now) tr s') :
    s'.core.opening = false := by
  unfold startTransfer at hr
  split at hr
  · obtain ⟨result, rest, rfl, hk⟩ := runs_ask_iff.mp hr
    cases result with
    | none => exact failure_shut hlt hk
    | some view => exact openTransfer_shut (by exact hlt) (by exact ho) hk
  split at hr
  · obtain ⟨result, rest, rfl, hk⟩ := runs_ask_iff.mp hr
    split at hk
    · exact failure_shut hlt hk
    · exact openTransfer_shut hlt ho hk
  · exact openTransfer_shut hlt ho hr

theorem commandTransfer_shut {upload : Bool}
    (hlt : s.core.replies.count < ftpReplySlots) (ho : s.core.opening = false)
    (hr : Runs (commandTransfer s arg upload now) tr s') : s'.core.opening = false := by
  obtain ⟨tr₁, special, tr', rfl, -, hr⟩ := runs_bind_iff'.mp hr
  obtain ⟨tr₂, view, tr'', rfl, -, hr⟩ := runs_bind_iff'.mp hr
  obtain ⟨tr₃, refused, tr₄, rfl, -, hr⟩ := runs_bind_iff'.mp hr
  split at hr
  · exact answer_shut hr hlt ho
  split at hr
  · exact answer_shut hr hlt ho
  split at hr
  · exact answer_shut hr hlt ho
  · exact startTransfer_shut hlt ho hr

theorem commandLoggedIn_shut {verb : List UInt8}
    (hlt : s.core.replies.count < ftpReplySlots) (ho : s.core.opening = false)
    (hno : ¬ ((verb = ascii "EPSV" ∨ verb = ascii "PASV") ∧ arg = []))
    (hr : LoggedInRun s verb arg now tr s') : s'.core.opening = false := by
  cases hr with
  | answers _ hr => exact answer_shut hr hlt ho
  | listens hreq => exact absurd hreq hno
  | sizes _ hr => exact answer_shut hr hlt ho
  | transfers hr => exact commandTransfer_shut hlt ho hr

theorem command_shut (hlt : s.core.replies.count < ftpReplySlots)
    (ho : s.core.opening = false) (hno : ¬ Requests line)
    (hr : Runs (command s line now) tr s') : s'.core.opening = false := by
  cases command_cases hr with
  | answers _ hr => exact answer_shut hr hlt ho
  | tears _ hr => exact answer_shut hr hlt rfl
  | loggedIn _ hr => exact commandLoggedIn_shut hlt ho hno hr

/-- Only a request for a listener leaves one pending. -/
theorem executeLine_requests {p : Parser} (h : Ready s)
    (hr : Runs (executeLine s p now) tr s') (ho : s'.core.opening = true) :
    p.bad = false ∧ Requests p.text := by
  unfold executeLine at hr
  split at hr
  · have hshut := answer_shut hr h.lt h.opening
    rw [ho] at hshut
    cases hshut
  · next hbad =>
      refine ⟨Bool.eq_false_iff.mpr hbad, by_contra fun hno => ?_⟩
      have hshut := command_shut h.lt h.opening hno hr
      rw [ho] at hshut
      cases hshut

end Requests

/-! ## Fragments of a span -/

section Fragments

variable {s s' : FtpState} {now : UInt32} {a n : Nat} {tr : List Ev}
  {x y bytes : List UInt8}

theorem Looped.runs (h : Looped now s a bytes tr n s') :
    Runs (controlLoop s now a bytes) tr (n, s') := by
  induction h with
  | nil s a => exact .ret _
  | skip hp _ ih =>
      unfold controlLoop
      rw [hp]
      exact ih
  | line hp hx hq ho _ ih =>
      unfold controlLoop
      rw [hp]
      refine runs_bind_iff'.mpr ⟨_, _, _, rfl, hx, ?_⟩
      rw [if_neg (by exact Bool.eq_false_iff.mp hq), if_neg (by exact Bool.eq_false_iff.mp ho)]
      exact ih
  | quits hp hx hq =>
      unfold controlLoop
      rw [hp]
      refine runs_bind_iff'.mpr ⟨_, _, [], (List.append_nil _).symm, hx, ?_⟩
      rw [if_pos (by exact hq)]
      exact .ret _
  | opens hp hx hq ho =>
      unfold controlLoop
      rw [hp]
      refine runs_bind_iff'.mpr ⟨_, _, [], (List.append_nil _).symm, hx, ?_⟩
      rw [if_neg (by exact Bool.eq_false_iff.mp hq), if_pos (by exact ho)]
      exact .ret _

theorem countLines_append_le (now : UInt32) (p : Parser) (x y : List UInt8) :
    countLines p now x ≤ countLines p now (x ++ y) := by
  induction x generalizing p with
  | nil => exact Nat.zero_le _
  | cons byte x ih =>
      rw [List.cons_append, countLines, countLines]
      generalize parseByte p byte now = parsed
      obtain ⟨isLine, q⟩ := parsed
      dsimp only
      split
      · exact Nat.succ_le_succ (ih .zero)
      · exact ih q

/-- The first fragment completes no more lines than the whole. -/
theorem Readable.left (h : Readable s now (x ++ y)) : Readable s now x := by
  refine ⟨h.sound, h.session, h.opening, fun hpos => ?_⟩
  have hle := countLines_append_le now s.core.parser x y
  have hroom := h.room (Nat.lt_of_lt_of_le hpos hle)
  omega

/-- A loop that reaches the end of the span has passed every place in it. -/
theorem Looped.split (h : Looped now s a (x ++ y) tr n s') (hs : Readable s now (x ++ y))
    (hq : s.core.quitting = false) (hq' : s'.core.quitting = false) (hy : y ≠ [])
    (hn : n = a + (x ++ y).length) :
    ∃ tr₁ tr₂ s₁, tr = tr₁ ++ tr₂ ∧ Looped now s a x tr₁ (a + x.length) s₁ ∧
      Readable s₁ now y ∧ s₁.core.quitting = false ∧
      Looped now s₁ (a + x.length) y tr₂ n s' := by
  induction x generalizing s a tr with
  | nil => exact ⟨[], tr, s, rfl, .nil s a, hs, hq, h⟩
  | cons byte x ih =>
      have hlen : a + (byte :: x).length = a + 1 + x.length := by
        rw [List.length_cons]
        omega
      have hn' : n = a + 1 + (x ++ y).length := by
        rw [hn, List.cons_append, List.length_cons]
        omega
      rw [hlen]
      cases h with
      | skip hp h =>
          obtain ⟨tr₁, tr₂, s₁, rfl, h₁, hs₁, hq₁, h₂⟩ := ih h (hs.skip hp) hq hn'
          exact ⟨tr₁, tr₂, s₁, rfl, .skip hp h₁, hs₁, hq₁, h₂⟩
      | line hp hx hq ho h =>
          obtain ⟨tr₁, tr₂, s₁, rfl, h₁, hs₁, hq₁, h₂⟩ := ih h (hs.line hp hx ho) hq hn'
          exact ⟨_, tr₂, s₁, (List.append_assoc _ _ _).symm, .line hp hx hq ho h₁, hs₁, hq₁,
            h₂⟩
      | quits _ _ hquits =>
          rw [show _ = false from hq'] at hquits
          cases hquits
      | opens _ _ _ _ =>
          -- The loop has stopped in front of the second fragment.
          have hpos := List.length_pos_iff.mpr hy
          rw [List.length_append] at hn'
          omega

/-- A loop that stops early has read a span that ends where it stopped. -/
theorem Looped.stop (h : Looped now s a bytes tr n s') (hn : n ≠ a + bytes.length) :
    ∃ k, n = a + k ∧ k < bytes.length ∧ Looped now s a (bytes.take k) tr n s' ∧
      s'.core.opening = true ∧ s'.core.quitting = false := by
  induction h with
  | nil s a => exact absurd rfl hn
  | @skip s s' p a n byte bytes tr hp h ih =>
      rw [List.length_cons] at hn
      obtain ⟨k, hk, hlt, h', ho, hq⟩ := ih (by omega)
      exact ⟨k + 1, by omega, Nat.succ_lt_succ hlt, .skip hp h', ho, hq⟩
  | @line s s₁ s' p a n byte bytes tr₁ tr₂ hp hx hq ho h ih =>
      rw [List.length_cons] at hn
      obtain ⟨k, hk, hlt, h', ho', hq'⟩ := ih (by omega)
      exact ⟨k + 1, by omega, Nat.succ_lt_succ hlt, .line hp hx hq ho h', ho', hq'⟩
  | quits _ _ _ =>
      rw [List.length_cons] at hn
      omega
  | opens hp hx hq ho =>
      rw [List.length_cons] at hn
      refine ⟨1, rfl, ?_, .opens hp hx hq ho, ho, hq⟩
      rw [List.length_cons]
      omega

/-- One byte that leaves a listener pending has completed a request for it. -/
theorem Looped.requests {byte : UInt8} (h : Looped now s a [byte] tr n s')
    (hs : Readable s now [byte]) (ho : s'.core.opening = true) :
    ∃ p, parseByte s.core.parser byte now = (true, p) ∧ p.bad = false ∧
      Requests p.text := by
  cases h with
  | skip hp h =>
      cases h
      exact absurd (hs.opening.symm.trans ho) Bool.false_ne_true
  | line hp hx hq hshut h =>
      cases h
      exact absurd (hshut.symm.trans ho) Bool.false_ne_true
  | quits hp hx hq => exact ⟨_, hp, executeLine_requests (hs.ready hp) hx ho⟩
  | opens hp hx hq ho => exact ⟨_, hp, executeLine_requests (hs.ready hp) hx ho⟩

theorem Readable.heard (h : Readable s now bytes) (v : UInt32) :
    Readable (s.heard v) now bytes :=
  ⟨h.sound.steady ⟨rfl, fun _ => rfl, rfl, rfl, rfl, rfl, rfl, rfl, rfl⟩, h.session,
    h.opening, h.room⟩

/-- The loop reads on alike behind another call. -/
theorem Looped.resume {k m : Nat} (h : Looped now s k bytes tr n s') (hn : n = k + m)
    (v : UInt32) : Looped now (s.heard v) 0 bytes tr m (s'.heard v) := by
  obtain ⟨⟨m', s₁⟩, hr, hm, hs₁⟩ := (controlLoop_heard (v := v) (a := k) (k := 0) rfl).runs h.runs
  dsimp only at hm hs₁
  subst hs₁
  obtain rfl : m' = m := by omega
  exact controlLoop_looped hr

theorem span_step (h : Looped now s 0 bytes tr n s') (hs : Readable s now bytes)
    (hq : s.core.quitting = false) (hlen : bytes.length ≤ ftpControlCapacity) :
    FtpStep s ⟨.controlSpan bytes now, tr,
        .input (if n = bytes.length then .ok else .partly) n⟩
      (s'.heard (if n ≠ 0 then now else s'.core.controlTime)) := by
  have hin : ¬ ((!s.core.session) = true ∨ s.core.quitting = true ∨
      bytes.length > ftpControlCapacity) := by
    rw [hs.session, hq]
    simp only [Bool.not_true, Bool.false_eq_true, false_or]
    omega
  have hroom : ¬ (countLines s.core.parser now bytes ≠ 0 ∧
      (s.core.replies.count ≥ ftpReplySlots - 1 ∨
        countLines s.core.parser now bytes > ftpReplySlots - 1 - s.core.replies.count)) := by
    rintro ⟨hpos, hfull⟩
    have := hs.room (Nat.pos_of_ne_zero hpos)
    have h8 : ftpReplySlots - 1 = 7 := rfl
    rw [h8] at hfull
    omega
  have hspan : Runs (ftpCoreControlSpan s bytes now) tr
      ((if n = bytes.length then .ok else .partly, n),
        s'.heard (if n ≠ 0 then now else s'.core.controlTime)) := by
    unfold ftpCoreControlSpan
    rw [if_neg hin, if_neg (by exact Bool.eq_false_iff.mp hs.opening), if_neg hroom]
    refine runs_bind_iff'.mpr ⟨tr, _, [], (List.append_nil _).symm, h.runs, ?_⟩
    dsimp only
    by_cases hn : n ≠ 0
    · rw [if_pos hn, if_pos hn]
      exact .ret _
    · rw [if_neg hn, if_neg hn]
      exact .ret _
  exact runs_bind_iff'.mpr ⟨tr, _, [], (List.append_nil _).symm, hspan, .ret _⟩

theorem step_span {r : FtpInput} (hs : Sound s)
    (h : FtpStep s ⟨.controlSpan bytes now, tr, .input r n⟩ s') :
    ((r = .backpressure ∨ r = .rejected) ∧ n = 0 ∧ tr = [] ∧ s' = s) ∨
    (Readable s now bytes ∧ s.core.quitting = false ∧ bytes.length ≤ ftpControlCapacity ∧
      ∃ s₁, Looped now s 0 bytes tr n s₁ ∧
        r = (if n = bytes.length then .ok else .partly) ∧
        s' = s₁.heard (if n ≠ 0 then now else s₁.core.controlTime)) := by
  obtain ⟨⟨r', n'⟩, he, hr⟩ := returnInput_runs h
  cases he
  obtain hleft | ⟨hread, hq, hlen, s₁, hloop, hr, hs'⟩ := controlSpan_cases hs hr
  · exact .inl hleft
  refine .inr ⟨hread, hq, hlen, s₁, hloop, hr, ?_⟩
  rw [hs']
  split <;> rfl

/-- The span as two calls. -/
theorem step_split (hs : Sound s)
    (h : FtpStep s ⟨.controlSpan (x ++ y) now, tr, .input .ok n⟩ s') (hy : y ≠ [])
    (hq : s'.core.quitting = false) :
    ∃ tr₁ tr₂ s₁, tr = tr₁ ++ tr₂ ∧
      FtpStep s ⟨.controlSpan x now, tr₁, .input .ok x.length⟩ s₁ ∧
      FtpStep s₁ ⟨.controlSpan y now, tr₂, .input .ok y.length⟩ s' := by
  obtain ⟨hr, -⟩ | ⟨hread, hq₀, hlen, s₂, hloop, hr, rfl⟩ := step_span hs h
  · exact hr.elim nofun nofun
  have hn : n = (x ++ y).length := by
    by_contra hne
    rw [if_neg hne] at hr
    cases hr
  have hpos := List.length_pos_iff.mpr hy
  have hsum := hn
  rw [List.length_append] at hsum hlen
  obtain ⟨tr₁, tr₂, s₁, rfl, h₁, hread₁, hq₁, h₂⟩ :=
    hloop.split hread hq₀ hq hy (by rw [hn, Nat.zero_add])
  rw [Nat.zero_add] at h₁ h₂
  have hfirst := span_step h₁ hread.left hq₀ (by omega)
  have hsecond := span_step (h₂.resume hsum
    (if x.length ≠ 0 then now else s₁.core.controlTime)) (hread₁.heard _) hq₁ (by omega)
  rw [if_pos rfl] at hfirst
  rw [if_pos rfl, if_pos (Nat.ne_of_gt hpos)] at hsecond
  rw [if_pos (show n ≠ 0 by omega)]
  exact ⟨tr₁, tr₂, _, rfl, hfirst, hsecond⟩

/-- The last of `bytes` completes a request for a listener and leaves it pending. -/
def EndsInRequest (s : FtpState) (bytes : List UInt8) (now : UInt32) (s' : FtpState) :
    Prop :=
  ∃ front byte tr₁ tr₂ s₁ p, bytes = front ++ [byte] ∧
    FtpStep s ⟨.controlSpan front now, tr₁, .input .ok front.length⟩ s₁ ∧
    s₁.core.opening = false ∧ parseByte s₁.core.parser byte now = (true, p) ∧
    p.bad = false ∧ Requests p.text ∧
    FtpStep s₁ ⟨.controlSpan [byte] now, tr₂, .input .ok 1⟩ s' ∧ s'.core.opening = true

theorem step_stops {k : Nat} (hs : Sound s)
    (h : FtpStep s ⟨.controlSpan bytes now, tr, .input .partly k⟩ s') :
    FtpStep s ⟨.controlSpan (bytes.take k) now, tr, .input .ok k⟩ s' ∧
      EndsInRequest s (bytes.take k) now s' := by
  obtain ⟨hr, -⟩ | ⟨hread, hq₀, hlen, s₂, hloop, hr, rfl⟩ := step_span hs h
  · exact hr.elim nofun nofun
  have hn : k ≠ bytes.length := by
    rintro rfl
    rw [if_pos rfl] at hr
    cases hr
  obtain ⟨m, hm, hlt, hloop', ho, hq⟩ := hloop.stop (by rw [Nat.zero_add]; exact hn)
  rw [Nat.zero_add] at hm
  subst hm
  have hread' : Readable s now (bytes.take k) := by
    rw [← List.take_append_drop k bytes] at hread
    exact hread.left
  have htake : k = (bytes.take k).length := by
    rw [List.length_take]
    omega
  have hok := span_step hloop' hread' hq₀ (by omega)
  rw [if_pos htake] at hok
  refine ⟨hok, ?_⟩
  have hne : bytes.take k ≠ [] := by
    intro hnil
    rw [hnil] at hloop'
    cases hloop'
    exact absurd (hread.opening.symm.trans ho) Bool.false_ne_true
  obtain ⟨front, byte, hsplit⟩ := (List.eq_nil_or_concat (bytes.take k)).resolve_left hne
  rw [List.concat_eq_append] at hsplit
  rw [hsplit] at hok
  obtain ⟨tr₁, tr₂, s₁, -, h₁, h₂⟩ :=
    step_split hs hok (List.cons_ne_nil _ _) (by exact hq)
  have hs₁ := step_sound hs h₁
  obtain ⟨hr₁, -⟩ | ⟨hread₁, -, -, s₃, hlast, -, hs₃⟩ := step_span hs₁ h₂
  · exact hr₁.elim nofun nofun
  have ho₃ : s₃.core.opening = true := by
    have := congrArg (fun s : FtpState => s.core.opening) hs₃
    exact this.symm.trans ho
  obtain ⟨p, hp, hbad, hreq⟩ := hlast.requests hread₁ ho₃
  exact ⟨front, byte, tr₁, tr₂, s₁, p, hsplit, h₁, hread₁.opening, hp, hbad, hreq, h₂, ho⟩

end Fragments

/-- How a segment is cut into spans is not seen. `quitting` is what an executed QUIT
leaves. A span that is accepted without it may be handed over in two calls; a span
that is refused has done nothing; and one that is accepted in part has been read up
to a request for a listener. -/
theorem control_split {pre : List (FtpLabel × FtpState)} {s : FtpState}
    (h : Run FtpStep .start pre s) (now : UInt32) :
    (∀ x y tr n s', FtpStep s ⟨.controlSpan (x ++ y) now, tr, .input .ok n⟩ s' → y ≠ [] →
      s'.core.quitting = false →
      ∃ tr₁ tr₂ s₁, tr = tr₁ ++ tr₂ ∧
        FtpStep s ⟨.controlSpan x now, tr₁, .input .ok x.length⟩ s₁ ∧
        FtpStep s₁ ⟨.controlSpan y now, tr₂, .input .ok y.length⟩ s') ∧
    (∀ bytes tr r n s', FtpStep s ⟨.controlSpan bytes now, tr, .input r n⟩ s' →
      r = .backpressure ∨ r = .rejected → n = 0 ∧ tr = [] ∧ s' = s) ∧
    (∀ bytes tr k s', FtpStep s ⟨.controlSpan bytes now, tr, .input .partly k⟩ s' →
      FtpStep s ⟨.controlSpan (bytes.take k) now, tr, .input .ok k⟩ s' ∧
        EndsInRequest s (bytes.take k) now s') := by
  have hs := run_sound h
  refine ⟨fun x y tr n s' hstep hy hq => step_split hs hstep hy hq,
    fun bytes tr r n s' hstep hr => ?_, fun bytes tr k s' hstep => step_stops hs hstep⟩
  obtain ⟨-, hleft⟩ | ⟨-, -, -, s₁, -, hok, -⟩ := step_span hs hstep
  · exact hleft
  · split at hok
    · subst hok
      exact hr.elim nofun nofun
    · subst hok
      exact hr.elim nofun nofun

def loginCalls : List FtpCall :=
  [.init ⟨0, true, 4⟩, .sessionOpen 0,
   .controlSpan (ascii "USER anonymous\r\nPASS x\r\n") 0]

/-- The session that has just logged in. -/
def loggedIn : FtpState := played fileDevice .start emptyFile loginCalls

/-- The step of a call that makes no request with a choice in its answer. -/
theorem step_loggedIn (call : FtpCall) {r : FtpReturn}
    (h : ((call.perform loggedIn).run fileDevice emptyFile).1.1 = r) :
    FtpStep loggedIn ⟨call, (call.perform loggedIn).trace fileDevice emptyFile, r⟩
      ((call.perform loggedIn).run fileDevice emptyFile).1.2 := by
  subst h
  exact runs_trace (S := FtpSig) fileDevice (call.perform loggedIn) emptyFile

theorem control_split_loggedIn :
    (∃ tr₁ tr₂ s₁ s',
      FtpStep loggedIn ⟨.controlSpan (ascii "NO") 3, tr₁, .input .ok 2⟩ s₁ ∧
      FtpStep s₁ ⟨.controlSpan (ascii "OP\r\nEPSV\r\n") 3, tr₂, .input .ok 10⟩ s') ∧
    ∃ s', EndsInRequest loggedIn (ascii "NOOP\r\nPASV\r\n") 3 s' := by
  have hrun : Run FtpStep .start _ loggedIn :=
    run_play fileDevice .start emptyFile loginCalls
  have hwhole := step_loggedIn (r := .input .ok 12)
    (.controlSpan (ascii "NO" ++ ascii "OP\r\nEPSV\r\n") 3) (by decide +kernel)
  have hpart := step_loggedIn (r := .input .partly 12)
    (.controlSpan (ascii "NOOP\r\nPASV\r\nQUIT\r\n") 3) (by decide +kernel)
  obtain ⟨tr₁, tr₂, s₁, -, h₁, h₂⟩ :=
    (control_split hrun 3).1 _ _ _ _ _ hwhole (by decide) (by decide +kernel)
  exact ⟨⟨tr₁, tr₂, s₁, _, h₁, h₂⟩, _, ((control_split hrun 3).2.2 _ _ _ _ hpart).2⟩

end EkBareMetal.Ftp

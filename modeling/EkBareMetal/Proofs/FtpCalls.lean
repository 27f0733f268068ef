import EkBareMetal.Proofs.FtpCommands
import EkBareMetal.Lib.Transition

/-!
# Every call of the FTP core as a chain of effects

`Outcome` says what a call may do: a chain of effects, or one of the results
that later statements are about. These are a binding, a reset, a new session, a consumed
reply, a span that is appended or refused, the end of an upload and the accepted close
of a transfer.
-/

namespace EkBareMetal.Ftp

open Interact Transition

/-! ## The other calls -/

/-- A RAM upload that has not ended. -/
structure Uploading (s : FtpState) : Prop where
  direction : s.core.direction = .upload
  operation : s.core.operation = false
  eof : s.core.eof = false

/-- What the accepted close of a transfer asks of the storage, and whether the
transfer is a success. -/
inductive Commits (s : FtpState) : List Ev → Bool → Prop where
  | other (hd : s.core.direction ≠ .upload) : Commits s [] true
  | short (hd : s.core.direction = .upload) (heof : s.core.eof = false) :
      Commits s [] false
  | operated (hd : s.core.direction = .upload) (heof : s.core.eof = true)
      (hop : s.core.operation = true) : Commits s [] s.core.accepted
  | stored (hd : s.core.direction = .upload) (heof : s.core.eof = true)
      (hop : s.core.operation = false) (result : FtpStorageResult) :
      Commits s [storageEv s .commit result] (result = .ok)

namespace FtpCall

/-- The bytes of an upload call. -/
def span : FtpCall → Option (List UInt8)
  | .uploadSpan bytes _ => some bytes
  | .uploadChunk bytes _ => some bytes
  | _ => none

/-- The call took the span as a whole. -/
def took : FtpCall → FtpReturn → Bool
  | .uploadSpan _ _, .input .ok _ => true
  | .uploadChunk _ _, .bool true => true
  | _, _ => false

/-- The call ended the upload. -/
def ended : FtpCall → FtpReturn → Bool
  | .uploadEof _, .bool true => true
  | _, _ => false

/-- The call opened a session. -/
def opened : FtpCall → FtpReturn → Bool
  | .sessionOpen _, .bool true => true
  | _, _ => false

def resets : FtpCall → Bool
  | .reset => true
  | _ => false

/-- The bytes the call handed out: a consumed part of what `peek` shows. -/
def handed (s : FtpState) : FtpCall → FtpReturn → List UInt8
  | .replyConsume n _, .bool true => (ftpCoreReplyPeek s).take n
  | _, _ => []

end FtpCall

/-! ## What a consumed reply leaves -/

/-- The queued bytes that nobody has consumed. -/
def FtpCore.unread (c : FtpCore) : List UInt8 :=
  c.replies.contents.flatMap fun r => r.text.drop r.offset

structure Consumed (s : FtpState) (n : Nat) (s' : FtpState) : Prop where
  storage : s'.storage = s.storage
  bound : s'.operation = s.operation
  flags : Steady { s.core with replies := s'.core.replies } s'.core
  count : s'.core.replies.count ≤ s.core.replies.count
  fits : (∀ r ∈ s.core.replies.contents,
      r.offset ≤ r.length ∧ r.length ≤ ftpReplyCapacity) →
    ∀ r ∈ s'.core.replies.contents, r.offset ≤ r.length ∧ r.length ≤ ftpReplyCapacity
  unread : s.core.unread = (ftpCoreReplyPeek s).take n ++ s'.core.unread

section Consume

variable {s : FtpState} {n : Nat} {now : UInt32}

theorem drop_consumed {r : Reply} (i : Nat) :
    r.text.drop r.offset = (r.text.drop r.offset).take i ++ r.text.drop (r.offset + i) := by
  rw [← List.drop_drop]
  exact (List.take_append_drop i _).symm

/-- The cells behind the front are those of the old ring. -/
theorem contents_popped {k : Nat} {α : Type} (r : RingBuffer k α) (x : α)
    (h : r.count ≠ 0) : (r.setFront x).pop.contents = r.pop.contents := by
  have hc := RingBuffer.contents_cons (r.setFront x) h
  rw [RingBuffer.contents_setFront r x h] at hc
  exact (List.cons.inj hc).2.symm

theorem consumed_flags (c : FtpCore) (r : Reply) :
    Steady { c with replies := (c.consumed r now).replies } (c.consumed r now) := by
  unfold FtpCore.consumed
  dsimp only
  split
  · split <;> exact ⟨rfl, fun _ => rfl, rfl, rfl, rfl, rfl, rfl, rfl, rfl⟩
  · exact ⟨rfl, fun _ => rfl, rfl, rfl, rfl, rfl, rfl, rfl, rfl⟩

theorem consumed_replies (c : FtpCore) (r : Reply) :
    (c.consumed r now).replies = if r.offset = r.length then (c.replies.setFront r).pop
      else c.replies.setFront r := by
  unfold FtpCore.consumed
  dsimp only
  split
  · split <;> rfl
  · rfl

theorem steady_drained (c : FtpCore) : Steady c (c.drained now) := by
  unfold FtpCore.drained
  split
  · exact ⟨rfl, fun _ => rfl, rfl, rfl, rfl, rfl, rfl, rfl, rfl⟩
  · exact .refl _

/-- What is left of the queue when the reply in front has become `r`. -/
theorem contents_consumed_eq (c : FtpCore) (r : Reply) (hne : c.replies.count ≠ 0) :
    (c.consumed r now).replies.contents = if r.offset = r.length then
      c.replies.pop.contents else r :: c.replies.pop.contents := by
  rw [consumed_replies]
  split
  · exact contents_popped _ _ hne
  · exact RingBuffer.contents_setFront _ _ hne

/-- Either `r` is still in front, or all of it is out. -/
theorem contents_consumed (c : FtpCore) (r : Reply) (hne : c.replies.count ≠ 0) :
    (c.consumed r now).replies.contents = r :: c.replies.pop.contents ∨
      r.offset = r.length ∧
        (c.consumed r now).replies.contents = c.replies.pop.contents := by
  rw [contents_consumed_eq c r hne]
  split
  · next hfull => exact .inr ⟨hfull, rfl⟩
  · exact .inl rfl

theorem replyConsume_consumed (hne : s.core.replies.count ≠ 0) (hpos : n ≠ 0)
    (hle : n ≤ s.core.replies.front.length - s.core.replies.front.offset) :
    Consumed s n (ftpCoreReplyConsume s n now).2 := by
  unfold ftpCoreReplyConsume
  dsimp only
  rw [if_neg (by omega)]
  have hcontents := RingBuffer.contents_cons _ hne
  have hpeek : ftpCoreReplyPeek s =
      s.core.replies.front.text.drop s.core.replies.front.offset := if_neg hne
  generalize hr : ({ s.core.replies.front with
    offset := s.core.replies.front.offset + n } : Reply) = r
  have hsteady : Steady (s.core.consumed r now) ((s.core.consumed r now).drained now) :=
    steady_drained _
  have hleft := @contents_consumed now s.core r hne
  have hunread : s.core.unread = (ftpCoreReplyPeek s).take n ++
      (r.text.drop r.offset ++ s.core.replies.pop.contents.flatMap fun r =>
        r.text.drop r.offset) := by
    rw [FtpCore.unread, hcontents, List.flatMap_cons, drop_consumed n, hpeek, ← hr,
      List.append_assoc]
  refine ⟨rfl, rfl, ?_, ?_, fun h => ?_, ?_⟩
  · dsimp only
    rw [hsteady.replies]
    exact (consumed_flags s.core r).trans hsteady
  · dsimp only
    rw [hsteady.replies, ← RingBuffer.length_contents, ← RingBuffer.length_contents,
      hcontents]
    rcases hleft with hleft | ⟨-, hleft⟩
    · rw [hleft, List.length_cons, List.length_cons]
    · rw [hleft, List.length_cons]
      exact Nat.le_succ _
  · dsimp only
    rw [hsteady.replies]
    have hf := h s.core.replies.front (by rw [hcontents]; exact List.mem_cons_self)
    have hrfits : r.offset ≤ r.length ∧ r.length ≤ ftpReplyCapacity := by
      rw [← hr]
      exact ⟨by show _ + n ≤ s.core.replies.front.length; omega, hf.2⟩
    have hrest : ∀ q ∈ s.core.replies.pop.contents,
        q.offset ≤ q.length ∧ q.length ≤ ftpReplyCapacity := by
      intro q hq
      exact h q (by rw [hcontents]; exact List.mem_cons_of_mem _ hq)
    rcases hleft with hleft | ⟨-, hleft⟩
    · rw [hleft]
      intro q hq
      rcases List.mem_cons.mp hq with rfl | hq
      · exact hrfits
      · exact hrest q hq
    · rw [hleft]
      exact hrest
  · rw [hunread]
    congr 1
    show _ = FtpCore.unread ((s.core.consumed r now).drained now)
    rw [FtpCore.unread, hsteady.replies]
    rcases hleft with hleft | ⟨hfull, hleft⟩
    · rw [hleft, List.flatMap_cons]
    · rw [hleft, hfull]
      show List.drop r.text.length r.text ++ _ = _
      rw [List.drop_length, List.nil_append]

end Consume

/-! ## The outcomes -/

/-- The text that greets a new session. -/
def greeting : List UInt8 := ascii "220 RAM FTP ready.\r\n"

/-- What a call may do, and the calls of which more is said. -/
inductive Outcome (s : FtpState) : FtpCall → List Ev → FtpReturn → FtpState → Prop where
  | effects {call : FtpCall} {tr : List Ev} {r : FtpReturn} {s' : FtpState}
      (h : Effects s tr s') (htook : call.took r = true → s.core.operation = true)
      (hended : call.ended r = true → s.core.operation = true)
      (hopened : call.opened r = false) (hreset : call.resets = false)
      (hhanded : call.handed s r = []) : Outcome s call tr r s'
  | inits {binding : FtpStorage} (h : s.core.quiescent = true) :
      Outcome s (.init binding) [] (.bool true)
        { s with storage := some binding, core := .zero }
  | binds {binding : Option FtpOperation} (h : s.core.quiescent = true) :
      Outcome s (.bindOperation binding) [] (.bool true)
        { s with operation := binding }
  | resets : Outcome s .reset (resetEvents s) .unit { s with core := .zero }
  | opens {now : UInt32} {c : FtpCore} (hst : s.storage ≠ none)
      (h : s.core.session = false)
      (hc : Steady { s.core with session := true } c)
      (hroom : Room { s with core := c }) :
      Outcome s (.sessionOpen now) [pointEv (.queued greeting)] (.bool true)
        { s with core := c.queue greeting false now hroom.lt }
  | consumes {n : Nat} {now : UInt32} {s' : FtpState} (h : Consumed s n s') :
      Outcome s (.replyConsume n now) [] (.bool true) s'
  | appends {call : FtpCall} {bytes : List UInt8} {r : FtpReturn} {c : FtpCore}
      (hup : Uploading s) (hspan : call.span = some bytes)
      (htook : call.took r = true) (hc : Steady s.core c) :
      Outcome s call [storageEv s (.append bytes) .ok] r { s with core := c }
  | refuses {call : FtpCall} {bytes : List UInt8} {result : FtpStorageResult}
      {tr : List Ev} {r : FtpReturn} {s' : FtpState} (hup : Uploading s)
      (hspan : call.span = some bytes) (hne : result ≠ .ok)
      (htook : call.took r = false) (h : Effects s tr s') :
      Outcome s call (storageEv s (.append bytes) result :: tr) r s'
  | ends {now : UInt32} {c : FtpCore} (hup : Uploading s)
      (hc : Steady { s.core with eof := true, closing := true } c) :
      Outcome s (.uploadEof now) [] (.bool true) { s with core := c }
  | completes {now : UInt32} {ev : List Ev} {committed : Bool} {c : FtpCore}
      {text : List UInt8} (hcommit : Commits s ev committed)
      (hc : Steady s.core.torn c) (hroom : Room { s with core := c })
      (hfit : text.length ≤ ftpReplyCapacity)
      (htext : committed = true ↔ Announces text) :
      Outcome s (.dataCloseResult true now)
        (ev ++ (tornEvents s ++ [pointEv (.queued text)])) (.bool committed)
        { s with core := c.queue text false now hroom.lt }

section Calls

variable {s s' : FtpState} {tr : List Ev} {now : UInt32} {r : FtpReturn}

/-- A call of which nothing more is said. -/
theorem outcome_effects {call : FtpCall} (h : Effects s tr s')
    (htook : call.took r = false) (hended : call.ended r = false)
    (hopened : call.opened r = false) (hreset : call.resets = false)
    (hhanded : call.handed s r = []) : Outcome s call tr r s' :=
  .effects h (fun h => by rw [htook] at h; cases h)
    (fun h => by rw [hended] at h; cases h) hopened hreset hhanded

theorem init_outcome {binding : FtpStorage} {b : Bool}
    (h : (b, s') = ftpCoreInit s binding) :
    Outcome s (.init binding) [] (.bool b) s' := by
  unfold ftpCoreInit at h
  split at h
  · cases h
    exact outcome_effects (.refl _) rfl rfl rfl rfl rfl
  · next hq =>
      cases h
      simp only [not_or, Bool.not_eq_true', Bool.not_eq_false] at hq
      exact .inits hq.2.2.2

theorem bindOperation_outcome {binding : Option FtpOperation} {b : Bool}
    (h : (b, s') = ftpCoreBindOperation s binding) :
    Outcome s (.bindOperation binding) [] (.bool b) s' := by
  unfold ftpCoreBindOperation at h
  split at h
  · cases h
    exact outcome_effects (.refl _) rfl rfl rfl rfl rfl
  · next hq =>
      cases h
      simp only [not_or, Bool.not_eq_true', Bool.not_eq_false] at hq
      exact .binds hq.1

theorem sessionOpen_outcome {b : Bool} (hs : Sound s)
    (hr : Runs (ftpCoreSessionOpen s now) tr (b, s')) :
    Outcome s (.sessionOpen now) tr (.bool b) s' := by
  unfold ftpCoreSessionOpen at hr
  split at hr
  · obtain ⟨rfl, he⟩ := runs_pure_iff.mp hr
    cases he
    exact outcome_effects (.refl _) rfl rfl rfl rfl rfl
  · next h =>
      simp only [not_or, Bool.not_eq_true] at h
      have hi := hs.closed h.2.1
      have hroom : Room { s with
          core := { s.core with session := true, controlTime := now } } := by
        refine ⟨rfl, ?_⟩
        show s.core.replies.count + 1 + FtpCore.reserve _ ≤ _
        rw [hs.empty h.2.1, FtpCore.reserve, FtpCore.pending]
        dsimp only
        rw [hi.opening, hi.passive, hi.direction]
        decide
      obtain ⟨rfl, rfl, rfl⟩ := reply_runs hroom.lt hr
      refine .opens h.1 h.2.1 ?_ hroom
      exact ⟨rfl, fun _ => rfl, rfl, rfl, rfl, rfl, rfl, rfl, rfl⟩

theorem fits_passive (epsv : Bool) (address : Fin 4 → UInt8) (port : UInt16) :
    Fits (passiveText epsv address port) := by
  have hport := port.toNat_lt
  have hp := @length_decimal 5 port.toNat (by decide) (by omega)
  have hhi := @length_decimal 3 (port.toNat / 256) (by decide)
    (by omega)
  have hlo := @length_decimal 3 (port.toNat % 256) (by decide)
    (by omega)
  have hoctet : ∀ i, (decimal (address i).toNat).length ≤ 3 := fun i =>
    length_decimal (by decide) (Nat.lt_trans (address i).toNat_lt (by decide))
  have h0 := hoctet 0
  have h1 := hoctet 1
  have h2 := hoctet 2
  have h3 := hoctet 3
  have hpre : (ascii "229 Entering Extended Passive Mode (|||").length = 39 := by
    decide
  have hpre' : (ascii "227 Entering Passive Mode (").length = 27 := by decide
  have hcomma : (ascii ",").length = 1 := by decide
  have hend : (ascii "|).\r\n").length = 5 := by decide
  have hend' : (ascii ").\r\n").length = 4 := by decide
  unfold passiveText
  split
  · rw [List.append_assoc]
    refine fits_of_code (by decide) (by decide) ?_
    simp only [List.length_append, hpre, hend]
    show _ ≤ 128
    omega
  · simp only [List.append_assoc]
    refine fits_of_code (by decide) (by decide) ?_
    simp only [List.length_append, hpre', hcomma, hend']
    show _ ≤ 128
    omega

theorem passiveResult_effects {success b : Bool} {address : Option (Fin 4 → UInt8)}
    {port : UInt16} (hs : Sound s)
    (hr : Runs (ftpCorePassiveResult s success address port now) tr (b, s')) :
    Effects s tr s' := by
  unfold ftpCorePassiveResult at hr
  split at hr
  · obtain ⟨rfl, he⟩ := runs_pure_iff.mp hr
    cases he
    exact .refl _
  next h =>
  simp only [not_or, Bool.not_eq_true', Bool.not_eq_false] at h
  obtain ⟨hsession, hopen⟩ := h
  have hroom := hs.room
  rw [FtpCore.reserve, FtpCore.pending, hopen] at hroom
  have hcount : s.core.replies.count + 2 ≤ ftpReplySlots := hroom
  dsimp only at hr
  split at hr
  · obtain ⟨tr₁, s₁, tr₂, rfl, h₁, h₂⟩ := runs_bind_iff'.mp hr
    obtain ⟨rfl, he⟩ := runs_pure_iff.mp h₂
    cases he
    obtain ⟨he, -⟩ := failure_effects (by exact hsession)
      (by exact Nat.lt_of_succ_lt hcount) (by decide) h₁
    rw [List.append_nil]
    exact he.from_steady ⟨rfl, fun _ => rfl, rfl, rfl, rfl, rfl, rfl, rfl, rfl⟩
  · obtain ⟨he, -, -⟩ := reply_effects (by exact ⟨hsession, hcount⟩)
      (fits_passive _ _ _) hr
    have hl : ∀ {c : FtpCore}, Steady { s.core with opening := false, passive := true }
        c → Effects { s with core := c } tr s' → Effects s tr s' :=
      fun hc he => .cons (.listening hsession hopen hc) he
    refine hl ?_ he
    exact ⟨rfl, fun _ => rfl, rfl, rfl, rfl, rfl, rfl, rfl, rfl⟩

theorem dataConnected_effects {b : Bool}
    (h : (b, s') = ftpCoreDataConnected s now) : Effects s [] s' := by
  unfold ftpCoreDataConnected at h
  split at h
  · cases h
    exact .refl _
  · cases h
    refine Effects.from_steady (.refl _) ?_
    exact ⟨rfl, fun _ => rfl, rfl, rfl, rfl, rfl, rfl, rfl, rfl⟩

/-- The end of a step of a transfer: it goes on, or it fails. -/
theorem Sound.fails (hs : Sound s) (hd : s.core.direction ≠ .idle)
    {text : List UInt8} (hfit : Fits text) (hr : Runs (failure s text now) tr s') :
    Effects s tr s' := by
  have hsession : s.core.session = true :=
    Bool.of_not_eq_false fun hc => hd (hs.closed hc).direction
  have hp : s.core.pending = true := by
    rw [FtpCore.pending, bne_iff_ne.mpr hd, Bool.or_true]
  exact (failure_effects hsession (hs.lt hp) hfit hr).1

theorem steady_progressed (c : FtpCore) (n : Nat) (now : UInt32) :
    Steady c (c.progressed n now) := by
  unfold FtpCore.progressed
  split
  · exact ⟨rfl, fun _ => rfl, rfl, rfl, rfl, rfl, rfl, rfl, rfl⟩
  · exact .refl _

theorem feedOperation_effects {bytes : List UInt8} {out : FtpInput × Nat}
    (hs : Sound s) (hop : s.core.operation = true) (heof : s.core.eof = false)
    (hr : Runs (feedOperation s bytes now) tr (out, s')) : Effects s tr s' := by
  have hdir := (hs.operation hop).1
  obtain ⟨⟨r, accepted⟩, rest, rfl, hk⟩ := runs_ask_iff.mp hr
  have hfeed : Effect s [operationEv s (.feed bytes) (r, accepted)] s := .feeds hop heof
  refine .cons hfeed ?_
  dsimp only at hk
  generalize (if accepted > bytes.length then 0 else accepted) = n at hk
  generalize (if accepted > bytes.length then FtpOperationResult.error else r) = r'
    at hk
  have hc := steady_progressed s.core n now
  split at hk
  · obtain ⟨tr₁, s₁, tr₂, rfl, h₁, h₂⟩ := runs_bind_iff'.mp hk
    obtain ⟨rfl, he⟩ := runs_pure_iff.mp h₂
    cases he
    rw [List.append_nil]
    refine Effects.from_steady ((hs.steady hc).fails ?_ (by decide) h₁) hc
    rw [show (FtpState.mk s.storage s.operation _).core = _ from rfl, hc.direction]
    exact hdir
  · obtain ⟨rfl, he⟩ := runs_pure_iff.mp hk
    cases he
    exact (Effect.steady hc).effects

theorem appendStorage_outcome {call : FtpCall} {bytes : List UInt8}
    {out : FtpInput × Nat} (hs : Sound s) (hup : Uploading s)
    (hspan : call.span = some bytes)
    (hr : Runs (appendStorage s bytes now) tr (out, s'))
    (hok : call.took r = true ↔ out.1 = .ok) : Outcome s call tr r s' := by
  obtain ⟨result, rest, rfl, hk⟩ := runs_ask_iff.mp hr
  split at hk
  · next hne =>
      obtain ⟨tr₁, s₁, tr₂, rfl, h₁, h₂⟩ := runs_bind_iff'.mp hk
      obtain ⟨rfl, he⟩ := runs_pure_iff.mp h₂
      cases he
      rw [List.append_nil]
      refine .refuses hup hspan hne ?_ (hs.fails ?_ ?_ h₁)
      · exact Bool.eq_false_iff.mpr fun h => by cases hok.mp h
      · rw [hup.direction]
        decide
      · split <;> decide
  · next heq =>
      obtain rfl := not_not.mp heq
      obtain ⟨rfl, he⟩ := runs_pure_iff.mp hk
      cases he
      exact .appends hup hspan (hok.mpr rfl) (steady_progressed _ _ _)

section Span

variable {call : FtpCall} {bytes : List UInt8}

theorem span_ended (h : call.span = some bytes) : call.ended r = false := by
  cases call <;> first | rfl | cases h

theorem span_opened (h : call.span = some bytes) : call.opened r = false := by
  cases call <;> first | rfl | cases h

theorem span_resets (h : call.span = some bytes) : call.resets = false := by
  cases call <;> first | rfl | cases h

theorem span_handed (h : call.span = some bytes) : call.handed s r = [] := by
  cases call <;> first | rfl | cases h

end Span

theorem uploadSpan_outcome {call : FtpCall} {bytes : List UInt8}
    {out : FtpInput × Nat} (hs : Sound s) (hspan : call.span = some bytes)
    (hr : Runs (ftpCoreUploadSpan s bytes now) tr (out, s'))
    (hok : call.took r = true ↔ out.1 = .ok) : Outcome s call tr r s' := by
  have hended := span_ended (r := r) hspan
  unfold ftpCoreUploadSpan at hr
  split at hr
  · obtain ⟨rfl, he⟩ := runs_pure_iff.mp hr
    cases he
    refine outcome_effects (.refl _) ?_ hended (span_opened hspan)
      (span_resets hspan) (span_handed hspan)
    exact Bool.eq_false_iff.mpr fun h => by cases hok.mp h
  next h =>
  simp only [not_or, not_not, Bool.not_eq_true] at h
  split at hr
  · next hop =>
      refine .effects (feedOperation_effects hs hop h.2.2 hr) (fun _ => hop)
        (fun he => ?_) (span_opened hspan) (span_resets hspan) (span_handed hspan)
      rw [hended] at he
      cases he
  · next hop =>
      exact appendStorage_outcome hs ⟨h.2.1, Bool.eq_false_iff.mpr hop, h.2.2⟩ hspan
        hr hok

theorem uploadChunk_outcome {bytes : List UInt8} {b : Bool} (hs : Sound s)
    (hr : Runs (ftpCoreUploadChunk s bytes now) tr (b, s')) :
    Outcome s (.uploadChunk bytes now) tr (.bool b) s' := by
  unfold ftpCoreUploadChunk at hr
  split at hr
  · obtain ⟨rfl, he⟩ := runs_pure_iff.mp hr
    cases he
    exact outcome_effects (.refl _) rfl rfl rfl rfl rfl
  · obtain ⟨tr₁, ⟨out, s₁⟩, tr₂, rfl, h₁, h₂⟩ := runs_bind_iff'.mp hr
    obtain ⟨rfl, he⟩ := runs_pure_iff.mp h₂
    cases he
    rw [List.append_nil]
    refine uploadSpan_outcome hs rfl h₁ ?_
    cases h : decide (out.1 = .ok)
    · exact iff_of_false nofun (of_decide_eq_false h)
    · exact iff_of_true rfl (of_decide_eq_true h)

theorem steady_closeData {c c' : FtpCore} (h : Steady c c') (now : UInt32) :
    Steady { c with closing := true } (c'.closeData now) :=
  ⟨h.session, h.quitting, h.opening, h.passive, rfl, h.eof, h.direction,
    h.operation, h.replies⟩

theorem uploadEof_outcome {b : Bool} (hs : Sound s)
    (hr : Runs (ftpCoreUploadEof s now) tr (b, s')) :
    Outcome s (.uploadEof now) tr (.bool b) s' := by
  unfold ftpCoreUploadEof at hr
  split at hr
  · obtain ⟨rfl, he⟩ := runs_pure_iff.mp hr
    cases he
    exact outcome_effects (.refl _) rfl rfl rfl rfl rfl
  next h =>
  simp only [not_or, not_not, Bool.not_eq_true] at h
  obtain ⟨-, hdir, heof⟩ := h
  dsimp only at hr
  split at hr
  · next hop =>
      obtain ⟨done, rest, rfl, hk⟩ := runs_ask_iff.mp hr
      have hends : Effect s [operationEv s .eof done] _ := .ends hop hdir heof
      refine .effects ?_ nofun (fun _ => hop) rfl rfl rfl
      split at hk
      · obtain ⟨tr₁, s₁, tr₂, rfl, h₁, h₂⟩ := runs_bind_iff'.mp hk
        obtain ⟨rfl, he⟩ := runs_pure_iff.mp h₂
        cases he
        rw [List.append_nil]
        refine .cons hends ((effect_sound hends hs).fails ?_ (by decide) h₁)
        show s.core.direction ≠ .idle
        rw [hdir]
        decide
      · obtain ⟨rfl, he⟩ := runs_pure_iff.mp hk
        cases he
        exact hends.effects
  · next hop =>
      obtain ⟨rfl, he⟩ := runs_pure_iff.mp hr
      cases he
      refine .ends ⟨hdir, Bool.eq_false_iff.mpr hop, heof⟩ ?_
      exact ⟨rfl, fun _ => rfl, rfl, rfl, rfl, rfl, rfl, rfl, rfl⟩

theorem foreground_effects (hs : Sound s)
    (hr : Runs (ftpCoreForeground s now) tr s') : Effects s tr s' := by
  unfold ftpCoreForeground at hr
  split at hr
  · obtain ⟨rfl, rfl⟩ := runs_pure_iff.mp hr
    exact .refl _
  next h =>
  simp only [not_or, not_not, Bool.not_eq_true', Bool.not_eq_false] at h
  obtain ⟨hop, hdir, -⟩ := h
  have hne : s.core.direction ≠ .idle := by
    rw [hdir]
    decide
  obtain ⟨result, rest, rfl, hk⟩ := runs_ask_iff.mp hr
  refine .cons (.steps (r := result) hop) ?_
  split at hk
  · split at hk
    · exact hs.fails hne (by decide) hk
    · obtain ⟨rfl, rfl⟩ := runs_pure_iff.mp hk
      refine (Effect.closes hne ?_).effects
      exact ⟨rfl, fun _ => rfl, rfl, rfl, rfl, rfl, rfl, rfl, rfl⟩
  split at hk
  · exact hs.fails hne (by decide) hk
  · obtain ⟨rfl, rfl⟩ := runs_pure_iff.mp hk
    exact .refl _

/-- A download that has nothing left closes, and is otherwise as it was. -/
theorem downloaded_effects {c : FtpCore} (hc : Steady s.core c)
    (hd : s.core.direction ≠ .idle) :
    Effects s [] { s with core := c.downloaded now } := by
  unfold FtpCore.downloaded
  split
  · exact (Effect.closes hd (steady_closeData hc now)).effects
  · exact (Effect.steady hc).effects

theorem downloadEnqueued_effects {n : Nat} {b : Bool}
    (h : (b, s') = ftpCoreDownloadEnqueued s n now) : Effects s [] s' := by
  unfold ftpCoreDownloadEnqueued at h
  split at h
  · cases h
    exact .refl _
  next hne =>
  simp only [not_or, not_not] at hne
  cases h
  refine downloaded_effects ?_ (by rw [hne.2.1]; decide)
  split <;> exact ⟨rfl, fun _ => rfl, rfl, rfl, rfl, rfl, rfl, rfl, rfl⟩

theorem downloadAcked_effects {n : Nat} {b : Bool}
    (h : (b, s') = ftpCoreDownloadAcked s n now) : Effects s [] s' := by
  unfold ftpCoreDownloadAcked at h
  split at h
  · cases h
    exact .refl _
  next hne =>
  simp only [not_or, not_not] at hne
  cases h
  refine downloaded_effects ?_ (by rw [hne.2.1]; decide)
  have hp := steady_progressed { s.core with acked := s.core.acked + n } n now
  exact ⟨hp.session, hp.quitting, hp.opening, hp.passive, hp.closing, hp.eof,
    hp.direction, hp.operation, hp.replies⟩

theorem commitUpload_runs {committed : Bool}
    (hr : Runs (commitUpload s) tr committed) : Commits s tr committed := by
  unfold commitUpload at hr
  split at hr
  · next hd =>
      obtain ⟨rfl, rfl⟩ := runs_pure_iff.mp hr
      exact .other hd
  next hd =>
  split at hr
  · next heof =>
      obtain ⟨rfl, rfl⟩ := runs_pure_iff.mp hr
      exact .short (not_not.mp hd) (by simpa using heof)
  next heof =>
  split at hr
  · next hop =>
      obtain ⟨rfl, rfl⟩ := runs_pure_iff.mp hr
      exact .operated (not_not.mp hd) (by simpa using heof) hop
  · next hop =>
      obtain ⟨result, rest, rfl, hk⟩ := runs_ask_iff.mp hr
      obtain ⟨rfl, rfl⟩ := runs_pure_iff.mp hk
      exact .stored (not_not.mp hd) (by simpa using heof)
        (Bool.eq_false_iff.mpr hop) result

theorem dataCloseResult_outcome {accepted b : Bool} (hs : Sound s)
    (hr : Runs (ftpCoreDataCloseResult s accepted now) tr (b, s')) :
    Outcome s (.dataCloseResult accepted now) tr (.bool b) s' := by
  unfold ftpCoreDataCloseResult at hr
  split at hr
  · obtain ⟨rfl, he⟩ := runs_pure_iff.mp hr
    cases he
    exact outcome_effects (.refl _) rfl rfl rfl rfl rfl
  next h =>
  simp only [not_or, Bool.not_eq_true', Bool.not_eq_false] at h
  obtain ⟨hsession, hclosing⟩ := h
  split at hr
  · obtain ⟨rfl, he⟩ := runs_pure_iff.mp hr
    cases he
    exact outcome_effects (.refl _) rfl rfl rfl rfl rfl
  next ha =>
  rw [Bool.not_eq_true', Bool.not_eq_false] at ha
  rw [ha]
  have hdir := hs.closing hclosing
  have hlt : s.core.replies.count < ftpReplySlots :=
    hs.lt (by rw [FtpCore.pending, bne_iff_ne.mpr hdir, Bool.or_true])
  rw [if_neg (Nat.ne_of_lt hlt)] at hr
  obtain ⟨tr₁, committed, tr', rfl, h₁, hr⟩ := runs_bind_iff'.mp hr
  obtain ⟨tr₂, s₁, tr'', rfl, h₂, hr⟩ := runs_bind_iff'.mp hr
  obtain ⟨rfl, rfl⟩ := teardown_runs h₂
  obtain ⟨tr₃, ⟨queued, s₂⟩, tr₄, rfl, h₃, h₄⟩ := runs_bind_iff'.mp hr
  obtain ⟨rfl, rfl, rfl⟩ := reply_runs (by exact hlt) h₃
  obtain ⟨rfl, he⟩ := runs_pure_iff.mp h₄
  cases he
  rw [Bool.and_true, List.append_nil]
  refine .completes (commitUpload_runs h₁) ?_ (by exact ⟨hsession, hlt⟩) ?_ ?_
  · exact ⟨rfl, fun _ => rfl, rfl, rfl, rfl, rfl, rfl, rfl, rfl⟩
  · split <;> decide
  · split
    · next hc => exact iff_of_true hc rfl
    · next hc => exact iff_of_false hc (by decide)

theorem dataError_effects (hs : Sound s)
    (hr : Runs (ftpCoreDataError s now) tr s') : Effects s tr s' := by
  unfold ftpCoreDataError at hr
  split at hr
  · next hd => exact hs.fails hd (by decide) hr
  split at hr
  · next hp =>
      have hpending : s.core.pending = true := by
        rw [FtpCore.pending, Bool.or_comm s.core.opening]
        simp [hp]
      have hsession : s.core.session = true := by
        refine Bool.of_not_eq_false fun hc => ?_
        have hi := hs.closed hc
        rw [hi.passive, hi.opening] at hp
        simp at hp
      exact (failure_effects hsession (hs.lt hpending) (by decide) hr).1
  · obtain ⟨rfl, rfl⟩ := runs_pure_iff.mp hr
    exact .refl _

theorem tick_effects (hs : Sound s) (hr : Runs (ftpCoreTick s now) tr s') :
    Effects s tr s' := by
  unfold ftpCoreTick at hr
  dsimp only at hr
  split at hr
  · obtain ⟨rfl, rfl⟩ := runs_pure_iff.mp hr
    exact .refl _
  next hsession =>
  rw [Bool.not_eq_true', Bool.not_eq_false] at hsession
  split at hr
  · exact lost_effects hr
  split at hr
  · next h => exact hs.fails (hs.closing h.1) (by decide) hr
  split at hr
  · next h => exact hs.fails (by rw [h.1]; decide) (by decide) hr
  split at hr
  · next h => exact hs.fails h.1 (by decide) hr
  split at hr
  · next h => exact hs.fails h.1 (by decide) hr
  split at hr
  · next h =>
      have hpending : s.core.pending = true := by
        rw [FtpCore.pending]
        rcases h.1 with ho | ⟨hp, -⟩ | ⟨hp, -⟩
        · rw [ho]
          rfl
        · rw [hp, Bool.or_true]
          rfl
        · rw [hp, Bool.or_true]
          rfl
      exact (failure_effects hsession (hs.lt hpending) (by decide) hr).1
  · obtain ⟨rfl, rfl⟩ := runs_pure_iff.mp hr
    exact .refl _

theorem replyConsume_outcome {n : Nat} {b : Bool}
    (h : (b, s') = ftpCoreReplyConsume s n now) :
    Outcome s (.replyConsume n now) [] (.bool b) s' := by
  cases b with
  | false =>
      unfold ftpCoreReplyConsume at h
      dsimp only at h
      split at h
      · cases h
        exact outcome_effects (.refl _) rfl rfl rfl rfl rfl
      · cases h
  | true =>
      have heq : s' = (ftpCoreReplyConsume s n now).2 := congrArg Prod.snd h
      rw [heq]
      unfold ftpCoreReplyConsume at h
      dsimp only at h
      split at h
      · cases h
      · next hne =>
          simp only [not_or, Nat.not_lt, gt_iff_lt] at hne
          exact .consumes (replyConsume_consumed hne.1 hne.2.1 hne.2.2)

theorem returnBool_runs {p : FtpProg (Bool × FtpState)}
    (h : Runs (returnBool p) tr (r, s')) : ∃ b, r = .bool b ∧ Runs p tr (b, s') := by
  obtain ⟨tr₁, ⟨b, s₁⟩, tr₂, rfl, h₁, h₂⟩ := runs_bind_iff'.mp h
  obtain ⟨rfl, he⟩ := runs_pure_iff.mp h₂
  cases he
  rw [List.append_nil]
  exact ⟨b, rfl, h₁⟩

theorem returnUnit_runs {p : FtpProg FtpState}
    (h : Runs (returnUnit p) tr (r, s')) : r = .unit ∧ Runs p tr s' := by
  obtain ⟨tr₁, s₁, tr₂, rfl, h₁, h₂⟩ := runs_bind_iff'.mp h
  obtain ⟨rfl, he⟩ := runs_pure_iff.mp h₂
  cases he
  rw [List.append_nil]
  exact ⟨rfl, h₁⟩

theorem returnInput_runs {p : FtpProg ((FtpInput × Nat) × FtpState)}
    (h : Runs (returnInput p) tr (r, s')) :
    ∃ out, r = .input out.1 out.2 ∧ Runs p tr (out, s') := by
  obtain ⟨tr₁, ⟨out, s₁⟩, tr₂, rfl, h₁, h₂⟩ := runs_bind_iff'.mp h
  obtain ⟨rfl, he⟩ := runs_pure_iff.mp h₂
  cases he
  rw [List.append_nil]
  exact ⟨out, rfl, h₁⟩

/-- Every call of the interface. -/
theorem call_outcome {call : FtpCall} (hs : Sound s)
    (hr : Runs (call.perform s) tr (r, s')) : Outcome s call tr r s' := by
  cases call with
  | init binding =>
      obtain ⟨b, rfl, h⟩ := returnBool_runs hr
      obtain ⟨rfl, he⟩ := runs_pure_iff.mp h
      exact init_outcome he
  | bindOperation binding =>
      obtain ⟨b, rfl, h⟩ := returnBool_runs hr
      obtain ⟨rfl, he⟩ := runs_pure_iff.mp h
      exact bindOperation_outcome he
  | reset =>
      obtain ⟨rfl, h⟩ := returnUnit_runs hr
      obtain ⟨rfl, rfl⟩ := reset_runs h
      exact .resets
  | sessionOpen now =>
      obtain ⟨b, rfl, h⟩ := returnBool_runs hr
      exact sessionOpen_outcome hs h
  | sessionLost =>
      obtain ⟨rfl, h⟩ := returnUnit_runs hr
      exact outcome_effects (lost_effects h) rfl rfl rfl rfl rfl
  | controlClosed =>
      obtain ⟨rfl, h⟩ := returnUnit_runs hr
      obtain ⟨tr₁, s₁, tr₂, rfl, h₁, h₂⟩ := runs_bind_iff'.mp h
      obtain ⟨rfl, rfl⟩ := runs_pure_iff.mp h₂
      rw [List.append_nil]
      refine outcome_effects ((lost_effects h₁).then_steady ?_) rfl rfl rfl rfl rfl
      exact ⟨rfl, fun _ => rfl, rfl, rfl, rfl, rfl, rfl, rfl, rfl⟩
  | takeActions =>
      obtain ⟨rfl, he⟩ := runs_pure_iff.mp hr
      cases he
      refine outcome_effects (Effect.steady ?_).effects rfl rfl rfl rfl rfl
      exact ⟨rfl, fun _ => rfl, rfl, rfl, rfl, rfl, rfl, rfl, rfl⟩
  | replyPeek =>
      obtain ⟨rfl, he⟩ := runs_pure_iff.mp hr
      cases he
      exact outcome_effects (.refl _) rfl rfl rfl rfl rfl
  | replyConsume n now =>
      obtain ⟨b, rfl, h⟩ := returnBool_runs hr
      obtain ⟨rfl, he⟩ := runs_pure_iff.mp h
      exact replyConsume_outcome he
  | controlSpan bytes now =>
      obtain ⟨out, rfl, h⟩ := returnInput_runs hr
      exact outcome_effects (controlSpan_effects hs h) rfl rfl rfl rfl rfl
  | passiveResult success address port now =>
      obtain ⟨b, rfl, h⟩ := returnBool_runs hr
      exact outcome_effects (passiveResult_effects hs h) rfl rfl rfl rfl rfl
  | dataConnected now =>
      obtain ⟨b, rfl, h⟩ := returnBool_runs hr
      obtain ⟨rfl, he⟩ := runs_pure_iff.mp h
      exact outcome_effects (dataConnected_effects he) rfl rfl rfl rfl rfl
  | uploadChunk bytes now =>
      obtain ⟨b, rfl, h⟩ := returnBool_runs hr
      exact uploadChunk_outcome hs h
  | uploadSpan bytes now =>
      obtain ⟨out, rfl, h⟩ := returnInput_runs hr
      refine uploadSpan_outcome hs rfl h ?_
      cases out.1 <;> simp [FtpCall.took]
  | uploadEof now =>
      obtain ⟨b, rfl, h⟩ := returnBool_runs hr
      exact uploadEof_outcome hs h
  | foreground now =>
      obtain ⟨rfl, h⟩ := returnUnit_runs hr
      exact outcome_effects (foreground_effects hs h) rfl rfl rfl rfl rfl
  | downloadSpan =>
      obtain ⟨rfl, he⟩ := runs_pure_iff.mp hr
      cases he
      exact outcome_effects (.refl _) rfl rfl rfl rfl rfl
  | downloadEnqueued n now =>
      obtain ⟨b, rfl, h⟩ := returnBool_runs hr
      obtain ⟨rfl, he⟩ := runs_pure_iff.mp h
      exact outcome_effects (downloadEnqueued_effects he) rfl rfl rfl rfl rfl
  | downloadAcked n now =>
      obtain ⟨b, rfl, h⟩ := returnBool_runs hr
      obtain ⟨rfl, he⟩ := runs_pure_iff.mp h
      exact outcome_effects (downloadAcked_effects he) rfl rfl rfl rfl rfl
  | dataCloseResult accepted now =>
      obtain ⟨b, rfl, h⟩ := returnBool_runs hr
      exact dataCloseResult_outcome hs h
  | dataError now =>
      obtain ⟨rfl, h⟩ := returnUnit_runs hr
      exact outcome_effects (dataError_effects hs h) rfl rfl rfl rfl rfl
  | file =>
      obtain ⟨tr₁, view, tr₂, rfl, h₁, h₂⟩ := runs_bind_iff'.mp hr
      obtain ⟨rfl, he⟩ := runs_pure_iff.mp h₂
      cases he
      rw [List.append_nil]
      unfold ftpCoreFile at h₁
      split at h₁
      · obtain ⟨rfl, rfl⟩ := runs_pure_iff.mp h₁
        exact outcome_effects (.refl _) rfl rfl rfl rfl rfl
      · obtain ⟨v, rest, rfl, hk⟩ := runs_call_iff.mp h₁
        obtain ⟨rfl, rfl⟩ := runs_ret_iff.mp hk
        refine outcome_effects (Effect.effects (.asks ?_)) rfl rfl rfl rfl rfl
        trivial
  | tick now =>
      obtain ⟨rfl, h⟩ := returnUnit_runs hr
      exact outcome_effects (tick_effects hs h) rfl rfl rfl rfl rfl

end Calls

/-! ## Runs -/

/-- What one call did: the calls into the bindings and what it returned. -/
structure FtpLabel where
  call : FtpCall
  events : List Ev
  result : FtpReturn

def FtpStep (s : FtpState) (l : FtpLabel) (s' : FtpState) : Prop :=
  Runs (l.call.perform s) l.events (l.result, s')

/-- The statics before the first call. -/
def FtpState.start : FtpState := ⟨none, none, .zero⟩

/-- The run of a list of calls against a device with one answer to each. -/
def play {σ : Type} (h : (op : FtpOp) → σ → FtpSig.Ans op × σ) (s : FtpState)
    (d : σ) : List FtpCall → List (FtpLabel × FtpState)
  | [] => []
  | call :: calls =>
      let p := call.perform s
      let s' := (p.run h d).1.2
      (⟨call, p.trace h d, (p.run h d).1.1⟩, s') :: play h s' (p.run h d).2 calls

def played {σ : Type} (h : (op : FtpOp) → σ → FtpSig.Ans op × σ) (s : FtpState)
    (d : σ) : List FtpCall → FtpState
  | [] => s
  | call :: calls =>
      let p := call.perform s
      played h (p.run h d).1.2 (p.run h d).2 calls

theorem run_play {σ : Type} (h : (op : FtpOp) → σ → FtpSig.Ans op × σ) (s : FtpState)
    (d : σ) (calls : List FtpCall) :
    Run FtpStep s (play h s d calls) (played h s d calls) := by
  induction calls generalizing s d with
  | nil => exact .nil s
  | cons call calls ih =>
      exact .cons (l := ⟨call, _, _⟩) (runs_trace h (call.perform s) d) (ih _ _)

theorem Consumed.sound {s s' : FtpState} {n : Nat} (h : Consumed s n s')
    (hs : Sound s) : Sound s' := by
  have hf := h.flags
  have hroom := hs.room
  have hcount := h.count
  have hreserve : s'.core.reserve = s.core.reserve := hf.reserve
  refine ⟨?_, ?_, ?_, ?_, ?_, ?_, ?_, ?_, h.fits hs.fits⟩
  · rw [h.storage, show s'.core.session = s.core.session from hf.session]
    exact hs.bound
  · intro hc
    have hc' : s.core.session = false := hf.session.symm.trans hc
    exact (hf.quitting hc').trans (hs.quitting hc')
  · intro hc
    have := hs.empty (hf.session.symm.trans hc)
    omega
  · intro hc
    have hi := hs.closed (hf.session.symm.trans hc)
    exact hf.idle ⟨hi.opening, hi.passive, hi.direction, hi.closing, hi.eof,
      hi.operation⟩
  · rw [show s'.core.closing = s.core.closing from hf.closing,
      show s'.core.direction = s.core.direction from hf.direction]
    exact hs.closing
  · rw [show s'.core.operation = s.core.operation from hf.operation,
      show s'.core.direction = s.core.direction from hf.direction, h.bound]
    exact hs.operation
  · rw [show s'.core.eof = s.core.eof from hf.eof,
      show s'.core.direction = s.core.direction from hf.direction]
    exact hs.eof
  · rw [hreserve]
    omega

/-- What a call leaves is sound again. -/
theorem outcome_sound {s s' : FtpState} {call : FtpCall} {tr : List Ev}
    {r : FtpReturn} (h : Outcome s call tr r s') (hs : Sound s) : Sound s' := by
  cases h with
  | effects he _ _ _ _ _ => exact effects_sound he hs
  | inits _ => exact .zero
  | binds hq =>
      exact { hs with
        operation := fun hop =>
          absurd (FtpCore.quiescent_idle hq) (hs.operation hop).1 }
  | resets => exact .zero
  | opens hst hn hc hroom =>
      have hi := hs.closed hn
      have hflag : Sound { s with core := { s.core with session := true } } :=
        sound_idle (fun _ => hst) nofun nofun
          ⟨hi.opening, hi.passive, hi.direction, hi.closing, hi.eof, hi.operation⟩
          hs.fits
      exact (hflag.steady hc).queue hroom.session hroom.room (by decide) hroom.lt
  | consumes hc => exact hc.sound hs
  | appends _ _ _ hc => exact hs.steady hc
  | refuses _ _ _ _ he => exact effects_sound he hs
  | ends hup hc =>
      have hne : s.core.direction ≠ .idle := by
        rw [hup.direction]
        decide
      have hsession : s.core.session = true :=
        Bool.of_not_eq_false fun hn => hne (hs.closed hn).direction
      have hflag : Sound { s with
          core := { s.core with eof := true, closing := true } } :=
        sound_session hsession (hs.bound hsession) (fun _ => hne) hs.operation
          (fun _ => hup.direction) hs.room hs.fits
      exact hflag.steady hc
  | completes _ hc hroom hfit _ =>
      exact (hs.torn.steady hc).queue hroom.session hroom.room hfit hroom.lt

theorem step_sound {s s' : FtpState} {l : FtpLabel} (hs : Sound s)
    (h : FtpStep s l s') : Sound s' := outcome_sound (call_outcome hs h) hs

theorem run_sound {s : FtpState} {tr : List (FtpLabel × FtpState)}
    (h : Run FtpStep .start tr s) : Sound s := h.invariant step_sound .zero

end EkBareMetal.Ftp

import EkBareMetal.Proofs.FtpCalls

/-!
# The reply ring

No call of the core ever finds every slot in use, and nothing that is queued in
a session is lost, repeated or reordered while the session lasts: what the
consumer has been handed, followed by what is still unread, is what was queued.
The account starts anew when a session opens, since the loss of one clears the
ring.
-/

namespace EkBareMetal.Ftp

open Interact Transition

def textOf (e : Ev) : Option (List UInt8) :=
  match e with
  | ⟨.point (.queued text), _⟩ => some text
  | _ => none

/-- The texts that a transcript copies into slots. -/
def texts (tr : List Ev) : List (List UInt8) := tr.filterMap textOf

/-- The event marks a branch that finds every slot in use. -/
def Full (e : Ev) : Prop :=
  match e with
  | ⟨.point .replyFull, _⟩ => True
  | ⟨.point .closeFull, _⟩ => True
  | _ => False

/-- What was queued and what was handed out since the session opened. -/
structure Account where
  queued : List (List UInt8)
  handed : List UInt8

/-- The account after a call that `s` was the state before. -/
def Account.next (a : Account) (s : FtpState) (l : FtpLabel) : Account :=
  if l.call.opened l.result then ⟨texts l.events, []⟩
  else ⟨a.queued ++ texts l.events, a.handed ++ l.call.handed s l.result⟩

def account (a : Account) (s : FtpState) : List (FtpLabel × FtpState) → Account
  | [] => a
  | (l, s') :: tr => account (a.next s l) s' tr

section Texts

variable {s s' : FtpState} {tr tr' : List Ev} {e : Ev}

theorem texts_append : texts (tr ++ tr') = texts tr ++ texts tr' :=
  List.filterMap_append

theorem texts_endEvents : texts (endEvents s) = [] := by
  rw [endEvents]
  split <;> rfl

theorem texts_tornEvents : texts (tornEvents s) = [] := by
  rw [tornEvents, texts_append, texts_endEvents]
  split <;> rfl

theorem textOf_asks (h : Asks e) : textOf e = none := by
  unfold Asks at h
  split at h <;> first | rfl | exact h.elim

theorem textOf_refused (h : Refused e) : textOf e = none := by
  unfold Refused at h
  split at h <;> first | rfl | exact h.elim

theorem texts_commits {committed : Bool} (h : Commits s tr committed) :
    texts tr = [] := by
  cases h <;> rfl

theorem unread_queue (c : FtpCore) {text : List UInt8} {start : Bool} {now : UInt32}
    (hlt) : (c.queue text start now hlt).unread = c.unread ++ text := by
  rw [FtpCore.unread, FtpCore.queue, RingBuffer.contents_push, List.flatMap_append,
    List.flatMap_singleton]
  rfl

theorem unread_torn (c : FtpCore) : c.torn.unread = c.unread := by
  rw [FtpCore.unread, contents_torn, List.flatMap_map]
  rfl

theorem Steady.unread {c c' : FtpCore} (h : Steady c c') : c'.unread = c.unread := by
  rw [FtpCore.unread, h.replies]
  rfl

/-- Without a text the unread bytes are to be the same. -/
theorem unread_silent {c c' : FtpCore} (h : c'.unread = c.unread)
    (ht : texts tr = []) : c'.unread = c.unread ++ (texts tr).flatten := by
  rw [ht, h, List.flatten_nil, List.append_nil]

/-- An effect that leaves a session found one, and what it queues it appends. -/
theorem effect_unread (h : Effect s tr s') (hs : s'.core.session = true) :
    s.core.session = true ∧ s'.core.unread = s.core.unread ++ (texts tr).flatten := by
  cases h with
  | steady hc => exact ⟨hc.session.symm.trans hs, unread_silent hc.unread rfl⟩
  | asks ha =>
      refine ⟨hs, unread_silent rfl ?_⟩
      rw [texts, List.filterMap_cons_none (textOf_asks ha), List.filterMap_nil]
  | refused _ hr =>
      refine ⟨hs, unread_silent rfl ?_⟩
      rw [texts, List.filterMap_cons_none (textOf_refused hr), List.filterMap_nil]
  | torn => exact ⟨hs, unread_silent (unread_torn _) texts_tornEvents⟩
  | left _ => cases hs
  | queues hsession _ _ hlt =>
      refine ⟨hsession, (unread_queue _ hlt).trans ?_⟩
      rw [show texts [pointEv (.queued _)] = [_] from rfl, List.flatten_singleton]
  | listens hsession _ _ hc => exact ⟨hsession, unread_silent hc.unread rfl⟩
  | listening hsession _ hc => exact ⟨hsession, unread_silent hc.unread rfl⟩
  | operates hl _ hc => exact ⟨hl.session, unread_silent hc.unread rfl⟩
  | uploads hl hc => exact ⟨hl.session, unread_silent hc.unread rfl⟩
  | downloads hl hc => exact ⟨hl.session, unread_silent hc.unread rfl⟩
  | feeds _ _ => exact ⟨hs, unread_silent rfl rfl⟩
  | ends _ _ _ => exact ⟨hs, unread_silent rfl rfl⟩
  | steps _ => exact ⟨hs, unread_silent rfl rfl⟩
  | closes _ hc => exact ⟨hc.session.symm.trans hs, unread_silent hc.unread rfl⟩

theorem effects_unread (h : Effects s tr s') (hs : s'.core.session = true) :
    s.core.session = true ∧ s'.core.unread = s.core.unread ++ (texts tr).flatten := by
  induction h with
  | refl => exact ⟨hs, unread_silent rfl rfl⟩
  | cons he _ ih =>
      obtain ⟨hs₁, hu₁⟩ := ih hs
      obtain ⟨hs₀, hu₀⟩ := effect_unread he hs₁
      refine ⟨hs₀, ?_⟩
      rw [hu₁, hu₀, texts_append, List.flatten_append, List.append_assoc]

theorem plain_room (h : Plain e) : ¬ Full e := by
  intro hf
  unfold Full at hf
  split at hf
  · exact h
  · exact h
  · exact hf

end Texts

/-! ## The account of a session -/

section Account

variable {s s' : FtpState} {l : FtpLabel} {tr : List (FtpLabel × FtpState)}

/-- In a session the account balances. -/
def Balances (a : Account) (s : FtpState) : Prop :=
  s.core.session = true → a.handed ++ s.core.unread = a.queued.flatten

theorem step_room (hs : Sound s) (h : FtpStep s l s') :
    ∀ e ∈ l.events, ¬ Full e := by
  obtain ⟨call, tr, r⟩ := l
  have heffects : ∀ {s s' : FtpState} {tr : List Ev}, Effects s tr s' →
      ∀ e ∈ tr, ¬ Full e := fun he e hm => plain_room (effects_plain he e hm)
  cases call_outcome hs h with
  | effects he _ _ _ _ _ => exact heffects he
  | inits _ => exact List.forall_mem_nil _
  | binds _ => exact List.forall_mem_nil _
  | resets =>
      refine List.forall_mem_append.mpr
        ⟨fun e hm => plain_room (plain_endEvents e hm), ?_⟩
      split
      · exact List.forall_mem_nil _
      · exact List.forall_mem_singleton.mpr id
  | opens _ _ _ _ => exact List.forall_mem_singleton.mpr id
  | consumes _ => exact List.forall_mem_nil _
  | appends _ _ _ _ => exact List.forall_mem_singleton.mpr id
  | refuses _ _ _ _ he => exact List.forall_mem_cons.mpr ⟨id, heffects he⟩
  | ends _ _ => exact List.forall_mem_nil _
  | completes hcommit _ _ _ _ =>
      refine List.forall_mem_append.mpr ⟨?_, List.forall_mem_append.mpr
        ⟨heffects (Effect.torn s).effects, List.forall_mem_singleton.mpr id⟩⟩
      cases hcommit with
      | stored _ _ _ _ => exact List.forall_mem_singleton.mpr id
      | _ => exact List.forall_mem_nil _

/-- A call that opens no session and hands nothing out. -/
theorem balances_queued {a : Account} (ha : Balances a s)
    (hopened : l.call.opened l.result = false) (hhanded : l.call.handed s l.result = [])
    (hu : s'.core.session = true → s.core.session = true ∧
      s'.core.unread = s.core.unread ++ (texts l.events).flatten) :
    Balances (a.next s l) s' := by
  intro hs
  obtain ⟨hs₀, hunread⟩ := hu hs
  rw [Account.next, hopened, hhanded]
  show a.handed ++ [] ++ s'.core.unread = (a.queued ++ texts l.events).flatten
  rw [List.append_nil, hunread, ← List.append_assoc, ha hs₀, List.flatten_append]

theorem step_balances {a : Account} (hs : Sound s) (ha : Balances a s)
    (h : FtpStep s l s') : Balances (a.next s l) s' := by
  obtain ⟨call, tr, r⟩ := l
  cases call_outcome hs h with
  | effects he _ _ hopened _ hhanded =>
      exact balances_queued ha hopened hhanded (effects_unread he)
  | inits _ => exact nofun
  | binds _ => exact balances_queued ha rfl rfl fun hs => ⟨hs, unread_silent rfl rfl⟩
  | resets => exact nofun
  | @opens now c hst hn hc hroom =>
      have hempty : s.core.unread = [] := by
        have hlen := RingBuffer.length_contents s.core.replies
        rw [hs.empty hn] at hlen
        rw [FtpCore.unread, List.length_eq_zero_iff.mp hlen]
        rfl
      have hcore : c.unread = [] := hc.unread.trans hempty
      intro _
      show [] ++ FtpCore.unread _ = _
      rw [unread_queue, hcore]
      rfl
  | consumes hc =>
      intro hsession
      have hs₀ : s.core.session = true := hc.flags.session.symm.trans hsession
      have hbal := ha hs₀
      rw [hc.unread, ← List.append_assoc] at hbal
      show a.handed ++ _ ++ _ = (a.queued ++ []).flatten
      rw [List.append_nil]
      exact hbal
  | appends _ hspan _ hc =>
      refine balances_queued ha (span_opened hspan) (span_handed hspan) fun hsession => ?_
      exact ⟨hc.session.symm.trans hsession, unread_silent hc.unread rfl⟩
  | refuses _ hspan _ _ he =>
      refine balances_queued ha (span_opened hspan) (span_handed hspan)
        fun hsession => ?_
      have hu := effects_unread he hsession
      exact hu
  | ends _ hc =>
      refine balances_queued ha rfl rfl fun hsession => ?_
      exact ⟨hc.session.symm.trans hsession, unread_silent hc.unread rfl⟩
  | @completes now ev committed c text hcommit hc hroom _ _ =>
      refine balances_queued ha rfl rfl fun _ => ?_
      refine ⟨hc.session.symm.trans hroom.session, ?_⟩
      have hcore : c.unread = s.core.unread := hc.unread.trans (unread_torn _)
      show FtpCore.unread _ = _ ++ (texts (ev ++ (tornEvents s ++ _))).flatten
      rw [unread_queue, hcore, texts_append, texts_append, texts_commits hcommit,
        texts_tornEvents, List.nil_append, List.nil_append]
      show _ = _ ++ [text].flatten
      rw [List.flatten_singleton]

theorem run_balances {a : Account} (h : Run FtpStep s tr s') (hs : Sound s)
    (ha : Balances a s) : Balances (account a s tr) s' := by
  induction h generalizing a with
  | nil => exact ha
  | cons hstep _ ih => exact ih (step_sound hs hstep) (step_balances hs ha hstep)

/-- In every run no call finds every slot in use, so no session is lost because
of one; and as long as a session lasts, what was handed out and what is unread
are together what was queued. -/
theorem reply_ring (h : Run FtpStep .start tr s) :
    (∀ x ∈ tr, ∀ e ∈ x.1.events, ¬ Full e) ∧
    (∀ r ∈ s.core.replies.contents, r.length ≤ ftpReplyCapacity) ∧
    (s.core.session = true →
      (account ⟨[], []⟩ .start tr).handed ++ s.core.unread =
        (account ⟨[], []⟩ .start tr).queued.flatten) := by
  refine ⟨fun x hx => ?_, fun r hr => ((run_sound h).fits r hr).2, ?_⟩
  · obtain ⟨tr₁, tr₂, s₁, -, h₁, hstep, -⟩ := h.split hx
    exact step_room (run_sound h₁) hstep
  · exact run_balances h .zero nofun

/-- A session opens, and part of its greeting is consumed. -/
theorem reply_ring_greeting :
    ∃ tr s, Run FtpStep .start tr s ∧ s.core.session = true ∧
      (account ⟨[], []⟩ .start tr).handed = greeting.take 5 ∧
      (account ⟨[], []⟩ .start tr).handed ++ s.core.unread = greeting := by
  let bound : FtpState := ⟨some ⟨0, true, 8⟩, none, .zero⟩
  let opened : FtpState := { bound with
    core := { bound.core with session := true, controlTime := 7 }.queue greeting
      false 7 (by decide) }
  have hinit : FtpStep .start ⟨.init ⟨0, true, 8⟩, [], .bool true⟩ bound := .ret _
  have hopen : FtpStep bound
      ⟨.sessionOpen 7, [pointEv (.queued greeting)], .bool true⟩ opened := by
    show Runs (.call (S := FtpSig) (.point (.queued greeting)) fun _ =>
      .ret (FtpReturn.bool true, opened)) _ _
    exact runs_call_iff.mpr ⟨(), [], rfl, .ret _⟩
  have hconsume : FtpStep opened ⟨.replyConsume 5 9, [], .bool true⟩
      (ftpCoreReplyConsume opened 5 9).2 := .ret _
  have hrun := Run.cons hinit (.cons hopen (.cons hconsume (.nil _)))
  exact ⟨_, _, hrun, rfl, rfl, (reply_ring hrun).2.2 rfl⟩

end Account

end EkBareMetal.Ftp

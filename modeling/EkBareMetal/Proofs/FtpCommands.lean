import EkBareMetal.Proofs.FtpEffects

/-!
# Control input as a chain of effects

A command queues at most one reply, and a listener that a command opens queues
none yet. That is what the reservation of a slot in `ftp_core_control_span`
rests on: it counts the complete lines of a span, and no line uses more than
the slot it was counted for.
-/

namespace EkBareMetal.Ftp

open Interact

/-! ## Teardown and replies -/

section Replies

variable {s s' : FtpState} {tr : List Ev} {text : List UInt8} {now : UInt32}

theorem endOperation_runs {u : Unit} (h : Runs (endOperation s) tr u) :
    tr = endEvents s := by
  unfold endOperation at h
  rw [endEvents]
  split at h
  · next hop =>
      rw [if_pos hop]
      obtain ⟨answer, rest, rfl, hk⟩ := runs_call_iff.mp h
      obtain ⟨rfl, -⟩ := runs_ret_iff.mp hk
      rfl
  · next hop =>
      rw [if_neg hop]
      exact (runs_pure_iff.mp h).1

theorem teardown_runs (h : Runs (teardown s) tr s') :
    tr = tornEvents s ∧ s' = { s with core := s.core.torn } := by
  obtain ⟨tr₁, u, tr₂, rfl, h₁, h⟩ := runs_bind_iff'.mp h
  rw [tornEvents, endOperation_runs h₁]
  split at h
  · next hst =>
      obtain ⟨rfl, rfl⟩ := runs_pure_iff.mp h
      rw [if_pos hst]
      exact ⟨rfl, rfl⟩
  · next hst =>
      obtain ⟨answer, rest, rfl, hk⟩ := runs_call_iff.mp h
      obtain ⟨rfl, rfl⟩ := runs_ret_iff.mp hk
      rw [if_neg hst]
      exact ⟨rfl, rfl⟩

theorem reset_runs (h : Runs (ftpCoreReset s) tr s') :
    tr = resetEvents s ∧ s' = { s with core := .zero } := by
  obtain ⟨tr₁, u, tr₂, rfl, h₁, h⟩ := runs_bind_iff'.mp h
  rw [resetEvents, endOperation_runs h₁]
  split at h
  · next hst =>
      obtain ⟨rfl, rfl⟩ := runs_pure_iff.mp h
      rw [if_pos hst]
      exact ⟨rfl, rfl⟩
  · next hst =>
      obtain ⟨answer, rest, rfl, hk⟩ := runs_call_iff.mp h
      obtain ⟨rfl, rfl⟩ := runs_ret_iff.mp hk
      rw [if_neg hst]
      exact ⟨rfl, rfl⟩

theorem lost_effects (h : Runs (lost s) tr s') : Effects s tr s' := by
  unfold lost at h
  split at h
  · obtain ⟨rfl, rfl⟩ := runs_pure_iff.mp h
    exact .refl _
  · obtain ⟨tr₁, s₁, tr₂, rfl, h₁, h⟩ := runs_bind_iff'.mp h
    obtain ⟨rfl, rfl⟩ := teardown_runs h₁
    obtain ⟨rfl, rfl⟩ := runs_pure_iff.mp h
    exact .cons (.torn s) (Effect.left (s := { s with core := s.core.torn })
      (FtpCore.idle_torn _)).effects

/-- With a slot free a reply is queued. -/
theorem reply_runs {start b : Bool} (hlt : s.core.replies.count < ftpReplySlots)
    (h : Runs (reply s text start now) tr (b, s')) :
    tr = [pointEv (.queued text)] ∧ b = true ∧
      s' = { s with core := s.core.queue text start now hlt } := by
  unfold reply at h
  rw [dif_neg (Nat.ne_of_lt hlt)] at h
  obtain ⟨answer, rest, rfl, hk⟩ := runs_ask_iff.mp h
  obtain ⟨rfl, he⟩ := runs_pure_iff.mp hk
  cases he
  exact ⟨rfl, rfl, rfl⟩

/-- A reply keeps to the slots that are not reserved. -/
structure Room (s : FtpState) : Prop where
  session : s.core.session = true
  room : s.core.replies.count + 1 + s.core.reserve ≤ ftpReplySlots

theorem Room.lt (h : Room s) : s.core.replies.count < ftpReplySlots := by
  have := h.room
  omega

theorem reply_effects {start b : Bool} (h : Room s)
    (hfit : Fits text)
    (hr : Runs (reply s text start now) tr (b, s')) :
    Effects s tr s' ∧ b = true ∧
      s' = { s with core := s.core.queue text start now h.lt } := by
  obtain ⟨rfl, rfl, rfl⟩ := reply_runs h.lt hr
  exact ⟨(Effect.queues h.session h.room hfit h.lt).effects, rfl, rfl⟩

theorem answer_effects (h : Room s) (hfit : Fits text)
    (hr : Runs (answer s text now) tr s') :
    Effects s tr s' ∧
      s' = { s with core := s.core.queue text false now h.lt } := by
  obtain ⟨tr₁, ⟨b, s₁⟩, tr₂, rfl, h₁, h₂⟩ := runs_bind_iff'.mp hr
  obtain ⟨rfl, rfl⟩ := runs_pure_iff.mp h₂
  obtain ⟨he, -, heq⟩ := reply_effects h hfit h₁
  rw [List.append_nil]
  exact ⟨he, heq⟩

theorem room_torn (hs : s.core.session = true)
    (hlt : s.core.replies.count < ftpReplySlots) :
    Room { s with core := s.core.torn } := ⟨hs, hlt⟩

/-- Whatever may still report has its slot. -/
theorem Sound.lt (h : Sound s) (hp : s.core.pending = true) :
    s.core.replies.count < ftpReplySlots := by
  have hroom := h.room
  rw [FtpCore.reserve, hp, Bool.toNat_true] at hroom
  omega

theorem failure_effects (hs : s.core.session = true)
    (hlt : s.core.replies.count < ftpReplySlots)
    (hfit : Fits text)
    (hr : Runs (failure s text now) tr s') :
    Effects s tr s' ∧
      s' = { s with core := s.core.torn.queue text false now hlt } := by
  obtain ⟨tr₁, s₁, tr₂, rfl, h₁, h₂⟩ := runs_bind_iff'.mp hr
  obtain ⟨rfl, rfl⟩ := teardown_runs h₁
  obtain ⟨he, rfl⟩ := answer_effects (room_torn hs hlt) hfit h₂
  exact ⟨.cons (.torn s) he, rfl⟩

end Replies

/-! ## Commands -/

theorem length_decimal {k value : Nat} (hk : 0 < k) (h : value < 10 ^ k) :
    (decimal value).length ≤ k := by
  induction k generalizing value with
  | zero => omega
  | succ k ih =>
      rw [decimal]
      split
      · exact Nat.succ_le_succ (Nat.zero_le k)
      · next hge =>
          have hdiv : value / 10 < 10 ^ k := by
            rw [Nat.pow_succ] at h
            exact Nat.div_lt_of_lt_mul (by rw [Nat.mul_comm]; exact h)
          have hk' : 0 < k := by
            refine Nat.pos_of_ne_zero fun h0 => ?_
            rw [h0] at h
            omega
          rw [List.length_append, List.length_singleton]
          exact Nat.succ_le_succ (ih hk' hdiv)

section Commands

variable {s s' : FtpState} {tr : List Ev} {line arg : List UInt8} {now : UInt32}

/-- What is left of the slots after one command: it queues at most one reply,
and a listener it opens queues none yet. -/
structure Executed (s s' : FtpState) : Prop where
  session : s'.core.session = true
  count : s'.core.replies.count + s'.core.opening.toNat ≤ s.core.replies.count + 1

/-- The state in which a line is executed. -/
structure Ready (s : FtpState) : Prop where
  sound : Sound s
  session : s.core.session = true
  opening : s.core.opening = false
  room : s.core.replies.count + 2 ≤ ftpReplySlots

theorem Ready.lt (h : Ready s) : s.core.replies.count < ftpReplySlots := by
  have := h.room
  omega

theorem Ready.steady (h : Ready s) {c : FtpCore} (hc : Steady s.core c) :
    Ready { s with core := c } where
  sound := h.sound.steady hc
  session := hc.session.trans h.session
  opening := hc.opening.trans h.opening
  room := by
    show c.replies.count + 2 ≤ _
    rw [hc.replies]
    exact h.room

theorem Ready.room' (h : Ready s) : Room s := by
  refine ⟨h.session, ?_⟩
  have hroom := h.room
  have hp := Bool.toNat_le s.core.pending
  rw [FtpCore.reserve, h.opening, Bool.toNat_false]
  omega

/-- An answer to a command that leaves the transfer alone. -/
theorem Ready.answered (h : Ready s) {c : FtpCore} (hc : Steady s.core c)
    {text : List UInt8} (hfit : Fits text)
    (hr : Runs (answer { s with core := c } text now) tr s') :
    Effects s tr s' ∧ Executed s s' := by
  have hready := h.steady hc
  obtain ⟨he, rfl⟩ := answer_effects hready.room' hfit hr
  refine ⟨.cons (.steady hc) he, hready.session, ?_⟩
  show c.replies.count + 1 + c.opening.toNat ≤ _
  rw [hc.replies, hc.opening, h.opening]
  exact Nat.le_refl _

theorem Ready.answers (h : Ready s) {text : List UInt8}
    (hfit : Fits text) (hr : Runs (answer s text now) tr s') :
    Effects s tr s' ∧ Executed s s' := h.answered (.refl _) hfit hr

/-- An answer after a teardown. -/
theorem Ready.tears (h : Ready s) {c : FtpCore} (hc : Steady s.core.torn c)
    {text : List UInt8} (hfit : Fits text)
    (hr : Runs (answer { s with core := c } text now) tr s') :
    Effects s (tornEvents s ++ tr) s' ∧ Executed s s' := by
  have hroom : Room { s with core := c } := by
    refine ⟨hc.session.trans h.session, ?_⟩
    rw [show (FtpState.mk s.storage s.operation c).core = c from rfl, hc.replies,
      hc.reserve]
    exact h.lt
  obtain ⟨he, rfl⟩ := answer_effects hroom hfit hr
  refine ⟨.cons (.torn s) (.cons (.steady hc) he), hroom.session, ?_⟩
  show c.replies.count + 1 + c.opening.toNat ≤ _
  rw [hc.replies, hc.opening]
  exact Nat.le_refl _

/-- Before a transfer, its failure is a listener's. -/
theorem Ready.fails (h : Ready s) {text : List UInt8}
    (hfit : Fits text) (hr : Runs (failure s text now) tr s') :
    Effects s tr s' ∧ Executed s s' := by
  obtain ⟨he, rfl⟩ := failure_effects h.session h.lt hfit hr
  exact ⟨he, h.session, Nat.le_refl _⟩

/-- The effect that begins a transfer, and the reply that announces it. -/
theorem Ready.starts (h : Ready s) (hl : Listening s) {c : FtpCore} {upload : Bool}
    {view : FtpStorageView} {ev : List Ev}
    (he : Effect s ev { s with core := c.started upload view now })
    (hs : c.session = s.core.session) (ho : c.opening = s.core.opening)
    (hp : c.passive = s.core.passive) (hq : c.replies = s.core.replies)
    (hr : Runs (openTransfer { s with core := c } upload view now) tr s') :
    Effects s (ev ++ tr) s' ∧ Executed s s' := by
  obtain ⟨tr₁, ⟨b, s₁⟩, tr₂, rfl, h₁, h₂⟩ := runs_bind_iff'.mp hr
  obtain ⟨rfl, rfl⟩ := runs_pure_iff.mp h₂
  have hroom : Room { s with core := c.started upload view now } := by
    refine ⟨hs.trans hl.session, ?_⟩
    show c.replies.count + 1 + (c.started upload view now).reserve ≤ _
    rw [hl.reserve (c := c.started upload view now) ho hp, hq]
    exact h.room'.room
  obtain ⟨hqueue, -, rfl⟩ := reply_effects hroom (by decide) h₁
  rw [List.append_nil]
  refine ⟨.cons he hqueue, hs.trans hl.session, ?_⟩
  show c.replies.count + 1 + c.opening.toNat ≤ _
  rw [hq, ho, h.opening]
  exact Nat.le_refl _

theorem startTransfer_effects (h : Ready s) (hl : Listening s) {upload special : Bool}
    {view : FtpStorageView} (hop : special = true → s.operation ≠ none)
    (hr : Runs (startTransfer s arg upload special view now) tr s') :
    Effects s tr s' ∧ Executed s s' := by
  unfold startTransfer at hr
  split at hr
  · next hspecial =>
      obtain ⟨result, rest, rfl, hk⟩ := runs_ask_iff.mp hr
      cases result with
      | none =>
          obtain ⟨he, hx⟩ := h.fails (by decide) hk
          have hasked : Effect s [operationEv s (.begin arg upload) none] s :=
            .refused hl rfl
          exact ⟨.cons hasked he, hx⟩
      | some view =>
          have he : Effect s [operationEv s (.begin arg upload) (some view)]
              { s with core := (FtpCore.started { s.core with operation := true }
                upload view now) } :=
            .operates hl (hop hspecial)
              ⟨rfl, fun _ => rfl, rfl, rfl, rfl, rfl, rfl, rfl, rfl⟩
          exact h.starts hl he rfl rfl rfl rfl hk
  split at hr
  · next hup =>
      rw [hup] at hr
      obtain ⟨result, rest, rfl, hk⟩ := runs_ask_iff.mp hr
      split at hk
      · next hne =>
          obtain ⟨he, hx⟩ := h.fails (by decide) hk
          exact ⟨.cons (.refused (e := storageEv s .begin result) hl hne) he, hx⟩
      · next hok =>
          obtain rfl := not_not.mp hok
          have he : Effect s [storageEv s .begin .ok]
              { s with core := s.core.started true view now } :=
            .uploads hl ⟨rfl, fun _ => rfl, rfl, rfl, rfl, rfl, rfl, rfl, rfl⟩
          exact h.starts hl he rfl rfl rfl rfl hk
  · next hup =>
      rw [Bool.not_eq_true] at hup
      rw [hup] at hr
      have he : Effect s [] { s with core := s.core.started false view now } :=
        .downloads hl ⟨rfl, fun _ => rfl, rfl, rfl, rfl, rfl, rfl, rfl, rfl⟩
      exact h.starts hl he rfl rfl rfl rfl hr

/-- What only asks is a chain of questions. -/
structure Asked (s : FtpState) (tr : List Ev) : Prop where
  effects : Effects s tr s

theorem Asked.nil : Asked s [] := ⟨.refl s⟩

theorem Asked.one {e : Ev} (h : Asks e) : Asked s [e] := ⟨(Effect.asks h).effects⟩

theorem operationMatches_runs {upload special : Bool}
    (h : Runs (operationMatches s arg upload) tr special) :
    Asked s tr ∧ (special = true → s.operation ≠ none) := by
  unfold operationMatches at h
  split at h
  · obtain ⟨rfl, rfl⟩ := runs_pure_iff.mp h
    exact ⟨.nil, nofun⟩
  · next hop =>
      obtain ⟨answer, rest, rfl, hk⟩ := runs_call_iff.mp h
      obtain ⟨rfl, -⟩ := runs_ret_iff.mp hk
      exact ⟨.one trivial, fun _ => hop⟩

theorem viewUnless_runs {special : Bool} {view : FtpStorageView}
    (h : Runs (viewUnless s special) tr view) : Asked s tr := by
  unfold viewUnless at h
  split at h
  · obtain ⟨rfl, -⟩ := runs_pure_iff.mp h
    exact .nil
  · obtain ⟨answer, rest, rfl, hk⟩ := runs_call_iff.mp h
    obtain ⟨rfl, -⟩ := runs_ret_iff.mp hk
    exact .one trivial

theorem unavailable_runs {upload special refused : Bool} {view : FtpStorageView}
    (h : Runs (unavailable s arg upload special view) tr refused) : Asked s tr := by
  unfold unavailable at h
  split at h
  · obtain ⟨rfl, -⟩ := runs_pure_iff.mp h
    exact .nil
  · obtain ⟨answer, rest, rfl, hk⟩ := runs_ask_iff.mp h
    obtain ⟨rfl, -⟩ := runs_pure_iff.mp hk
    exact .one trivial

theorem commandTransfer_effects (h : Ready s) (hd : s.core.direction = .idle)
    {upload : Bool} (hr : Runs (commandTransfer s arg upload now) tr s') :
    Effects s tr s' ∧ Executed s s' := by
  obtain ⟨tr₁, special, tr', rfl, h₁, hr⟩ := runs_bind_iff'.mp hr
  obtain ⟨tr₂, view, tr'', rfl, h₂, hr⟩ := runs_bind_iff'.mp hr
  obtain ⟨tr₃, refused, tr₄, rfl, h₃, hr⟩ := runs_bind_iff'.mp hr
  obtain ⟨hm, hop⟩ := operationMatches_runs h₁
  have hchecked : Effects s tr₄ s' ∧ Executed s s' := by
    split at hr
    · exact h.answers (by decide) hr
    split at hr
    · exact h.answers (by decide) hr
    split at hr
    · exact h.answers (by decide) hr
    next hpassive =>
    rw [Bool.not_eq_true', Bool.not_eq_false] at hpassive
    exact startTransfer_effects h ⟨h.session, h.opening, hpassive, hd⟩ hop hr
  exact ⟨hm.effects.trans ((viewUnless_runs h₂).effects.trans
    ((unavailable_runs h₃).effects.trans hchecked.1)), hchecked.2⟩

/-- A text with another code. -/
theorem fits_of_code {head rest : List UInt8}
    (hcode : ¬ Announces head) (hlen : 3 ≤ head.length)
    (hfit : head.length + rest.length ≤ ftpReplyCapacity) : Fits (head ++ rest) := by
  refine ⟨by rw [List.length_append]; exact hfit, fun he => hcode ?_⟩
  rw [Announces, List.take_append_of_le_length hlen] at he
  exact he

theorem fits_size (n : Nat) :
    Fits (ascii "213 " ++ decimal (n % 2 ^ 32) ++ ascii "\r\n") := by
  have hlen := @length_decimal 10 (n % 2 ^ 32) (by decide) (by omega)
  have hcode : (ascii "213 ").length = 4 := by decide
  have hend : (ascii "\r\n").length = 2 := by decide
  rw [List.append_assoc]
  refine fits_of_code (by decide) (by decide) ?_
  rw [List.length_append, hcode, hend]
  show _ ≤ 128
  omega

/-! ## What a command does -/

/-- The reply that opens a transfer. -/
def openingText : List UInt8 := ascii "150 Opening binary data connection.\r\n"

/-- A text that fits its slot and announces neither a success nor a transfer. -/
structure Ordinary (text : List UInt8) : Prop where
  fits : Fits text
  quiet : text ≠ openingText

instance (text : List UInt8) : Decidable (Ordinary text) :=
  decidable_of_iff (Fits text ∧ text ≠ openingText) ⟨fun h => ⟨h.1, h.2⟩, fun h => ⟨h.1, h.2⟩⟩

/-- A run of a command of a session that has logged in, up to its answer. -/
inductive LoggedInRun (s : FtpState) (verb arg : List UInt8) (now : UInt32) :
    List Ev → FtpState → Prop where
  | answers {tr : List Ev} {s' : FtpState} {text : List UInt8} {binary : Bool}
      (ht : Ordinary text)
      (hr : Runs (answer { s with core := { s.core with binary := binary } } text now) tr s') :
      LoggedInRun s verb arg now tr s'
  | listens (hreq : (verb = ascii "EPSV" ∨ verb = ascii "PASV") ∧ arg = []) :
      LoggedInRun s verb arg now (tornEvents s) { s with core := { s.core.torn with
        opening := true
        epsv := verb = ascii "EPSV"
        passiveTime := now
        actions := s.core.torn.actions ||| ftpOpenPassive } }
  | sizes {tr : List Ev} {s' : FtpState} {text : List UInt8} {view : FtpStorageView}
      {served : Bool} (ht : Ordinary text) (hr : Runs (answer s text now) tr s') :
      LoggedInRun s verb arg now
        (storageEv s .inspect view :: storageEv s (.matchesName arg) served :: tr) s'
  | transfers {tr : List Ev} {s' : FtpState} {upload : Bool}
      (hr : Runs (commandTransfer s arg upload now) tr s') : LoggedInRun s verb arg now tr s'

/-- A run of any command: besides its answer it changes the login, after a
teardown or without one. -/
inductive CommandRun (s : FtpState) (line : List UInt8) (now : UInt32) :
    List Ev → FtpState → Prop where
  | answers {tr : List Ev} {s' : FtpState} {text : List UInt8} {login : Bool}
      (ht : Ordinary text)
      (hr : Runs (answer { s with core := { s.core with login := login } } text now) tr s') :
      CommandRun s line now tr s'
  | tears {tr : List Ev} {s' : FtpState} {text : List UInt8}
      {user login binary quitting : Bool} (ht : Ordinary text)
      (hr : Runs (answer { s with core := { s.core.torn with
        user := user
        login := login
        binary := binary
        quitting := quitting } } text now) tr s') :
      CommandRun s line now (tornEvents s ++ tr) s'
  | loggedIn {tr : List Ev} {s' : FtpState} (hd : s.core.direction = .idle)
      (h : LoggedInRun s (verbOf line) (argOf line) now tr s') : CommandRun s line now tr s'

theorem ordinary_size (n : Nat) :
    Ordinary (ascii "213 " ++ decimal (n % 2 ^ 32) ++ ascii "\r\n") := by
  refine ⟨fits_size n, fun he => ?_⟩
  have hhead := congrArg List.head? he
  rw [List.append_assoc] at hhead
  exact absurd (show some (0x32 : UInt8) = some 0x31 from hhead) (by decide)

theorem loggedIn_cases {verb : List UInt8} (hr : Runs (commandLoggedIn s verb arg now) tr s') :
    LoggedInRun s verb arg now tr s' := by
  unfold commandLoggedIn at hr
  by_cases hpwd : (verb = ascii "PWD" ∨ verb = ascii "XPWD") ∧ arg = []
  · rw [if_pos hpwd] at hr
    exact .answers (by decide) hr
  rw [if_neg hpwd] at hr
  by_cases hcwd : verb = ascii "CWD"
  · rw [if_pos hcwd] at hr
    refine .answers ?_ hr
    by_cases hroot : arg = ascii "/"
    · rw [if_pos hroot]
      decide
    · rw [if_neg hroot]
      decide
  rw [if_neg hcwd] at hr
  by_cases hcdup : verb = ascii "CDUP" ∧ arg = []
  · rw [if_pos hcdup] at hr
    exact .answers (by decide) hr
  rw [if_neg hcdup] at hr
  by_cases htype : verb = ascii "TYPE"
  · rw [if_pos htype] at hr
    by_cases himage : arg = ascii "I"
    · rw [if_pos himage] at hr
      exact .answers (by decide) hr
    · rw [if_neg himage] at hr
      exact .answers (by decide) hr
  rw [if_neg htype] at hr
  by_cases hpassive : (verb = ascii "EPSV" ∨ verb = ascii "PASV") ∧ arg = []
  · rw [if_pos hpassive] at hr
    obtain ⟨tr₁, s₁, tr₂, rfl, h₁, h₂⟩ := runs_bind_iff'.mp hr
    obtain ⟨rfl, rfl⟩ := teardown_runs h₁
    obtain ⟨rfl, rfl⟩ := runs_pure_iff.mp h₂
    rw [List.append_nil]
    exact .listens hpassive
  rw [if_neg hpassive] at hr
  by_cases hsize : verb = ascii "SIZE"
  · rw [if_pos hsize] at hr
    obtain ⟨view, rest, rfl, hk⟩ := runs_ask_iff.mp hr
    obtain ⟨served, rest', rfl, hk'⟩ := runs_ask_iff.mp hk
    by_cases hmissing : !served ∨ !view.present
    · rw [if_pos hmissing] at hk'
      exact .sizes (by decide) hk'
    · rw [if_neg hmissing] at hk'
      exact .sizes (ordinary_size _) hk'
  rw [if_neg hsize] at hr
  by_cases htransfer : verb = ascii "STOR" ∨ verb = ascii "RETR"
  · rw [if_pos htransfer] at hr
    exact .transfers hr
  · rw [if_neg htransfer] at hr
    exact .answers (by decide) hr

theorem command_cases (hr : Runs (command s line now) tr s') : CommandRun s line now tr s' := by
  unfold command at hr
  by_cases hquit : verbOf line = ascii "QUIT" ∧ argOf line = []
  · rw [if_pos hquit] at hr
    obtain ⟨tr₁, s₁, tr₂, rfl, h₁, h₂⟩ := runs_bind_iff'.mp hr
    obtain ⟨rfl, rfl⟩ := teardown_runs h₁
    exact .tears (by decide) h₂
  rw [if_neg hquit] at hr
  by_cases habor : verbOf line = ascii "ABOR" ∧ argOf line = []
  · rw [if_pos habor] at hr
    obtain ⟨tr₁, s₁, tr₂, rfl, h₁, h₂⟩ := runs_bind_iff'.mp hr
    obtain ⟨rfl, rfl⟩ := teardown_runs h₁
    refine .tears ?_ h₂
    split
    · decide
    split
    · decide
    · decide
  rw [if_neg habor] at hr
  by_cases hnoop : verbOf line = ascii "NOOP" ∧ argOf line = []
  · rw [if_pos hnoop] at hr
    exact .answers (by decide) hr
  rw [if_neg hnoop] at hr
  by_cases hsyst : verbOf line = ascii "SYST" ∧ argOf line = []
  · rw [if_pos hsyst] at hr
    exact .answers (by decide) hr
  rw [if_neg hsyst] at hr
  by_cases hfeat : verbOf line = ascii "FEAT" ∧ argOf line = []
  · rw [if_pos hfeat] at hr
    exact .answers (by decide) hr
  rw [if_neg hfeat] at hr
  by_cases hbusy : s.core.direction ≠ .idle ∨ s.core.opening = true
  · rw [if_pos hbusy] at hr
    exact .answers (by decide) hr
  rw [if_neg hbusy] at hr
  by_cases huser : verbOf line = ascii "USER"
  · rw [if_pos huser] at hr
    obtain ⟨tr₁, s₁, tr₂, rfl, h₁, h₂⟩ := runs_bind_iff'.mp hr
    obtain ⟨rfl, rfl⟩ := teardown_runs h₁
    refine .tears ?_ h₂
    split
    · decide
    · decide
  rw [if_neg huser] at hr
  by_cases hpass : verbOf line = ascii "PASS"
  · rw [if_pos hpass] at hr
    by_cases hnamed : s.core.user = true
    · rw [if_pos hnamed] at hr
      exact .answers (by decide) hr
    · rw [if_neg hnamed] at hr
      exact .answers (by decide) hr
  rw [if_neg hpass] at hr
  by_cases hlogin : (!s.core.login) = true
  · rw [if_pos hlogin] at hr
    exact .answers (by decide) hr
  · rw [if_neg hlogin] at hr
    exact .loggedIn (not_not.mp (not_or.mp hbusy).1) (loggedIn_cases hr)

theorem steady_binary (c : FtpCore) (binary : Bool) : Steady c { c with binary := binary } :=
  ⟨rfl, fun _ => rfl, rfl, rfl, rfl, rfl, rfl, rfl, rfl⟩

theorem steady_login (c : FtpCore) (login : Bool) : Steady c { c with login := login } :=
  ⟨rfl, fun _ => rfl, rfl, rfl, rfl, rfl, rfl, rfl, rfl⟩

theorem commandLoggedIn_effects (h : Ready s) (hd : s.core.direction = .idle)
    {verb : List UInt8} (hr : LoggedInRun s verb arg now tr s') :
    Effects s tr s' ∧ Executed s s' := by
  cases hr with
  | answers ht hr => exact h.answered (steady_binary s.core _) ht.fits hr
  | listens _ =>
      rw [← List.append_nil (tornEvents s)]
      refine ⟨.cons (.torn s) (Effect.listens (s := { s with core := s.core.torn })
        h.session s.core.idle_torn h.room ?_).effects, h.session, Nat.le_refl _⟩
      exact ⟨rfl, fun _ => rfl, rfl, rfl, rfl, rfl, rfl, rfl, rfl⟩
  | @sizes _ _ _ view served ht hr =>
      obtain ⟨he, hx⟩ := h.answers ht.fits hr
      have hview : Asked s [storageEv s .inspect view] := .one trivial
      have hname : Asked s [storageEv s (.matchesName arg) served] := .one trivial
      exact ⟨(hview.effects.trans hname.effects).trans he, hx⟩
  | transfers hr => exact commandTransfer_effects h hd hr

theorem command_effects (h : Ready s) (hr : Runs (command s line now) tr s') :
    Effects s tr s' ∧ Executed s s' := by
  cases command_cases hr with
  | answers ht hr => exact h.answered (steady_login s.core _) ht.fits hr
  | tears ht hr =>
      refine h.tears ?_ ht.fits hr
      refine ⟨rfl, fun hs => ?_, rfl, rfl, rfl, rfl, rfl, rfl, rfl⟩
      exact absurd (h.session.symm.trans hs) (by decide)
  | loggedIn hd hr => exact commandLoggedIn_effects h hd hr

end Commands

/-! ## Control input -/

section Control

variable {s s' : FtpState} {tr : List Ev} {now : UInt32}

theorem executeLine_effects (h : Ready s) {p : Parser}
    (hr : Runs (executeLine s p now) tr s') : Effects s tr s' ∧ Executed s s' := by
  unfold executeLine at hr
  split at hr
  · exact h.answers (by decide) hr
  · exact command_effects h hr

/-- A state that reads `bytes`: each of the lines that they complete has a slot,
and one more is kept. -/
structure Readable (s : FtpState) (now : UInt32) (bytes : List UInt8) : Prop where
  sound : Sound s
  session : s.core.session = true
  opening : s.core.opening = false
  room : 0 < countLines s.core.parser now bytes →
    s.core.replies.count + countLines s.core.parser now bytes ≤ 7

abbrev FtpState.parsing (s : FtpState) (p : Parser) : FtpState :=
  { s with core := { s.core with parser := p } }

/-- The loop over a span, step by step. -/
inductive Looped (now : UInt32) :
    FtpState → Nat → List UInt8 → List Ev → Nat → FtpState → Prop where
  | nil (s : FtpState) (a : Nat) : Looped now s a [] [] a s
  | skip {s s' : FtpState} {p : Parser} {a n : Nat} {byte : UInt8} {bytes : List UInt8}
      {tr : List Ev} (hp : parseByte s.core.parser byte now = (false, p))
      (h : Looped now (s.parsing p) (a + 1) bytes tr n s') :
      Looped now s a (byte :: bytes) tr n s'
  | line {s s₁ s' : FtpState} {p : Parser} {a n : Nat} {byte : UInt8}
      {bytes : List UInt8} {tr₁ tr₂ : List Ev}
      (hp : parseByte s.core.parser byte now = (true, p))
      (hx : Runs (executeLine (s.parsing p) p now) tr₁ s₁)
      (hq : s₁.core.quitting = false) (ho : s₁.core.opening = false)
      (h : Looped now (s₁.parsing .zero) (a + 1) bytes tr₂ n s') :
      Looped now s a (byte :: bytes) (tr₁ ++ tr₂) n s'
  | quits {s s₁ : FtpState} {p : Parser} {a : Nat} {byte : UInt8} {bytes : List UInt8}
      {tr : List Ev} (hp : parseByte s.core.parser byte now = (true, p))
      (hx : Runs (executeLine (s.parsing p) p now) tr s₁)
      (hq : s₁.core.quitting = true) :
      Looped now s a (byte :: bytes) tr (a + 1 + bytes.length) (s₁.parsing .zero)
  | opens {s s₁ : FtpState} {p : Parser} {a : Nat} {byte : UInt8} {bytes : List UInt8}
      {tr : List Ev} (hp : parseByte s.core.parser byte now = (true, p))
      (hx : Runs (executeLine (s.parsing p) p now) tr s₁)
      (hq : s₁.core.quitting = false) (ho : s₁.core.opening = true) :
      Looped now s a (byte :: bytes) tr (a + 1) (s₁.parsing .zero)

theorem controlLoop_looped {bytes : List UInt8} {accepted n : Nat}
    (hr : Runs (controlLoop s now accepted bytes) tr (n, s')) :
    Looped now s accepted bytes tr n s' := by
  induction bytes generalizing s accepted tr with
  | nil =>
      obtain ⟨rfl, he⟩ := runs_pure_iff.mp hr
      cases he
      exact .nil _ _
  | cons byte bytes ih =>
      unfold controlLoop at hr
      generalize hp : parseByte s.core.parser byte now = parsed at hr
      obtain ⟨isLine, p⟩ := parsed
      dsimp only at hr
      split at hr
      · next hline =>
          subst hline
          obtain ⟨tr₁, s₁, tr₂, rfl, h₁, hr⟩ := runs_bind_iff'.mp hr
          split at hr
          · next hq =>
              obtain ⟨rfl, he⟩ := runs_pure_iff.mp hr
              cases he
              rw [List.append_nil]
              exact .quits hp h₁ hq
          next hq =>
          split at hr
          · next ho =>
              obtain ⟨rfl, he⟩ := runs_pure_iff.mp hr
              cases he
              rw [List.append_nil]
              exact .opens hp h₁ (Bool.eq_false_iff.mpr hq) ho
          · next ho =>
              exact .line hp h₁ (Bool.eq_false_iff.mpr hq) (Bool.eq_false_iff.mpr ho) (ih hr)
      · next hline =>
          rw [Bool.not_eq_true] at hline
          subst hline
          exact .skip hp (ih hr)

theorem steady_parsing (c : FtpCore) (p : Parser) : Steady c { c with parser := p } :=
  ⟨rfl, fun _ => rfl, rfl, rfl, rfl, rfl, rfl, rfl, rfl⟩

section Readable

variable {s₁ : FtpState} {p : Parser} {byte : UInt8} {bytes : List UInt8}

theorem Readable.skip (h : Readable s now (byte :: bytes))
    (hp : parseByte s.core.parser byte now = (false, p)) :
    Readable (s.parsing p) now bytes := by
  have hroom := h.room
  rw [countLines, hp] at hroom
  exact ⟨h.sound.steady (steady_parsing _ _), h.session, h.opening, hroom⟩

theorem Readable.ready (h : Readable s now (byte :: bytes))
    (hp : parseByte s.core.parser byte now = (true, p)) : Ready (s.parsing p) := by
  have hroom := h.room
  rw [countLines, hp] at hroom
  refine ⟨h.sound.steady (steady_parsing _ _), h.session, h.opening, ?_⟩
  simp only [if_true] at hroom
  have hpos := hroom (Nat.succ_pos _)
  show s.core.replies.count + 2 ≤ 8
  omega

/-- The line has used one slot at most. -/
theorem Readable.line (h : Readable s now (byte :: bytes))
    (hp : parseByte s.core.parser byte now = (true, p))
    (hx : Runs (executeLine (s.parsing p) p now) tr s₁) (ho : s₁.core.opening = false) :
    Readable (s₁.parsing .zero) now bytes := by
  obtain ⟨he, hx⟩ := executeLine_effects (h.ready hp) hx
  have hsound := effects_sound he (h.ready hp).sound
  refine ⟨hsound.steady (steady_parsing _ _), hx.session, ho, fun _ => ?_⟩
  have hroom := h.room
  rw [countLines, hp] at hroom
  simp only [if_true] at hroom
  have hpos := hroom (Nat.succ_pos _)
  have hused : s₁.core.replies.count + s₁.core.opening.toNat ≤
      s.core.replies.count + 1 := hx.count
  rw [ho, Bool.toNat_false] at hused
  show s₁.core.replies.count + countLines .zero now bytes ≤ 7
  omega

end Readable

theorem looped_effects {bytes : List UInt8} {accepted n : Nat}
    (h : Looped now s accepted bytes tr n s') (hs : Readable s now bytes) :
    Effects s tr s' := by
  have hline : ∀ {s s₁ : FtpState} {p : Parser} {byte : UInt8} {bytes : List UInt8}
      {tr : List Ev}, Readable s now (byte :: bytes) →
      parseByte s.core.parser byte now = (true, p) →
      Runs (executeLine (s.parsing p) p now) tr s₁ →
      Effects s tr (s₁.parsing .zero) := by
    intro s s₁ p byte bytes tr hs hp hx
    obtain ⟨he, -⟩ := executeLine_effects (hs.ready hp) hx
    have hchain := he.trans (Effect.steady (steady_parsing s₁.core .zero)).effects
    rw [List.append_nil] at hchain
    exact .cons (.steady (steady_parsing _ _)) hchain
  induction h with
  | nil => exact .refl _
  | skip hp _ ih => exact .cons (.steady (steady_parsing _ _)) (ih (hs.skip hp))
  | line hp hx _ ho _ ih => exact (hline hs hp hx).trans (ih (hs.line hp hx ho))
  | quits hp hx _ => exact hline hs hp hx
  | opens hp hx _ _ => exact hline hs hp hx

/-- A span is left alone, or the loop has read it. -/
theorem controlSpan_cases {bytes : List UInt8} {r : FtpInput} {n : Nat} (hs : Sound s)
    (hr : Runs (ftpCoreControlSpan s bytes now) tr ((r, n), s')) :
    ((r = .backpressure ∨ r = .rejected) ∧ n = 0 ∧ tr = [] ∧ s' = s) ∨
    (Readable s now bytes ∧ s.core.quitting = false ∧ bytes.length ≤ ftpControlCapacity ∧
      ∃ s₁, Looped now s 0 bytes tr n s₁ ∧
        r = (if n = bytes.length then .ok else .partly) ∧
        s' = if n ≠ 0 then { s₁ with core := { s₁.core with controlTime := now } }
          else s₁) := by
  unfold ftpCoreControlSpan at hr
  split at hr
  · obtain ⟨rfl, he⟩ := runs_pure_iff.mp hr
    cases he
    exact .inl ⟨.inr rfl, rfl, rfl, rfl⟩
  next hin =>
  split at hr
  · obtain ⟨rfl, he⟩ := runs_pure_iff.mp hr
    cases he
    exact .inl ⟨.inl rfl, rfl, rfl, rfl⟩
  next hopen =>
  dsimp only at hr
  split at hr
  · obtain ⟨rfl, he⟩ := runs_pure_iff.mp hr
    cases he
    exact .inl ⟨.inl rfl, rfl, rfl, rfl⟩
  next hroom =>
  simp only [not_or, Bool.not_eq_true', Bool.not_eq_false, Bool.not_eq_true,
    Nat.not_lt] at hin
  rw [Bool.not_eq_true] at hopen
  obtain ⟨tr₁, ⟨m, s₁⟩, tr₂, rfl, h₁, h₂⟩ := runs_bind_iff'.mp hr
  obtain ⟨rfl, he⟩ := runs_pure_iff.mp h₂
  cases he
  rw [List.append_nil]
  refine .inr ⟨⟨hs, hin.1, hopen, fun hpos => ?_⟩, hin.2.1, hin.2.2, s₁,
    controlLoop_looped h₁, rfl, rfl⟩
  have h8 : ftpReplySlots - 1 = 7 := rfl
  rw [h8] at hroom
  omega

theorem controlSpan_effects {bytes : List UInt8} {out : FtpInput × Nat}
    (hs : Sound s) (hr : Runs (ftpCoreControlSpan s bytes now) tr (out, s')) :
    Effects s tr s' := by
  obtain ⟨r, n⟩ := out
  obtain ⟨-, -, rfl, rfl⟩ | ⟨hread, -, -, s₁, hloop, -, rfl⟩ := controlSpan_cases hs hr
  · exact .refl _
  rw [← List.append_nil tr]
  refine (looped_effects hloop hread).trans (Effect.effects ?_)
  split
  · exact .steady ⟨rfl, fun _ => rfl, rfl, rfl, rfl, rfl, rfl, rfl, rfl⟩
  · exact .steady (.refl _)

end Control

end EkBareMetal.Ftp

import EkBareMetal.Proofs.FtpTransfer

/-!
# The reply that opens a transfer

A transfer may move its bytes once two things have happened in any order: its
data connection was accepted, and the last byte of its opening reply was
consumed. The second is what the start mark is for. `Gate` says where that
reply is: nowhere while no transfer is under way, somewhere in the ring with
the only mark while one waits, and out of it afterwards. A mark that an
abandoned transfer left behind would break the first case, and the teardown
that clears every mark is why it holds.
-/

namespace EkBareMetal.Ftp

open Interact Transition

/-! ## Where the opening reply is -/

/-- The bytes of some replies that nobody has consumed. -/
def unreadOf (rs : List Reply) : List UInt8 := rs.flatMap fun r => r.text.drop r.offset

/-- `queued` are the texts that were queued since the session opened. Behind
the opening reply of the transfer under way only the texts of `after` are. -/
inductive Gate (queued : List (List UInt8)) (c : FtpCore) : Prop where
  | idle (hd : c.direction = .idle) (hready : c.ready = false)
      (hm : ∀ q ∈ c.replies.contents, q.start = false) : Gate queued c
  | waits (pre post : List Reply) (r : Reply) (before after : List (List UInt8))
      (hd : c.direction ≠ .idle) (hready : c.ready = false)
      (hc : c.replies.contents = pre ++ r :: post) (hr : r.start = true)
      (hpre : ∀ q ∈ pre, q.start = false) (hpost : ∀ q ∈ post, q.start = false)
      (hq : queued = before ++ openingText :: after) (hafter : openingText ∉ after)
      (hu : unreadOf post = after.flatten) : Gate queued c
  | opened (before after : List (List UInt8)) (hd : c.direction ≠ .idle)
      (hready : c.ready = true) (hm : ∀ q ∈ c.replies.contents, q.start = false)
      (hq : queued = before ++ openingText :: after) (hafter : openingText ∉ after)
      (hu : c.unread.length ≤ after.flatten.length) : Gate queued c

section Gate

variable {s s' : FtpState} {c c' : FtpCore} {tr : List Ev} {e : Ev}
  {queued : List (List UInt8)}

/-- The gate looks at three fields of the record. -/
theorem Gate.same (h : Gate queued c) (hd : c'.direction = c.direction)
    (hr : c'.ready = c.ready) (hq : c'.replies = c.replies) : Gate queued c' := by
  have hu : c'.unread = c.unread := by rw [FtpCore.unread, FtpCore.unread, hq]
  cases h with
  | idle hdir hready hm =>
      exact .idle (hd.trans hdir) (hr.trans hready) (by rw [hq]; exact hm)
  | waits pre post r before after hdir hready hc hstart hpre hpost hqueued hafter hunread =>
      exact .waits pre post r before after (by rw [hd]; exact hdir) (hr.trans hready)
        (by rw [hq]; exact hc) hstart hpre hpost hqueued hafter hunread
  | opened before after hdir hready hm hqueued hafter hunread =>
      exact .opened before after (by rw [hd]; exact hdir) (hr.trans hready)
        (by rw [hq]; exact hm) hqueued hafter (by rw [hu]; exact hunread)

theorem Gate.minor (h : Gate queued c) (hc : Minor c c') : Gate queued c' :=
  h.same hc.direction hc.ready hc.replies

/-- With no transfer the gate does not look at the texts. -/
theorem Gate.quiet (h : Gate queued c) (hd : c.direction = .idle)
    (queued' : List (List UInt8)) : Gate queued' c := by
  cases h with
  | idle _ hready hm => exact .idle hd hready hm
  | waits _ _ _ _ _ hdir => exact absurd hd hdir
  | opened _ _ hdir => exact absurd hd hdir

theorem gate_torn (queued : List (List UInt8)) (c : FtpCore) : Gate queued c.torn := by
  refine .idle rfl rfl fun q hq => ?_
  rw [contents_torn] at hq
  obtain ⟨q', -, rfl⟩ := List.mem_map.mp hq
  rfl

theorem gate_zero (queued : List (List UInt8)) : Gate queued .zero := .idle rfl rfl nofun

theorem unreadOf_append (pre post : List Reply) :
    unreadOf (pre ++ post) = unreadOf pre ++ unreadOf post := List.flatMap_append

theorem contents_queue (c : FtpCore) {text : List UInt8} {start : Bool} {now : UInt32}
    (hlt) : (c.queue text start now hlt).replies.contents =
      c.replies.contents ++ [⟨text, 0, start⟩] := RingBuffer.contents_push _ _ _

/-- Another reply behind the queue. -/
theorem Gate.queue (h : Gate queued c) {text : List UInt8} {now : UInt32}
    (hne : text ≠ openingText) (hlt : c.replies.count < ftpReplySlots) :
    Gate (queued ++ [text]) (c.queue text false now hlt) := by
  have hcontents := @contents_queue c text false now hlt
  have hm : (∀ q ∈ c.replies.contents, q.start = false) →
      ∀ q ∈ (c.queue text false now hlt).replies.contents, q.start = false := by
    intro hm
    rw [hcontents]
    exact List.forall_mem_append.mpr ⟨hm, List.forall_mem_singleton.mpr rfl⟩
  have hnot : ∀ {after : List (List UInt8)}, openingText ∉ after →
      openingText ∉ after ++ [text] := by
    intro after hafter hmem
    rcases List.mem_append.mp hmem with hmem | hmem
    · exact hafter hmem
    · exact hne (List.mem_singleton.mp hmem).symm
  cases h with
  | idle hd hready hmarks => exact .idle hd hready (hm hmarks)
  | waits pre post r before after hd hready hc hr hpre hpost hq hafter hu =>
      refine .waits pre (post ++ [⟨text, 0, false⟩]) r before (after ++ [text]) hd hready ?_
        hr hpre ?_ ?_ (hnot hafter) ?_
      · rw [hcontents, hc, List.append_assoc]
        rfl
      · exact List.forall_mem_append.mpr ⟨hpost, List.forall_mem_singleton.mpr rfl⟩
      · rw [hq, List.append_assoc]
        rfl
      · rw [unreadOf_append, hu, List.flatten_append, List.flatten_singleton]
        exact congrArg (after.flatten ++ ·) (List.append_nil text)
  | opened before after hd hready hmarks hq hafter hu =>
      refine .opened before (after ++ [text]) hd hready (hm hmarks) ?_ (hnot hafter) ?_
      · rw [hq, List.append_assoc]
        rfl
      · rw [unread_queue, List.length_append, List.flatten_append, List.flatten_singleton,
          List.length_append]
        exact Nat.add_le_add_right hu _

/-- The opening reply itself, when a transfer starts. -/
theorem Gate.starts (h : Gate queued c) (hd : c.direction = .idle)
    {upload : Bool} {view : FtpStorageView} {now : UInt32}
    (hlt : c.replies.count < ftpReplySlots) :
    Gate (queued ++ [openingText])
      ((c.started upload view now).queue openingText true now hlt) := by
  cases h with
  | waits _ _ _ _ _ hdir => exact absurd hd hdir
  | opened _ _ hdir => exact absurd hd hdir
  | idle _ hready hm =>
      refine .waits c.replies.contents [] ⟨openingText, 0, true⟩ queued [] ?_ hready ?_ rfl
        hm nofun rfl nofun rfl
      · show (if upload then FtpDirection.upload else .download) ≠ _
        split <;> decide
      · exact contents_queue (c.started upload view now) hlt

end Gate

/-! ## The gate is kept -/

section Kept

variable {s s' : FtpState} {tr : List Ev} {queued : List (List UInt8)}

theorem Gate.silent {c : FtpCore} (h : Gate queued c) (ht : texts tr = []) :
    Gate (queued ++ texts tr) c := by
  rw [ht, List.append_nil]
  exact h

theorem move_gate (hm : Move s tr s') (h : Gate queued s.core) :
    Gate (queued ++ texts tr) s'.core := by
  cases hm with
  | minor hc => exact (h.minor hc).silent rfl
  | asks he => exact h.silent (texts_silent (textOf_asks he))
  | refused he _ => exact h.silent (texts_silent (textOf_refused he))
  | uploads he _ => exact h.silent (texts_silent (textOf_feeding he))
  | torn => exact (gate_torn _ _).silent texts_tornEvents
  | @left c _ hc =>
      refine (Gate.idle ?_ ?_ ?_).silent rfl
      · show s.core.direction = _
        rw [hc]
        rfl
      · show s.core.ready = _
        rw [hc]
        rfl
      · show ∀ q ∈ s.core.replies.clear.contents, _
        rw [RingBuffer.contents_clear]
        exact List.forall_mem_nil _
  | queues _ hne hlt => exact h.queue hne hlt
  | @starts _ upload view now ev c _ _ hd hb hlt =>
      rw [texts_append, texts_begins hb]
      obtain ⟨b, rfl⟩ := begins_core hb
      have hgate : Gate queued { s.core with operation := b } := h.same rfl rfl rfl
      exact hgate.starts hd hlt
  | listens _ hc => exact (h.same hc.direction hc.ready hc.replies).silent rfl
  | closes _ _ _ hc => exact (h.same hc.direction hc.ready hc.replies).silent rfl

theorem moves_gate (hm : Moves s tr s') (h : Gate queued s.core) :
    Gate (queued ++ texts tr) s'.core := by
  induction hm generalizing queued with
  | refl => exact h.silent rfl
  | cons hm _ ih =>
      rw [texts_append, ← List.append_assoc]
      exact ih (move_gate hm h)

theorem consumed_ready (c : FtpCore) (r : Reply) (now : UInt32) :
    (c.consumed r now).ready = (c.ready ||
      (decide (r.offset = r.length) && (r.start && c.direction != .idle))) := by
  unfold FtpCore.consumed
  dsimp only
  split
  · next hfull =>
      rw [decide_eq_true hfull, Bool.true_and]
      split
      · next hstart => rw [hstart, Bool.or_true]
      · next hstart =>
          rw [Bool.not_eq_true] at hstart
          rw [hstart, Bool.or_false]
  · next hfull => rw [decide_eq_false hfull, Bool.false_and, Bool.or_false]

theorem drained_ready (c : FtpCore) (now : UInt32) :
    (c.drained now).ready = c.ready := by
  unfold FtpCore.drained
  split <;> rfl

/-- A consumed part. It opens the gate when it is the end of the marked reply. -/
theorem Gate.consume {n : Nat} {now : UInt32} (hne : s.core.replies.count ≠ 0)
    (hpos : n ≠ 0) (hle : n ≤ s.core.replies.front.length - s.core.replies.front.offset)
    (h : Gate queued s.core) : Gate queued (ftpCoreReplyConsume s n now).2.core := by
  have hunread := (@replyConsume_consumed s n now hne hpos hle).unread
  have hcons := RingBuffer.contents_cons _ hne
  unfold ftpCoreReplyConsume at hunread ⊢
  dsimp only at hunread ⊢
  rw [if_neg (by omega)] at hunread ⊢
  dsimp only at hunread ⊢
  generalize hr : ({ s.core.replies.front with
    offset := s.core.replies.front.offset + n } : Reply) = r at hunread ⊢
  have hstart : r.start = s.core.replies.front.start := by rw [← hr]
  have hleft := @contents_consumed_eq now s.core r hne
  have hready := consumed_ready s.core r now
  have hdir : (s.core.consumed r now).direction = s.core.direction :=
    (consumed_flags s.core r).direction
  have hsteady : Steady (s.core.consumed r now) ((s.core.consumed r now).drained now) :=
    steady_drained _
  have hlen : FtpCore.unread (s.core.consumed r now) =
      FtpCore.unread ((s.core.consumed r now).drained now) := hsteady.unread.symm
  rw [← hlen] at hunread
  suffices hgate : Gate queued (s.core.consumed r now) from
    hgate.same hsteady.direction (drained_ready _ _) hsteady.replies
  -- What stands in the ring afterwards, whichever way the front went.
  have hmarks : (∀ q ∈ s.core.replies.contents, q.start = false) →
      ∀ q ∈ (s.core.consumed r now).replies.contents, q.start = false := by
    intro hm
    rw [hcons] at hm
    have hm := List.forall_mem_cons.mp hm
    rw [hleft]
    split
    · exact hm.2
    · exact List.forall_mem_cons.mpr ⟨hstart.trans hm.1, hm.2⟩
  have hfalse : s.core.ready = false → s.core.replies.front.start = false →
      (s.core.consumed r now).ready = false := by
    intro hr₀ hs
    rw [hready, hr₀, hstart, hs, Bool.false_and, Bool.and_false, Bool.or_false]
  cases h with
  | idle hd hready₀ hm =>
      refine .idle (hdir.trans hd) (hfalse hready₀ (hm _ ?_)) (hmarks hm)
      rw [hcons]
      exact List.mem_cons_self
  | opened before after hd hready₀ hm hq hafter hu =>
      refine .opened before after (by rw [hdir]; exact hd) ?_ (hmarks hm) hq hafter ?_
      · rw [hready, hready₀, Bool.true_or]
      · rw [hunread, List.length_append] at hu
        omega
  | waits pre post r₀ before after hd hready₀ hc hr₀ hpre hpost hq hafter hu =>
      have hd' : (s.core.consumed r now).direction ≠ .idle := by
        rw [hdir]
        exact hd
      rw [hcons] at hc
      cases pre with
      | nil =>
          obtain ⟨hfront, hpop⟩ := List.cons.inj hc
          rw [hfront, hr₀] at hstart
          rw [hpop] at hleft
          by_cases hfull : r.offset = r.length
          · rw [if_pos hfull] at hleft
            refine .opened before after hd' ?_ (by rw [hleft]; exact hpost) hq hafter ?_
            · rw [hready, decide_eq_true hfull, hstart, bne_iff_ne.mpr hd]
              exact Bool.or_true _
            · rw [FtpCore.unread, hleft, ← hu]
              exact Nat.le_refl _
          · rw [if_neg hfull] at hleft
            refine .waits [] post r before after hd' ?_ hleft hstart (List.forall_mem_nil _) hpost hq hafter hu
            rw [hready, decide_eq_false hfull, Bool.false_and, Bool.or_false]
            exact hready₀
      | cons f pre =>
          obtain ⟨rfl, hpop⟩ := List.cons.inj hc
          have hpre := List.forall_mem_cons.mp hpre
          rw [hpop] at hleft
          have hready' := hfalse hready₀ hpre.1
          rw [hpre.1] at hstart
          split at hleft
          · exact .waits pre post r₀ before after hd' hready' hleft hr₀ hpre.2 hpost hq
              hafter hu
          · exact .waits (r :: pre) post r₀ before after hd' hready' hleft hr₀
              (List.forall_mem_cons.mpr ⟨hstart, hpre.2⟩) hpost hq hafter hu

/-- What a call leaves of the gate, with the account of the session kept. -/
theorem acts_gate {l : FtpLabel} {a : Account} (hs : Sound s)
    (h : Acts s l.call l.events l.result s') (hg : Gate a.queued s.core) :
    Gate (a.next s l).queued s'.core := by
  obtain ⟨call, tr, r⟩ := l
  have hquiet : ∀ {c : FtpCore}, call.opened r = false → Gate (a.queued ++ texts tr) c →
      Gate (a.next s ⟨call, tr, r⟩).queued c := by
    intro c hopened hgate
    rw [Account.next, hopened]
    exact hgate
  dsimp only at h
  cases h with
  | moves hq hm => exact hquiet hq.opened (moves_gate hm hg)
  | inits _ => exact gate_zero _
  | binds _ => exact hquiet rfl (hg.silent rfl)
  | resets => exact gate_zero _
  | @opens now c hn hc hlt =>
      have hd := (hs.closed hn).direction
      have hgate : Gate [] c :=
        (hg.quiet hd []).same hc.direction hc.ready hc.replies
      exact hgate.queue (by decide) hlt
  | consumes hne hpos hle => exact hquiet rfl ((hg.consume hne hpos hle).silent rfl)
  | takes =>
      have hgate : Gate a.queued (ftpCoreTakeActions s).2.core := hg.same rfl rfl rfl
      exact hquiet rfl (hgate.silent rfl)
  | listening _ hc _ hne hlt =>
      exact hquiet rfl ((hg.same hc.direction hc.ready hc.replies).queue hne hlt)
  | connects _ _ _ hc =>
      exact hquiet rfl ((hg.same hc.direction hc.ready hc.replies).silent rfl)
  | enqueues _ _ _ hm => exact hquiet rfl (moves_gate hm (hg.same rfl rfl rfl))
  | acks _ _ _ hm => exact hquiet rfl (moves_gate hm (hg.same rfl rfl rfl))
  | @completes now ev committed c text _ hcommit hc _ hne hlt =>
      have hgate : Gate a.queued c := (gate_torn _ _).minor hc
      refine hquiet rfl ?_
      rw [texts_append, texts_append, texts_commits hcommit, texts_tornEvents]
      exact hgate.queue hne hlt

theorem run_gate {a : Account} {tr : List (FtpLabel × FtpState)}
    (h : Run FtpStep s tr s') (hs : Sound s) (hg : Gate a.queued s.core) :
    Gate (account a s tr).queued s'.core := by
  induction h generalizing a with
  | nil => exact hg
  | cons hstep _ ih =>
      exact ih (step_sound hs hstep) (acts_gate hs (call_acts hs hstep) hg)

end Kept

/-! ## What a transfer that may move its bytes has behind it -/

/-- The call accepted the data connection. -/
structure Accepts (l : FtpLabel) : Prop where
  call : ∃ now, l.call = .dataConnected now
  result : l.result = .bool true

/-- The call left the listener it found. -/
structure Leaves (x : FtpLabel × FtpState) : Prop where
  passive : x.2.core.passive = true
  whole : ∀ e ∈ x.1.events, ¬ Severs e
  other : ¬ SetsUp x.1

/-- The call left the transfer it found. -/
structure Carries (x : FtpLabel × FtpState) : Prop where
  direction : x.2.core.direction ≠ .idle
  silent : openingText ∉ texts x.1.events

/-- The listener that is there was set up by `p`. -/
def Listened (tr : List (FtpLabel × FtpState)) : Prop :=
  ∃ front p back, tr = front ++ p :: back ∧ SetsUp p.1 ∧ p.2.core.passive = true ∧
    ∀ x ∈ back, Leaves x

/-- The connection was accepted by `d`, for the listener that `p` set up and
that is there now. -/
def Accepted (tr : List (FtpLabel × FtpState)) : Prop :=
  ∃ front p mid d back, tr = front ++ p :: (mid ++ d :: back) ∧ SetsUp p.1 ∧
    p.2.core.passive = true ∧ Accepts d.1 ∧ ∀ x ∈ mid ++ d :: back, Leaves x

/-- The transfer under way was begun by `q`, which queued its opening reply. -/
def Started (tr : List (FtpLabel × FtpState)) : Prop :=
  ∃ front q back, tr = front ++ q :: back ∧ openingText ∈ texts q.1.events ∧
    q.2.core.direction ≠ .idle ∧ ∀ x ∈ back, Carries x

/-- The last opening reply of the session is among the bytes handed out, with
everything that was queued in front of it. -/
def Opened (a : Account) : Prop :=
  ∃ before after, a.queued = before ++ openingText :: after ∧ openingText ∉ after ∧
    before.flatten ++ openingText <+: a.handed

section History

variable {s s' : FtpState} {l : FtpLabel} {tr : List (FtpLabel × FtpState)}

/-- With no listener asked for, nothing can set one up. -/
theorem not_setsUp (h : FtpStep s l s') (ho : s.core.opening = false) : ¬ SetsUp l := by
  rintro ⟨⟨address, port, now, hcall⟩, hresult⟩
  obtain ⟨call, tr, r⟩ := l
  dsimp only at hcall hresult
  subst hcall
  subst hresult
  obtain ⟨b, hb, hr⟩ := returnBool_runs h
  unfold ftpCorePassiveResult at hr
  rw [if_pos (.inr (by rw [ho]; rfl))] at hr
  obtain ⟨-, he⟩ := runs_pure_iff.mp hr
  cases he
  cases hb

theorem listened_snoc (h : Listened tr) {x : FtpLabel × FtpState} (hx : Leaves x) :
    Listened (tr ++ [x]) := by
  obtain ⟨front, p, back, rfl, hp, hpassive, hback⟩ := h
  refine ⟨front, p, back ++ [x], by simp, hp, hpassive, ?_⟩
  exact List.forall_mem_append.mpr ⟨hback, List.forall_mem_singleton.mpr hx⟩

theorem listened_accepted (h : Listened tr) {x : FtpLabel × FtpState} (hx : Leaves x)
    (ha : Accepts x.1) : Accepted (tr ++ [x]) := by
  obtain ⟨front, p, back, rfl, hp, hpassive, hback⟩ := h
  refine ⟨front, p, back, x, [], by simp, hp, hpassive, ha, ?_⟩
  exact List.forall_mem_append.mpr ⟨hback, List.forall_mem_singleton.mpr hx⟩

theorem accepted_snoc (h : Accepted tr) {x : FtpLabel × FtpState} (hx : Leaves x) :
    Accepted (tr ++ [x]) := by
  obtain ⟨front, p, mid, d, back, rfl, hp, hpassive, hd, hback⟩ := h
  refine ⟨front, p, mid, d, back ++ [x], by simp, hp, hpassive, hd, ?_⟩
  have hall := List.forall_mem_append.mpr ⟨hback, List.forall_mem_singleton.mpr hx⟩
  rwa [List.append_assoc] at hall

theorem started_snoc (h : Started tr) {x : FtpLabel × FtpState} (hx : Carries x) :
    Started (tr ++ [x]) := by
  obtain ⟨front, q, back, rfl, hq, hd, hback⟩ := h
  refine ⟨front, q, back ++ [x], by simp, hq, hd, ?_⟩
  exact List.forall_mem_append.mpr ⟨hback, List.forall_mem_singleton.mpr hx⟩

/-- What the flags say about the run that led to them. -/
structure Behind (tr : List (FtpLabel × FtpState)) (s : FtpState) : Prop where
  passive : s.core.passive = true → Listened tr
  connected : s.core.connected = true → Accepted tr
  direction : s.core.direction ≠ .idle → Started tr

theorem step_behind (hs : Sound s) (hl : Linked s.core) (h : FtpStep s l s')
    (hb : Behind tr s) : Behind (tr ++ [(l, s')]) s' := by
  have hl' := acts_linked (call_acts hs h) hl
  by_cases hp : s'.core.passive = true
  · rcases acts_lasting (call_acts hs h) hs hl hp with hlast | ⟨hset, hconn, hd⟩
    · have hopen : s.core.opening = false := by
        refine Bool.eq_false_iff.mpr fun ho => ?_
        have hnone := hl.opening ho
        rw [hlast.passive] at hnone
        cases hnone
      have hx : Leaves (l, s') := ⟨hp, hlast.whole, not_setsUp h hopen⟩
      have hlistened := hb.passive hlast.passive
      refine ⟨fun _ => listened_snoc hlistened hx, fun hc => ?_, fun hd' => ?_⟩
      · rcases hlast.connected hc with hc | ⟨hcall, hresult⟩
        · exact accepted_snoc (hb.connected hc) hx
        · exact listened_accepted hlistened hx ⟨hcall, hresult⟩
      · by_cases hd : s.core.direction = .idle
        · exact ⟨tr, (l, s'), [], rfl, hlast.begins hd hd', hd', List.forall_mem_nil _⟩
        · exact started_snoc (hb.direction hd) ⟨hd', hlast.silent hd⟩
    · refine ⟨fun _ => ⟨tr, (l, s'), [], rfl, hset, hp, List.forall_mem_nil _⟩,
        fun hc => ?_, fun hd' => absurd hd hd'⟩
      rw [hconn] at hc
      cases hc
  · exact ⟨fun h => absurd h hp, fun h => absurd (hl'.connected h) hp,
      fun h => absurd (hl'.direction h) hp⟩

theorem run_behind (h : Run FtpStep .start tr s) : Behind tr s := by
  refine h.history (I := Behind) (fun hrun hi hstep => ?_)
    ⟨nofun, nofun, fun h => absurd rfl h⟩
  exact step_behind (run_sound hrun) (run_linked hrun) hstep hi

/-- The ring, by where the opening reply is. -/
theorem Gate.marks {queued : List (List UInt8)} {c : FtpCore} (h : Gate queued c) :
    c.replies.contents.countP Reply.start =
      if c.direction ≠ .idle ∧ c.ready = false then 1 else 0 := by
  have hnone : ∀ {rs : List Reply}, (∀ q ∈ rs, q.start = false) →
      rs.countP Reply.start = 0 := by
    intro rs hm
    refine List.countP_eq_zero.mpr fun q hq hstart => ?_
    rw [hm q hq] at hstart
    cases hstart
  cases h with
  | idle hd _ hm => rw [hnone hm, if_neg (fun h => h.1 hd)]
  | opened _ _ _ hready hm =>
      rw [hnone hm, if_neg]
      intro h
      rw [hready] at h
      cases h.2
  | waits _ _ _ _ _ hd hready hc hr hpre hpost =>
      rw [hc, List.countP_append, List.countP_cons_of_pos hr, hnone hpre, hnone hpost,
        if_pos ⟨hd, hready⟩]

/-- The gate has opened: the opening reply is handed out. -/
theorem Gate.handed {a : Account} (h : Gate a.queued s.core)
    (hready : s.core.ready = true)
    (hb : a.handed ++ s.core.unread = a.queued.flatten) : Opened a := by
  cases h with
  | idle _ hfalse =>
      rw [hready] at hfalse
      cases hfalse
  | waits _ _ _ _ _ _ hfalse =>
      rw [hready] at hfalse
      cases hfalse
  | opened before after _ _ _ hq hafter hu =>
      refine ⟨before, after, hq, hafter, ?_⟩
      have hflat : a.queued.flatten = before.flatten ++ openingText ++ after.flatten := by
        rw [hq, List.flatten_append, List.flatten_cons, List.append_assoc]
      rw [hflat] at hb
      have hlen := congrArg List.length hb
      simp only [List.length_append] at hlen
      refine List.prefix_of_prefix_length_le ⟨after.flatten, rfl⟩ ⟨s.core.unread, hb⟩ ?_
      rw [List.length_append]
      omega

/-- In every run one reply is marked while a transfer waits for its opening
reply, and none otherwise. A transfer that may move its bytes has its
connection from the listener that is there, and its opening reply is out. -/
theorem opening_gate (h : Run FtpStep .start tr s) :
    s.core.replies.contents.countP Reply.start =
      (if s.core.direction ≠ .idle ∧ s.core.ready = false then 1 else 0) ∧
    (s.core.transferReady = true →
      Accepted tr ∧ Started tr ∧ Opened (account ⟨[], []⟩ .start tr)) := by
  have hgate := run_gate (a := ⟨[], []⟩) h .zero (gate_zero _)
  refine ⟨hgate.marks, fun hready => ?_⟩
  obtain ⟨hd, hconnected, hr, -⟩ := transferReady_iff.mp hready
  have hb := run_behind h
  have hsession : s.core.session = true :=
    Bool.of_not_eq_false fun hc => hd ((run_sound h).closed hc).direction
  exact ⟨hb.connected hconnected, hb.direction hd,
    hgate.handed hr (run_balances h .zero nofun hsession)⟩

end History

/-- An upload is aborted with its opening reply in the ring, and a second one
waits for its own behind it. -/
def abandonedCalls : List FtpCall :=
  [.init ⟨0, true, 4⟩, .sessionOpen 0,
   .controlSpan (ascii "USER anonymous\r\nPASS x\r\nTYPE I\r\nEPSV\r\n") 0,
   .passiveResult true none 20 0, .dataConnected 0, .replyConsume 20 0,
   .replyConsume 20 0, .replyConsume 16 0, .replyConsume 18 0, .replyConsume 46 0,
   .controlSpan (ascii "STOR f\r\n") 0, .controlSpan (ascii "ABOR\r\n") 0,
   .controlSpan (ascii "EPSV\r\n") 0, .passiveResult true none 20 0, .dataConnected 0,
   .controlSpan (ascii "STOR f\r\n") 0, .replyConsume 37 0]

def outstandingCalls : List FtpCall :=
  [.replyConsume 44 0, .replyConsume 46 0, .replyConsume 37 0]

theorem opening_gate_abandoned :
    (played fileDevice .start emptyFile abandonedCalls).core.transferReady = false ∧
    ∃ tr s, Run FtpStep .start tr s ∧ s.core.transferReady = true ∧
      Opened (account ⟨[], []⟩ .start tr) := by
  have hrun := run_play fileDevice .start emptyFile (abandonedCalls ++ outstandingCalls)
  have hready : (played fileDevice .start emptyFile
      (abandonedCalls ++ outstandingCalls)).core.transferReady = true := by decide +kernel
  exact ⟨by decide +kernel, _, _, hrun, hready, ((opening_gate hrun).2 hready).2.2⟩

end EkBareMetal.Ftp

import EkBareMetal.Proofs.FtpMoves
import EkBareMetal.Proofs.FtpReplies

/-!
# How long a transfer lasts

A transfer needs the listener that was set up for it, and a teardown takes both
away. Within one call nothing sets up another listener after a teardown, so a
call that leaves a listener has torn nothing down: what was under way before it
still is, and `Lasting` says in which respects it is the same.
-/

namespace EkBareMetal.Ftp

open Interact Transition

/-! ## What is queued on the way -/

section Texts

variable {s s' : FtpState} {tr : List Ev} {e : Ev}

theorem textOf_feeding (h : Feeding e) : textOf e = none := by
  unfold Feeding at h
  split at h <;> first | rfl | exact h.elim

theorem texts_asked (h : ∀ e ∈ tr, Asks e) : texts tr = [] :=
  List.filterMap_eq_nil_iff.mpr fun e he => textOf_asks (h e he)

theorem texts_silent (h : textOf e = none) : texts [e] = [] :=
  List.filterMap_cons_none h

theorem texts_begins {upload : Bool} {view : FtpStorageView} {c : FtpCore}
    (h : Begins s upload view tr c) : texts tr = [] := by
  cases h with
  | operation _ => rfl
  | upload => rfl
  | download hfront hback _ =>
      rw [texts_append, texts_asked hfront, List.nil_append]
      exact (List.filterMap_cons_none rfl).trans (texts_asked hback)

/-- What a begin leaves of the record. -/
theorem begins_core {upload : Bool} {view : FtpStorageView} {c : FtpCore}
    (h : Begins s upload view tr c) : ∃ b, c = { s.core with operation := b } := by
  cases h with
  | operation _ => exact ⟨true, rfl⟩
  | upload => exact ⟨s.core.operation, rfl⟩
  | download _ _ _ => exact ⟨s.core.operation, rfl⟩

end Texts

/-! ## The listener behind a transfer -/

/-- A connection and a transfer stand on a listener that has been set up. -/
structure Linked (c : FtpCore) : Prop where
  opening : c.opening = true → c.passive = false
  connected : c.connected = true → c.passive = true
  direction : c.direction ≠ .idle → c.passive = true

/-- The storage is told to drop what is under way. -/
def Severs (e : Ev) : Prop :=
  match e with
  | ⟨.storage _ .abort, _⟩ => True
  | ⟨.storage _ .clear, _⟩ => True
  | _ => False

/-- What is the same before and after, as long as there is a listener. -/
structure Lasting (s : FtpState) (tr : List Ev) (s' : FtpState) : Prop where
  passive : s.core.passive = true
  connected : s'.core.connected = s.core.connected
  whole : ∀ e ∈ tr, ¬ Severs e
  begins : s.core.direction = .idle → s'.core.direction ≠ .idle → openingText ∈ texts tr
  silent : s.core.direction ≠ .idle → openingText ∉ texts tr
  direction : s.core.direction ≠ .idle → s'.core.direction = s.core.direction
  download : s.core.direction ≠ .idle → s'.core.download = s.core.download
  enqueued : s.core.direction ≠ .idle → s'.core.enqueued = s.core.enqueued
  acked : s.core.direction ≠ .idle → s'.core.acked = s.core.acked

section Linked

variable {s s' s₁ : FtpState} {c c' : FtpCore} {tr tr' : List Ev} {e : Ev}

theorem Linked.minor (h : Linked c) (hc : Minor c c') : Linked c' where
  opening := by rw [hc.opening, hc.passive]; exact h.opening
  connected := by rw [hc.connected, hc.passive]; exact h.connected
  direction := by rw [hc.direction, hc.passive]; exact h.direction

/-- With nothing under way there is nothing to stand on anything. -/
theorem linked_bare (hp : c.connected = false) (ho : c.opening = true → c.passive = false)
    (hd : c.direction = .idle) : Linked c where
  opening := ho
  connected := fun h => by rw [hp] at h; cases h
  direction := fun h => absurd hd h

theorem linked_torn (c : FtpCore) : Linked c.torn := linked_bare rfl nofun rfl

theorem linked_queue (h : Linked c) {text : List UInt8} {start : Bool} {now : UInt32}
    (hlt) : Linked (c.queue text start now hlt) := ⟨h.opening, h.connected, h.direction⟩

theorem move_linked (hm : Move s tr s') (h : Linked s.core) : Linked s'.core := by
  cases hm with
  | minor hc => exact h.minor hc
  | asks _ => exact h
  | refused _ _ => exact h
  | uploads _ _ => exact h
  | torn => exact linked_torn _
  | left _ => exact ⟨h.opening, h.connected, h.direction⟩
  | queues _ _ hlt => exact linked_queue h hlt
  | starts hp ho _ hb hlt =>
      obtain ⟨b, rfl⟩ := begins_core hb
      refine ⟨fun hopen => ?_, h.connected, fun _ => hp⟩
      rw [show s.core.opening = true from hopen] at ho
      cases ho
  | listens hidle hc =>
      have hlinked : Linked { s.core with opening := true } :=
        ⟨fun _ => hidle.passive, h.connected, h.direction⟩
      exact hlinked.minor hc
  | closes _ _ _ hc =>
      have hlinked : Linked { s.core with
          closing := true
          actions := s.core.actions ||| ftpCloseData } :=
        ⟨h.opening, h.connected, h.direction⟩
      exact hlinked.minor hc

theorem moves_linked (hm : Moves s tr s') (h : Linked s.core) : Linked s'.core := by
  induction hm with
  | refl => exact h
  | cons hm _ ih => exact ih (move_linked hm h)

/-! ## A listener lasts -/

theorem lasting_silent (hp : s.core.passive = true) (hw : ∀ e ∈ tr, ¬ Severs e)
    (ht : texts tr = []) : Lasting s tr s where
  passive := hp
  connected := rfl
  whole := hw
  begins := fun hd hd' => absurd hd hd'
  silent := fun _ => by rw [ht]; exact List.not_mem_nil
  direction := fun _ => rfl
  download := fun _ => rfl
  enqueued := fun _ => rfl
  acked := fun _ => rfl

theorem lasting_minor (hp : s.core.passive = true) (hc : Minor s.core c) :
    Lasting s [] { s with core := c } where
  passive := hp
  connected := hc.connected
  whole := List.forall_mem_nil _
  begins := fun hd hd' => absurd (hc.direction.trans hd) hd'
  silent := fun _ => List.not_mem_nil
  direction := fun _ => hc.direction
  download := fun _ => hc.download
  enqueued := fun _ => hc.enqueued
  acked := fun _ => hc.acked

theorem Lasting.trans (h : Lasting s tr s₁) (h' : Lasting s₁ tr' s') :
    Lasting s (tr ++ tr') s' where
  passive := h.passive
  connected := h'.connected.trans h.connected
  whole := List.forall_mem_append.mpr ⟨h.whole, h'.whole⟩
  begins := fun hd hd' => by
    rw [texts_append]
    by_cases hd₁ : s₁.core.direction = .idle
    · exact List.mem_append_right _ (h'.begins hd₁ hd')
    · exact List.mem_append_left _ (h.begins hd hd₁)
  silent := fun hd hmem => by
    rw [texts_append] at hmem
    rcases List.mem_append.mp hmem with hmem | hmem
    · exact h.silent hd hmem
    · exact h'.silent (by rw [h.direction hd]; exact hd) hmem
  direction := fun hd =>
    (h'.direction (by rw [h.direction hd]; exact hd)).trans (h.direction hd)
  download := fun hd =>
    (h'.download (by rw [h.direction hd]; exact hd)).trans (h.download hd)
  enqueued := fun hd =>
    (h'.enqueued (by rw [h.direction hd]; exact hd)).trans (h.enqueued hd)
  acked := fun hd => (h'.acked (by rw [h.direction hd]; exact hd)).trans (h.acked hd)

theorem severs_asks (h : Asks e) : ¬ Severs e := by
  unfold Asks at h
  split at h <;> first | exact id | exact h.elim

theorem severs_refused (h : Refused e) : ¬ Severs e := by
  unfold Refused at h
  split at h <;> first | exact id | exact h.elim

theorem severs_feeding (h : Feeding e) : ¬ Severs e := by
  unfold Feeding at h
  split at h <;> first | exact id | exact h.elim

theorem severs_begins {upload : Bool} {view : FtpStorageView}
    (h : Begins s upload view tr c) : ∀ e ∈ tr, ¬ Severs e := by
  cases h with
  | operation _ => exact List.forall_mem_singleton.mpr id
  | upload => exact List.forall_mem_singleton.mpr id
  | download hfront hback _ =>
      exact List.forall_mem_append.mpr ⟨fun e he => severs_asks (hfront e he),
        List.forall_mem_cons.mpr ⟨id, fun e he => severs_asks (hback e he)⟩⟩

theorem move_lasting (hm : Move s tr s') (hp : s'.core.passive = true) :
    Lasting s tr s' := by
  cases hm with
  | minor hc => exact lasting_minor (hc.passive.symm.trans hp) hc
  | asks he =>
      exact lasting_silent hp (List.forall_mem_singleton.mpr (severs_asks he))
        (texts_silent (textOf_asks he))
  | refused he _ =>
      exact lasting_silent hp (List.forall_mem_singleton.mpr (severs_refused he))
        (texts_silent (textOf_refused he))
  | uploads he _ =>
      exact lasting_silent hp (List.forall_mem_singleton.mpr (severs_feeding he))
        (texts_silent (textOf_feeding he))
  | torn => cases hp
  | left hc =>
      have hnone : s.core.passive = true := hp
      rw [hc] at hnone
      cases hnone
  | queues _ hne _ =>
      refine ⟨hp, rfl, List.forall_mem_singleton.mpr id, fun hd hd' => absurd hd hd',
        fun _ hmem => ?_, fun _ => rfl, fun _ => rfl, fun _ => rfl, fun _ => rfl⟩
      exact hne (List.mem_singleton.mp hmem).symm
  | starts hpassive _ hd hb _ =>
      obtain ⟨b, rfl⟩ := begins_core hb
      refine ⟨hpassive, rfl, ?_, fun _ _ => ?_, fun h => absurd hd h,
        fun h => absurd hd h, fun h => absurd hd h, fun h => absurd hd h,
        fun h => absurd hd h⟩
      · exact List.forall_mem_append.mpr
          ⟨severs_begins hb, List.forall_mem_singleton.mpr id⟩
      · rw [texts_append]
        exact List.mem_append_right _ List.mem_cons_self
  | listens hidle hc =>
      have hnone : s.core.passive = true := hc.passive.symm.trans hp
      rw [hidle.passive] at hnone
      cases hnone
  | closes _ _ _ hc =>
      exact ⟨hc.passive.symm.trans hp, hc.connected, List.forall_mem_nil _,
        fun hd hd' => absurd (hc.direction.trans hd) hd', fun _ => List.not_mem_nil,
        fun _ => hc.direction, fun _ => hc.download, fun _ => hc.enqueued,
        fun _ => hc.acked⟩

theorem moves_lasting (hm : Moves s tr s') (hp : s'.core.passive = true) :
    Lasting s tr s' := by
  induction hm with
  | refl => exact lasting_silent hp (List.forall_mem_nil _) rfl
  | cons hm _ ih =>
      have h := ih hp
      exact (move_lasting hm h.passive).trans h

end Linked

/-! ## Calls that leave a listener -/

/-- The same of a call, which may also accept the connection or account for
bytes of a download. -/
structure CallLasting (s : FtpState) (l : FtpLabel) (s' : FtpState) : Prop where
  passive : s.core.passive = true
  connected : s'.core.connected = true → s.core.connected = true ∨
    (∃ now, l.call = .dataConnected now) ∧ l.result = .bool true
  stays : s.core.connected = true → s'.core.connected = true
  whole : ∀ e ∈ l.events, ¬ Severs e
  begins : s.core.direction = .idle → s'.core.direction ≠ .idle →
    openingText ∈ texts l.events
  silent : s.core.direction ≠ .idle → openingText ∉ texts l.events
  direction : s.core.direction ≠ .idle → s'.core.direction = s.core.direction
  download : s.core.direction ≠ .idle → s'.core.download = s.core.download
  enqueued : s.core.direction ≠ .idle →
    s'.core.enqueued = s.core.enqueued + l.call.enqueuedBy l.result
  acked : s.core.direction ≠ .idle →
    s'.core.acked = s.core.acked + l.call.ackedBy l.result

/-- The call that sets a listener up. -/
structure SetsUp (l : FtpLabel) : Prop where
  call : ∃ address port now, l.call = .passiveResult true address port now
  result : l.result = .bool true

section Calls

variable {s s' : FtpState} {l : FtpLabel}

/-- A chain of moves, in a call that accounts for nothing. -/
theorem Lasting.call (h : Lasting s l.events s') (he : l.call.enqueuedBy l.result = 0)
    (ha : l.call.ackedBy l.result = 0) : CallLasting s l s' where
  passive := h.passive
  connected := fun hc => .inl (h.connected.symm.trans hc)
  stays := fun hc => h.connected.trans hc
  whole := h.whole
  begins := h.begins
  silent := h.silent
  direction := h.direction
  download := h.download
  enqueued := fun hd => by rw [he]; exact h.enqueued hd
  acked := fun hd => by rw [ha]; exact h.acked hd

theorem linked_zero : Linked .zero := linked_bare rfl nofun rfl

/-- What the consumer may change. -/
theorem consume_core (s : FtpState) (n : Nat) (now : UInt32) :
    ∃ replies ready actions t₁ t₂ t₃, (ftpCoreReplyConsume s n now).2 = { s with
        core := { s.core with
          replies := replies
          ready := ready
          actions := actions
          outputTime := t₁
          dataOutputTime := t₂
          closeTime := t₃ } } ∧
      actions &&& ftpCloseData = s.core.actions &&& ftpCloseData := by
  have hdrained : ∀ c : FtpCore, ∃ actions t, c.drained now =
        { c with actions := actions, closeTime := t } ∧
      actions &&& ftpCloseData = c.actions &&& ftpCloseData := by
    intro c
    unfold FtpCore.drained
    split
    · exact ⟨_, now, rfl, bit_or (by decide)⟩
    · exact ⟨c.actions, c.closeTime, rfl, rfl⟩
  have hconsumed : ∀ r : Reply, ∃ replies ready t₁ t₂, s.core.consumed r now =
      { s.core with
        replies := replies
        ready := ready
        outputTime := t₁
        dataOutputTime := t₂ } := by
    intro r
    unfold FtpCore.consumed
    dsimp only
    split
    · split
      · exact ⟨_, true, now, now, rfl⟩
      · exact ⟨_, s.core.ready, now, s.core.dataOutputTime, rfl⟩
    · exact ⟨_, s.core.ready, now, s.core.dataOutputTime, rfl⟩
  unfold ftpCoreReplyConsume
  dsimp only
  split
  · exact ⟨s.core.replies, s.core.ready, s.core.actions, s.core.outputTime,
      s.core.dataOutputTime, s.core.closeTime, rfl, rfl⟩
  · obtain ⟨replies, ready, t₁, t₂, hc⟩ := hconsumed
      { s.core.replies.front with offset := s.core.replies.front.offset + n }
    obtain ⟨actions, t₃, hd, ha⟩ := hdrained (s.core.consumed
      { s.core.replies.front with offset := s.core.replies.front.offset + n } now)
    refine ⟨replies, ready, actions, t₁, t₂, t₃, ?_, ?_⟩
    · rw [hd, hc]
    · rw [ha, hc]

theorem acts_linked (h : Acts s l.call l.events l.result s') (hl : Linked s.core) :
    Linked s'.core := by
  obtain ⟨call, tr, r⟩ := l
  dsimp only at h
  cases h with
  | moves _ hm => exact moves_linked hm hl
  | inits _ => exact linked_zero
  | binds _ => exact hl
  | resets => exact linked_zero
  | @opens now c hn hc hlt =>
      have hlinked : Linked { s.core with session := true } :=
        ⟨hl.opening, hl.connected, hl.direction⟩
      exact linked_queue (hlinked.minor hc) hlt
  | @consumes n now _ _ _ =>
      obtain ⟨replies, ready, actions, t₁, t₂, t₃, heq, -⟩ := consume_core s n now
      rw [heq]
      exact ⟨hl.opening, hl.connected, hl.direction⟩
  | takes => exact ⟨hl.opening, hl.connected, hl.direction⟩
  | listening ho hc _ _ hlt =>
      have hlinked : Linked { s.core with opening := false, passive := true } :=
        ⟨nofun, fun _ => rfl, fun _ => rfl⟩
      exact linked_queue (hlinked.minor hc) hlt
  | connects hp _ _ hc =>
      have hlinked : Linked { s.core with connected := true } :=
        ⟨hl.opening, fun _ => hp, hl.direction⟩
      exact hlinked.minor hc
  | enqueues _ _ _ hm =>
      exact moves_linked hm ⟨hl.opening, hl.connected, hl.direction⟩
  | acks _ _ _ hm => exact moves_linked hm ⟨hl.opening, hl.connected, hl.direction⟩
  | completes _ _ hc _ _ hlt => exact linked_queue ((linked_torn _).minor hc) hlt

/-- A call that leaves a listener has set it up, or found it and severed
nothing. -/
theorem acts_lasting (h : Acts s l.call l.events l.result s') (hs : Sound s)
    (hl : Linked s.core) (hp : s'.core.passive = true) :
    CallLasting s l s' ∨
      SetsUp l ∧ s'.core.connected = false ∧ s'.core.direction = .idle := by
  obtain ⟨call, tr, r⟩ := l
  dsimp only at h
  -- A call that shows nothing and changes nothing a transfer is read from.
  have hsame : ∀ {c : FtpCore}, c.passive = s.core.passive →
      c.connected = s.core.connected → c.direction = s.core.direction →
      c.download = s.core.download → c.enqueued = s.core.enqueued →
      c.acked = s.core.acked → c.passive = true → Lasting s [] { s with core := c } := by
    intro c hpassive hconn hd hdown he ha hpc
    exact ⟨hpassive.symm.trans hpc, hconn, List.forall_mem_nil _,
      fun hd₀ hd' => absurd (hd.trans hd₀) hd', fun _ => List.not_mem_nil, fun _ => hd,
      fun _ => hdown, fun _ => he, fun _ => ha⟩
  cases h with
  | moves hq hm => exact .inl ((moves_lasting hm hp).call hq.enqueued hq.acked)
  | inits _ => cases hp
  | binds hq =>
      have hidle : s.core.passive = false := by
        simp only [FtpCore.quiescent, Bool.not_eq_true', Bool.or_eq_false_iff] at hq
        exact hq.1.1.1.2
      rw [show s.core.passive = true from hp] at hidle
      cases hidle
  | resets => cases hp
  | opens hn hc _ =>
      have hnone : s.core.passive = true := hc.passive.symm.trans hp
      rw [(hs.closed hn).passive] at hnone
      cases hnone
  | @consumes n now _ _ _ =>
      obtain ⟨replies, ready, actions, t₁, t₂, t₃, heq, -⟩ := consume_core s n now
      rw [heq] at hp ⊢
      exact .inl (Lasting.call (hsame rfl rfl rfl rfl rfl rfl hp) rfl rfl)
  | takes => exact .inl (Lasting.call (hsame rfl rfl rfl rfl rfl rfl hp) rfl rfl)
  | listening ho hc _ _ _ =>
      have hnone := hl.opening ho
      refine .inr ⟨⟨⟨_, _, _, rfl⟩, rfl⟩, ?_, ?_⟩
      · refine Bool.eq_false_iff.mpr fun hconn => ?_
        rw [hl.connected (hc.connected.symm.trans hconn)] at hnone
        cases hnone
      · refine Classical.byContradiction fun hd => ?_
        rw [hl.direction (fun h => hd (hc.direction.trans h))] at hnone
        cases hnone
  | connects hpassive hn _ hc =>
      refine .inl ⟨hpassive, fun _ => .inr ⟨⟨_, rfl⟩, rfl⟩, fun _ => hc.connected,
        List.forall_mem_nil _, fun hd hd' => absurd (hc.direction.trans hd) hd',
        fun _ => List.not_mem_nil, fun _ => hc.direction, fun _ => hc.download,
        fun _ => hc.enqueued, fun _ => hc.acked⟩
  | enqueues _ hd _ hm =>
      have hne : s.core.direction ≠ .idle := by
        rw [hd]
        decide
      have hlast := moves_lasting hm hp
      exact .inl ⟨hlast.passive, fun hc => .inl (hlast.connected.symm.trans hc),
        fun hc => hlast.connected.trans hc, hlast.whole, fun hidle => absurd hidle hne,
        fun _ => List.not_mem_nil, fun _ => hlast.direction hne,
        fun _ => hlast.download hne, fun _ => hlast.enqueued hne, fun _ => hlast.acked hne⟩
  | acks _ hd _ hm =>
      have hne : s.core.direction ≠ .idle := by
        rw [hd]
        decide
      have hlast := moves_lasting hm hp
      exact .inl ⟨hlast.passive, fun hc => .inl (hlast.connected.symm.trans hc),
        fun hc => hlast.connected.trans hc, hlast.whole, fun hidle => absurd hidle hne,
        fun _ => List.not_mem_nil, fun _ => hlast.direction hne,
        fun _ => hlast.download hne, fun _ => hlast.enqueued hne, fun _ => hlast.acked hne⟩
  | completes _ _ hc _ _ _ =>
      have hnone := hc.passive.symm.trans hp
      cases hnone

theorem run_linked {tr : List (FtpLabel × FtpState)} (h : Run FtpStep .start tr s) :
    Linked s.core := by
  refine (h.invariant (I := fun s => Sound s ∧ Linked s.core) (fun hi hstep => ?_)
    ⟨.zero, linked_zero⟩).2
  exact ⟨step_sound hi.1 hstep, acts_linked (call_acts hi.1 hstep) hi.2⟩

end Calls

end EkBareMetal.Ftp

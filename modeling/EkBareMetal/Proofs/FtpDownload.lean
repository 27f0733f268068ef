import EkBareMetal.Proofs.FtpTransfer

/-!
# The bytes of a download

A download is of the view that was shown when its `RETR` was let through. The
core counts what of it is enqueued and what is acknowledged, and closes when
both are all of it; the file behind it keeps the committed bank as it is, so the
view shows the same bytes for as long as the transfer lasts. `Counted` is the
arithmetic of the two counters, `Shows` ties the view to the file, and
`closable` is the potential that a request to close spends.
-/

namespace EkBareMetal.Ftp

open Interact Transition

/-! ## The two counters -/

structure Counted (c : FtpCore) : Prop where
  idle : c.direction = .idle → c.closing = false
  other : c.direction ≠ .download → c.enqueued = 0 ∧ c.acked = 0
  acked : c.acked ≤ c.enqueued
  enqueued : c.enqueued ≤ c.download.length
  closing : c.direction = .download → c.closing = true →
    c.enqueued = c.download.length ∧ c.acked = c.download.length

section Counted

variable {s s' : FtpState} {c c' : FtpCore} {tr : List Ev} {l : FtpLabel}

theorem Counted.same (h : Counted c) (hclosing : c'.closing = c.closing)
    (hd : c'.direction = c.direction) (hdown : c'.download = c.download)
    (he : c'.enqueued = c.enqueued) (ha : c'.acked = c.acked) : Counted c' where
  idle := by rw [hd, hclosing]; exact h.idle
  other := by rw [hd, he, ha]; exact h.other
  acked := by rw [he, ha]; exact h.acked
  enqueued := by rw [he, hdown]; exact h.enqueued
  closing := by rw [hd, hclosing, he, ha, hdown]; exact h.closing

theorem Counted.minor (h : Counted c) (hc : Minor c c') : Counted c' :=
  h.same hc.closing hc.direction hc.download hc.enqueued hc.acked

theorem counted_torn (c : FtpCore) : Counted c.torn :=
  ⟨fun _ => rfl, fun _ => ⟨rfl, rfl⟩, Nat.le_refl _, Nat.zero_le _, nofun⟩

theorem counted_zero : Counted .zero :=
  ⟨fun _ => rfl, fun _ => ⟨rfl, rfl⟩, Nat.le_refl _, Nat.zero_le _, nofun⟩

theorem move_counted (hm : Move s tr s') (h : Counted s.core) : Counted s'.core := by
  cases hm with
  | minor hc => exact h.minor hc
  | asks _ => exact h
  | refused _ _ => exact h
  | uploads _ _ => exact h
  | torn => exact counted_torn _
  | left _ => exact h.same rfl rfl rfl rfl rfl
  | queues _ _ _ => exact h.same rfl rfl rfl rfl rfl
  | @starts _ upload view now ev c _ _ hd hb hlt =>
      obtain ⟨b, rfl⟩ := begins_core hb
      have hclosing := h.idle hd
      refine ⟨fun _ => hclosing, fun _ => ⟨rfl, rfl⟩, Nat.le_refl _, Nat.zero_le _,
        fun _ hc => ?_⟩
      rw [show s.core.closing = true from hc] at hclosing
      cases hclosing
  | listens hidle hc => exact h.same hc.closing hc.direction hc.download hc.enqueued hc.acked
  | closes hd _ hdone hc =>
      have hclosed : Counted { s.core with
          closing := true
          actions := s.core.actions ||| ftpCloseData } :=
        ⟨fun hidle => absurd hidle hd, h.other, h.acked, h.enqueued,
          fun hdown _ => hdone hdown⟩
      exact hclosed.minor hc

theorem moves_counted (hm : Moves s tr s') (h : Counted s.core) : Counted s'.core := by
  induction hm with
  | refl => exact h
  | cons hm _ ih => exact ih (move_counted hm h)

theorem acts_counted (h : Acts s l.call l.events l.result s') (hc : Counted s.core) :
    Counted s'.core := by
  obtain ⟨call, tr, r⟩ := l
  dsimp only at h
  cases h with
  | moves _ hm => exact moves_counted hm hc
  | inits _ => exact counted_zero
  | binds _ => exact hc
  | resets => exact counted_zero
  | opens _ hm _ => exact hc.same hm.closing hm.direction hm.download hm.enqueued hm.acked
  | @consumes n now _ _ _ =>
      obtain ⟨replies, ready, actions, t₁, t₂, t₃, heq, -⟩ := consume_core s n now
      rw [heq]
      exact hc.same rfl rfl rfl rfl rfl
  | takes => exact hc.same rfl rfl rfl rfl rfl
  | listening _ hm _ _ _ =>
      exact hc.same hm.closing hm.direction hm.download hm.enqueued hm.acked
  | connects _ _ _ hm =>
      exact hc.same hm.closing hm.direction hm.download hm.enqueued hm.acked
  | enqueues hready hd hn hm =>
      refine moves_counted hm ⟨hc.idle, fun hne => absurd hd hne, ?_, ?_, fun _ h => ?_⟩
      · exact Nat.le_trans hc.acked (Nat.le_add_right _ _)
      · have := hc.enqueued
        show s.core.enqueued + _ ≤ s.core.download.length
        omega
      · have hfalse := (transferReady_iff.mp hready).2.2.2
        rw [show s.core.closing = true from h] at hfalse
        cases hfalse
  | acks hready hd hn hm =>
      refine moves_counted hm ⟨hc.idle, fun hne => absurd hd hne, ?_, hc.enqueued,
        fun _ h => ?_⟩
      · have := hc.acked
        show s.core.acked + _ ≤ s.core.enqueued
        omega
      · have hfalse := (transferReady_iff.mp hready).2.2.2
        rw [show s.core.closing = true from h] at hfalse
        cases hfalse
  | completes _ _ hm _ _ _ =>
      exact (counted_torn s.core).same hm.closing hm.direction hm.download hm.enqueued
        hm.acked

/-- A chain of moves counts nothing. -/
theorem moves_uncounted (hm : Moves s tr s')
    (h : s.core.enqueued = 0 ∧ s.core.acked = 0) :
    s'.core.enqueued = 0 ∧ s'.core.acked = 0 := by
  induction hm with
  | refl => exact h
  | cons hm _ ih =>
      refine ih ?_
      cases hm with
      | minor hc => exact ⟨hc.enqueued.trans h.1, hc.acked.trans h.2⟩
      | torn => exact ⟨rfl, rfl⟩
      | starts _ _ _ _ _ => exact ⟨rfl, rfl⟩
      | listens _ hc => exact ⟨hc.enqueued.trans h.1, hc.acked.trans h.2⟩
      | closes _ _ _ hc => exact ⟨hc.enqueued.trans h.1, hc.acked.trans h.2⟩
      | _ => exact h

theorem acts_uncounted (h : Acts s l.call l.events l.result s')
    (hd : s.core.direction = .idle) (h0 : s.core.enqueued = 0 ∧ s.core.acked = 0) :
    s'.core.enqueued = 0 ∧ s'.core.acked = 0 := by
  obtain ⟨call, tr, r⟩ := l
  dsimp only at h
  have hno : s.core.direction = .download → False := fun h => by
    rw [hd] at h
    cases h
  cases h with
  | moves _ hm => exact moves_uncounted hm h0
  | inits _ => exact ⟨rfl, rfl⟩
  | resets => exact ⟨rfl, rfl⟩
  | opens _ hm _ => exact ⟨hm.enqueued.trans h0.1, hm.acked.trans h0.2⟩
  | @consumes n now _ _ _ =>
      obtain ⟨replies, ready, actions, t₁, t₂, t₃, heq, -⟩ := consume_core s n now
      rw [heq]
      exact h0
  | listening _ hm _ _ _ => exact ⟨hm.enqueued.trans h0.1, hm.acked.trans h0.2⟩
  | connects _ _ _ hm => exact ⟨hm.enqueued.trans h0.1, hm.acked.trans h0.2⟩
  | enqueues _ hdown _ _ => exact (hno hdown).elim
  | acks _ hdown _ _ => exact (hno hdown).elim
  | completes _ _ hm _ _ _ => exact ⟨hm.enqueued, hm.acked⟩
  | _ => exact h0

end Counted

/-! ## The view and the file -/

/-- A download's view is of the file as it stands. -/
def Shows (s : FtpState) (f : RamFile) : Prop :=
  s.core.direction = .download → f.inspect = s.core.download

section Shows

variable {s s' : FtpState} {f f' : RamFile} {tr : List Ev} {c : FtpCore} {l : FtpLabel}

theorem stores_asked (h : ∀ e ∈ tr, Asks e) (hst : Stores f tr f') : f' = f := by
  induction tr generalizing f with
  | nil => exact stores_nil hst
  | cons e tr ih =>
      obtain ⟨he, htr⟩ := List.forall_mem_cons.mp h
      have hsplit : Stores f ([e] ++ tr) f' := hst
      obtain ⟨f₁, h₁, h₂⟩ := stores_append hsplit
      rw [ih htr h₂, stores_asks he h₁]

/-- What begins without an operation. -/
theorem begins_shows {upload : Bool} {view : FtpStorageView} (now : UInt32)
    (hop : s.operation = none) (hb : Begins s upload view tr c) (hst : Stores f tr f') :
    Shows { s with core := c.started upload view now } f' := by
  cases hb with
  | operation hne => exact absurd hop hne
  | upload => exact nofun
  | download hfront hback _ =>
      intro _
      obtain ⟨f₁, h₁, h₂⟩ := stores_append hst
      obtain rfl := stores_asked hfront h₁
      have hsplit : Stores f₁ ([storageEv s .inspect view] ++ _) f' := h₂
      obtain ⟨f₂, h₃, h₄⟩ := stores_append hsplit
      obtain ⟨hview, rfl⟩ := stores_storage h₃
      obtain rfl := stores_asked hback h₄
      exact hview.symm

theorem move_shows (hm : Move s tr s') (hop : s.operation = none) (h : Shows s f)
    (hst : Stores f tr f') : Shows s' f' := by
  cases hm with
  | minor hc =>
      obtain rfl := stores_nil hst
      exact fun hd => (h (hc.direction.symm.trans hd)).trans hc.download.symm
  | asks he =>
      obtain rfl := stores_asks he hst
      exact h
  | refused he _ =>
      obtain rfl := stores_refused he hst
      exact h
  | uploads _ hd =>
      intro hdown
      rw [hd] at hdown
      cases hdown
  | torn => exact nofun
  | left hc =>
      intro hdown
      have hnone : s.core.direction = .download := hdown
      rw [hc] at hnone
      cases hnone
  | queues _ _ _ =>
      obtain rfl := stores_point hst
      exact h
  | @starts _ _ _ now _ _ _ _ _ hb _ =>
      obtain ⟨f₁, h₁, h₂⟩ := stores_append hst
      obtain rfl := stores_point h₂
      exact begins_shows now hop hb h₁
  | listens _ hc =>
      obtain rfl := stores_nil hst
      exact fun hd => (h (hc.direction.symm.trans hd)).trans hc.download.symm
  | closes _ _ _ hc =>
      obtain rfl := stores_nil hst
      exact fun hd => (h (hc.direction.symm.trans hd)).trans hc.download.symm

theorem Move.bindings (hm : Move s tr s') :
    s'.storage = s.storage ∧ s'.operation = s.operation := by
  cases hm <;> exact ⟨rfl, rfl⟩

theorem moves_shows (hm : Moves s tr s') (hop : s.operation = none) (h : Shows s f)
    (hst : Stores f tr f') : Shows s' f' := by
  induction hm generalizing f with
  | refl =>
      obtain rfl := stores_nil hst
      exact h
  | cons hm _ ih =>
      obtain ⟨f₁, h₁, h₂⟩ := stores_append hst
      exact ih (hm.bindings.2.trans hop) (move_shows hm hop h h₁) h₂

theorem acts_shows (h : Acts s l.call l.events l.result s') (hs : Sound s)
    (hop : s.operation = none) (hsh : Shows s f) (hst : Stores f l.events f') :
    Shows s' f' := by
  obtain ⟨call, tr, r⟩ := l
  dsimp only at h hst
  cases h with
  | moves _ hm => exact moves_shows hm hop hsh hst
  | inits _ => exact nofun
  | binds _ =>
      obtain rfl := stores_nil hst
      exact hsh
  | resets => exact nofun
  | opens hn hc _ =>
      intro hd
      have hidle : s.core.direction = .download := hc.direction.symm.trans hd
      rw [(hs.closed hn).direction] at hidle
      cases hidle
  | @consumes n now _ _ _ =>
      obtain rfl := stores_nil hst
      obtain ⟨replies, ready, actions, t₁, t₂, t₃, heq, -⟩ := consume_core s n now
      rw [heq]
      exact hsh
  | takes =>
      obtain rfl := stores_nil hst
      exact hsh
  | listening _ hc _ _ _ =>
      obtain rfl := stores_point hst
      exact fun hd => (hsh (hc.direction.symm.trans hd)).trans hc.download.symm
  | connects _ _ _ hc =>
      obtain rfl := stores_nil hst
      exact fun hd => (hsh (hc.direction.symm.trans hd)).trans hc.download.symm
  | enqueues _ _ _ hm => exact moves_shows hm hop (by exact hsh) hst
  | acks _ _ _ hm => exact moves_shows hm hop (by exact hsh) hst
  | completes _ _ hc _ _ _ =>
      intro hd
      have hnone := hc.direction.symm.trans hd
      cases hnone

end Shows

/-! ## The request to close -/

instance (c : FtpCore) : Decidable c.closeAsked := inferInstanceAs (Decidable (_ ≠ _))

/-- The requests to close that the transfer under way has left. -/
def FtpCore.closable (c : FtpCore) : Nat :=
  if c.closing then if c.closeAsked then 1 else 0 else 1

/-- A close is requested by a transfer that closes, and by no operation. -/
structure Closing (s : FtpState) : Prop where
  bound : s.operation = none
  operation : s.core.operation = false
  asked : s.core.closeAsked → s.core.closing = true

/-- The call handed out a request to close. -/
def FtpLabel.requestsClose (l : FtpLabel) : Bool :=
  match l.call, l.result with
  | .takeActions, .actions a => a &&& ftpCloseData != 0
  | _, _ => false

section Closing

variable {s s' : FtpState} {c c' : FtpCore} {tr : List Ev} {l : FtpLabel}

theorem closable_le (c : FtpCore) : c.closable ≤ 1 := by
  unfold FtpCore.closable
  split
  · split <;> decide
  · exact Nat.le_refl _

theorem closable_open (h : c.closing = false) : c.closable = 1 := by
  rw [FtpCore.closable, h]
  rfl

/-- Nothing new is requested. -/
theorem closable_mono (hclosing : c'.closing = c.closing)
    (hasked : c'.closeAsked → c.closeAsked) : c'.closable ≤ c.closable := by
  rw [FtpCore.closable, FtpCore.closable, hclosing]
  split
  · split
    · next h => rw [if_pos (hasked h)]
    · exact Nat.zero_le _
  · exact Nat.le_refl _

theorem Closing.same (h : Closing s) (hop : c.operation = s.core.operation)
    (hclosing : c.closing = s.core.closing) (hasked : c.closeAsked → s.core.closeAsked) :
    Closing { s with core := c } where
  bound := h.bound
  operation := hop.trans h.operation
  asked := fun hc => hclosing.trans (h.asked (hasked hc))

theorem closing_quiet (hop : s.operation = none) (hnone : c.operation = false)
    (hasked : ¬ c.closeAsked) : Closing { s with core := c } :=
  ⟨hop, hnone, fun h => absurd h hasked⟩

theorem not_closeAsked (h : c.actions = 0) : ¬ c.closeAsked := by
  rw [FtpCore.closeAsked, h, UInt32.zero_and]
  exact not_not.mpr rfl

theorem move_closing (hm : Move s tr s') (h : Closing s) : Closing s' := by
  cases hm with
  | minor hc => exact h.same hc.operation hc.closing hc.close
  | asks _ => exact h
  | refused _ _ => exact h
  | uploads _ _ => exact h
  | torn => exact closing_quiet h.bound rfl (not_closeAsked_torn _)
  | @left c _ hc =>
      refine closing_quiet h.bound h.operation fun hasked => ?_
      have hbit : s.core.left.actions &&& ftpCloseData =
          s.core.actions &&& ~~~ftpCloseControl &&& ftpCloseData := bit_or (by decide)
      rw [FtpCore.closeAsked, hbit, hc] at hasked
      exact not_closeAsked_torn c (bit_and hasked)
  | queues _ _ _ => exact h.same rfl rfl id
  | starts _ _ _ hb _ =>
      cases hb with
      | operation hne => exact absurd h.bound hne
      | upload => exact h.same rfl rfl id
      | download _ _ _ => exact h.same rfl rfl id
  | listens _ hc => exact h.same hc.operation hc.closing hc.close
  | closes _ _ _ hc =>
      exact ⟨h.bound, hc.operation.trans h.operation, fun _ => hc.closing⟩

theorem moves_closing (hm : Moves s tr s') (h : Closing s) : Closing s' := by
  induction hm with
  | refl => exact h
  | cons hm _ ih => exact ih (move_closing hm h)

/-- Moves that leave a listener request no second close. -/
theorem move_closable (hm : Move s tr s') (h : Closing s) (hp : s'.core.passive = true) :
    s'.core.closable ≤ s.core.closable := by
  cases hm with
  | minor hc => exact closable_mono hc.closing hc.close
  | torn => cases hp
  | left hc =>
      have hnone : s.core.passive = true := hp
      rw [hc] at hnone
      cases hnone
  | listens hidle hc =>
      have hnone : s.core.passive = true := hc.passive.symm.trans hp
      rw [hidle.passive] at hnone
      cases hnone
  | starts _ _ _ hb _ =>
      obtain ⟨b, rfl⟩ := begins_core hb
      exact closable_mono rfl id
  | closes _ hfirst _ _ =>
      rcases hfirst with hfirst | hop
      · rw [closable_open hfirst]
        exact closable_le _
      · rw [h.operation] at hop
        cases hop
  | _ => exact closable_mono rfl id

theorem moves_closable (hm : Moves s tr s') (h : Closing s) (hp : s'.core.passive = true) :
    s'.core.closable ≤ s.core.closable := by
  induction hm with
  | refl => exact Nat.le_refl _
  | cons hm hs ih =>
      have hfound := (moves_lasting hs hp).passive
      exact Nat.le_trans (ih (move_closing hm h) hp) (move_closable hm h hfound)

theorem acts_closing (h : Acts s l.call l.events l.result s') (hc : Closing s)
    (hb : ∀ binding, l.call = .bindOperation binding → binding = none) : Closing s' := by
  obtain ⟨call, tr, r⟩ := l
  dsimp only at h hb
  cases h with
  | moves _ hm => exact moves_closing hm hc
  | inits _ => exact ⟨hc.bound, rfl, fun h => absurd h (not_closeAsked rfl)⟩
  | binds _ => exact ⟨hb _ rfl, hc.operation, hc.asked⟩
  | resets => exact closing_quiet hc.bound rfl (not_closeAsked rfl)
  | opens _ hm _ => exact hc.same hm.operation hm.closing hm.close
  | @consumes n now _ _ _ =>
      obtain ⟨replies, ready, actions, t₁, t₂, t₃, heq, hbit⟩ := consume_core s n now
      rw [heq]
      refine hc.same rfl rfl fun hasked => ?_
      rw [FtpCore.closeAsked, hbit] at hasked
      exact hasked
  | takes => exact closing_quiet hc.bound hc.operation (not_closeAsked rfl)
  | listening _ hm _ _ _ => exact hc.same hm.operation hm.closing hm.close
  | connects _ _ _ hm => exact hc.same hm.operation hm.closing hm.close
  | enqueues _ _ _ hm => exact moves_closing hm (hc.same rfl rfl id)
  | acks _ _ _ hm => exact moves_closing hm (hc.same rfl rfl id)
  | completes _ _ hm _ _ _ =>
      exact closing_quiet hc.bound hm.operation fun hasked =>
        not_closeAsked_torn _ (hm.close hasked)

theorem not_requestsClose (h : l.call ≠ .takeActions) : l.requestsClose = false := by
  unfold FtpLabel.requestsClose
  split
  · next hcall _ => exact absurd hcall h
  · rfl

/-- A call that leaves a transfer pays for the request it hands out. -/
theorem acts_closable (h : Acts s l.call l.events l.result s') (hs : Sound s)
    (hl : Linked s.core) (hc : Closing s) (hd : s'.core.direction ≠ .idle) :
    l.requestsClose.toNat + s'.core.closable ≤ s.core.closable := by
  have hp := (acts_linked h hl).direction hd
  have hquiet : l.call ≠ .takeActions → s'.core.closable ≤ s.core.closable →
      l.requestsClose.toNat + s'.core.closable ≤ s.core.closable := by
    intro hne hle
    rw [not_requestsClose hne, Bool.toNat_false, Nat.zero_add]
    exact hle
  obtain ⟨call, tr, r⟩ := l
  dsimp only at h hquiet
  cases h with
  | moves hq hm => exact hquiet hq.taken (moves_closable hm hc hp)
  | inits _ => exact absurd rfl hd
  | binds _ => exact hquiet (fun he => by cases he) (closable_mono rfl id)
  | resets => exact absurd rfl hd
  | opens hn hm _ => exact absurd (hm.direction.trans (hs.closed hn).direction) hd
  | @consumes n now _ _ _ =>
      obtain ⟨replies, ready, actions, t₁, t₂, t₃, heq, hbit⟩ := consume_core s n now
      refine hquiet (fun he => by cases he) (closable_mono (by rw [heq]) fun hasked => ?_)
      rw [FtpCore.closeAsked, heq, hbit] at hasked
      exact hasked
  | takes =>
      have hnone : ¬ (ftpCoreTakeActions s).2.core.closeAsked := not_closeAsked rfl
      by_cases hasked : s.core.closeAsked
      · have hclosing := hc.asked hasked
        have htaken : (ftpCoreTakeActions s).2.core.closable = 0 := by
          rw [FtpCore.closable, if_pos (by exact hclosing), if_neg hnone]
        have hheld : s.core.closable = 1 := by
          rw [FtpCore.closable, if_pos hclosing, if_pos hasked]
        rw [htaken, hheld]
        exact Bool.toNat_le _
      · have hfalse : (s.core.actions &&& ftpCloseData != 0) = false := by
          rw [bne_eq_false_iff_eq]
          exact not_not.mp hasked
        show (s.core.actions &&& ftpCloseData != 0).toNat + _ ≤ _
        rw [hfalse, Bool.toNat_false, Nat.zero_add]
        exact closable_mono rfl fun h => absurd h hnone
  | listening _ hm _ _ _ => exact hquiet (fun he => by cases he) (closable_mono hm.closing hm.close)
  | connects _ _ _ hm => exact hquiet (fun he => by cases he) (closable_mono hm.closing hm.close)
  | enqueues _ _ _ hm =>
      have hle := moves_closable hm (hc.same rfl rfl id) hp
      exact hquiet (fun he => by cases he) hle
  | acks _ _ _ hm =>
      have hle := moves_closable hm (hc.same rfl rfl id) hp
      exact hquiet (fun he => by cases he) hle
  | completes _ _ hm _ _ _ => exact absurd hm.direction hd

end Closing

/-! ## The reply to a download -/

section Announced

variable {s s' : FtpState} {tr : List Ev} {l : FtpLabel}

theorem announced_silent {e : Ev} (h : textOf e = none) : announced e = false := by
  unfold announced
  split
  · cases h
  · rfl

theorem move_announced (hm : Move s tr s') : ∀ e ∈ tr, announced e = false := by
  have hsilent : texts tr = [] → ∀ e ∈ tr, announced e = false := by
    intro ht e he
    exact announced_silent (List.filterMap_eq_nil_iff.mp ht e he)
  cases hm with
  | asks he => exact hsilent (texts_silent (textOf_asks he))
  | refused he _ => exact hsilent (texts_silent (textOf_refused he))
  | uploads he _ => exact hsilent (texts_silent (textOf_feeding he))
  | torn => exact hsilent texts_tornEvents
  | queues hfit _ _ => exact List.forall_mem_singleton.mpr (decide_eq_false hfit.other)
  | starts _ _ _ hb _ =>
      refine List.forall_mem_append.mpr ⟨fun e he => ?_,
        List.forall_mem_singleton.mpr (by decide)⟩
      exact announced_silent (List.filterMap_eq_nil_iff.mp (texts_begins hb) e he)
  | _ => exact List.forall_mem_nil _

theorem moves_announced (hm : Moves s tr s') : ∀ e ∈ tr, announced e = false := by
  induction hm with
  | refl => exact List.forall_mem_nil _
  | cons hm _ ih => exact List.forall_mem_append.mpr ⟨move_announced hm, ih⟩

/-- A success is announced by an accepted close, and then the transfer closed. -/
theorem acts_announced (h : Acts s l.call l.events l.result s')
    (ha : l.events.any announced = true) :
    (∃ now, l.call = .dataCloseResult true now) ∧ l.result = .bool true ∧
      s.core.closing = true := by
  obtain ⟨call, tr, r⟩ := l
  dsimp only at h ha
  have hnone : (∀ e ∈ tr, announced e = false) → False := by
    intro hall
    obtain ⟨e, he, hann⟩ := List.any_eq_true.mp ha
    rw [hall e he] at hann
    cases hann
  cases h with
  | moves _ hm => exact (hnone (moves_announced hm)).elim
  | resets => exact (hnone reset_announced).elim
  | opens _ _ _ => exact (hnone (List.forall_mem_singleton.mpr (by decide))).elim
  | listening _ _ hfit _ _ =>
      exact (hnone (List.forall_mem_singleton.mpr (decide_eq_false hfit.other))).elim
  | @completes now ev committed c text hclosing hcommit _ htext _ _ =>
      refine ⟨⟨now, rfl⟩, ?_, hclosing⟩
      by_cases hann : Announces text
      · rw [htext.mpr hann]
      · refine (hnone (List.forall_mem_append.mpr ⟨fun e he => ?_,
          List.forall_mem_append.mpr ⟨fun e he => ?_,
            List.forall_mem_singleton.mpr (decide_eq_false hann)⟩⟩)).elim
        · exact announced_silent
            (List.filterMap_eq_nil_iff.mp (texts_commits hcommit) e he)
        · exact announced_silent (List.filterMap_eq_nil_iff.mp texts_tornEvents e he)
  | _ => exact (hnone (List.forall_mem_nil _)).elim

end Announced

/-! ## Runs -/

/-- What holds of a core with a file and no operation. -/
structure Serving (a : FileServer) : Prop where
  sound : Sound a.ftp
  linked : Linked a.ftp.core
  counted : Counted a.ftp.core
  shows : Shows a.ftp a.file
  closing : Closing a.ftp

/-- At `x` the download of `a` was under way, and the file was its view. -/
structure Views (a : FileServer) (x : FtpLabel × FileServer) : Prop where
  direction : x.2.ftp.core.direction = .download
  view : x.2.ftp.core.download = a.ftp.core.download
  file : x.2.file.inspect = a.ftp.core.download

/-- The download of `a` was begun by `q`, and its counters are what has been
enqueued and acknowledged since. -/
def Downloading (tr : List (FtpLabel × FileServer)) (a : FileServer) : Prop :=
  ∃ front q back, tr = front ++ q :: back ∧ openingText ∈ texts q.1.events ∧ Views a q ∧
    (∀ x ∈ back, Views a x ∧ openingText ∉ texts x.1.events) ∧
    a.ftp.core.enqueued = (back.map fun x => x.1.call.enqueuedBy x.1.result).sum ∧
    a.ftp.core.acked = (back.map fun x => x.1.call.ackedBy x.1.result).sum

section Runs

variable {b : FtpStorage} {a a' : FileServer} {l : FtpLabel}
  {tr : List (FtpLabel × FileServer)}

theorem step_serving (h : FileStep b a l a') (hs : Serving a) : Serving a' := by
  have hacts := call_acts hs.sound h.step
  exact ⟨step_sound hs.sound h.step, acts_linked hacts hs.linked,
    acts_counted hacts hs.counted,
    acts_shows hacts hs.sound hs.closing.bound hs.shows h.stores,
    acts_closing hacts hs.closing h.unbound⟩

theorem serving_start (f : RamFile) : Serving ⟨.start, f⟩ :=
  ⟨.zero, linked_zero, counted_zero, nofun,
    ⟨rfl, rfl, fun h => absurd h (not_closeAsked rfl)⟩⟩

theorem step_downloading (h : FileStep b a l a') (hs : Serving a)
    (hi : a.ftp.core.direction = .download → Downloading tr a)
    (hd' : a'.ftp.core.direction = .download) : Downloading (tr ++ [(l, a')]) a' := by
  have hacts := call_acts hs.sound h.step
  have hs' := step_serving h hs
  have hne' : a'.ftp.core.direction ≠ .idle := by
    rw [hd']
    decide
  have hview : Views a' (l, a') := ⟨hd', rfl, hs'.shows hd'⟩
  rcases acts_lasting hacts hs.sound hs.linked (hs'.linked.direction hne')
    with hlast | ⟨-, -, hidle⟩
  · by_cases hd : a.ftp.core.direction = .idle
    · have hzero := acts_uncounted hacts hd
        (hs.counted.other (by rw [hd]; decide))
      exact ⟨tr, (l, a'), [], rfl, hlast.begins hd hne', hview, List.forall_mem_nil _,
        hzero.1, hzero.2⟩
    · have hdown : a.ftp.core.direction = .download := (hlast.direction hd).symm.trans hd'
      obtain ⟨front, q, back, rfl, hq, hviewq, hback, he, ha⟩ := hi hdown
      have hsame := hlast.download hd
      have hmove : ∀ {x}, Views a x → Views a' x := fun hx =>
        ⟨hx.direction, hx.view.trans hsame.symm, hx.file.trans hsame.symm⟩
      refine ⟨front, q, back ++ [(l, a')], by simp, hq, hmove hviewq, ?_, ?_, ?_⟩
      · refine List.forall_mem_append.mpr ⟨fun x hx => ?_,
          List.forall_mem_singleton.mpr ⟨hview, hlast.silent hd⟩⟩
        exact ⟨hmove (hback x hx).1, (hback x hx).2⟩
      · rw [hlast.enqueued hd, he, List.map_append, List.sum_append]
        exact congrArg _ (Nat.add_zero _).symm
      · rw [hlast.acked hd, ha, List.map_append, List.sum_append]
        exact congrArg _ (Nat.add_zero _).symm
  · exact absurd hidle hne'

theorem run_serving (h : Run (FileStep b) a tr a') (hs : Serving a) : Serving a' :=
  h.invariant (fun hi hstep => step_serving hstep hi) hs

theorem run_downloading {f : RamFile} (h : Run (FileStep b) ⟨.start, f⟩ tr a)
    (hd : a.ftp.core.direction = .download) : Downloading tr a := by
  have hi : ∀ {tr a}, Run (FileStep b) ⟨.start, f⟩ tr a →
      a.ftp.core.direction = .download → Downloading tr a := fun hr =>
    hr.history (I := fun tr a => a.ftp.core.direction = .download → Downloading tr a)
      (fun hrun hi hstep => step_downloading hstep (run_serving hrun (serving_start f)) hi)
      nofun
  exact hi h hd

/-- Along calls that leave a transfer the requests are paid for. -/
theorem run_closable (h : Run (FileStep b) a tr a') (hs : Serving a)
    (hd : ∀ x ∈ tr, x.2.ftp.core.direction ≠ .idle) :
    tr.countP (fun x => x.1.requestsClose) + a'.ftp.core.closable ≤
      a.ftp.core.closable := by
  induction h with
  | nil => exact Nat.le_of_eq (Nat.zero_add _)
  | @cons a a₁ a' l tr hstep _ ih =>
      have hd := List.forall_mem_cons.mp hd
      have hrest := ih (step_serving hstep hs) hd.2
      have hfirst := acts_closable (call_acts hs.sound hstep.step) hs.sound hs.linked
        hs.closing hd.1
      rw [List.countP_cons]
      have hbit : (if l.requestsClose = true then 1 else 0) = l.requestsClose.toNat := by
        cases l.requestsClose <;> rfl
      rw [hbit]
      omega

/-- In every run of a core with a file and no operation: the counters are in
order; a download's view is the file as it was when the download began, and the
span is what of it is not enqueued; a download is announced as a success by an
accepted close, with everything enqueued and acknowledged; and as long as one
transfer lasts, a request to close is handed out at most once. -/
theorem download_accounting {bank0 bank1 basename : List UInt8} {capacity : Nat}
    (h : Run (FileStep b) ⟨.start, .init bank0 bank1 capacity basename⟩ tr a) :
    (a.ftp.core.acked ≤ a.ftp.core.enqueued ∧
      a.ftp.core.enqueued ≤ a.ftp.core.download.length) ∧
    (a.ftp.core.direction = .download →
      a.file.inspect = a.ftp.core.download ∧ Downloading tr a) ∧
    (ftpCoreDownloadSpan a.ftp =
      if a.ftp.core.transferReady ∧ a.ftp.core.direction = .download then
        a.file.inspect.data.drop a.ftp.core.enqueued else []) ∧
    (∀ l a', FileStep b a l a' → a.ftp.core.direction = .download →
      l.events.any announced = true →
        (∃ now, l.call = .dataCloseResult true now) ∧ l.result = .bool true ∧
          a.ftp.core.enqueued = a.ftp.core.download.length ∧
          a.ftp.core.acked = a.ftp.core.download.length) ∧
    (∀ front mid back, tr = front ++ mid ++ back →
      (∀ x ∈ mid, x.2.ftp.core.direction ≠ .idle) →
        mid.countP (fun x => x.1.requestsClose) ≤ 1) := by
  have hs := run_serving h (serving_start _)
  refine ⟨⟨hs.counted.acked, hs.counted.enqueued⟩,
    fun hd => ⟨hs.shows hd, run_downloading h hd⟩, ?_, fun l a' hstep hd hann => ?_,
    fun front mid back heq hmid => ?_⟩
  · unfold ftpCoreDownloadSpan
    by_cases hready : a.ftp.core.transferReady ∧ a.ftp.core.direction = .download
    · rw [if_pos hready, if_neg, hs.shows hready.2]
      rw [hready.1]
      exact fun h => h.elim nofun fun h => h hready.2
    · rw [if_neg hready, if_pos]
      by_cases hr : a.ftp.core.transferReady = true
      · exact .inr fun hd => hready ⟨hr, hd⟩
      · exact .inl (by simpa using hr)
  · obtain ⟨hcall, hresult, hclosing⟩ :=
      acts_announced (call_acts hs.sound hstep.step) hann
    exact ⟨hcall, hresult, hs.counted.closing hd hclosing⟩
  · rw [heq, List.append_assoc] at h
    obtain ⟨a₁, h₁, h₂⟩ := run_append_iff.mp h
    obtain ⟨a₂, h₃, -⟩ := run_append_iff.mp h₂
    have hs₁ := run_serving h₁ (serving_start _)
    have hpaid := run_closable h₃ hs₁ hmid
    have := closable_le a₁.ftp.core
    omega

end Runs

/-- A file of three bytes is stored, and two of them are on their way out. -/
def downloadCalls : List FtpCall :=
  [.init ⟨0, true, 4⟩, .sessionOpen 0,
   .controlSpan (ascii "USER anonymous\r\nPASS x\r\nTYPE I\r\nEPSV\r\n") 0,
   .passiveResult true none 20 0, .dataConnected 0,
   .controlSpan (ascii "STOR f\r\n") 0, .replyConsume 20 0, .replyConsume 20 0,
   .replyConsume 16 0, .replyConsume 18 0, .replyConsume 46 0, .replyConsume 37 0,
   .uploadSpan [1, 2, 3] 0, .uploadEof 0, .dataCloseResult true 0, .replyConsume 24 0,
   .controlSpan (ascii "EPSV\r\n") 0, .passiveResult true none 20 0, .dataConnected 0,
   .controlSpan (ascii "RETR f\r\n") 0, .replyConsume 46 0, .replyConsume 37 0,
   .downloadEnqueued 2 0, .downloadAcked 1 0]

theorem download_accounting_sent :
    ∃ tr a, Run (FileStep ⟨0, true, 4⟩) ⟨.start, emptyFile⟩ tr a ∧
      Downloading tr a ∧ a.ftp.core.enqueued = 2 ∧ a.ftp.core.acked = 1 ∧
      ftpCoreDownloadSpan a.ftp = [3] := by
  have hrun : Run (FileStep ⟨0, true, 4⟩) ⟨.start, emptyFile⟩
      (serve ⟨.start, emptyFile⟩ downloadCalls)
      (serveEnd ⟨.start, emptyFile⟩ downloadCalls) :=
    run_serve _ (by simp [downloadCalls]) (by simp [downloadCalls])
  have hd : (serveEnd ⟨.start, emptyFile⟩ downloadCalls).ftp.core.direction =
      .download := by decide +kernel
  exact ⟨_, _, hrun, ((download_accounting hrun).2.1 hd).2, by decide +kernel,
    by decide +kernel, by decide +kernel⟩

end EkBareMetal.Ftp

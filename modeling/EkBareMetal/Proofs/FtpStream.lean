import EkBareMetal.Proofs.FtpBooks
import EkBareMetal.Proofs.FtpPairing

/-!
# The stream through the adapter

Every function of the adapter keeps the books. `Brings` is the weakest
precondition against lwIP and any bindings, most requests move nothing
(`TcpOp.Quiet`), and a call of the core counts only for what it leaves of the
session. So the proofs follow the functions, and the loop over the control input
is the one place where a byte is weighed: an accepted one is credited at once.
-/

namespace EkBareMetal.Ftp

open Interact Transition

/-! ## What a program brings -/

/-- Whatever lwIP and the bindings answer, the program ends in `Q`. -/
abbrev Brings {α : Type} (p : TcpProg α) (w : Wire) (Q : α → Wire → Prop) : Prop :=
  wp stack (fun _ => False) p Q w

/-- The request moves nothing on the wire. -/
def TcpOp.Quiet (op : TcpOp) : Prop := ∀ w : Wire, w.after op = w

section Rules

variable {α β : Type} {s : FtpTcp} {w : Wire} {c : Channel} {side : Side} {p : Pcb}

theorem brings_pure {a : α} {Q : α → Wire → Prop} (h : Q a w) :
    Brings (pure a : TcpProg α) w Q := h

theorem brings_bind {p : TcpProg α} {f : α → TcpProg β} {R : α → Wire → Prop}
    {Q : β → Wire → Prop} (hp : Brings p w R) (hf : ∀ a w', R a w' → Brings (f a) w' Q) :
    Brings (p >>= f) w Q := wp_bind'.mpr (wp_post hp hf)

theorem brings_then {p : TcpProg α} {f : α → TcpProg β} {Q : β → Wire → Prop}
    (h : Brings p w fun a w' => Brings (f a) w' Q) : Brings (p >>= f) w Q := wp_bind'.mpr h

theorem brings_call {op : TcpOp} {f : TcpSig.Ans op → TcpProg β} {Q : β → Wire → Prop}
    (h : ∀ r, w.Answers op r → Brings (f r) (w.after op) Q) :
    Brings (callTcp op >>= f) w Q :=
  ⟨fun _ hc => hc, fun r _ ⟨hans, hw⟩ => hw ▸ h r hans⟩

theorem brings_quiet {op : TcpOp} {f : TcpSig.Ans op → TcpProg β} {Q : β → Wire → Prop}
    (hq : op.Quiet) (h : ∀ r, Brings (f r) w Q) : Brings (callTcp op >>= f) w Q :=
  brings_call fun r _ => (hq w).symm ▸ h r

theorem quiet_last {op : TcpOp} {Q : TcpSig.Ans op → Wire → Prop} (hq : op.Quiet)
    (h : ∀ r, Q r w) : Brings (callTcp op) w Q :=
  ⟨fun _ hc => hc, fun r _ ⟨_, hw⟩ => (hw.trans (hq w)) ▸ h r⟩

theorem brings_core {p : FtpProg α} {f : α → TcpProg β} {P : α → Prop}
    {Q : β → Wire → Prop} (hp : Safe (fun _ => True) p P)
    (h : ∀ a, P a → Brings (f a) w Q) : Brings (p.right >>= f) w Q :=
  wp_bind'.mpr (wp_right.mpr (wp_any hp h))

theorem callCore_brings {p : FtpState → FtpProg (α × FtpState)} {P : α × FtpState → Prop}
    {Q : α × FtpTcp → Wire → Prop} (hp : Safe (fun _ => True) (p s.core) P)
    (h : ∀ r again, P r → Q (r.1, { s with
      core := r.2
      serviceFailed := s.serviceFailed || again }) w) : Brings (callCore s p) w Q :=
  brings_core hp fun r hr => brings_quiet (fun _ => rfl) fun again => h r again hr

theorem runCore_brings {p : FtpState → FtpProg FtpState} (h : Intact s w)
    (hp : Holding s.core (p s.core) id) : Brings (runCore s p) w Intact := by
  refine brings_bind (callCore_brings (P := fun r => SameSession s.core r.2) ?_ ?_)
    fun r w' hr => hr
  · exact safe_bind hp fun core hcore => safe_pure hcore
  · exact fun r again hr => h.core hr

theorem withPcb_brings {slot : Option Pcb} {f : Pcb → TcpProg Unit}
    {Q : Unit → Wire → Prop} (hnone : Q () w) (hsome : ∀ p, Brings (f p) w Q) :
    Brings (withPcb slot f) w Q := by
  cases slot with
  | none => exact hnone
  | some p => exact hsome p

theorem callbacks_brings {attach : Bool} {Q : Unit → Wire → Prop} (h : Q () w) :
    Brings (callbacks p side attach) w Q :=
  brings_quiet (fun _ => rfl) fun _ => brings_quiet (fun _ => rfl) fun _ =>
    brings_quiet (fun _ => rfl) fun _ => quiet_last (fun _ => rfl) fun _ => h

theorem closeListener_brings {slot : Option Pcb} {Q : Unit → Wire → Prop} (h : Q () w) :
    Brings (closeListener slot) w Q :=
  withPcb_brings h fun _ => brings_quiet (fun _ => rfl) fun _ =>
    brings_quiet (fun _ => rfl) fun _ => quiet_last (fun _ => rfl) fun _ => h

theorem releaseRx_brings {Q : Channel → Wire → Prop}
    (h : Q { c with rx := none, offset := 0 } (w.frees c.rx.toList)) :
    Brings (releaseRx c) w Q := by
  unfold releaseRx
  cases hrx : c.rx with
  | none =>
      rw [hrx, Option.toList_none, Wire.frees_nil] at h
      exact brings_pure h
  | some b =>
      rw [hrx] at h
      exact brings_call fun _ _ => h

/-- What is left of a channel that is discarded. -/
def Channel.cleared (c : Channel) : Channel :=
  ⟨none, none, 0, false, false, false, false, c.outputSince⟩

/-- What the end of a channel's connection does to the books. -/
def Wire.ends (w : Wire) (c : Channel) : Wire :=
  match c.pcb with
  | none => w.frees c.rx.toList
  | some p => (w.loses p c.rest).frees c.rx.toList

theorem discard_brings {offline : Bool} {Q : Channel → Wire → Prop}
    (h : Q c.cleared (w.ends c)) : Brings (discard c side offline) w Q := by
  unfold discard
  unfold Wire.ends at h
  cases hp : c.pcb with
  | none =>
      rw [hp] at h
      exact brings_then (brings_pure (brings_then (releaseRx_brings (brings_then (brings_pure h)))))
  | some p =>
      rw [hp] at h
      refine brings_then (brings_then (callbacks_brings (brings_call fun _ _ => ?_)))
      refine brings_then (releaseRx_brings (brings_then ?_))
      unfold withPcb
      dsimp only
      split
      · exact quiet_last (fun _ => rfl) fun _ => h
      · exact quiet_last (fun _ => rfl) fun _ => h

end Rules

/-! ## Losing a connection -/

section Losing

variable {s : FtpTcp} {w : Wire} {offline : Bool}

/-- A channel ends, with the connection it has. -/
theorem Intact.ends (h : Intact s w) (side : Side) {c' : Channel} (hpcb : c'.pcb = none)
    (hrx : c'.rx = none) (hoffset : c'.offset = 0) :
    Intact (s.put c' side) (w.ends (s.channel side)) := by
  unfold Wire.ends
  cases hp : (s.channel side).pcb with
  | none =>
      have hidle := (h.proper side).idle hp
      exact h.free side (hpcb.trans hp.symm) hrx hoffset (Channel.rest_nil hidle)
  | some p => exact h.lose side hp hpcb hrx hoffset

theorem discardControl_brings (h : Intact s w) :
    Brings (discardControl s offline) w fun s' w' => Intact s' w' ∧ s'.core = s.core :=
  brings_then (discard_brings ⟨h.ends .control rfl rfl rfl, rfl⟩)

theorem discardData_brings (h : Intact s w) :
    Brings (discardData s offline) w fun s' w' => Intact s' w' ∧ s'.core = s.core :=
  brings_then (discard_brings ⟨h.ends .data rfl rfl rfl, rfl⟩)

theorem closePassive_brings (h : Intact s w) :
    Brings (closePassive s) w fun s' w' => Intact s' w' ∧ s'.core = s.core :=
  brings_then (closeListener_brings ⟨h.statics rfl rfl rfl, rfl⟩)

theorem whenAsked_brings {a bit : UInt32} {f : FtpTcp → TcpProg FtpTcp}
    {Q : FtpTcp → Wire → Prop} (h : Q s w) (hf : a &&& bit ≠ 0 → Brings (f s) w Q) :
    Brings (whenAsked a bit s f) w Q := by
  unfold whenAsked
  split
  · next hbit => exact hf hbit
  · exact brings_pure h

end Losing

/-! ## Callbacks -/

section Callbacks

variable {s : FtpTcp} {w : Wire} {side : Side} {p : Pcb} {b : Pbuf} {b' : Option Pbuf}
  {e : Err}

theorem receive_brings (h : Intact s w) (hoffer : ∀ x, b' = some x → w.Offers p x) :
    Brings (receive s side p b' e) w fun r w' => Intact r.2 (w'.returns p b' r.1) := by
  have hrefused : Intact s (w.returns p b' .mem) := by
    cases b' with
    | none => exact h
    | some b => exact h
  unfold receive
  dsimp only
  split
  · exact brings_pure hrefused
  next hp =>
  rw [not_not] at hp
  cases b' with
  | none => exact brings_pure (h.flags side ⟨rfl, rfl, rfl⟩)
  | some b =>
      dsimp only
      split
      · next hquit =>
          obtain ⟨rfl, hquitting⟩ := hquit
          rw [hquitting]
          exact brings_call fun _ _ => brings_call fun _ _ => brings_call fun _ _ =>
            brings_pure (h.skip hp hquitting (hoffer b rfl))
      split
      · exact brings_pure hrefused
      · next hrx =>
          rw [not_not] at hrx
          exact brings_pure (h.take hp hrx (hoffer b rfl))

theorem sent_brings (h : Intact s w) (n : UInt16) : Brings (sent s side p n) w Intact := by
  unfold sent
  split
  · refine brings_quiet (fun _ => rfl) fun now => brings_pure ?_
    have hsame : SameSession s.core (ftpCoreDownloadAcked s.core n.toNat now).2 :=
      sameSession_downloadAcked s.core n.toNat
    refine h.same (fun side => ?_) hsame.shut hsame.orderly
    cases side with
    | control => exact .refl _
    | data => exact ⟨rfl, rfl, rfl⟩
  · exact brings_pure h

theorem error_brings (h : Intact s w) (slot : Option Side) :
    Brings (error s slot) w Intact := by
  cases slot with
  | none => exact brings_pure h
  | some side =>
      unfold error
      dsimp only
      split
      · exact brings_pure h
      · next p hp =>
          refine brings_call fun _ _ => brings_then (releaseRx_brings ?_)
          exact h.lose side hp rfl rfl rfl

theorem upcall_brings (h : Intact s w) (call : Callback) :
    Brings (upcall s call) w Intact := by
  cases call with
  | receive side p b e =>
      refine brings_call fun _ hoffer => ?_
      exact brings_bind (receive_brings h hoffer) fun r w₁ hr =>
        brings_call fun _ _ => brings_pure hr
  | sent side p n => exact sent_brings h n
  | error side e => exact error_brings h side

theorem upcalls_brings (calls : List Callback) (h : Intact s w) :
    Brings (upcalls s calls) w Intact := by
  induction calls generalizing s w with
  | nil => exact brings_pure h
  | cons call calls ih => exact brings_bind (upcall_brings h call) fun s₁ w₁ h₁ => ih h₁

theorem refuse_brings (h : Intact s w) :
    Brings (refuse s p) w fun r w' => Intact r.2 w' :=
  brings_quiet (fun _ => rfl) fun _ => h

theorem acceptControl_brings (h : Intact s w) (hnew : Fresh s w p) :
    Brings (acceptControl s p e) w fun r w' => Intact r.2 w' := by
  unfold acceptControl
  split
  · exact refuse_brings h
  next hfree =>
  simp only [not_or, not_not] at hfree
  refine brings_quiet (fun _ => rfl) fun now => ?_
  refine brings_core sessionOpen_orderly fun r hr => ?_
  -- No control connection is open whose input the new session could take up.
  have hopened : Intact { s with core := r.2 } w :=
    { h with
      shut := fun q hq => by
        rw [show s.control.pcb = some q from hq] at hfree
        exact absurd hfree.2.1 (Option.some_ne_none q)
      orderly := hr h.orderly }
  split
  · exact refuse_brings hopened
  · refine brings_then (callbacks_brings (brings_pure ?_))
    exact hopened.connect .control hfree.2.1 hnew.opened hnew.unread hnew.unused rfl rfl rfl

theorem samePeer_brings {Q : Bool → Wire → Prop} (h : ∀ same, Q same w) :
    Brings (samePeer s p) w Q := by
  unfold samePeer
  cases s.control.pcb with
  | none => exact brings_pure (h false)
  | some control =>
      exact brings_quiet (fun _ => rfl) fun ip =>
        brings_quiet (fun _ => rfl) fun controlIp => brings_pure (h _)

theorem acceptData_brings (h : Intact s w) (hnew : Fresh s w p) :
    Brings (acceptData s p e) w fun r w' => Intact r.2 w' := by
  unfold acceptData
  split
  · exact refuse_brings h
  next hfree =>
  simp only [not_or, not_not] at hfree
  refine brings_then (samePeer_brings fun same => ?_)
  split
  · exact refuse_brings h
  refine brings_quiet (fun _ => rfl) fun now => ?_
  have hopened : Intact { s with core := (ftpCoreDataConnected s.core now).2 } w :=
    h.core (sameSession_dataConnected s.core)
  dsimp only
  split
  · exact refuse_brings hopened
  · refine brings_then (callbacks_brings ?_)
    refine brings_bind (closePassive_brings ?_) fun s' w' h' => brings_pure h'.1
    exact hopened.connect .data hfree.2.2.1 hnew.opened hnew.unread hnew.unused rfl rfl rfl

end Callbacks

/-! ## Listeners and actions -/

section Actions

variable {s : FtpTcp} {w : Wire} {side : Side} {p : Pcb} {b : Pbuf}

theorem makeListener_brings (h : Intact s w) (port : UInt16) :
    Brings (makeListener s port side) w fun r w' => Intact r.2 w' := by
  refine brings_quiet (fun _ => rfl) fun made => ?_
  refine brings_bind (upcalls_brings made.2 h) fun s₁ w₁ h₁ => ?_
  cases made.1 with
  | none => exact brings_pure h₁
  | some p =>
      refine brings_quiet (fun _ => rfl) fun e => ?_
      split
      · exact brings_quiet (fun _ => rfl) fun _ => brings_pure h₁
      refine brings_quiet (fun _ => rfl) fun listening => ?_
      cases listening.1 with
      | none => exact brings_quiet (fun _ => rfl) fun _ => brings_pure h₁
      | some l =>
          exact brings_quiet (fun _ => rfl) fun _ =>
            brings_quiet (fun _ => rfl) fun _ => brings_pure h₁

theorem ftpTcpStart_brings (h : Intact s w) (address : Option (Fin 4 → UInt8)) :
    Brings (ftpTcpStart s address) w fun r w' => Intact r.2 w' := by
  cases address with
  | none => exact brings_pure h
  | some address =>
      unfold ftpTcpStart
      dsimp only
      split
      · exact brings_pure h
      split
      · exact brings_pure h
      · have hlocal : Intact { s with localAddress := address } w := h.statics rfl rfl rfl
        refine brings_bind (makeListener_brings hlocal 21) fun r w₁ h₁ => ?_
        exact brings_pure (h₁.statics rfl rfl rfl)

theorem abandonAll_brings (pcbs : List Pcb) {Q : Unit → Wire → Prop} (h : Q () w) :
    Brings (abandonAll pcbs) w Q := by
  induction pcbs with
  | nil => exact h
  | cons p pcbs ih => exact brings_quiet (fun _ => rfl) fun _ => ih

theorem ftpTcpLinkDown_brings (h : Intact s w) : Brings (ftpTcpLinkDown s) w Intact := by
  refine brings_bind (closePassive_brings h) fun s₁ w₁ ⟨h₁, _⟩ => ?_
  refine brings_then (closeListener_brings ?_)
  refine brings_bind (discardData_brings (h₁.statics rfl rfl rfl)) fun s₂ w₂ ⟨h₂, _⟩ => ?_
  refine brings_bind (discardControl_brings h₂) fun s₃ w₃ ⟨h₃, _⟩ => ?_
  refine brings_quiet (fun _ => rfl) fun active => brings_then (abandonAll_brings active ?_)
  refine brings_quiet (fun _ => rfl) fun timeWait =>
    brings_then (abandonAll_brings timeWait ?_)
  refine brings_quiet (fun _ => rfl) fun bound => brings_then (abandonAll_brings bound ?_)
  refine brings_core (holding_lost s₃.core) fun core hcore => brings_pure ?_
  exact h₃.core (hcore.trans (sameSession_takeActions core))

/-- The credit of bytes that have been accounted for. A chain whose last byte is behind
the offset is freed. -/
theorem credit_brings {c : Channel} {n : UInt16} (side : Side) (hc : s.channel side = c)
    (hp : c.pcb = some p) (hb : c.rx = some b)
    (h : Intact (s.put { c with offset := c.offset + n } side) (w.credits p n.toNat)) :
    Brings (credit c n) w fun c' w' => Intact (s.put c' side) w' := by
  subst hc
  have hcredited : w.after (.recved (s.channel side).pcb n) = w.credits p n.toNat := by
    rw [hp]
    rfl
  refine brings_call fun _ _ => ?_
  rw [hcredited]
  split
  · next hend =>
      rw [hb, Option.map_some, Option.some.injEq] at hend
      refine releaseRx_brings ?_
      have hrest : { s.channel side with
          offset := (s.channel side).offset + n }.rest = [] := by
        rw [← hend, Channel.rest_at hb, b.toNat_totLen]
        exact List.drop_length
      have hfreed : Intact (FtpTcp.put _ { s.channel side with rx := none, offset := 0 } side) _ :=
        h.free side (by rw [FtpTcp.put_channel_same]) rfl rfl (by
          rw [FtpTcp.put_channel_same]
          exact hrest)
      rw [FtpTcp.put_put, FtpTcp.put_channel_same] at hfreed
      exact hfreed
  · exact brings_pure h

theorem creditRest_brings (h : Intact s w) (hquitting : s.core.core.quitting = true) :
    Brings (creditRest s) w Intact := by
  unfold creditRest
  split
  · next p b hp hb =>
      rw [hquitting]
      refine brings_call fun _ _ => ?_
      exact brings_then (credit_brings .control rfl hp hb
        (h.drop hp hb hquitting rfl))
  · exact brings_pure h

theorem passivePort_brings {ok : Bool} {Q : UInt16 → Wire → Prop} (h : ∀ port, Q port w) :
    Brings (passivePort s ok) w Q := by
  unfold passivePort
  split
  · split
    · exact quiet_last (fun _ => rfl) h
    · exact brings_pure (h 0)
  · exact brings_pure (h 0)

theorem openPassive_brings (h : Intact s w) : Brings (openPassive s) w Intact := by
  refine brings_bind (makeListener_brings h 0) fun made w₁ h₁ => ?_
  dsimp only
  have hkept : Intact (if made.1.2 = none then made.2
      else { made.2 with passive := made.1.2 }) w₁ := by
    split
    · exact h₁
    · exact h₁.statics rfl rfl rfl
  generalize (if made.1.2 = none then made.2
    else { made.2 with passive := made.1.2 }) = s₂ at hkept ⊢
  refine brings_then (passivePort_brings fun port => ?_)
  refine brings_bind (R := fun r w' => Intact r.2 w') (callCore_brings holding_passiveResult
    fun r again hr => hkept.core hr) fun r w₃ h₃ => ?_
  split
  · exact wp_post (closePassive_brings h₃) fun _ _ h => h.1
  · exact brings_pure h₃

theorem actions_brings (h : Intact s w) : Brings (actions s) w Intact := by
  have htaken : Intact { s with core := (ftpCoreTakeActions s.core).2 } w :=
    h.core (sameSession_takeActions s.core)
  have hquits : (ftpCoreTakeActions s.core).1 &&& ftpCloseControl ≠ 0 →
      (ftpCoreTakeActions s.core).2.core.quitting = true := h.orderly
  unfold actions
  dsimp only
  generalize (ftpCoreTakeActions s.core).1 = a at hquits ⊢
  generalize (ftpCoreTakeActions s.core).2 = core at htaken hquits ⊢
  let Kept : FtpTcp → Wire → Prop := fun s' w' => Intact s' w' ∧ s'.core = core
  refine brings_bind (R := Kept) (whenAsked_brings ⟨htaken, rfl⟩ fun _ =>
    closePassive_brings htaken) fun s₁ w₁ ⟨h₁, hcore₁⟩ => ?_
  refine brings_bind (R := Kept) (whenAsked_brings ⟨h₁, hcore₁⟩ fun _ =>
    wp_post (discardData_brings h₁) fun _ _ h => ⟨h.1, h.2.trans hcore₁⟩)
    fun s₂ w₂ ⟨h₂, hcore₂⟩ => ?_
  refine brings_bind (R := Kept) (whenAsked_brings ⟨h₂, hcore₂⟩ fun _ =>
    wp_post (discardControl_brings h₂) fun _ _ h => ⟨h.1, h.2.trans hcore₂⟩)
    fun s₃ w₃ ⟨h₃, hcore₃⟩ => ?_
  refine brings_bind (R := Kept) (whenAsked_brings ⟨h₃, hcore₃⟩ fun _ =>
    brings_pure ⟨h₃.flags .data ⟨rfl, rfl, rfl⟩, hcore₃⟩) fun s₄ w₄ ⟨h₄, hcore₄⟩ => ?_
  refine brings_bind (R := Intact) (whenAsked_brings h₄ fun hasked => ?_) fun s₅ w₅ h₅ => ?_
  · refine creditRest_brings (h₄.flags .control ⟨rfl, rfl, rfl⟩) ?_
    show s₄.core.core.quitting = true
    rw [hcore₄]
    exact hquits hasked
  · exact whenAsked_brings h₅ fun _ => openPassive_brings h₅

end Actions

/-! ## Input -/

section Input

variable {s : FtpTcp} {w : Wire} {p : Pcb} {b : Pbuf}

theorem reoffer_brings (h : Intact s w) : Brings (reoffer s p) w Intact := by
  refine brings_quiet (fun _ => rfl) fun refused => ?_
  split
  · exact brings_quiet (fun _ => rfl) fun made => upcalls_brings made h
  · exact brings_pure h

/-- What the core has made of a span. A session that is over or quits accepts nothing. -/
theorem Intact.spanned (h : Intact s w) {bytes : List UInt8} {again : Bool}
    {r : (FtpInput × Nat) × FtpState} (hr : SpanOutcome s.core bytes r) :
    Intact { s with core := r.2, serviceFailed := again } w :=
  h.same (fun side => by cases side <;> exact .refl _)
    (fun hs => by
      show r.2.core.shut
      rw [(hr.shut hs).2]
      exact hs) hr.orderly

theorem inputControlLoop_brings (budget : Nat) (h : Intact s w) :
    Brings (inputControlLoop s budget) w Intact := by
  induction budget generalizing s w with
  | zero => exact brings_pure h
  | succ budget ih =>
      unfold inputControlLoop
      split
      swap
      · exact brings_pure h
      next p b hp hb =>
      split
      · next hquitting => exact creditRest_brings h hquitting
      next hquitting =>
      refine brings_call fun bytes hbytes => ?_
      split
      · exact brings_pure (h.flags .control ⟨rfl, rfl, rfl⟩)
      next hone =>
      rw [not_not] at hone
      refine brings_bind (R := fun r w' => w' = w ∧ Intact r.2 w ∧
        r.2.control = s.control ∧ ∃ core, SpanOutcome s.core bytes (r.1, core))
        (callCore_brings (controlSpan_outcome bytes) fun r again hr => ?_)
        fun r w' ⟨hw', hspanned, hchannel, core, hr⟩ => ?_
      · exact ⟨rfl, h.spanned hr, rfl, r.2, hr⟩
      subst hw'
      refine brings_call fun _ _ => ?_
      show Brings _ (w'.accepts p (bytes.take r.1.2)) _
      split
      · next hno =>
          rw [hr.none hone hno, List.take_zero, Wire.accepts_nil]
          exact brings_pure hspanned
      next hok =>
      rw [not_not] at hok
      have hwhole : r.1.2 = bytes.length := hr.whole hok
      have hclean : (w'.conn p).discarded = [] := by
        by_contra hd
        have hnone : r.1.2 = 0 := (hr.shut (h.shut p hp hd)).1
        omega
      rw [hwhole, List.take_length]
      have hp' : (r.2.channel .control).pcb = some p := by
        show r.2.control.pcb = _
        rw [hchannel]
        exact hp
      have hb' : (r.2.channel .control).rx = some b := by
        show r.2.control.rx = _
        rw [hchannel]
        exact hb
      have hfront : bytes <+: (r.2.channel .control).rest := by
        show bytes <+: r.2.control.rest
        rw [hchannel, Channel.rest_some hb, hbytes]
        exact List.take_prefix _ _
      refine brings_bind (credit_brings .control rfl hp' hb'
        (hspanned.accept hp' hb' hfront (n := 1) hone.symm hclean)) fun control w₃ h₃ => ?_
      exact brings_bind (actions_brings h₃) fun s₄ w₄ h₄ => ih h₄

theorem inputControl_brings (h : Intact s w) : Brings (inputControl s) w Intact := by
  refine brings_bind (inputControlLoop_brings _ h) fun s₁ w₁ h₁ => ?_
  split
  · exact brings_pure h₁
  · split
    · exact reoffer_brings h₁
    · exact brings_pure h₁

theorem dataSpan_le (c : Channel) (b : Pbuf) : (dataSpan c b).toNat ≤ 256 := by
  unfold dataSpan
  split
  · exact Nat.le_refl _
  · next hle => exact UInt16.le_iff_toNat_le.mp (UInt16.not_lt.mp hle)

theorem inputChain_brings (h : Intact s w) (hp : s.data.pcb = some p) (hb : s.data.rx = some b) :
    Brings (inputChain s p b) w Intact := by
  have hfailed : Intact { s with data := { s.data with failed := true } } w :=
    h.flags .data ⟨rfl, rfl, rfl⟩
  unfold inputChain
  split
  · exact brings_pure hfailed
  refine brings_call fun bytes hbytes => ?_
  split
  · exact brings_pure hfailed
  next hlen =>
  rw [not_not] at hlen
  have hspan : Safe (fun _ => True) (ftpCoreUploadSpan s.core bytes s.now) fun r =>
      SameSession s.core r.2 ∧ r.1.2 ≤ bytes.length := fun tr r hr =>
    ⟨fun _ _ => trivial, (holding_uploadSpan bytes tr r hr).2,
      (uploadSpan_accepted bytes tr r hr).2⟩
  refine brings_bind (R := fun r w' => w' = w ∧ Intact r.2 w ∧ r.2.data = s.data ∧
    r.1.2 ≤ bytes.length) (callCore_brings hspan fun r again hr =>
      ⟨rfl, h.core hr.1, rfl, hr.2⟩) fun r w' ⟨hw', hspanned, hchannel, hle⟩ => ?_
  subst hw'
  refine brings_call fun _ _ => ?_
  show Brings _ (w'.accepts p (bytes.take r.1.2)) _
  split
  swap
  · next hnone =>
      rw [not_not] at hnone
      rw [hnone, List.take_zero, Wire.accepts_nil]
      exact actions_brings hspanned
  have hsmall := dataSpan_le s.data b
  have hcount : (UInt16.ofNat r.1.2).toNat = (bytes.take r.1.2).length := by
    have hsize : UInt16.size = 65536 := rfl
    rw [UInt16.toNat_ofNat_of_lt' (by omega), List.length_take, Nat.min_eq_left hle]
  have hp' : (r.2.channel .data).pcb = some p := by
    show r.2.data.pcb = _
    rw [hchannel]
    exact hp
  have hb' : (r.2.channel .data).rx = some b := by
    show r.2.data.rx = _
    rw [hchannel]
    exact hb
  have hfront : bytes.take r.1.2 <+: (r.2.channel .data).rest := by
    show bytes.take r.1.2 <+: r.2.data.rest
    rw [hchannel, Channel.rest_some hb]
    refine (List.take_prefix _ _).trans ?_
    rw [hbytes]
    exact List.take_prefix _ _
  refine brings_bind (credit_brings .data rfl hp' hb'
    (hspanned.accept hp' hb' hfront hcount (hspanned.clean p hp'))) fun data w₃ h₃ => ?_
  exact actions_brings h₃

theorem inputHeld_brings (h : Intact s w) : Brings (inputHeld s) w Intact := by
  unfold inputHeld
  split
  · next hp hb => exact inputChain_brings h hp hb
  · exact brings_pure h

theorem reofferData_brings (h : Intact s w) : Brings (reofferData s) w Intact := by
  unfold reofferData
  split
  · exact reoffer_brings h
  · exact brings_pure h

theorem inputFin_brings (h : Intact s w) : Brings (inputFin s) w Intact := by
  unfold inputFin
  split
  · exact brings_pure h
  split
  · exact brings_pure h
  refine brings_quiet (fun _ => rfl) fun refused => ?_
  split
  · exact brings_pure h
  split
  · refine brings_bind (R := fun r w' => Intact r.2 w') (callCore_brings holding_uploadEof
      fun r again hr => h.core hr) fun r w₁ h₁ => ?_
    exact actions_brings h₁
  · exact brings_pure (h.flags .data ⟨rfl, rfl, rfl⟩)

theorem inputData_brings (h : Intact s w) : Brings (inputData s) w Intact := by
  unfold inputData
  split
  · exact brings_pure h
  · exact brings_bind (inputHeld_brings h) fun s₁ w₁ h₁ =>
      brings_bind (reofferData_brings h₁) fun s₂ w₂ h₂ => inputFin_brings h₂

end Input

/-! ## Output -/

section Output

variable {s : FtpTcp} {w : Wire} {p : Pcb}

theorem writeReply_brings (h : Intact s w) (bytes : List UInt8) :
    Brings (writeReply s p bytes) w Intact := by
  refine brings_quiet (fun _ => rfl) fun room => ?_
  dsimp only
  split
  · exact brings_pure h
  refine brings_quiet (fun _ => rfl) fun e => ?_
  split
  · exact brings_pure h
  · refine brings_pure (h.same (fun side => ?_) (replyConsume_shut _) (replyConsume_orderly _))
    cases side with
    | control => exact ⟨rfl, rfl, rfl⟩
    | data => exact .refl _

theorem writeControl_brings (h : Intact s w) : Brings (writeControl s) w Intact := by
  unfold writeControl
  split
  · exact brings_pure h
  split
  · exact brings_pure h
  · exact brings_bind (writeReply_brings h _) fun s₁ w₁ h₁ => actions_brings h₁

theorem writeDownload_brings (h : Intact s w) (bytes : List UInt8) :
    Brings (writeDownload s p bytes) w Intact := by
  have henqueued : ∀ {n : Nat} {c : Channel}, s.data.Same c → Intact { s with
      core := (ftpCoreDownloadEnqueued s.core n s.now).2
      data := c } w := by
    intro n c hc
    have hsame : SameSession s.core (ftpCoreDownloadEnqueued s.core n s.now).2 :=
      sameSession_downloadEnqueued s.core n
    refine h.same (fun side => ?_) hsame.shut hsame.orderly
    cases side with
    | control => exact .refl _
    | data => exact hc
  unfold writeDownload
  split
  · exact brings_pure (henqueued (.refl _))
  refine brings_quiet (fun _ => rfl) fun room => ?_
  dsimp only
  split
  · exact brings_pure h
  refine brings_quiet (fun _ => rfl) fun e => ?_
  split
  · exact brings_pure h
  · exact brings_pure (henqueued ⟨rfl, rfl, rfl⟩)

theorem writeData_brings (h : Intact s w) : Brings (writeData s) w Intact := by
  unfold writeData
  split
  · exact brings_pure h
  split
  · exact brings_pure h
  · exact brings_bind (writeDownload_brings h _) fun s₁ w₁ h₁ => actions_brings h₁

theorem flushOutput_brings {c : Channel} {Q : Bool → Wire → Prop} (h : ∀ done, Q done w) :
    Brings (flushOutput c p) w Q := by
  unfold flushOutput
  split
  · exact brings_quiet (fun _ => rfl) fun e => brings_pure (h _)
  · exact brings_pure (h true)

theorem shutdownOnce_brings {Q : Err → Wire → Prop} (h : ∀ e, Q e w) :
    Brings (shutdownOnce p) w Q := by
  refine brings_quiet (fun _ => rfl) fun e => brings_quiet (fun _ => rfl) fun pending => ?_
  split
  · exact brings_quiet (fun _ => rfl) fun _ => brings_pure (h .mem)
  · exact brings_pure (h e)

theorem closed_brings (h : Intact s w) (side : Side) : Brings (closed s side) w Intact := by
  cases side with
  | control => exact runCore_brings h holding_controlClosed
  | data =>
      exact brings_bind (R := fun r w' => Intact r.2 w') (callCore_brings holding_dataCloseResult
        fun r again hr => h.core hr) fun r w₁ h₁ => brings_pure h₁

/-- A connection that holds nothing is given back to lwIP. -/
theorem closeChannel_brings (h : Intact s w) (side : Side)
    (hp : (s.channel side).pcb = some p) :
    Brings (closeChannel s side p) w Intact := by
  refine brings_quiet (fun _ => rfl) fun refused => ?_
  split
  · exact brings_pure h
  next hheld =>
  simp only [not_or, not_not] at hheld
  refine brings_then (shutdownOnce_brings fun e => ?_)
  split
  · refine brings_then (callbacks_brings (brings_quiet (fun _ => rfl) fun _ => ?_))
    have hclosed : Intact (s.put { s.channel side with
        pcb := none
        fin := false
        closing := false } side)
        ((w.loses p (s.channel side).rest).frees (s.channel side).rx.toList) :=
      h.lose side hp rfl hheld.1 ((h.proper side).start hheld.1)
    rw [Channel.rest_nil hheld.1, Wire.loses_nil, hheld.1, Option.toList_none,
      Wire.frees_nil] at hclosed
    exact closed_brings hclosed side
  · exact brings_pure (h.flags side ⟨rfl, rfl, rfl⟩)

theorem flushClose_brings (h : Intact s w) (side : Side) :
    Brings (flushClose s side) w Intact := by
  unfold flushClose
  dsimp only
  split
  · exact brings_pure h
  split
  · exact brings_pure h
  next p hp _ =>
  refine brings_then (flushOutput_brings fun submitted => ?_)
  have hsubmitted : Intact (s.put { s.channel side with output := false } side) w :=
    h.flags side ⟨rfl, rfl, rfl⟩
  split
  · exact brings_pure h
  split
  · exact brings_pure hsubmitted
  · refine closeChannel_brings hsubmitted side ?_
    rw [FtpTcp.put_channel_same]
    exact hp

end Output

/-! ## Every call -/

section Calls

variable {s s' : FtpTcp} {w w' : Wire} {p : Pcb}

theorem Channel.same_expire (c : Channel) (now : UInt32) : c.Same (c.expire now) := by
  unfold Channel.expire
  split
  · exact ⟨rfl, rfl, rfl⟩
  · exact .refl c

theorem loseFailed_brings (h : Intact s w) : Brings (loseFailed s) w Intact := by
  unfold loseFailed
  split
  · refine brings_bind (runCore_brings h (holding_lost s.core)) fun s₁ w₁ h₁ => ?_
    refine brings_bind (discardControl_brings h₁) fun s₂ w₂ ⟨h₂, _⟩ => ?_
    refine brings_bind (discardData_brings h₂) fun s₃ w₃ ⟨h₃, _⟩ => ?_
    exact wp_post (closePassive_brings h₃) fun _ _ h => h.1
  split
  · refine brings_bind (discardData_brings h) fun s₁ w₁ ⟨h₁, _⟩ => ?_
    exact runCore_brings h₁ holding_dataError
  · exact brings_pure h

theorem foreground_brings (h : Intact s w) : Brings (foreground s) w Intact := by
  unfold foreground
  split
  · exact brings_pure h
  · exact runCore_brings h holding_foreground

theorem ftpTcpService_brings (h : Intact s w) (time : UInt32) :
    Brings (ftpTcpService s time) w fun r w' => Intact r.2 w' := by
  unfold ftpTcpService
  split
  · exact brings_pure (h.statics rfl rfl rfl)
  have hstart : Intact { s with
      servicing := true
      now := time
      control := s.control.expire time
      data := s.data.expire time } w := by
    refine h.same (fun side => ?_) id id
    cases side with
    | control => exact s.control.same_expire time
    | data => exact s.data.same_expire time
  refine brings_bind (loseFailed_brings hstart) fun s₁ w₁ h₁ => ?_
  refine brings_bind (runCore_brings h₁ holding_tick) fun s₂ w₂ h₂ => ?_
  refine brings_bind (actions_brings h₂) fun s₃ w₃ h₃ => ?_
  refine brings_bind (inputControl_brings h₃) fun s₄ w₄ h₄ => ?_
  refine brings_bind (writeControl_brings h₄) fun s₅ w₅ h₅ => ?_
  refine brings_bind (flushClose_brings h₅ .control) fun s₆ w₆ h₆ => ?_
  refine brings_bind (inputData_brings h₆) fun s₇ w₇ h₇ => ?_
  refine brings_bind (foreground_brings h₇) fun s₈ w₈ h₈ => ?_
  refine brings_bind (actions_brings h₈) fun s₉ w₉ h₉ => ?_
  refine brings_bind (writeData_brings h₉) fun s₁₀ w₁₀ h₁₀ => ?_
  refine brings_bind (flushClose_brings h₁₀ .data) fun s₁₁ w₁₁ h₁₁ => ?_
  refine brings_bind (actions_brings h₁₁) fun s₁₂ w₁₂ h₁₂ => ?_
  exact brings_pure (h₁₂.statics rfl rfl rfl)

theorem call_brings (h : Intact s w) (call : TcpCall) :
    Brings (call.perform s) w Intact := by
  cases call with
  | start address => exact brings_bind (ftpTcpStart_brings h address) fun r w₁ h₁ => h₁
  | linkDown => exact ftpTcpLinkDown_brings h
  | service time => exact brings_bind (ftpTcpService_brings h time) fun r w₁ h₁ => h₁
  | callback call => exact upcall_brings h call
  | accept side p e =>
      refine brings_call fun _ hnew => ?_
      obtain ⟨h₁, hfresh⟩ := h.opens hnew
      refine brings_bind (R := fun r w' => Intact r.2 w') ?_ fun r w₂ h₂ => brings_pure h₂
      cases side with
      | control => exact acceptControl_brings h₁ hfresh
      | data => exact acceptData_brings h₁ hfresh

end Calls

/-! ## Runs -/

theorem intact_start (storage : Option FtpStorage) (operation : Option FtpOperation) :
    Intact (.start storage operation) .start where
  booked := fun _ => ⟨Nat.zero_le _, rfl, List.prefix_rfl, Nat.zero_le _, rfl⟩
  reading := fun side p hp => by cases side <;> cases hp
  gone := fun _ _ => ⟨[], rfl, .refl _, fun _ => rfl⟩
  opened := fun side p hp => by cases side <;> cases hp
  fresh := fun _ _ => ⟨rfl, rfl, rfl, rfl⟩
  apart := nofun
  proper := fun side => by cases side <;> exact ⟨fun _ => rfl, fun _ => rfl, nofun⟩
  clean := nofun
  shut := nofun
  orderly := fun h => absurd UInt32.zero_and h
  owned := .refl _

theorem step_intact {x x' : FtpTcp × Wire} {e : TcpEvent} (h : Intact x.1 x.2)
    (hs : TcpStep x e x') : Intact x'.1 x'.2 := by
  cases e with
  | arrives p b =>
      obtain rfl : x' = _ := hs
      exact h.arrives p b
  | call c => exact Exec.post hs (call_brings h c)

theorem Conn.took_front (c : Conn) : c.took <+: c.stream := by
  refine ⟨(c.received.drop c.taken).flatMap Pbuf.bytes, ?_⟩
  rw [Conn.took, Conn.stream, ← List.flatMap_append, List.take_append_drop]

/-- A connection is behind what was lost of it and what is held of it. -/
theorem Intact.behind {s : FtpTcp} {w : Wire} (h : Intact s w) (p : Pcb) :
    (w.conn p).Behind ((w.conn p).lost ++ s.unread p) := by
  have hopen : ∀ side, (s.channel side).pcb = some p →
      (w.conn p).Behind ((w.conn p).lost ++ (s.channel side).rest) := by
    intro side hp
    have hread := h.reading side p hp
    rw [hread.whole]
    exact hread.behind
  unfold FtpTcp.unread
  split
  · next hcontrol => exact hopen .control hcontrol
  next hcontrol =>
  split
  · next hdata => exact hopen .data hdata
  next hdata =>
  rw [List.append_nil]
  refine h.gone p fun side => ?_
  cases side with
  | control => exact hcontrol
  | data => exact hdata

/-- Over any order of callbacks and services the core has accepted a prefix of what
arrived, and the credit is what was accepted, or dropped by a session that quits. What
was taken over beside that is held, or was lost when its connection ended: so nothing
is lost of one that a channel has. A chain that was taken over is held, or has been
freed once. -/
theorem stream_integrity {storage : Option FtpStorage} {operation : Option FtpOperation}
    {tr : List (TcpEvent × FtpTcp × Wire)} {s : FtpTcp} {w : Wire}
    (h : Run TcpStep (.start storage operation, .start) tr (s, w)) :
    (∀ p, (w.conn p).accepted <+: (w.conn p).stream ∧ (w.conn p).dropped = [] ∧
      (w.conn p).credit = (w.conn p).accepted.length + (w.conn p).discarded.length ∧
      (w.conn p).credit ≤ (w.conn p).stream.length) ∧
    (∀ p, (w.conn p).took.Perm ((w.conn p).accepted ++
        ((w.conn p).discarded ++ ((w.conn p).lost ++ s.unread p))) ∧
      ((w.conn p).discarded = [] →
        (w.conn p).took = (w.conn p).accepted ++ ((w.conn p).lost ++ s.unread p))) ∧
    (∀ side p, (s.channel side).pcb = some p → (w.conn p).lost = []) ∧
    (∀ p, s.data.pcb = some p → (w.conn p).discarded = []) ∧
    w.owned.Perm (w.freed ++ s.held) ∧
    ∀ side, (s.channel side).pcb = none → (s.channel side).rx = none := by
  have hintact : Intact s w := h.invariant (I := fun x => Intact x.1 x.2)
    (fun h hs => step_intact h hs) (intact_start storage operation)
  refine ⟨fun p => ?_, fun p => ?_, fun side p hp => (hintact.reading side p hp).whole,
    hintact.clean, hintact.owned, fun side => (hintact.proper side).idle⟩
  · have hbooked := hintact.booked p
    have hprefix := (w.conn p).took_front
    refine ⟨hbooked.order.trans hprefix, hbooked.dropped, hbooked.credit, ?_⟩
    rw [hbooked.credit]
    exact hbooked.bound.trans hprefix.length_le
  · obtain ⟨left, htook, hperm, hleft⟩ := hintact.behind p
    refine ⟨?_, fun hd => ?_⟩
    · rw [htook]
      exact hperm.append_left _
    · rw [htook, hleft hd]

/-- An lwIP that gives what it is asked for, and has no room to send. -/
def lwipAnswer : (op : TcpOp) → TcpSig.Ans op
  | .new => ((none, []) : Option Pcb × List Callback)
  | .bind _ _ _ => Err.ok
  | .listen _ => ((none, .mem) : Option Pcb × Err)
  | .shutdown _ => Err.ok
  | .closePending _ => false
  | .copyPartial b n offset => (b.bytes.drop offset.toNat).take n.toNat
  | .sndbuf _ => (0 : UInt16)
  | .write _ _ => Err.mem
  | .output _ => Err.ok
  | .refused _ => false
  | .processRefused _ => ([] : List Callback)
  | .remoteIp _ => (0 : UInt32)
  | .localPort _ => (0 : UInt16)
  | .activePcbs => ([] : List Pcb)
  | .timeWaitPcbs => ([] : List Pcb)
  | .boundPcbs => ([] : List Pcb)
  | .sysNow => (0 : UInt32)
  | .again => false
  | .arg _ _ => ()
  | .recv _ _ => ()
  | .sent _ _ => ()
  | .err _ _ => ()
  | .accept _ _ => ()
  | .abort _ => ()
  | .abandon _ => ()
  | .close _ => ()
  | .clearClosePending _ => ()
  | .recved _ _ => ()
  | .free _ => ()
  | .point _ => ()

def stackAnswer : (op : (TcpSig.sum FtpSig).Op) → Wire → (TcpSig.sum FtpSig).Ans op × Wire
  | .inl op, w => (lwipAnswer op, w.after op)
  | .inr op, w => ((obliging op ()).1, w)

/-- Where lwIP may answer so. -/
def stackAllows : (TcpSig.sum FtpSig).Op → Wire → Bool
  | .inl (.point (.opened p)), w => !w.opened.contains p
  | .inl (.point (.offers p (some b))), w => (w.conn p).received[(w.conn p).taken]? = some b
  | _, _ => true

theorem stack_answers (op : (TcpSig.sum FtpSig).Op) (w : Wire) (h : stackAllows op w = true) :
    stack.step op w (stackAnswer op w).1 (stackAnswer op w).2 := by
  cases op with
  | inr op => rfl
  | inl op =>
      refine ⟨?_, rfl⟩
      cases op with
      | copyPartial b n offset => rfl
      | point q =>
          cases q with
          | opened p =>
              have hnew : p ∉ w.opened := by simpa [stackAllows] using h
              exact hnew
          | offers p b =>
              rintro x rfl
              have hdue : (w.conn p).received[(w.conn p).taken]? = some x :=
                of_decide_eq_true h
              exact hdue
          | _ => trivial
      | _ => trivial

def tcpServed (x : FtpTcp × Wire) (call : TcpCall) : FtpTcp × Wire :=
  (call.perform x.1).run stackAnswer x.2

theorem step_tcpServed {x : FtpTcp × Wire} {call : TcpCall}
    (h : (call.perform x.1).allowed stackAllows stackAnswer x.2 = true) :
    TcpStep x (.call call) (tcpServed x call) := exec_allowed stack_answers h

/-- A QUIT with a piece of a line behind it. -/
def quitPbuf : Pbuf := ⟨0, ascii "QUIT\r\nNO", by decide⟩

def noopPbuf : Pbuf := ⟨1, ascii "NOOP\r\n", by decide⟩

def quitOpened : FtpTcp × Wire :=
  tcpServed (.start (some ⟨0, true, 8⟩) none, .start) (.accept .control 1 .ok)

def quitReceived : FtpTcp × Wire :=
  tcpServed (quitOpened.1, quitOpened.2.arrives 1 quitPbuf)
    (.callback (.receive .control 1 (some quitPbuf) .ok))

def quitServed : FtpTcp × Wire := tcpServed quitReceived (.service 5)

def quitDown : FtpTcp × Wire := tcpServed quitServed .linkDown

/-- The next session ends by an error, in front of its first line. -/
def noopOpened : FtpTcp × Wire := tcpServed quitDown (.accept .control 2 .ok)

def noopReceived : FtpTcp × Wire :=
  tcpServed (noopOpened.1, noopOpened.2.arrives 2 noopPbuf)
    (.callback (.receive .control 2 (some noopPbuf) .ok))

def noopLost : FtpTcp × Wire :=
  tcpServed noopReceived (.callback (.error (some .control) .abrt))

theorem stream_integrity_quit :
    (quitServed.2.conn 1).accepted = ascii "QUIT\r\n" ∧
      (quitServed.2.conn 1).discarded = ascii "NO" ∧ quitServed.2.freed = [quitPbuf] ∧
      (noopLost.2.conn 2).accepted = [] ∧ (noopLost.2.conn 2).lost = noopPbuf.bytes ∧
      noopLost.2.freed = [quitPbuf, noopPbuf] ∧
      (noopLost.2.conn 2).took = (noopLost.2.conn 2).lost ++ noopLost.1.unread 2 := by
  have hopened : TcpStep (.start (some ⟨0, true, 8⟩) none, .start)
      (.call (.accept .control 1 .ok)) quitOpened := step_tcpServed (by decide)
  have harrived : TcpStep quitOpened (.arrives 1 quitPbuf)
      (quitOpened.1, quitOpened.2.arrives 1 quitPbuf) := rfl
  have hreceived : TcpStep (quitOpened.1, quitOpened.2.arrives 1 quitPbuf)
      (.call (.callback (.receive .control 1 (some quitPbuf) .ok))) quitReceived :=
    step_tcpServed (by decide)
  have hserved : TcpStep quitReceived (.call (.service 5)) quitServed :=
    step_tcpServed (by decide)
  have hdown : TcpStep quitServed (.call .linkDown) quitDown := step_tcpServed (by decide)
  have hnext : TcpStep quitDown (.call (.accept .control 2 .ok)) noopOpened :=
    step_tcpServed (by decide)
  have hcame : TcpStep noopOpened (.arrives 2 noopPbuf)
      (noopOpened.1, noopOpened.2.arrives 2 noopPbuf) := rfl
  have hheld : TcpStep (noopOpened.1, noopOpened.2.arrives 2 noopPbuf)
      (.call (.callback (.receive .control 2 (some noopPbuf) .ok))) noopReceived :=
    step_tcpServed (by decide)
  have hlost : TcpStep noopReceived (.call (.callback (.error (some .control) .abrt)))
      noopLost := step_tcpServed (by decide)
  have hrun := Run.cons hopened (.cons harrived (.cons hreceived (.cons hserved
    (.cons hdown (.cons hnext (.cons hcame (.cons hheld (.cons hlost (.nil _)))))))))
  have haccepted : (noopLost.2.conn 2).accepted = [] := by decide
  have htook : (noopLost.2.conn 2).took =
      (noopLost.2.conn 2).accepted ++ ((noopLost.2.conn 2).lost ++ noopLost.1.unread 2) :=
    ((stream_integrity hrun).2.1 2).2 (by decide)
  rw [haccepted, List.nil_append] at htook
  exact ⟨by decide, by decide, by decide, haccepted, by decide, by decide, htook⟩

end EkBareMetal.Ftp

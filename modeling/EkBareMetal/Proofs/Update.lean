import EkBareMetal.Proofs.Receive
import EkBareMetal.Proofs.Selection

/-!
# Updates under power cuts

A station is a receiver on a controller driver on a device. Its calls come in
any order and with any bytes, and the power may go during any request of any
of them, after which nothing happens. A request that is cut may also have done
nothing at all, so the states in which a run may end with a cut are all the
states it passes through, those inside its calls included.

`station_run` carries the receiver's invariant along a run, with the stream
its feeds have accepted. Crash consistency is read off from it.
-/

namespace EkBareMetal.Boot

open Words Interact Transition ByteMem

/-! ## The station -/

structure Station (σ : Type) where
  receiver : BootReceive
  flash : BootFlash
  device : σ
  powered : Bool

/-- A call and what it replied, or nothing when the power went. -/
structure Called where
  call : ReceiveCall
  reply : Option ReceiveReply

inductive StationStep (C : Crypto) {σ : Type}
    (H : Handler (FlashSig.sum HostSig) σ) :
    Station σ → Called → Station σ → Prop where
  | returns {s : Station σ} {call : ReceiveCall} {reply : ReceiveReply}
      {f : BootFlash} {d : σ} (hp : s.powered = true)
      (he : Exec H (call.perform C s.receiver s.flash) s.device
        (some (reply, f)) d) :
      StationStep C H s ⟨call, some reply⟩ ⟨reply.receiver, f, d, true⟩
  | cut {s : Station σ} {call : ReceiveCall} {d : σ} (hp : s.powered = true)
      (he : Exec H (call.perform C s.receiver s.flash) s.device none d) :
      StationStep C H s ⟨call, none⟩ { s with device := d, powered := false }

/-- The bytes the feeds of a run have accepted. -/
def Called.taken (c : Called) : List UInt8 :=
  match c.reply with
  | some reply => c.call.taken reply
  | none => []

def streamOf {σ : Type} (tr : List (Called × Station σ)) : List UInt8 :=
  tr.flatMap fun x => x.1.taken

/-! ## The invariant along a run -/

section Runs

variable {C : Crypto} {trusted : UInt32 → Prop} {current : UInt32}
  {fed : List UInt8} {σ : Type} {H : Handler (FlashSig.sum HostSig) σ}
  {π : σ → FlashDevice} {s s' : Station σ}

/-- A powered station is in the receiver's invariant; one without power is
where a cut may leave it. -/
structure StationInv (C : Crypto) (trusted : UInt32 → Prop) (current : UInt32)
    (fed : List UInt8) (π : σ → FlashDevice) (s : Station σ) : Prop where
  receiver : s.powered = true →
    ReceiveInv C trusted current fed s.receiver (π s.device).board
  quiet : s.powered = true → Quiet s.flash (π s.device)
  cut : Cut C trusted current fed s.receiver.permittedSlot (π s.device).board

/-- One call on the honest device. -/
theorem perform_wp {r : BootReceive} {f : BootFlash} {d : FlashDevice}
    (h : ReceiveInv C trusted current fed r d.board) (hq : Quiet f d)
    (call : ReceiveCall) :
    wp (controllerDevice.sum hostDevice)
      (fun d' => Cut C trusted current fed r.permittedSlot d'.board)
      (call.perform C r f)
      (fun x d' => Returned C trusted current fed call x.1 d'.board ∧
        Quiet x.2 d') d :=
  wp_interp serveReceive_wp hq (call_wp h call)

/-- What a step of the station leaves, and what it accepted. -/
theorem station_step {c : Called}
    (hv : H.Views (controllerDevice.sum hostDevice) π)
    (h : StationInv C trusted current fed π s) (hs : StationStep C H s c s') :
    StationInv C trusted current (fed ++ c.taken) π s' ∧
      ∀ reply, c.reply = some reply →
        Returned C trusted current fed c.call reply (π s'.device).board := by
  cases hs with
  | returns hp he =>
      obtain ⟨hr, hq⟩ :=
        (he.view hv).post (perform_wp (h.receiver hp) (h.quiet hp) _)
      refine ⟨⟨fun _ => hr.inv, fun _ => hq, hr.inv.durable, hr.inv.sent⟩, ?_⟩
      intro reply heq
      cases heq
      exact hr
  | cut hp he =>
      have hc := (he.view hv).crash (perform_wp (h.receiver hp) (h.quiet hp) _)
      rw [Called.taken, List.append_nil]
      refine ⟨⟨fun hp' => absurd hp' Bool.false_ne_true,
        fun hp' => absurd hp' Bool.false_ne_true, hc⟩, fun reply heq => ?_⟩
      cases heq

theorem station_run {tr : List (Called × Station σ)}
    (hv : H.Views (controllerDevice.sum hostDevice) π)
    (hrun : Run (StationStep C H) s tr s')
    (h : StationInv C trusted current fed π s) :
    StationInv C trusted current (fed ++ streamOf tr) π s' := by
  induction hrun generalizing fed with
  | nil s =>
      rw [streamOf, List.flatMap_nil, List.append_nil]
      exact h
  | cons hs _ ih =>
      have hnext := ih (station_step hv h hs).1
      rw [List.append_assoc] at hnext
      exact hnext

/-- A fresh receiver on a quiet device, with a record that vouches for what
its trusted entries say. -/
theorem station_fresh {d : FlashDevice} {f : BootFlash} {a : BootStoreSnapshot}
    (hload : bootStoreLoad.eval (storeAnswers d.board.mem) = .ok a)
    (hb : ∀ slot, slotValid slot = true → trusted slot →
      Backed C d.board.mem a.record slot)
    (hlog : d.board.log = []) (hq : Quiet f d) :
    StationInv C trusted a.record.currentSlot [] id
      ⟨bootReceiveInit, f, d, true⟩ := by
  have hd : Durable C trusted a.record.currentSlot d.board.mem :=
    ⟨a.page, a.record, authority_of_load hload, rfl, hb⟩
  have hs : Sent C a.record.currentSlot [] bootReceiveInit.permittedSlot
      d.board.log := by
    rw [hlog]
    exact ⟨fun c hc => absurd hc List.not_mem_nil, .inl rfl⟩
  exact ⟨fun _ => ⟨hs, rfl, rfl, hlog, hd⟩, fun _ => hq, hd, hs⟩

theorem views_id {τ : Type} {G : Handler (FlashSig.sum HostSig) τ} :
    G.Views G id := ⟨fun _ _ _ _ h => h, fun _ _ _ h => h⟩

/-- The station as it is seen through a view of its device. -/
def Station.seen (π : σ → FlashDevice) (s : Station σ) : Station FlashDevice :=
  ⟨s.receiver, s.flash, π s.device, s.powered⟩

theorem StationStep.seen {c : Called} {G : Handler (FlashSig.sum HostSig) FlashDevice}
    (hv : H.Views G π) (h : StationStep C H s c s') :
    StationStep C G (s.seen π) c (s'.seen π) := by
  cases h with
  | returns hp he => exact .returns hp (he.view hv)
  | cut hp he => exact .cut hp (he.view hv)

end Runs

end EkBareMetal.Boot

import EkBareMetal.Proofs.Phases
import EkBareMetal.Proofs.Update

/-!
# Deliveries

A stream is delivered to a receiver: its bytes are offered in pieces of any
size, what was not accepted is offered again, steps are taken at any time, and
when all of it was accepted the end is announced. The device has one answer to
each request, and nothing else is asked of it.

What each move can do is said once, in `feed_cases`, `eof_cases` and
`step_cases`. In every state at most one of feeding and stepping does anything.
-/

namespace EkBareMetal.Boot

open Words Interact

/-! ## What a step leaves, whatever it is answered -/

structure SameStream (r r' : BootReceive) : Prop where
  manifest : r'.manifest = r.manifest
  word : r'.word = r.word
  received : r'.received = r.received
  programmed : r'.programmed = r.programmed
  eof : r'.eof = r.eof
  failure : r'.failure = r.failure
  slot : r'.permittedSlot = r.permittedSlot

/-- The phases a step may go on in. -/
inductive Goes : BootReceivePhase → BootReceivePhase → Prop where
  | authenticated : Goes .authenticate .invalidate
  | invalidated : Goes .invalidate .erase
  | erases : Goes .erase .erase
  | erased : Goes .erase .payload
  | writes : Goes .writeManifest .writeManifest
  | written : Goes .writeManifest .verify
  | verified : Goes .verify .ready

structure Stops (reply : ReceiveReply) : Prop where
  phase : reply.receiver.phase = .terminal
  failure : reply.receiver.failure ≠ .ok
  acceptance : reply.acceptance = none
  accepted : reply.accepted = 0

/-- A step that goes on. -/
structure Onward (r : BootReceive) (reply : ReceiveReply) : Prop where
  phase : Goes r.phase reply.receiver.phase
  same : SameStream r reply.receiver
  length : r.phase ≠ .authenticate →
    reply.receiver.evidence.incoming.payloadLength = r.evidence.incoming.payloadLength
  authentic : r.phase = .authenticate →
    0 < reply.receiver.evidence.incoming.payloadLength.toNat
  acceptance : reply.acceptance = none
  accepted : reply.accepted = 0

structure Concludes (r : BootReceive) (reply : ReceiveReply) : Prop where
  ready : r.phase = .ready
  phase : reply.receiver.phase = .terminal
  failure : reply.receiver.failure = r.failure
  slot : reply.receiver.permittedSlot = r.permittedSlot
  result : reply.result = .accepted
  acceptance : reply.acceptance.isSome = true
  accepted : reply.accepted = 0

def StepsTo (r : BootReceive) (reply : ReceiveReply) : Prop :=
  Stops reply ∨ Onward r reply ∨ Concludes r reply

section Steps

variable {C : Crypto} {r r' : BootReceive} {result : BootReceiveResult}

theorem stops_stop (h : result ≠ .ok) : Stops (stop r result) := ⟨rfl, h, rfl, rfl⟩

theorem stops_length : Stops (stop r .length) := stops_stop nofun

theorem stopUnlessBlocked_to (h : result ≠ .ok) :
    Safe Anything (stopUnlessBlocked r' result) (StepsTo r) := by
  refine safe_ask fun blocked => ⟨trivial, safe_pure (.inl (stops_stop ?_))⟩
  split
  · nofun
  · exact h

theorem flashFailure_to : Safe Anything (flashFailure r') (StepsTo r) :=
  stopUnlessBlocked_to nofun

theorem storeFailure_to : Safe Anything (storeFailure r') (StepsTo r) := by
  rw [storeFailure]
  split
  · exact safe_pure (.inl (stops_stop (by decide)))
  · exact stopUnlessBlocked_to (by decide)

/-- A step whose manifest is not authenticated in it. -/
theorem Onward.of_same (hphase : Goes r.phase r'.phase) (hne : r.phase ≠ .authenticate)
    (hsame : SameStream r r')
    (hlen : r'.evidence.incoming.payloadLength = r.evidence.incoming.payloadLength) :
    Onward r (proceed r') :=
  ⟨hphase, hsame, fun _ => hlen, fun h => absurd h hne, rfl, rfl⟩

theorem stepAuthenticate_to (hr : r.phase = .authenticate) :
    Safe Anything (stepAuthenticate C r) (StepsTo r) := by
  have hverified : Safe Anything
      ((bootVerifyManifest C r.manifest r.permittedSlot).interp payloadCalls r.flashResult)
      fun x => ∀ m, x.1 = .ok m → 0 < m.payloadLength.toNat := by
    rintro tr ⟨verified, kept⟩ hruns
    refine ⟨fun _ _ => trivial, fun m hm => ?_⟩
    obtain ⟨tr', hruns'⟩ := runs_of_interp hruns
    obtain ⟨hd, -, -⟩ := (verifyManifest_safe C _ _ tr' _ hruns').2 m hm
    have hmin := (manifestValidate_eq_ok (manifestDecode_ok hd)).2.2.1
    rw [UInt32.le_iff_toNat_le] at hmin
    exact Nat.lt_of_lt_of_le (by decide) hmin
  refine safe_bind hverified fun x hx => ?_
  obtain ⟨verified, kept⟩ := x
  cases verified with
  | error e => exact safe_pure (.inl (stops_stop nofun))
  | ok incoming =>
      dsimp only
      split
      · refine safe_pure (.inr (.inl ⟨?_, ⟨rfl, rfl, rfl, rfl, rfl, rfl, rfl⟩,
          fun hne => absurd hr hne, fun _ => hx incoming rfl, rfl, rfl⟩))
        rw [hr]
        exact .authenticated
      · exact safe_pure (.inl (stops_stop nofun))

theorem stepInvalidate_to (hr : r.phase = .invalidate) :
    Safe Anything (stepInvalidate r) (StepsTo r) := by
  refine safe_bind (safe_anything _) fun x _ => ?_
  obtain ⟨replaced, kept⟩ := x
  cases replaced with
  | error e => exact storeFailure_to
  | ok committed =>
      dsimp only
      split
      · exact flashFailure_to
      · refine safe_pure (.inr (.inl (.of_same ?_ (by rw [hr]; nofun)
          ⟨rfl, rfl, rfl, rfl, rfl, rfl, rfl⟩ rfl)))
        rw [hr]
        exact .invalidated

theorem stepErase_to (hr : r.phase = .erase) :
    Safe Anything (stepErase r) (StepsTo r) := by
  refine safe_bind (safe_anything _) fun x _ => ?_
  obtain ⟨erased, plan⟩ := x
  dsimp only
  split
  · refine safe_pure (.inr (.inl (.of_same ?_ (by rw [hr]; nofun)
      ⟨rfl, rfl, rfl, rfl, rfl, rfl, rfl⟩ rfl)))
    rw [hr]
    exact .erased
  split
  · exact flashFailure_to
  · refine safe_pure (.inr (.inl (.of_same ?_ (by rw [hr]; nofun)
      ⟨rfl, rfl, rfl, rfl, rfl, rfl, rfl⟩ rfl)))
    rw [hr]
    exact .erases

theorem stepWriteManifest_to (hr : r.phase = .writeManifest) :
    Safe Anything (stepWriteManifest r) (StepsTo r) := by
  refine safe_ask fun programmed => ⟨trivial, ?_⟩
  dsimp only
  split
  · exact flashFailure_to
  · refine safe_pure (.inr (.inl (.of_same ?_ (by rw [hr]; nofun)
      ⟨rfl, rfl, rfl, rfl, rfl, rfl, rfl⟩ rfl)))
    rw [hr]
    dsimp only
    split
    · exact .written
    · exact .writes

theorem stepVerify_to (hr : r.phase = .verify) :
    Safe Anything (stepVerify C r) (StepsTo r) := by
  refine safe_ask fun wire => ⟨trivial, ?_⟩
  cases wire with
  | error e => exact flashFailure_to
  | ok wire =>
      dsimp only
      split
      · exact safe_pure (.inl (stops_stop nofun))
      refine safe_bind (safe_anything _) fun x _ => ?_
      obtain ⟨verified, kept⟩ := x
      cases verified with
      | error e => exact stopUnlessBlocked_to nofun
      | ok image =>
          dsimp only
          split
          · refine safe_pure (.inr (.inl (.of_same ?_ (by rw [hr]; nofun)
              ⟨rfl, rfl, rfl, rfl, rfl, rfl, rfl⟩ rfl)))
            rw [hr]
            exact .verified
          · exact safe_pure (.inl (stops_stop nofun))

theorem stepReady_to (hr : r.phase = .ready) :
    Safe Anything (stepReady r) (StepsTo r) := by
  refine safe_bind (safe_anything _) fun x _ => ?_
  obtain ⟨replaced, kept⟩ := x
  cases replaced with
  | error e => exact storeFailure_to
  | ok committed => exact safe_pure (.inr (.inr ⟨hr, rfl, rfl, rfl, rfl, rfl, rfl⟩))

/-- The phases in which a step asks for anything but a word of the payload. -/
def Working (p : BootReceivePhase) : Prop :=
  p = .authenticate ∨ p = .invalidate ∨ p = .erase ∨ p = .writeManifest ∨ p = .verify ∨
    p = .ready

theorem step_to (hr : Working r.phase) :
    Safe Anything (bootReceiveStep C r) (StepsTo r) := by
  unfold bootReceiveStep
  rcases hr with h | h | h | h | h | h <;> rw [h]
  · exact stepAuthenticate_to h
  · exact stepInvalidate_to h
  · exact stepErase_to h
  · exact stepWriteManifest_to h
  · exact stepVerify_to h
  · exact stepReady_to h

end Steps

/-! ## Deliveries -/

/-- A stream on its way into a receiver: the receiver on a driver on a device,
what has not been accepted yet, and the acceptance the caller was given. -/
structure Delivery (σ : Type) where
  receiver : BootReceive
  flash : BootFlash
  device : σ
  rest : List UInt8
  out : Option BootReceiveAcceptance

/-- A device with one answer to every request. -/
abbrev Replies (σ : Type) :=
  (op : (FlashSig.sum HostSig).Op) → σ → (FlashSig.sum HostSig).Ans op × σ

/-- What the caller does next: offer at most so many bytes of what is left, take
a step, or announce the end. -/
inductive DeliveryMove where
  | feed (n : Nat)
  | step
  | eof

namespace Delivery

variable {σ : Type}

def call (C : Crypto) (h : Replies σ) (x : Delivery σ) (call : ReceiveCall) :
    Delivery σ :=
  let y := (call.perform C x.receiver x.flash).run h x.device
  { receiver := y.1.1.receiver
    flash := y.1.2
    device := y.2
    rest := x.rest.drop y.1.1.accepted
    out := y.1.1.acceptance.or x.out }

def move (C : Crypto) (h : Replies σ) (x : Delivery σ) : DeliveryMove → Delivery σ
  | .feed n => x.call C h (.feed (x.rest.take n))
  | .step => x.call C h .step
  | .eof => x.call C h .eof

/-- A fresh receiver that was begun, with all of the stream before it. -/
def begun (C : Crypto) (h : Replies σ) (config : BootReceiveConfig) (f : BootFlash)
    (d : σ) (stream : List UInt8) : Delivery σ :=
  (Delivery.mk bootReceiveInit f d stream none).call C h (.begin config)

end Delivery

/-- The end is announced when all of the stream was accepted. -/
def DeliveryStep {σ : Type} (C : Crypto) (h : Replies σ) (x : Delivery σ)
    (m : DeliveryMove) (x' : Delivery σ) : Prop :=
  (m = .eof → x.rest = []) ∧ x' = x.move C h m

/-! ## The invariant -/

/-- Nothing behind the manifest has arrived. -/
structure Blank (r : BootReceive) : Prop where
  word : r.word = []
  received : r.received = 0
  programmed : r.programmed = 0
  eof : r.eof = false

/-- What has arrived is programmed, or waits in the word buffer. -/
structure Counted (r : BootReceive) : Prop where
  word : r.word.length ≤ 4
  received : r.received.toNat = r.programmed.toNat + r.word.length
  room : r.received ≤ r.evidence.incoming.payloadLength

def Shape (r : BootReceive) (rest : List UInt8) : BootReceivePhase → Prop
  | .new => True
  | .header => r.manifest.length < bootManifestBytes ∧ Blank r
  | .authenticate => r.manifest.length = bootManifestBytes ∧ Blank r
  | .invalidate => r.manifest.length = bootManifestBytes ∧ Blank r ∧
      0 < r.evidence.incoming.payloadLength.toNat
  | .erase => r.manifest.length = bootManifestBytes ∧ Blank r ∧
      0 < r.evidence.incoming.payloadLength.toNat
  | .payload => r.manifest.length = bootManifestBytes ∧ Counted r ∧
      (r.eof = true → rest = [] ∧ r.received = r.evidence.incoming.payloadLength)
  | .writeManifest => r.manifest.length = bootManifestBytes ∧ r.eof = true ∧ rest = [] ∧
      r.received = r.evidence.incoming.payloadLength
  | .verify => r.manifest.length = bootManifestBytes ∧ r.eof = true ∧ rest = [] ∧
      r.received = r.evidence.incoming.payloadLength
  | .ready => r.manifest.length = bootManifestBytes ∧ r.eof = true ∧ rest = [] ∧
      r.received = r.evidence.incoming.payloadLength
  | .terminal => True

structure DeliveryInv {σ : Type} (x : Delivery σ) : Prop where
  shape : Shape x.receiver x.rest x.receiver.phase
  live : x.receiver.phase ≠ .terminal → x.receiver.failure = .ok
  out : x.out.isSome = true ↔
    x.receiver.phase = .terminal ∧ x.receiver.failure = .ok

section Deliveries

variable {C : Crypto} {σ : Type} {h : Replies σ} {x x' : Delivery σ} {n : Nat}

/-! ### Calls that ask nothing -/

theorem call_pure {call : ReceiveCall} {reply : ReceiveReply}
    (hc : call.calls C x.receiver = pure reply) :
    x.call C h call = { x with
      receiver := reply.receiver
      rest := x.rest.drop reply.accepted
      out := reply.acceptance.or x.out } := by
  rw [Delivery.call, ReceiveCall.perform, hc]
  rfl

theorem call_refused {call : ReceiveCall} {result : BootReceiveResult}
    (hc : call.calls C x.receiver = pure (refuse x.receiver result)) :
    x.call C h call = x := by
  rw [call_pure hc]
  rfl

theorem call_feed {p : List UInt8} {reply : ReceiveReply}
    (hf : bootReceiveFeed x.receiver p = reply) :
    x.call C h (.feed p) = { x with
      receiver := reply.receiver
      rest := x.rest.drop reply.accepted
      out := reply.acceptance.or x.out } := call_pure (congrArg pure hf)

theorem call_eof {reply : ReceiveReply} (he : bootReceiveEof x.receiver = reply) :
    x.move C h .eof = { x with
      receiver := reply.receiver
      rest := x.rest.drop reply.accepted
      out := reply.acceptance.or x.out } :=
  call_pure (show ReceiveCall.calls C x.receiver .eof = pure reply from congrArg pure he)

theorem call_step {reply : ReceiveReply}
    (hs : bootReceiveStep C x.receiver = pure reply) :
    x.move C h .step = { x with
      receiver := reply.receiver
      rest := x.rest.drop reply.accepted
      out := reply.acceptance.or x.out } :=
  call_pure (show ReceiveCall.calls C x.receiver .step = pure reply from hs)

theorem DeliveryInv.stopped {reply : ReceiveReply} {f : BootFlash} {d : σ}
    (hI : DeliveryInv x) (hlive : x.receiver.phase ≠ .terminal) (hs : Stops reply) :
    DeliveryInv ⟨reply.receiver, f, d, x.rest.drop reply.accepted,
      reply.acceptance.or x.out⟩ := by
  have hout : x.out.isSome = true ↔ False := by
    rw [hI.out]
    exact ⟨fun ho => hlive ho.1, False.elim⟩
  refine ⟨?_, fun hne => absurd hs.phase hne, ?_⟩
  · dsimp only
    rw [hs.phase]
    trivial
  · dsimp only
    rw [hs.acceptance, Option.none_or, hout]
    exact ⟨False.elim, fun ho => hs.failure ho.2⟩

/-! ### Feeding -/

theorem feed_empty (r : BootReceive) :
    ∃ result, bootReceiveFeed r [] = refuse r result := by
  rw [bootReceiveFeed]
  split
  · exact ⟨_, rfl⟩
  split
  · exact ⟨_, rfl⟩
  · exact ⟨_, if_pos rfl⟩

/-- A receiver that makes nothing of an offer. -/
def Idle (r : BootReceive) : Prop :=
  r.phase = .terminal ∨ r.phase = .new ∨ r.eof = false ∧
    (r.phase = .authenticate ∨ r.phase = .invalidate ∨ r.phase = .erase)

theorem feed_idle {r : BootReceive} (hr : Idle r) (p : List UInt8) :
    ∃ result, bootReceiveFeed r p = refuse r result := by
  rw [bootReceiveFeed]
  rcases hr with hr | hr | ⟨heof, hr⟩
  · exact ⟨_, if_pos hr⟩
  · exact ⟨_, (if_neg (by rw [hr]; decide)).trans (if_pos hr)⟩
  · rcases hr with hr | hr | hr
    all_goals
      rw [hr, heof]
      simp only [reduceCtorEq, if_false, Bool.false_eq_true, false_or]
      split
      · exact ⟨_, rfl⟩
      rw [if_neg (by rintro ⟨hcode, -⟩; revert hcode; decide)]
      exact ⟨_, rfl⟩

/-- The receiver with more of the manifest. -/
def headed (r : BootReceive) (p : List UInt8) : BootReceive :=
  { r with
    manifest := r.manifest ++ p
    phase := if (r.manifest ++ p).length = bootManifestBytes then .authenticate
      else r.phase }

/-- The receiver with more of the payload. -/
def worded (r : BootReceive) (p : List UInt8) : BootReceive :=
  { r with
    word := r.word ++ p
    received := r.received + UInt32.ofNat p.length }

def Delivery.headed (x : Delivery σ) (k : Nat) : Delivery σ :=
  { x with receiver := Boot.headed x.receiver (x.rest.take k), rest := x.rest.drop k }

def Delivery.worded (x : Delivery σ) (k : Nat) : Delivery σ :=
  { x with receiver := Boot.worded x.receiver (x.rest.take k), rest := x.rest.drop k }

theorem worded_zero : x.worded 0 = x := by
  rw [Delivery.worded, worded, List.take_zero, List.append_nil]
  exact congrArg (fun w => { x with receiver := { x.receiver with received := w } })
    (UInt32.add_zero _)

theorem headed_zero (hm : x.receiver.manifest.length < bootManifestBytes) :
    x.headed 0 = x := by
  rw [Delivery.headed, headed, List.take_zero, List.append_nil, if_neg (Nat.ne_of_lt hm)]
  rfl

theorem length_take_ne (hn : x.rest.take n ≠ []) : ¬ (x.rest.take n).length = 0 := by
  rwa [List.length_eq_zero_iff]

theorem move_empty (hn : x.rest.take n = []) : x.move C h (.feed n) = x := by
  obtain ⟨result, hf⟩ := feed_empty x.receiver
  rw [Delivery.move, hn, call_feed hf]
  rfl

theorem fill_take (size used : Nat) (rest : List UInt8) :
    fill size used (rest.take n) = min (size - used) (min n rest.length) := by
  rw [fill, List.length_take]

theorem take_fill (size used : Nat) (rest : List UInt8) :
    (rest.take n).take (fill size used (rest.take n)) =
      rest.take (min (size - used) (min n rest.length)) := by
  rw [fill_take, List.take_take, min_eq_left]
  exact (min_le_right _ _).trans (min_le_left _ _)

theorem move_header (hr : x.receiver.phase = .header) (heof : x.receiver.eof = false)
    (hn : x.rest.take n ≠ []) :
    x.move C h (.feed n) =
      x.headed (min (bootManifestBytes - x.receiver.manifest.length)
        (min n x.rest.length)) := by
  have hfeed : bootReceiveFeed x.receiver (x.rest.take n) =
      { result := .ok
        accepted := fill bootManifestBytes x.receiver.manifest.length (x.rest.take n)
        receiver := headed x.receiver ((x.rest.take n).take
          (fill bootManifestBytes x.receiver.manifest.length (x.rest.take n))) } := by
    rw [bootReceiveFeed, if_neg (by rw [hr]; decide), if_neg (by rw [hr]; decide),
      if_neg (length_take_ne hn), if_neg, if_pos hr]
    · rfl
    · rw [heof, hr]
      rintro (hc | ⟨hc, -⟩)
      · cases hc
      · revert hc
        decide
  rw [take_fill, fill_take] at hfeed
  exact call_feed hfeed

theorem feed_long {r : BootReceive} {p : List UInt8} (hr : r.phase = .payload)
    (hp : ¬ p.length = 0)
    (hlong : p.length > (r.evidence.incoming.payloadLength - r.received).toNat) :
    bootReceiveFeed r p = stop r .length := by
  rw [bootReceiveFeed, if_neg (by rw [hr]; decide), if_neg (by rw [hr]; decide),
    if_neg hp, if_pos (.inr ⟨by rw [hr], hlong⟩)]

theorem move_word (hr : x.receiver.phase = .payload) (heof : x.receiver.eof = false)
    (hn : x.rest.take n ≠ [])
    (hfits : (x.rest.take n).length ≤
      (x.receiver.evidence.incoming.payloadLength - x.receiver.received).toNat) :
    x.move C h (.feed n) =
      x.worded (min (4 - x.receiver.word.length) (min n x.rest.length)) := by
  have hfeed : bootReceiveFeed x.receiver (x.rest.take n) =
      if fill 4 x.receiver.word.length (x.rest.take n) = 0 then refuse x.receiver .wait
      else
        { result := .ok
          accepted := fill 4 x.receiver.word.length (x.rest.take n)
          receiver := worded x.receiver ((x.rest.take n).take
            (fill 4 x.receiver.word.length (x.rest.take n))) } := by
    rw [bootReceiveFeed, if_neg (by rw [hr]; decide), if_neg (by rw [hr]; decide),
      if_neg (length_take_ne hn), if_neg, if_neg (by rw [hr]; decide), if_pos hr]
    · simp only [worded, length_take_fill]
    · rw [heof]
      rintro (hc | ⟨-, hc⟩)
      · cases hc
      · exact absurd hfits (Nat.not_le.mpr hc)
  rw [take_fill, fill_take] at hfeed
  by_cases h0 : min (4 - x.receiver.word.length) (min n x.rest.length) = 0
  · rw [if_pos h0] at hfeed
    rw [h0, Delivery.move, call_feed hfeed, worded_zero]
    rfl
  · rw [if_neg h0] at hfeed
    exact call_feed hfeed

theorem toNat_received {r : BootReceive} {p : List UInt8}
    (hroom : p.length ≤ (r.evidence.incoming.payloadLength - r.received).toNat)
    (hle : r.received ≤ r.evidence.incoming.payloadLength) :
    (worded r p).received.toNat = r.received.toNat + p.length := by
  have hlt := r.evidence.incoming.payloadLength.toNat_lt
  rw [UInt32.toNat_sub_of_le _ _ hle] at hroom
  rw [UInt32.le_iff_toNat_le] at hle
  show (r.received + UInt32.ofNat p.length).toNat = _
  rw [UInt32.toNat_add, UInt32.toNat_ofNat']
  omega

/-! ### Steps -/

/-- A call that returned this, and left the driver and the device so. -/
def Delivery.after (x : Delivery σ) (reply : ReceiveReply) (f : BootFlash) (d : σ) :
    Delivery σ :=
  ⟨reply.receiver, f, d, x.rest.drop reply.accepted, reply.acceptance.or x.out⟩

theorem served_safe {p : Prog ReceiveSig ReceiveReply} {Q : ReceiveReply → Prop}
    (hs : Safe Anything p Q) (f : BootFlash) (d : σ) :
    Q ((p.interp serveReceive f).run h d).1.1 := by
  obtain ⟨tr, hruns⟩ := runs_of_interp (runs_trace h (p.interp serveReceive f) d)
  exact (hs tr _ hruns).2

/-- A step asks its device, and leaves what the receiver's steps leave. -/
theorem step_after {Q : ReceiveReply → Prop}
    (hs : Safe Anything (bootReceiveStep C x.receiver) Q) :
    ∃ reply f d, Q reply ∧ x.move C h .step = x.after reply f d :=
  ⟨_, _, _, served_safe hs x.flash x.device, rfl⟩

theorem step_still (hr : x.receiver.phase = .terminal ∨ x.receiver.phase = .new ∨
    x.receiver.phase = .header) : x.move C h .step = x := by
  rcases hr with hr | hr | hr
  · exact call_step (show _ = pure (refuse x.receiver .consumed) by rw [bootReceiveStep, hr])
  · exact call_step (show _ = pure (refuse x.receiver .argument) by rw [bootReceiveStep, hr])
  · exact call_step (show _ = pure (refuse x.receiver .wait) by rw [bootReceiveStep, hr])

theorem step_empty {r : BootReceive} (hr : r.phase = .payload) (hword : r.word.length ≠ 4) :
    bootReceiveStep C r = pure (payloadEnd r .wait) := by
  rw [bootReceiveStep, hr]
  exact if_neg hword

/-- A step before the word buffer is full, and before the end is known. -/
theorem step_waits (hr : x.receiver.phase = .payload)
    (hword : x.receiver.word.length ≠ 4)
    (hend : ¬ (x.receiver.eof = true ∧
      x.receiver.programmed = x.receiver.evidence.incoming.payloadLength)) :
    x.move C h .step = x := by
  refine call_step (show _ = pure (refuse x.receiver .wait) from ?_)
  rw [step_empty hr hword, payloadEnd, if_neg hend]

/-- The delivery with its payload at an end. -/
def Delivery.closed (x : Delivery σ) : Delivery σ :=
  { x with receiver := { x.receiver with phase := .writeManifest } }

theorem step_ends (hr : x.receiver.phase = .payload)
    (hword : x.receiver.word.length ≠ 4)
    (hend : x.receiver.eof = true ∧
      x.receiver.programmed = x.receiver.evidence.incoming.payloadLength) :
    x.move C h .step = x.closed := by
  refine call_step (show _ = pure (proceed { x.receiver with phase := .writeManifest }) from ?_)
  rw [step_empty hr hword, payloadEnd, if_pos hend]

/-- The programming of the word in the buffer. -/
def Delivery.programs (h : Replies σ) (x : Delivery σ) :
    (BootFlashResult × BootFlash) × σ :=
  (serveReceive (.flashProgram
    (x.receiver.evidence.incoming.executionBase + x.receiver.programmed)
    (get32 x.receiver.word)) x.flash).run h x.device

/-- The receiver with its word programmed. -/
def wrote (r : BootReceive) : BootReceive :=
  { r with flashResult := .ok, programmed := r.programmed + 4, word := [] }

def Delivery.wrote (h : Replies σ) (x : Delivery σ) : Delivery σ :=
  { x with
    receiver := Boot.wrote x.receiver
    flash := (x.programs h).1.2
    device := (x.programs h).2 }

theorem step_word (hr : x.receiver.phase = .payload)
    (hword : x.receiver.word.length = 4) :
    ∃ k : BootFlashResult → Prog ReceiveSig ReceiveReply,
      (∀ programmed, k programmed =
        if programmed ≠ .ok then flashFailure { x.receiver with flashResult := programmed }
        else pure (payloadEnd { x.receiver with
          flashResult := programmed
          programmed := x.receiver.programmed + 4
          word := [] } .ok)) ∧
      (x.move C h .step =
        let y := ((k (x.programs h).1.1).interp serveReceive (x.programs h).1.2).run h
          (x.programs h).2
        x.after y.1.1 y.1.2 y.2) := by
  refine ⟨_, fun _ => rfl, ?_⟩
  have hserve : ∀ k : BootFlashResult → Prog ReceiveSig ReceiveReply,
      ((ReceiveOp.askProgram (x.receiver.evidence.incoming.executionBase +
        x.receiver.programmed) (get32 x.receiver.word) >>= k).interp serveReceive
          x.flash).run h x.device =
        ((k (x.programs h).1.1).interp serveReceive (x.programs h).1.2).run h
          (x.programs h).2 := fun k => Prog.run_bind h _ _ _
  rw [Delivery.move, Delivery.call, ReceiveCall.perform, ReceiveCall.calls, bootReceiveStep, hr]
  simp only [stepPayload, if_pos hword, hserve]
  rfl

theorem step_programs (hr : x.receiver.phase = .payload)
    (hword : x.receiver.word.length = 4) (hok : (x.programs h).1.1 = .ok) :
    x.move C h .step =
      { x.wrote h with receiver := (payloadEnd (wrote x.receiver) .ok).receiver } := by
  obtain ⟨k, hk, hmove⟩ := step_word (C := C) (h := h) hr hword
  have hend : ∀ r : BootReceive, (payloadEnd r .ok).accepted = 0 ∧
      (payloadEnd r .ok).acceptance = none := by
    intro r
    rw [payloadEnd]
    split <;> exact ⟨rfl, rfl⟩
  rw [hmove, hk, hok, if_neg (not_not_intro rfl)]
  show x.after (payloadEnd (wrote x.receiver) .ok) _ _ = _
  rw [Delivery.after, (hend _).1, (hend _).2]
  rfl

/-- A word in the middle of the stream. -/
theorem step_wrote (hr : x.receiver.phase = .payload) (hword : x.receiver.word.length = 4)
    (hok : (x.programs h).1.1 = .ok) (heof : x.receiver.eof = false) :
    x.move C h .step = x.wrote h := by
  rw [step_programs hr hword hok, payloadEnd, if_neg]
  · rfl
  · rintro ⟨he, -⟩
    rw [show x.receiver.eof = true from he] at heof
    cases heof

/-- The last word, with the end announced. -/
theorem step_last (hr : x.receiver.phase = .payload) (hword : x.receiver.word.length = 4)
    (hok : (x.programs h).1.1 = .ok) (heof : x.receiver.eof = true)
    (hall : (wrote x.receiver).programmed = x.receiver.evidence.incoming.payloadLength) :
    x.move C h .step = (x.wrote h).closed := by
  rw [step_programs hr hword hok, payloadEnd, if_pos ⟨heof, hall⟩]
  rfl

theorem step_fails (hr : x.receiver.phase = .payload)
    (hword : x.receiver.word.length = 4) (hne : (x.programs h).1.1 ≠ .ok) :
    ∃ reply f d, Stops reply ∧ x.move C h .step = x.after reply f d := by
  obtain ⟨k, hk, hmove⟩ := step_word (C := C) (h := h) hr hword
  refine ⟨_, _, _, ?_, hmove⟩
  rw [hk, if_pos hne]
  refine served_safe (safe_ask fun blocked => ⟨trivial, safe_pure (stops_stop ?_)⟩) _ _
  split <;> nofun

/-! ### What each move can do -/

theorem feed_cases (hI : DeliveryInv x) (n : Nat) :
    x.move C h (.feed n) = x ∨
    (x.receiver.phase = .header ∧ ∃ k, k ≤ x.rest.length ∧
      x.receiver.manifest.length + k ≤ bootManifestBytes ∧
      x.move C h (.feed n) = x.headed k) ∨
    (x.receiver.phase = .payload ∧ x.receiver.eof = false ∧ ∃ k, k ≤ x.rest.length ∧
      x.receiver.word.length + k ≤ 4 ∧
      k ≤ (x.receiver.evidence.incoming.payloadLength - x.receiver.received).toNat ∧
      x.move C h (.feed n) = x.worded k) ∨
    x.receiver.phase = .payload ∧ x.receiver.eof = false ∧
      (x.receiver.evidence.incoming.payloadLength - x.receiver.received).toNat <
        x.rest.length ∧
      ∃ reply f d, Stops reply ∧ x.move C h (.feed n) = x.after reply f d := by
  by_cases hn : x.rest.take n = []
  · exact .inl (move_empty hn)
  have hrest : x.rest ≠ [] := by
    rintro h0
    rw [h0, List.take_nil] at hn
    exact hn rfl
  have hidle : Idle x.receiver → x.move C h (.feed n) = x := by
    intro hi
    obtain ⟨result, hf⟩ := feed_idle hi (x.rest.take n)
    exact call_refused (congrArg pure hf)
  have hshape := hI.shape
  cases hr : x.receiver.phase <;> rw [hr] at hshape
  · exact .inl (hidle (.inr (.inl hr)))
  · refine .inr (.inl ⟨rfl, _, ?_, ?_, move_header hr hshape.2.eof hn⟩)
    · exact (min_le_right _ _).trans (min_le_right _ _)
    · have hlt := hshape.1
      omega
  · exact .inl (hidle (.inr (.inr ⟨hshape.2.eof, .inl hr⟩)))
  · exact .inl (hidle (.inr (.inr ⟨hshape.2.1.eof, .inr (.inl hr)⟩)))
  · exact .inl (hidle (.inr (.inr ⟨hshape.2.1.eof, .inr (.inr hr)⟩)))
  · have heof : x.receiver.eof = false :=
      Bool.eq_false_iff.mpr fun he => hrest (hshape.2.2 he).1
    by_cases hfits : (x.rest.take n).length ≤
        (x.receiver.evidence.incoming.payloadLength - x.receiver.received).toNat
    · have hword := hshape.2.1.word
      have htake := List.length_take_of_le (Nat.min_le_right n x.rest.length)
      rw [List.length_take] at hfits
      refine .inr (.inr (.inl ⟨rfl, heof, _, ?_, ?_, ?_,
        move_word hr heof hn (by rw [List.length_take]; exact hfits)⟩))
      · exact (min_le_right _ _).trans (min_le_right _ _)
      · omega
      · exact (min_le_right _ _).trans hfits
    · refine .inr (.inr (.inr ⟨rfl, heof, ?_, _, _, _, stops_length,
        call_feed (feed_long hr (length_take_ne hn) (by omega))⟩))
      rw [List.length_take] at hfits
      omega
  · exact absurd hshape.2.2.1 hrest
  · exact absurd hshape.2.2.1 hrest
  · exact absurd hshape.2.2.1 hrest
  · exact .inl (hidle (.inl hr))

/-- The delivery with its end announced. -/
def Delivery.ended (x : Delivery σ) : Delivery σ :=
  { x with receiver := { x.receiver with eof := true } }

/-- The end comes too early: something is missing. -/
def Missing (r : BootReceive) : Prop :=
  r.phase = .header ∨ r.phase = .authenticate ∨ r.phase = .invalidate ∨
    r.phase = .erase ∨
    r.phase = .payload ∧ r.received ≠ r.evidence.incoming.payloadLength

theorem eof_missing {r : BootReceive} (hm : Missing r) :
    bootReceiveEof r = stop r .length := by
  rw [bootReceiveEof]
  rcases hm with hr | hr | hr | hr | ⟨hr, hne⟩
  · rw [if_neg (by rw [hr]; decide), if_neg (by rw [hr]; decide),
      if_pos (.inr (.inl (by rw [hr]; decide)))]
  · rw [if_neg (by rw [hr]; decide), if_neg (by rw [hr]; decide),
      if_pos (.inr (.inl (by rw [hr]; decide)))]
  · rw [if_neg (by rw [hr]; decide), if_neg (by rw [hr]; decide),
      if_pos (.inr (.inl (by rw [hr]; decide)))]
  · rw [if_neg (by rw [hr]; decide), if_neg (by rw [hr]; decide),
      if_pos (.inr (.inl (by rw [hr]; decide)))]
  · rw [if_neg (by rw [hr]; decide), if_neg (by rw [hr]; decide), if_pos (.inr (.inr hne))]

theorem eof_complete {r : BootReceive} (hm : r.manifest.length = bootManifestBytes)
    (hcode : BootReceivePhase.payload.code ≤ r.phase.code) (hnt : r.phase ≠ .terminal)
    (hall : r.received = r.evidence.incoming.payloadLength) :
    bootReceiveEof r = proceed { r with eof := true } := by
  rw [bootReceiveEof, if_neg hnt, if_neg (by rintro hr; rw [hr] at hcode; revert hcode; decide),
    if_neg]
  rintro (hc | hc | hc)
  · exact hc hm
  · omega
  · exact hc hall

theorem ended_self (heof : x.receiver.eof = true) : x.ended = x := by
  rw [Delivery.ended, ← heof]

theorem eof_cases (hI : DeliveryInv x) :
    x.move C h .eof = x ∨
    (x.receiver.phase = .payload ∧ x.receiver.eof = false ∧
      x.receiver.received = x.receiver.evidence.incoming.payloadLength ∧
      x.move C h .eof = x.ended) ∨
    Missing x.receiver ∧ x.receiver.eof = false ∧
      ∃ reply f d, Stops reply ∧ x.move C h .eof = x.after reply f d := by
  have hmissing : Missing x.receiver →
      ∃ reply f d, Stops reply ∧ x.move C h .eof = x.after reply f d := fun hm =>
    ⟨_, _, _, stops_length, call_eof (eof_missing hm)⟩
  have hcomplete : x.receiver.manifest.length = bootManifestBytes →
      BootReceivePhase.payload.code ≤ x.receiver.phase.code →
      x.receiver.phase ≠ .terminal →
      x.receiver.received = x.receiver.evidence.incoming.payloadLength →
      x.move C h .eof = x.ended := fun hm hc hnt hall =>
    call_eof (eof_complete hm hc hnt hall)
  have hshape := hI.shape
  cases hr : x.receiver.phase <;> rw [hr] at hshape
  · refine .inl (call_eof (show _ = refuse x.receiver .argument from ?_))
    exact (if_neg (by rw [hr]; decide)).trans (if_pos hr)
  · exact .inr (.inr ⟨.inl hr, hshape.2.eof, hmissing (.inl hr)⟩)
  · exact .inr (.inr ⟨.inr (.inl hr), hshape.2.eof, hmissing (.inr (.inl hr))⟩)
  · exact .inr (.inr ⟨.inr (.inr (.inl hr)), hshape.2.1.eof,
      hmissing (.inr (.inr (.inl hr)))⟩)
  · exact .inr (.inr ⟨.inr (.inr (.inr (.inl hr))), hshape.2.1.eof,
      hmissing (.inr (.inr (.inr (.inl hr))))⟩)
  · by_cases hall : x.receiver.received = x.receiver.evidence.incoming.payloadLength
    · have hmove := hcomplete hshape.1 (by rw [hr]) (by rw [hr]; nofun) hall
      cases heof : x.receiver.eof with
      | true => exact .inl (hmove.trans (ended_self heof))
      | false => exact .inr (.inl ⟨rfl, rfl, hall, hmove⟩)
    · have hm : Missing x.receiver := .inr (.inr (.inr (.inr ⟨hr, hall⟩)))
      refine .inr (.inr ⟨hm, Bool.eq_false_iff.mpr fun he => hall (hshape.2.2 he).2,
        hmissing hm⟩)
  · exact .inl ((hcomplete hshape.1 (by rw [hr]; decide) (by rw [hr]; nofun)
      hshape.2.2.2).trans (ended_self hshape.2.1))
  · exact .inl ((hcomplete hshape.1 (by rw [hr]; decide) (by rw [hr]; nofun)
      hshape.2.2.2).trans (ended_self hshape.2.1))
  · exact .inl ((hcomplete hshape.1 (by rw [hr]; decide) (by rw [hr]; nofun)
      hshape.2.2.2).trans (ended_self hshape.2.1))
  · exact .inl (call_eof (show _ = refuse x.receiver .consumed from if_pos hr))

/-- A step on the payload that programs a word, or finds the end. -/
inductive Programs (h : Replies σ) (x : Delivery σ) : Delivery σ → Prop where
  | programs (hword : x.receiver.word.length = 4) (hok : (x.programs h).1.1 = .ok) :
      Programs h x
        { x.wrote h with receiver := (payloadEnd (wrote x.receiver) .ok).receiver }
  | ends (hword : x.receiver.word.length ≠ 4) (heof : x.receiver.eof = true)
      (hall : x.receiver.programmed = x.receiver.evidence.incoming.payloadLength) :
      Programs h x x.closed

theorem step_cases (hI : DeliveryInv x) :
    x.move C h .step = x ∨
    (Working x.receiver.phase ∧ ∃ reply f d, StepsTo x.receiver reply ∧
      x.move C h .step = x.after reply f d) ∨
    (x.receiver.phase = .payload ∧ Programs h x (x.move C h .step)) ∨
    x.receiver.phase = .payload ∧ x.receiver.word.length = 4 ∧
      (x.programs h).1.1 ≠ .ok ∧
      ∃ reply f d, Stops reply ∧ x.move C h .step = x.after reply f d := by
  have hworking : Working x.receiver.phase → ∃ reply f d, StepsTo x.receiver reply ∧
      x.move C h .step = x.after reply f d := fun hw => step_after (step_to hw)
  have hshape := hI.shape
  cases hr : x.receiver.phase <;> rw [hr] at hshape hworking
  · exact .inl (step_still (.inr (.inl hr)))
  · exact .inl (step_still (.inr (.inr hr)))
  · exact .inr (.inl ⟨.inl rfl, hworking (.inl rfl)⟩)
  · exact .inr (.inl ⟨.inr (.inl rfl), hworking (.inr (.inl rfl))⟩)
  · exact .inr (.inl ⟨.inr (.inr (.inl rfl)), hworking (.inr (.inr (.inl rfl)))⟩)
  · by_cases hword : x.receiver.word.length = 4
    · by_cases hok : (x.programs h).1.1 = .ok
      · refine .inr (.inr (.inl ⟨rfl, ?_⟩))
        rw [step_programs hr hword hok]
        exact .programs hword hok
      · exact .inr (.inr (.inr ⟨rfl, hword, hok, step_fails hr hword hok⟩))
    · by_cases hend : x.receiver.eof = true ∧
          x.receiver.programmed = x.receiver.evidence.incoming.payloadLength
      · refine .inr (.inr (.inl ⟨rfl, ?_⟩))
        rw [step_ends hr hword hend]
        exact .ends hword hend.1 hend.2
      · exact .inl (step_waits hr hword hend)
  · exact .inr (.inl ⟨.inr (.inr (.inr (.inl rfl))), hworking (.inr (.inr (.inr (.inl rfl))))⟩)
  · exact .inr (.inl ⟨.inr (.inr (.inr (.inr (.inl rfl)))),
      hworking (.inr (.inr (.inr (.inr (.inl rfl)))))⟩)
  · exact .inr (.inl ⟨.inr (.inr (.inr (.inr (.inr rfl)))),
      hworking (.inr (.inr (.inr (.inr (.inr rfl)))))⟩)
  · exact .inl (step_still (.inl hr))

/-! ### The invariant is kept -/

theorem DeliveryInv.out_none (hI : DeliveryInv x) (hlive : x.receiver.phase ≠ .terminal) :
    x.out = none := by
  rw [← Option.not_isSome_iff_eq_none, hI.out]
  exact fun ho => hlive ho.1

theorem DeliveryInv.of_live (hshape : Shape x.receiver x.rest x.receiver.phase)
    (hlive : x.receiver.phase ≠ .terminal) (hf : x.receiver.failure = .ok)
    (hout : x.out = none) : DeliveryInv x := by
  refine ⟨hshape, fun _ => hf, ?_⟩
  rw [hout]
  exact ⟨nofun, fun ho => absurd ho.1 hlive⟩

theorem SameStream.blank {r r' : BootReceive} (hs : SameStream r r') (hb : Blank r) :
    Blank r' :=
  ⟨hs.word.trans hb.word, hs.received.trans hb.received,
    hs.programmed.trans hb.programmed, hs.eof.trans hb.eof⟩

theorem Blank.counted {r : BootReceive} (hb : Blank r) : Counted r := by
  refine ⟨?_, ?_, ?_⟩
  · rw [hb.word]
    decide
  · rw [hb.word, hb.received, hb.programmed]
    rfl
  · rw [hb.received, UInt32.le_iff_toNat_le]
    exact Nat.zero_le _

theorem Onward.shape {reply : ReceiveReply} (ho : Onward x.receiver reply)
    (hI : DeliveryInv x) : Shape reply.receiver x.rest reply.receiver.phase := by
  have hshape := hI.shape
  have hgo := ho.phase
  have hlen := ho.length
  have hpos := ho.authentic
  obtain ⟨hm, -, hrec, -, heof, -, -⟩ := ho.same
  generalize x.receiver.phase = p at hgo hshape hlen hpos
  generalize reply.receiver.phase = q at hgo
  cases hgo with
  | authenticated => exact ⟨by rw [hm]; exact hshape.1, ho.same.blank hshape.2, hpos rfl⟩
  | invalidated =>
      exact ⟨by rw [hm]; exact hshape.1, ho.same.blank hshape.2.1,
        by rw [hlen nofun]; exact hshape.2.2⟩
  | erases =>
      exact ⟨by rw [hm]; exact hshape.1, ho.same.blank hshape.2.1,
        by rw [hlen nofun]; exact hshape.2.2⟩
  | erased =>
      refine ⟨by rw [hm]; exact hshape.1, (ho.same.blank hshape.2.1).counted, fun he => ?_⟩
      rw [heof, hshape.2.1.eof] at he
      cases he
  | writes =>
      exact ⟨by rw [hm]; exact hshape.1, heof.trans hshape.2.1, hshape.2.2.1,
        by rw [hrec, hlen nofun]; exact hshape.2.2.2⟩
  | written =>
      exact ⟨by rw [hm]; exact hshape.1, heof.trans hshape.2.1, hshape.2.2.1,
        by rw [hrec, hlen nofun]; exact hshape.2.2.2⟩
  | verified =>
      exact ⟨by rw [hm]; exact hshape.1, heof.trans hshape.2.1, hshape.2.2.1,
        by rw [hrec, hlen nofun]; exact hshape.2.2.2⟩

theorem Goes.live {p q : BootReceivePhase} (hg : Goes p q) :
    p ≠ .terminal ∧ q ≠ .terminal := by
  cases hg <;> exact ⟨nofun, nofun⟩

theorem DeliveryInv.onward {reply : ReceiveReply} {f : BootFlash} {d : σ}
    (hI : DeliveryInv x) (ho : Onward x.receiver reply) :
    DeliveryInv (x.after reply f d) := by
  obtain ⟨hlive, hlive'⟩ := ho.phase.live
  refine .of_live ?_ hlive' (ho.same.failure.trans (hI.live hlive)) ?_
  · show Shape reply.receiver (x.rest.drop reply.accepted) reply.receiver.phase
    rw [ho.accepted]
    exact ho.shape hI
  · show reply.acceptance.or x.out = none
    rw [ho.acceptance, Option.none_or, hI.out_none hlive]

theorem DeliveryInv.accepts {reply : ReceiveReply} {f : BootFlash} {d : σ}
    (hI : DeliveryInv x) (ha : Concludes x.receiver reply) :
    DeliveryInv (x.after reply f d) := by
  obtain ⟨a, hacc⟩ := Option.isSome_iff_exists.mp ha.acceptance
  have hok := hI.live (by rw [ha.ready]; nofun)
  refine ⟨?_, fun hne => absurd ha.phase hne, ?_⟩
  · show Shape reply.receiver _ reply.receiver.phase
    rw [ha.phase]
    trivial
  · show (reply.acceptance.or x.out).isSome = true ↔
      reply.receiver.phase = .terminal ∧ reply.receiver.failure = .ok
    rw [hacc, ha.phase, ha.failure, hok]
    exact ⟨fun _ => ⟨rfl, rfl⟩, fun _ => rfl⟩

theorem toNat_wrote (hI : DeliveryInv x) (hr : x.receiver.phase = .payload)
    (hword : x.receiver.word.length = 4) :
    (wrote x.receiver).programmed.toNat = x.receiver.received.toNat := by
  have hshape := hI.shape
  rw [hr] at hshape
  have hcount := hshape.2.1.received
  have hlt := x.receiver.received.toNat_lt
  show (x.receiver.programmed + 4).toNat = _
  rw [UInt32.toNat_add, show (4 : UInt32).toNat = 4 from rfl]
  omega

/-- What `payloadEnd` is given is a payload state too. -/
theorem DeliveryInv.wrote (hI : DeliveryInv x) (hr : x.receiver.phase = .payload)
    (hword : x.receiver.word.length = 4) : DeliveryInv (x.wrote h) := by
  have hlive : x.receiver.phase ≠ .terminal := by
    rw [hr]
    nofun
  have hshape := hI.shape
  rw [hr] at hshape
  refine .of_live ?_ hlive (hI.live hlive) (hI.out_none hlive)
  show Shape (Boot.wrote x.receiver) x.rest x.receiver.phase
  rw [hr]
  exact ⟨hshape.1, ⟨Nat.zero_le 4, (toNat_wrote hI hr hword).symm, hshape.2.1.room⟩,
    hshape.2.2⟩

theorem DeliveryInv.payloadEnd (hI : DeliveryInv x) (hr : x.receiver.phase = .payload)
    (result : BootReceiveResult) :
    DeliveryInv { x with receiver := (payloadEnd x.receiver result).receiver } := by
  rw [Boot.payloadEnd]
  split
  · next hend =>
    have hlive : x.receiver.phase ≠ .terminal := by
      rw [hr]
      decide
    have hshape := hI.shape
    rw [hr] at hshape
    have hall := hshape.2.2 hend.1
    refine .of_live ⟨hshape.1, hend.1, hall.1, hall.2⟩ ?_ (hI.live hlive) (hI.out_none hlive)
    show BootReceivePhase.writeManifest ≠ .terminal
    decide
  · exact hI

theorem DeliveryInv.stops {reply : ReceiveReply} {f : BootFlash} {d : σ}
    (hI : DeliveryInv x) (hlive : x.receiver.phase ≠ .terminal) (hs : Stops reply) :
    DeliveryInv (x.after reply f d) := hI.stopped hlive hs

theorem Working.live {p : BootReceivePhase} (hw : Working p) : p ≠ .terminal := by
  rcases hw with rfl | rfl | rfl | rfl | rfl | rfl <;> nofun

theorem Missing.live {r : BootReceive} (hm : Missing r) : r.phase ≠ .terminal := by
  rcases hm with hr | hr | hr | hr | ⟨hr, -⟩ <;> rw [hr] <;> nofun

theorem DeliveryInv.headed (hI : DeliveryInv x) (hr : x.receiver.phase = .header) {k : Nat}
    (hk : k ≤ x.rest.length)
    (hroom : x.receiver.manifest.length + k ≤ bootManifestBytes) :
    DeliveryInv (x.headed k) := by
  have hshape := hI.shape
  have hlive : x.receiver.phase ≠ .terminal := by
    rw [hr]
    nofun
  rw [hr] at hshape
  have hlen : (x.receiver.manifest ++ x.rest.take k).length =
      x.receiver.manifest.length + k := by
    rw [List.length_append, List.length_take_of_le hk]
  have hblank : Blank (x.headed k).receiver :=
    ⟨hshape.2.word, hshape.2.received, hshape.2.programmed, hshape.2.eof⟩
  have hphase : (x.headed k).receiver.phase =
      if (x.receiver.manifest ++ x.rest.take k).length = bootManifestBytes then .authenticate
      else .header := by
    rw [← hr]
    rfl
  by_cases hfull : (x.receiver.manifest ++ x.rest.take k).length = bootManifestBytes
  · rw [if_pos hfull] at hphase
    refine .of_live ?_ (by rw [hphase]; nofun) (hI.live hlive) (hI.out_none hlive)
    rw [hphase]
    exact ⟨hfull, hblank⟩
  · rw [if_neg hfull] at hphase
    refine .of_live ?_ (by rw [hphase]; nofun) (hI.live hlive) (hI.out_none hlive)
    rw [hphase]
    refine ⟨?_, hblank⟩
    show (x.receiver.manifest ++ x.rest.take k).length < bootManifestBytes
    omega

theorem DeliveryInv.worded (hI : DeliveryInv x) (hr : x.receiver.phase = .payload)
    (heof : x.receiver.eof = false) {k : Nat} (hk : k ≤ x.rest.length)
    (hword : x.receiver.word.length + k ≤ 4)
    (hroom : k ≤
      (x.receiver.evidence.incoming.payloadLength - x.receiver.received).toNat) :
    DeliveryInv (x.worded k) := by
  have hshape := hI.shape
  have hlive : x.receiver.phase ≠ .terminal := by
    rw [hr]
    nofun
  rw [hr] at hshape
  have hlen : (x.rest.take k).length = k := List.length_take_of_le hk
  have hreceived := toNat_received (r := x.receiver) (p := x.rest.take k)
    (by rw [hlen]; exact hroom) hshape.2.1.room
  have hcount := hshape.2.1.received
  have hroom' := hshape.2.1.room
  rw [UInt32.toNat_sub_of_le _ _ hroom'] at hroom
  rw [UInt32.le_iff_toNat_le] at hroom'
  refine .of_live ?_ hlive (hI.live hlive) (hI.out_none hlive)
  show Shape (Boot.worded x.receiver (x.rest.take k)) (x.rest.drop k) x.receiver.phase
  rw [hr]
  refine ⟨hshape.1, ⟨?_, ?_, ?_⟩, fun he => ?_⟩
  · show (x.receiver.word ++ x.rest.take k).length ≤ 4
    rw [List.length_append, hlen]
    exact hword
  · show (Boot.worded x.receiver _).received.toNat =
      x.receiver.programmed.toNat + (x.receiver.word ++ x.rest.take k).length
    rw [hreceived, List.length_append]
    omega
  · show (Boot.worded x.receiver _).received ≤ x.receiver.evidence.incoming.payloadLength
    rw [UInt32.le_iff_toNat_le, hreceived, hlen]
    omega
  · rw [show x.receiver.eof = true from he] at heof
    cases heof

theorem DeliveryInv.advances (hI : DeliveryInv x) (hr : x.receiver.phase = .payload)
    (hp : Programs h x x') : DeliveryInv x' := by
  cases hp with
  | programs hword hok => exact (hI.wrote hr hword).payloadEnd hr .ok
  | ends hword heof hall =>
      have hend := hI.payloadEnd hr .wait
      rwa [Boot.payloadEnd, if_pos ⟨heof, hall⟩] at hend

theorem inv_feed (hI : DeliveryInv x) (n : Nat) : DeliveryInv (x.move C h (.feed n)) := by
  rcases feed_cases (C := C) (h := h) hI n with hmove | ⟨hr, k, hk, hroom, hmove⟩ |
    ⟨hr, heof, k, hk, hword, hroom, hmove⟩ | ⟨hr, -, -, reply, f, d, hs, hmove⟩
  · rwa [hmove]
  · rw [hmove]
    exact hI.headed hr hk hroom
  · rw [hmove]
    exact hI.worded hr heof hk hword hroom
  · rw [hmove]
    exact hI.stops (by rw [hr]; nofun) hs

theorem inv_eof (hI : DeliveryInv x) (hrest : x.rest = []) :
    DeliveryInv (x.move C h .eof) := by
  rcases eof_cases (C := C) (h := h) hI with hmove | ⟨hr, -, hall, hmove⟩ |
    ⟨hm, -, reply, f, d, hs, hmove⟩
  · rwa [hmove]
  · have hlive : x.receiver.phase ≠ .terminal := by
      rw [hr]
      nofun
    have hshape := hI.shape
    rw [hr] at hshape
    rw [hmove]
    refine .of_live ?_ hlive (hI.live hlive) (hI.out_none hlive)
    show Shape { x.receiver with eof := true } x.rest x.receiver.phase
    rw [hr]
    exact ⟨hshape.1, ⟨hshape.2.1.word, hshape.2.1.received, hshape.2.1.room⟩,
      fun _ => ⟨hrest, hall⟩⟩
  · rw [hmove]
    exact hI.stops hm.live hs

theorem inv_receive (hI : DeliveryInv x) : DeliveryInv (x.move C h .step) := by
  rcases step_cases (C := C) (h := h) hI with hmove | ⟨hw, reply, f, d, hto, hmove⟩ |
    ⟨hr, hp⟩ | ⟨hr, -, -, reply, f, d, hs, hmove⟩
  · rwa [hmove]
  · rw [hmove]
    rcases hto with hs | ho | ha
    · exact hI.stops hw.live hs
    · exact hI.onward ho
    · exact hI.accepts ha
  · exact hI.advances hr hp
  · rw [hmove]
    exact hI.stops (by rw [hr]; nofun) hs

theorem delivery_keeps {m : DeliveryMove} (hI : DeliveryInv x)
    (hs : DeliveryStep C h x m x') : DeliveryInv x' := by
  obtain ⟨hrest, rfl⟩ := hs
  cases m with
  | feed n => exact inv_feed hI n
  | step => exact inv_receive hI
  | eof => exact inv_eof hI (hrest rfl)

end Deliveries

end EkBareMetal.Boot

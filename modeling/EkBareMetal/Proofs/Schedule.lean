import EkBareMetal.Lib.Orbit
import EkBareMetal.Proofs.Arrival

/-!
# Every schedule of one stream

The caller of the receiver has no choice that matters. `next` is the schedule
that offers one byte at a time and announces the end as soon as it may. A
delivery that cannot be accepted any more is `Lost`; from any other, every move
leads to a state from which the schedule goes on to the same end. The one place
where two moves compete is the last word, which is programmed before the end is
announced or behind it.
-/

namespace EkBareMetal.Boot

open Words Interact Transition

section Deliveries

variable {C : Crypto} {σ : Type} {h : Replies σ} {x x' : Delivery σ} {n : Nat}

/-! ## One byte at a time -/

/-- What the schedule does next. -/
def Delivery.turn (x : Delivery σ) : DeliveryMove :=
  if x.rest ≠ [] ∧ (x.receiver.phase = .header ∨
      x.receiver.phase = .payload ∧ x.receiver.word.length < 4) then .feed 1
  else if x.rest = [] ∧ x.receiver.phase = .payload ∧
      x.receiver.received = x.receiver.evidence.incoming.payloadLength ∧
      x.receiver.eof = false then .eof
  else .step

def Delivery.next (C : Crypto) (h : Replies σ) (x : Delivery σ) : Delivery σ :=
  x.move C h x.turn

theorem take_one_ne {l : List UInt8} (hl : l ≠ []) : l.take 1 ≠ [] := by
  cases l with
  | nil => exact absurd rfl hl
  | cons b l => nofun

theorem drop_ne {l : List UInt8} {k : Nat} (hk : k < l.length) : l.drop k ≠ [] := by
  rw [ne_eq, List.drop_eq_nil_iff]
  omega

theorem headed_headed {r : BootReceive} {p q : List UInt8}
    (hm : (r.manifest ++ p).length ≠ bootManifestBytes) :
    headed (headed r p) q = headed r (p ++ q) := by
  rw [headed, headed, headed, if_neg hm, List.append_assoc]

theorem headed_succ {j : Nat}
    (hm : (x.receiver.manifest ++ x.rest.take j).length ≠ bootManifestBytes) :
    (x.headed j).headed 1 = x.headed (j + 1) := by
  simp only [Delivery.headed]
  rw [headed_headed hm, ← List.take_add, List.drop_drop]

theorem worded_worded {r : BootReceive} {p q : List UInt8} :
    worded (worded r p) q = worded r (p ++ q) := by
  rw [worded, worded, worded, List.append_assoc, UInt32.add_assoc, ← UInt32.ofNat_add,
    List.length_append]

theorem worded_succ {j : Nat} : (x.worded j).worded 1 = x.worded (j + 1) := by
  simp only [Delivery.worded]
  rw [worded_worded, ← List.take_add, List.drop_drop]

theorem rejoins_headed {k : Nat} (hr : x.receiver.phase = .header)
    (heof : x.receiver.eof = false) (hk : k ≤ x.rest.length)
    (hm : x.receiver.manifest.length < bootManifestBytes)
    (hroom : x.receiver.manifest.length + k ≤ bootManifestBytes) :
    Rejoins (Delivery.next C h) x (x.headed k) := by
  have hchain : ∀ j < k, Delivery.next C h (x.headed j) = x.headed (j + 1) := by
    intro j hj
    have hlen : (x.receiver.manifest ++ x.rest.take j).length =
        x.receiver.manifest.length + j := by
      rw [List.length_append, List.length_take_of_le (by omega)]
    have hphase : (x.headed j).receiver.phase = .header := by
      show (if _ then _ else _) = _
      rw [hlen, if_neg (by omega), hr]
    have hrest : (x.headed j).rest ≠ [] := drop_ne (by omega)
    have hturn : (x.headed j).turn = .feed 1 := if_pos ⟨hrest, .inl hphase⟩
    have hone : min (bootManifestBytes - (x.headed j).receiver.manifest.length)
        (min 1 (x.headed j).rest.length) = 1 := by
      show min (bootManifestBytes - (x.receiver.manifest ++ x.rest.take j).length)
        (min 1 (x.rest.drop j).length) = 1
      rw [hlen, List.length_drop]
      omega
    rw [Delivery.next, hturn, move_header hphase heof (take_one_ne hrest), hone]
    exact headed_succ (by rw [hlen]; omega)
  have hrejoins : Rejoins (Delivery.next C h) (x.headed 0) (x.headed k) := rejoins_chain hchain
  rwa [headed_zero hm] at hrejoins

theorem rejoins_worded {k : Nat} (hr : x.receiver.phase = .payload)
    (heof : x.receiver.eof = false) (hk : k ≤ x.rest.length)
    (hword : x.receiver.word.length + k ≤ 4)
    (hle : x.receiver.received ≤ x.receiver.evidence.incoming.payloadLength)
    (hroom : k ≤
      (x.receiver.evidence.incoming.payloadLength - x.receiver.received).toNat) :
    Rejoins (Delivery.next C h) x (x.worded k) := by
  have hchain : ∀ j < k, Delivery.next C h (x.worded j) = x.worded (j + 1) := by
    intro j hj
    have hlen : (x.rest.take j).length = j := List.length_take_of_le (by omega)
    have hwords : (x.worded j).receiver.word.length = x.receiver.word.length + j := by
      show (x.receiver.word ++ x.rest.take j).length = _
      rw [List.length_append, hlen]
    have hrest : (x.worded j).rest ≠ [] := drop_ne (by omega)
    have hone : ((x.worded j).rest.take 1).length = 1 := by
      rw [List.length_take_of_le]
      exact List.length_pos_iff.mpr hrest
    have hturn : (x.worded j).turn = .feed 1 :=
      if_pos ⟨hrest, .inr ⟨hr, by rw [hwords]; omega⟩⟩
    have hreceived := toNat_received (r := x.receiver) (p := x.rest.take j)
      (by rw [hlen]; omega) hle
    have hmin : min (4 - (x.worded j).receiver.word.length)
        (min 1 (x.worded j).rest.length) = 1 := by
      have hpos := List.length_pos_iff.mpr hrest
      rw [hwords]
      omega
    rw [hlen] at hreceived
    rw [UInt32.toNat_sub_of_le _ _ hle] at hroom
    rw [UInt32.le_iff_toNat_le] at hle
    have hfits : (x.worded j).receiver.received ≤
        (x.worded j).receiver.evidence.incoming.payloadLength := by
      rw [UInt32.le_iff_toNat_le]
      refine hreceived.trans_le ?_
      show _ ≤ x.receiver.evidence.incoming.payloadLength.toNat
      omega
    rw [Delivery.next, hturn,
      move_word (x := x.worded j) hr heof (take_one_ne hrest), hmin, worded_succ]
    rw [hone, UInt32.toNat_sub_of_le _ _ hfits]
    show 1 ≤ x.receiver.evidence.incoming.payloadLength.toNat -
      (worded x.receiver (x.rest.take j)).received.toNat
    rw [hreceived]
    omega
  have hrejoins : Rejoins (Delivery.next C h) (x.worded 0) (x.worded k) := rejoins_chain hchain
  rwa [worded_zero] at hrejoins

/-! ## Lost deliveries -/

/-- Something is missing or too much, or the word in the buffer will not be
programmed. -/
def Gone (h : Replies σ) (x : Delivery σ) : BootReceivePhase → Prop
  | .new => True
  | .header => x.rest = []
  | .authenticate => x.rest = []
  | .invalidate => x.rest = []
  | .erase => x.rest = []
  | .payload =>
      x.receiver.eof = false ∧ x.receiver.received.toNat + x.rest.length ≠
        x.receiver.evidence.incoming.payloadLength.toNat ∨
      x.receiver.word.length = 4 ∧ (x.programs h).1.1 ≠ .ok
  | .terminal => x.receiver.failure ≠ .ok
  | _ => False

structure Lost (h : Replies σ) (x : Delivery σ) : Prop where
  inv : DeliveryInv x
  gone : Gone h x x.receiver.phase

theorem Lost.stops {reply : ReceiveReply} {f : BootFlash} {d : σ} (hI : DeliveryInv x)
    (hlive : x.receiver.phase ≠ .terminal) (hs : Stops reply) :
    Lost h (x.after reply f d) := by
  refine ⟨hI.stops hlive hs, ?_⟩
  show Gone h _ reply.receiver.phase
  rw [hs.phase]
  exact hs.failure

theorem lost_feed (hl : Lost h x) (n : Nat) : Lost h (x.move C h (.feed n)) := by
  have hI := hl.inv
  have hgone := hl.gone
  have hinv := inv_feed (C := C) (h := h) hI n
  rcases feed_cases (C := C) (h := h) hI n with hmove | ⟨hr, k, hk, -, hmove⟩ |
    ⟨hr, heof, k, hk, hword, hroom, hmove⟩ | ⟨hr, -, -, reply, f, d, hs, hmove⟩
  · rwa [hmove]
  · rw [hr] at hgone
    rw [move_empty (by rw [show x.rest = [] from hgone, List.take_nil])]
    exact hl
  · rw [hmove] at hinv ⊢
    refine ⟨hinv, ?_⟩
    have hshape := hI.shape
    rw [hr] at hgone hshape
    have hlen : (x.rest.take k).length = k := List.length_take_of_le hk
    have hreceived := toNat_received (r := x.receiver) (p := x.rest.take k)
      (by rw [hlen]; exact hroom) hshape.2.1.room
    show Gone h (x.worded k) x.receiver.phase
    rw [hr]
    rcases hgone with ⟨-, hne⟩ | ⟨hfull, hfail⟩
    · refine .inl ⟨heof, ?_⟩
      show (Boot.worded x.receiver (x.rest.take k)).received.toNat +
        (x.rest.drop k).length ≠ x.receiver.evidence.incoming.payloadLength.toNat
      rw [hreceived, hlen, List.length_drop]
      omega
    · obtain rfl : k = 0 := by omega
      rw [worded_zero]
      exact .inr ⟨hfull, hfail⟩
  · rw [hmove]
    exact .stops hI (by rw [hr]; nofun) hs

theorem lost_eof (hl : Lost h x) (hrest : x.rest = []) : Lost h (x.move C h .eof) := by
  have hI := hl.inv
  have hgone := hl.gone
  have hinv := inv_eof (C := C) (h := h) hI hrest
  rcases eof_cases (C := C) (h := h) hI with hmove | ⟨hr, heof, hall, hmove⟩ |
    ⟨hm, -, reply, f, d, hs, hmove⟩
  · rwa [hmove]
  · rw [hmove] at hinv ⊢
    refine ⟨hinv, ?_⟩
    rw [hr] at hgone
    show Gone h x.ended x.receiver.phase
    rw [hr]
    rcases hgone with ⟨-, hne⟩ | hfail
    · rw [hall, hrest] at hne
      exact absurd rfl hne
    · exact .inr hfail
  · rw [hmove]
    exact .stops hI hm.live hs

theorem Onward.gone {reply : ReceiveReply} {f : BootFlash} {d : σ}
    (ho : Onward x.receiver reply) (hI : DeliveryInv x)
    (hgone : Gone h x x.receiver.phase) :
    Gone h (x.after reply f d) reply.receiver.phase := by
  have hshape := hI.shape
  have hgo := ho.phase
  have hlen := ho.length
  obtain ⟨-, -, hrec, -, heof, -, -⟩ := ho.same
  have hrest : (x.after reply f d).rest = x.rest := by
    show x.rest.drop reply.accepted = x.rest
    rw [ho.accepted, List.drop_zero]
  generalize x.receiver.phase = p at hgo hshape hgone hlen
  generalize reply.receiver.phase = q at hgo
  cases hgo with
  | authenticated => exact hrest.trans hgone
  | invalidated => exact hrest.trans hgone
  | erases => exact hrest.trans hgone
  | erased =>
      refine .inl ⟨heof.trans hshape.2.1.eof, ?_⟩
      show reply.receiver.received.toNat + (x.after reply f d).rest.length ≠
        reply.receiver.evidence.incoming.payloadLength.toNat
      rw [hrest, show x.rest = [] from hgone, hrec, hshape.2.1.received, hlen nofun]
      exact Nat.ne_of_lt hshape.2.2
  | writes => exact hgone.elim
  | written => exact hgone.elim
  | verified => exact hgone.elim

theorem Programs.gone (hp : Programs h x x') (hr : x.receiver.phase = .payload)
    (hgone : Gone h x .payload) : Gone h x' x'.receiver.phase := by
  cases hp with
  | programs hword hok =>
      rcases hgone with ⟨heof, hne⟩ | ⟨-, hfail⟩
      · have hopen : ¬ ((wrote x.receiver).eof = true ∧ (wrote x.receiver).programmed =
            (wrote x.receiver).evidence.incoming.payloadLength) := by
          rintro ⟨he, -⟩
          rw [show x.receiver.eof = true from he] at heof
          cases heof
        rw [payloadEnd, if_neg hopen]
        show Gone h _ x.receiver.phase
        rw [hr]
        exact .inl ⟨heof, hne⟩
      · exact absurd hok hfail
  | ends hword heof hall =>
      rcases hgone with ⟨heof', -⟩ | ⟨hfull, -⟩
      · rw [heof] at heof'
        cases heof'
      · exact absurd hfull hword

theorem lost_receive (hl : Lost h x) : Lost h (x.move C h .step) := by
  have hI := hl.inv
  have hgone := hl.gone
  have hinv := inv_receive (C := C) (h := h) hI
  rcases step_cases (C := C) (h := h) hI with hmove | ⟨hw, reply, f, d, hto, hmove⟩ |
    ⟨hr, hp⟩ | ⟨hr, -, -, reply, f, d, hs, hmove⟩
  · rwa [hmove]
  · rw [hmove] at hinv ⊢
    rcases hto with hs | ho | ha
    · exact .stops hI hw.live hs
    · exact ⟨hinv, ho.gone hI hgone⟩
    · rw [ha.ready] at hgone
      exact hgone.elim
  · rw [hr] at hgone
    exact ⟨hinv, hp.gone hr hgone⟩
  · rw [hmove]
    exact .stops hI (by rw [hr]; nofun) hs

theorem lost_stays {m : DeliveryMove} (hl : Lost h x) (hs : DeliveryStep C h x m x') :
    Lost h x' := by
  obtain ⟨hrest, rfl⟩ := hs
  cases m with
  | feed n => exact lost_feed hl n
  | step => exact lost_receive hl
  | eof => exact lost_eof hl (hrest rfl)

/-! ## Every move follows the schedule -/

theorem turn_step (x : Delivery σ) : DeliveryStep C h x x.turn (x.next C h) := by
  refine ⟨fun he => ?_, rfl⟩
  rw [Delivery.turn] at he
  split at he
  · cases he
  split at he
  · next hend => exact hend.1
  · cases he

theorem rejoins_turn {m : DeliveryMove} (hm : x.turn = m) :
    Rejoins (Delivery.next C h) x (x.move C h m) := by
  rw [← hm]
  exact rejoins_next x

theorem follows_feed (hI : DeliveryInv x) (n : Nat) :
    Lost h x ∨ Rejoins (Delivery.next C h) x (x.move C h (.feed n)) := by
  rcases feed_cases (C := C) (h := h) hI n with hmove | ⟨hr, k, hk, hroom, hmove⟩ |
    ⟨hr, heof, k, hk, hword, hroom, hmove⟩ | ⟨hr, heof, hlong, -⟩
  · rw [hmove]
    exact .inr (.refl x)
  · have hshape := hI.shape
    rw [hr] at hshape
    rw [hmove]
    exact .inr (rejoins_headed hr hshape.2.eof hk hshape.1 hroom)
  · have hshape := hI.shape
    rw [hr] at hshape
    rw [hmove]
    exact .inr (rejoins_worded hr heof hk hword hshape.2.1.room hroom)
  · have hshape := hI.shape
    rw [hr] at hshape
    have hle := hshape.2.1.room
    rw [UInt32.toNat_sub_of_le _ _ hle] at hlong
    refine .inl ⟨hI, ?_⟩
    rw [hr]
    exact .inl ⟨heof, by omega⟩

theorem Missing.lost (hI : DeliveryInv x) (hm : Missing x.receiver)
    (hrest : x.rest = []) (heof : x.receiver.eof = false) : Lost h x := by
  refine ⟨hI, ?_⟩
  rcases hm with hr | hr | hr | hr | ⟨hr, hne⟩ <;> rw [hr]
  · exact hrest
  · exact hrest
  · exact hrest
  · exact hrest
  · refine .inl ⟨heof, ?_⟩
    rw [hrest]
    exact fun hall => hne (UInt32.toNat_inj.mp hall)

theorem follows_eof (hI : DeliveryInv x) (hrest : x.rest = []) :
    Lost h x ∨ Rejoins (Delivery.next C h) x (x.move C h .eof) := by
  rcases eof_cases (C := C) (h := h) hI with hmove | ⟨hr, heof, hall, hmove⟩ |
    ⟨hm, heof, -⟩
  · rw [hmove]
    exact .inr (.refl x)
  · refine .inr (rejoins_turn ?_)
    rw [Delivery.turn, if_neg (fun hc => hc.1 hrest), if_pos ⟨hrest, hr, hall, heof⟩]
  · exact .inl (hm.lost hI hrest heof)

theorem move_ended (hI : DeliveryInv x) (hr : x.receiver.phase = .payload)
    (hall : x.receiver.received = x.receiver.evidence.incoming.payloadLength) :
    x.move C h .eof = x.ended := by
  have hshape := hI.shape
  rw [hr] at hshape
  exact call_eof (eof_complete hshape.1 (by rw [hr]) (by rw [hr]; nofun) hall)

/-- All of the stream is in the receiver. -/
structure WholeSent (x : Delivery σ) : Prop where
  phase : x.receiver.phase = .payload
  rest : x.rest = []
  all : x.receiver.received = x.receiver.evidence.incoming.payloadLength

theorem WholeSent.announces (hw : WholeSent x) (hI : DeliveryInv x)
    (heof : x.receiver.eof = false) :
    x.next C h = x.ended := by
  rw [Delivery.next, Delivery.turn, if_neg fun hc => hc.1 hw.rest,
    if_pos ⟨hw.rest, hw.phase, hw.all, heof⟩, move_ended hI hw.phase hw.all]

theorem WholeSent.steps (hw : WholeSent x) (heof : x.receiver.eof = true) :
    x.next C h = x.move C h .step := by
  rw [Delivery.next, Delivery.turn, if_neg fun hc => hc.1 hw.rest, if_neg]
  rintro ⟨-, -, -, he⟩
  rw [heof] at he
  cases he

theorem WholeSent.ended (hw : WholeSent x) : WholeSent x.ended := ⟨hw.phase, hw.rest, hw.all⟩

theorem WholeSent.wrote (hw : WholeSent x) : WholeSent (x.wrote h) :=
  ⟨hw.phase, hw.rest, hw.all⟩

/-- The last word may be programmed before the end is announced, or behind it. -/
theorem WholeSent.rejoins_last (hw : WholeSent x) (hI : DeliveryInv x)
    (hword : x.receiver.word.length = 4) (hok : (x.programs h).1.1 = .ok)
    (heof : x.receiver.eof = false) :
    Rejoins (Delivery.next C h) x (x.move C h .step) := by
  have hcount : (Boot.wrote x.receiver).programmed =
      x.receiver.evidence.incoming.payloadLength := by
    rw [← hw.all]
    exact UInt32.toNat_inj.mp (toNat_wrote hI hw.phase hword)
  have hbehind : x.ended.next C h = (x.ended.wrote h).closed := by
    rw [hw.ended.steps rfl]
    exact step_last hw.ended.phase hword hok rfl hcount
  have hbefore : (x.wrote h).ended.next C h = (x.wrote h).ended.closed := by
    rw [hw.wrote.ended.steps rfl]
    exact step_ends hw.wrote.ended.phase nofun ⟨rfl, hcount⟩
  refine ⟨2, 2, ?_⟩
  show (x.next C h).next C h = ((x.move C h .step).next C h).next C h
  rw [step_wrote hw.phase hword hok heof, hw.announces hI heof,
    hw.wrote.announces (hI.wrote hw.phase hword) heof, hbehind, hbefore]
  rfl

theorem follows_step (hI : DeliveryInv x) :
    Lost h x ∨ Rejoins (Delivery.next C h) x (x.move C h .step) := by
  by_cases hturn : x.turn = .step
  · exact .inr (rejoins_turn hturn)
  rcases step_cases (C := C) (h := h) hI with hmove | ⟨hw, -⟩ | ⟨hr, hp⟩ |
    ⟨hr, hword, hfail, -⟩
  · rw [hmove]
    exact .inr (.refl x)
  · refine absurd ?_ hturn
    rw [Delivery.turn, if_neg, if_neg]
    · rintro ⟨-, hr, -⟩
      rw [hr] at hw
      rcases hw with hw | hw | hw | hw | hw | hw <;> cases hw
    · rintro ⟨-, hr | ⟨hr, -⟩⟩ <;> rw [hr] at hw <;>
        rcases hw with hw | hw | hw | hw | hw | hw <;> cases hw
  · have hshape := hI.shape
    rw [hr] at hshape
    generalize hx : x.move C h .step = x' at hp
    cases hp with
    | programs hword hok =>
        rw [← hx]
        by_cases hend : x.rest = [] ∧ x.receiver.phase = .payload ∧
            x.receiver.received = x.receiver.evidence.incoming.payloadLength ∧
            x.receiver.eof = false
        · obtain ⟨hrest, -, hall, heof⟩ := hend
          exact .inr (WholeSent.rejoins_last ⟨hr, hrest, hall⟩ hI hword hok heof)
        · refine absurd ?_ hturn
          rw [Delivery.turn, if_neg, if_neg hend]
          rintro ⟨-, hh | ⟨-, hlt⟩⟩
          · rw [hr] at hh
            cases hh
          · omega
    | ends hword heof hall =>
        obtain ⟨hrest, -⟩ := hshape.2.2 heof
        refine absurd ?_ hturn
        rw [Delivery.turn, if_neg fun hc => hc.1 hrest, if_neg]
        rintro ⟨-, -, -, he⟩
        rw [heof] at he
        cases he
  · refine .inl ⟨hI, ?_⟩
    rw [hr]
    exact .inr ⟨hword, hfail⟩

theorem delivery_follows {m : DeliveryMove} (hI : DeliveryInv x)
    (hs : DeliveryStep C h x m x') : Lost h x ∨ Rejoins (Delivery.next C h) x x' := by
  obtain ⟨hrest, rfl⟩ := hs
  cases m with
  | feed n => exact follows_feed hI n
  | step => exact follows_step hI
  | eof => exact follows_eof hI (hrest rfl)

theorem delivery_scheduled :
    Scheduled (DeliveryStep C h) (Delivery.next C h) DeliveryInv (Lost h) :=
  ⟨delivery_keeps, delivery_follows, lost_stays, fun hl => lost_stays hl (turn_step _)⟩

theorem next_terminal (hr : x.receiver.phase = .terminal) : x.next C h = x := by
  have hturn : x.turn = .step := by
    rw [Delivery.turn, if_neg, if_neg]
    · rintro ⟨-, hh, -⟩
      rw [hr] at hh
      cases hh
    · rintro ⟨-, hh | ⟨hh, -⟩⟩ <;> rw [hr] at hh <;> cases hh
  rw [Delivery.next, hturn]
  exact step_still (.inl hr)

/-- From every state of a delivery that can be accepted the schedule leads to the state
in which it was. -/
theorem schedule_returns {x₀ x₁ x₂ : Delivery σ}
    {tr₁ tr₂ : List (DeliveryMove × Delivery σ)} (hI : DeliveryInv x₀)
    (h₁ : Run (DeliveryStep C h) x₀ tr₁ x₁) (h₂ : Run (DeliveryStep C h) x₀ tr₂ x₂)
    (ho : x₁.out.isSome = true) : ∃ n, (Delivery.next C h)^[n] x₂ = x₁ := by
  obtain ⟨hr, hf⟩ := (h₁.invariant (I := DeliveryInv) delivery_keeps hI).out.mp ho
  refine delivery_scheduled.returns hI h₁ h₂ (next_terminal hr) fun hl => ?_
  have hgone := hl.gone
  rw [hr] at hgone
  exact hgone hf

/-- Of two deliveries of one stream, one accepted and one at an end, neither has
anything the other has not. -/
theorem schedule_unique {x₀ x₁ x₂ : Delivery σ}
    {tr₁ tr₂ : List (DeliveryMove × Delivery σ)} (hI : DeliveryInv x₀)
    (h₁ : Run (DeliveryStep C h) x₀ tr₁ x₁) (h₂ : Run (DeliveryStep C h) x₀ tr₂ x₂)
    (ho : x₁.out.isSome = true) (ht : x₂.receiver.phase = .terminal) : x₂ = x₁ := by
  obtain ⟨n, hreach⟩ := schedule_returns hI h₁ h₂ ho
  rwa [Function.iterate_fixed (next_terminal ht)] at hreach

theorem next_reaches (x : Delivery σ) (n : Nat) :
    Reaches (DeliveryStep C h) x ((Delivery.next C h)^[n] x) := by
  induction n with
  | zero => exact .refl x
  | succ n ih =>
      rw [Function.iterate_succ_apply']
      exact ih.trans (.single (turn_step _))

/-! ## The beginning -/

/-- What a begin leaves: nothing, a receiver that waits for the manifest, or a
stopped one. -/
def Begun (config : BootReceiveConfig) (reply : ReceiveReply) : Prop :=
  Stops reply ∨
    (reply.receiver.phase = .new ∨ reply.receiver.phase = .header ∧
      reply.receiver.permittedSlot = config.permittedSlot ∧
      reply.receiver.manifest = [] ∧ Blank reply.receiver) ∧
    reply.receiver.failure = .ok ∧ reply.acceptance = none ∧ reply.accepted = 0

theorem begin_to {config : BootReceiveConfig} :
    Safe Anything (bootReceiveBegin config bootReceiveInit) (Begun config) := by
  rw [bootReceiveBegin, if_neg (by decide)]
  split
  · exact safe_pure (.inr ⟨.inl rfl, rfl, rfl, rfl⟩)
  refine safe_bind (safe_anything _) fun y _ => ?_
  obtain ⟨loaded, kept⟩ := y
  cases loaded with
  | error e =>
      refine safe_ask fun blocked => ⟨trivial, safe_pure (.inl (stops_stop ?_))⟩
      split <;> decide
  | ok snapshot =>
      dsimp only [beginRunning]
      split
      · exact safe_pure (.inl (stops_stop (by decide)))
      refine safe_bind (safe_anything _) fun running _ => ?_
      cases running with
      | none =>
          refine safe_ask fun blocked => ⟨trivial, ?_⟩
          cases blocked with
          | none => exact safe_pure (.inl (stops_stop (by decide)))
          | some cause => exact safe_pure (.inl (stops_stop (by decide)))
      | some image =>
          exact safe_pure (.inr ⟨.inr ⟨rfl, rfl, rfl, rfl, rfl, rfl, rfl⟩, rfl, rfl, rfl⟩)

/-- What comes of the begin, in a delivery. -/
theorem begun_after (C : Crypto) (h : Replies σ) (config : BootReceiveConfig)
    (f : BootFlash) (d : σ) (stream : List UInt8) :
    ∃ reply f' d', Begun config reply ∧ Delivery.begun C h config f d stream =
      (Delivery.mk bootReceiveInit f d stream none).after reply f' d' :=
  ⟨_, _, _, served_safe begin_to f d, rfl⟩

theorem begun_inv (C : Crypto) (h : Replies σ) (config : BootReceiveConfig)
    (f : BootFlash) (d : σ) (stream : List UInt8) :
    DeliveryInv (.begun C h config f d stream) := by
  obtain ⟨reply, f', d', hb, hbegun⟩ := begun_after C h config f d stream
  rw [hbegun]
  rcases hb with hs | ⟨hphase, hf, hacc, htaken⟩
  · exact DeliveryInv.stops (.of_live trivial nofun rfl rfl) nofun hs
  refine .of_live ?_ ?_ hf ?_
  · show Shape reply.receiver _ reply.receiver.phase
    rcases hphase with hr | ⟨hr, -, hm, hblank⟩ <;> rw [hr]
    · trivial
    · exact ⟨by rw [hm]; decide, hblank⟩
  · show reply.receiver.phase ≠ .terminal
    rcases hphase with hr | ⟨hr, -⟩ <;> rw [hr] <;> nofun
  · show reply.acceptance.or none = none
    rw [hacc]
    rfl

/-! ## An honest device -/

section Honest

variable {trusted : UInt32 → Prop} {current slot : UInt32} {π : σ → FlashDevice}
  {stream : List UInt8}

/-! ### What moves leave alone -/

theorem still_terminal {m : DeliveryMove} (hI : DeliveryInv x)
    (hr : x.receiver.phase = .terminal ∨ x.receiver.phase = .new)
    (hs : DeliveryStep C h x m x') : x' = x := by
  obtain ⟨-, rfl⟩ := hs
  cases m with
  | feed n =>
      rcases feed_cases (C := C) (h := h) hI n with hmove | ⟨hp, -⟩ | ⟨hp, -⟩ | ⟨hp, -⟩
      · exact hmove
      all_goals rcases hr with hr | hr <;> rw [hr] at hp <;> cases hp
  | step => exact step_still (hr.imp_right .inl)
  | eof =>
      rcases eof_cases (C := C) (h := h) hI with hmove | ⟨hp, -⟩ | ⟨hm, -⟩
      · exact hmove
      · rcases hr with hr | hr <;> rw [hr] at hp <;> cases hp
      · rcases hm with hm | hm | hm | hm | ⟨hm, -⟩ <;> rcases hr with hr | hr <;>
          rw [hr] at hm <;> cases hm

theorem Programs.frame (hp : Programs h x x') :
    x'.receiver.permittedSlot = x.receiver.permittedSlot ∧ x'.rest = x.rest ∧
      x'.out = x.out := by
  cases hp with
  | programs hword hok =>
      refine ⟨?_, rfl, rfl⟩
      dsimp only
      rw [payloadEnd]
      split <;> rfl
  | ends hword heof hall => exact ⟨rfl, rfl, rfl⟩

theorem slot_kept {m : DeliveryMove} (hI : DeliveryInv x) (hs : DeliveryStep C h x m x')
    (hlive : x'.receiver.phase ≠ .terminal) :
    x'.receiver.permittedSlot = x.receiver.permittedSlot := by
  obtain ⟨-, rfl⟩ := hs
  have hstop : ∀ {reply f d}, Stops reply → x.move C h m = x.after reply f d → False := by
    intro reply f d hs hmove
    rw [hmove] at hlive
    exact hlive hs.phase
  cases m with
  | feed n =>
      rcases feed_cases (C := C) (h := h) hI n with hmove | ⟨-, k, -, -, hmove⟩ |
        ⟨-, -, k, -, -, -, hmove⟩ | ⟨-, -, -, reply, f, d, hs, hmove⟩
      · rw [hmove]
      · rw [hmove]
        rfl
      · rw [hmove]
        rfl
      · exact (hstop hs hmove).elim
  | step =>
      rcases step_cases (C := C) (h := h) hI with hmove | ⟨-, reply, f, d, hto, hmove⟩ |
        ⟨-, hp⟩ | ⟨-, -, -, reply, f, d, hs, hmove⟩
      · rw [hmove]
      · rcases hto with hs | ho | ha
        · exact (hstop hs hmove).elim
        · rw [hmove]
          exact ho.same.slot
        · rw [hmove]
          exact ha.slot
      · exact hp.frame.1
      · exact (hstop hs hmove).elim
  | eof =>
      rcases eof_cases (C := C) (h := h) hI with hmove | ⟨-, -, -, hmove⟩ |
        ⟨-, -, reply, f, d, hs, hmove⟩
      · rw [hmove]
      · rw [hmove]
        rfl
      · exact (hstop hs hmove).elim

theorem after_rest {reply : ReceiveReply} {f : BootFlash} {d : σ}
    (h0 : reply.accepted = 0) : (x.after reply f d).rest = x.rest := by
  rw [Delivery.after, h0]
  rfl

theorem after_out {reply : ReceiveReply} {f : BootFlash} {d : σ}
    (hnone : reply.acceptance = none) : (x.after reply f d).out = x.out := by
  rw [Delivery.after, hnone]
  rfl

theorem Stops.after {reply : ReceiveReply} {f : BootFlash} {d : σ} (hs : Stops reply) :
    (x.after reply f d).rest = x.rest ∧ (x.after reply f d).out = x.out :=
  ⟨after_rest hs.accepted, after_out hs.acceptance⟩

/-- Only a feed takes anything, and only a last step gives anything. -/
theorem step_takes (hI : DeliveryInv x) : (x.move C h .step).rest = x.rest ∧
    ((x.move C h .step).out = x.out ∨
      Concludes x.receiver ((ReceiveCall.perform C x.receiver x.flash .step).run h
        x.device).1.1) := by
  rcases step_cases (C := C) (h := h) hI with hmove | ⟨hw, -⟩ | ⟨-, hp⟩ |
    ⟨-, -, -, reply, f, d, hs, hmove⟩
  · rw [hmove]
    exact ⟨rfl, .inl rfl⟩
  · rcases served_safe (h := h) (step_to (C := C) hw) x.flash x.device with hs | ho | ha
    · exact ⟨hs.after.1, .inl hs.after.2⟩
    · exact ⟨after_rest ho.accepted, .inl (after_out ho.acceptance)⟩
    · exact ⟨after_rest ha.accepted, .inr ha⟩
  · exact ⟨hp.frame.2.1, .inl hp.frame.2.2⟩
  · rw [hmove]
    exact ⟨hs.after.1, .inl hs.after.2⟩

theorem eof_takes (hI : DeliveryInv x) :
    (x.move C h .eof).rest = x.rest ∧ (x.move C h .eof).out = x.out := by
  rcases eof_cases (C := C) (h := h) hI with hmove | ⟨-, -, -, hmove⟩ |
    ⟨-, -, reply, f, d, hs, hmove⟩
  · rw [hmove]
    exact ⟨rfl, rfl⟩
  · rw [hmove]
    exact ⟨rfl, rfl⟩
  · rw [hmove]
    exact hs.after

theorem feed_out (hI : DeliveryInv x) (n : Nat) : (x.move C h (.feed n)).out = x.out := by
  rcases feed_cases (C := C) (h := h) hI n with hmove | ⟨-, k, -, -, hmove⟩ |
    ⟨-, -, k, -, -, -, hmove⟩ | ⟨-, -, -, reply, f, d, hs, hmove⟩
  · rw [hmove]
  · rw [hmove]
    rfl
  · rw [hmove]
    rfl
  · rw [hmove]
    exact hs.after.2

theorem feed_accepted (r : BootReceive) (p : List UInt8) :
    (bootReceiveFeed r p).accepted ≤ p.length := by
  rw [bootReceiveFeed]
  split
  · exact Nat.zero_le _
  split
  · exact Nat.zero_le _
  split
  · exact Nat.zero_le _
  split
  · exact Nat.zero_le _
  split
  · exact Nat.min_le_right _ _
  split
  · dsimp only
    split
    · exact Nat.zero_le _
    · exact Nat.min_le_right _ _
  · exact Nat.zero_le _

/-! ### The receiver's own invariant -/

/-- What a delivery to an honest device keeps: the receiver's own invariant for
the bytes that are not left, and what was landed. -/
structure HonestInv (C : Crypto) (trusted : UInt32 → Prop) (current slot : UInt32)
    (stream : List UInt8) (π : σ → FlashDevice) (x : Delivery σ) : Prop where
  delivery : DeliveryInv x
  slot_eq : x.receiver.phase ≠ .terminal → x.receiver.phase ≠ .new →
    x.receiver.permittedSlot = slot
  fed : ∃ fed, stream = fed ++ x.rest ∧
    ReceiveInv C trusted current fed x.receiver (π x.device).board
  quiet : Quiet x.flash (π x.device)
  landed : ∀ a, x.out = some a →
    ∃ m, Landed stream slot (π x.device).board.mem m a.snapshot

/-- One call on an honest device. -/
theorem call_honest (hv : (Handler.ofFun h).Views (controllerDevice.sum hostDevice) π)
    {fed : List UInt8}
    (hr : ReceiveInv C trusted current fed x.receiver (π x.device).board)
    (hq : Quiet x.flash (π x.device)) (call : ReceiveCall) :
    let y := (call.perform C x.receiver x.flash).run h x.device
    Returned C trusted current fed call y.1.1 (π y.2).board ∧ Quiet y.1.2 (π y.2) := by
  have he := exec_run (H := Handler.ofFun h) (fun _ _ => rfl)
    (call.perform C x.receiver x.flash) x.device
  exact (he.view hv).post (perform_wp hr hq call)

theorem honestInv_step {m : DeliveryMove}
    (hv : (Handler.ofFun h).Views (controllerDevice.sum hostDevice) π)
    (hH : HonestInv C trusted current slot stream π x) (hs : DeliveryStep C h x m x') :
    HonestInv C trusted current slot stream π x' := by
  have hI := hH.delivery
  have hI' := delivery_keeps hI hs
  by_cases hstill : x.receiver.phase = .terminal ∨ x.receiver.phase = .new
  · rw [still_terminal hI hstill hs]
    exact hH
  obtain ⟨hlive, hnew⟩ := not_or.mp hstill
  have hslot := hH.slot_eq hlive hnew
  have hslot' : x'.receiver.phase ≠ .terminal → x'.receiver.phase ≠ .new →
      x'.receiver.permittedSlot = slot := fun hl _ => (slot_kept hI hs hl).trans hslot
  obtain ⟨fed, hfed, hinv⟩ := hH.fed
  obtain ⟨-, rfl⟩ := hs
  have hnone := hI.out_none hlive
  cases m with
  | feed n =>
      obtain ⟨hret, hq⟩ := call_honest hv hinv hH.quiet (.feed (x.rest.take n))
      refine ⟨hI', hslot', ⟨_, ?_, hret.inv⟩, hq, fun a ha => ?_⟩
      · have hle : (bootReceiveFeed x.receiver (x.rest.take n)).accepted ≤ n :=
          (feed_accepted _ _).trans (by rw [List.length_take]; exact min_le_left _ _)
        show stream = fed ++ (x.rest.take n).take
          (bootReceiveFeed x.receiver (x.rest.take n)).accepted ++ x.rest.drop
            (bootReceiveFeed x.receiver (x.rest.take n)).accepted
        rw [List.take_take, min_eq_left hle, List.append_assoc, List.take_append_drop]
        exact hfed
      · rw [feed_out hI, hnone] at ha
        cases ha
  | eof =>
      obtain ⟨hret, hq⟩ := call_honest hv hinv hH.quiet .eof
      refine ⟨hI', hslot', ⟨_, ?_, hret.inv⟩, hq, fun a ha => ?_⟩
      · rw [(eof_takes hI).1]
        exact hfed.trans (congrArg (· ++ x.rest) (List.append_nil fed).symm)
      · rw [(eof_takes hI).2, hnone] at ha
        cases ha
  | step =>
      obtain ⟨hret, hq⟩ := call_honest hv hinv hH.quiet .step
      refine ⟨hI', hslot', ⟨_, ?_, hret.inv⟩, hq, fun a ha => ?_⟩
      · rw [(step_takes hI).1]
        exact hfed.trans (congrArg (· ++ x.rest) (List.append_nil fed).symm)
      · rcases (step_takes (C := C) (h := h) hI).2 with hout | hacc
        · rw [hout, hnone] at ha
          cases ha
        · obtain ⟨m, a', hacc', hland⟩ := hret.accepted hacc.result
          have hshape := hI.shape
          rw [hacc.ready] at hshape
          rw [hshape.2.2.1, List.append_nil] at hfed
          have haeq : a' = a := by
            have hout : Option.or (some a') x.out = some a := by
              rw [← hacc']
              exact ha
            exact Option.some.inj hout
          rw [← haeq, hfed]
          refine ⟨m, ?_⟩
          rw [← hslot, ← hacc.slot]
          exact hland

theorem begun_honest {config : BootReceiveConfig} {f : BootFlash} {d : σ}
    {a : BootStoreSnapshot}
    (hv : (Handler.ofFun h).Views (controllerDevice.sum hostDevice) π)
    (hload : bootStoreLoad.eval (storeAnswers (π d).board.mem) = .ok a)
    (hlog : (π d).board.log = []) (hq : Quiet f (π d)) :
    HonestInv C (fun _ => False) a.record.currentSlot config.permittedSlot stream π
      (.begun C h config f d stream) := by
  have hfresh : StationInv C (fun _ => False) a.record.currentSlot [] id
      ⟨bootReceiveInit, f, π d, true⟩ :=
    station_fresh hload (fun _ _ hf => hf.elim) hlog hq
  obtain ⟨hret, hquiet⟩ := call_honest (x := ⟨bootReceiveInit, f, d, stream, none⟩) hv
    (hfresh.receiver rfl) hq (.begin config)
  obtain ⟨reply, f', d', hb, hbegun⟩ := begun_after C h config f d stream
  have hI := begun_inv C h config f d stream
  have hrest : (Delivery.begun C h config f d stream).rest = stream ∧
      (Delivery.begun C h config f d stream).out = none := by
    rw [hbegun]
    rcases hb with hs | ⟨-, -, hacc, htaken⟩
    · exact hs.after
    · exact ⟨after_rest htaken, after_out hacc⟩
  refine ⟨hI, fun hlive hnew => ?_, ⟨[], ?_, hret.inv⟩, hquiet, fun a ha => ?_⟩
  · rw [hbegun] at hlive hnew ⊢
    rcases hb with hs | ⟨hphase, -⟩
    · exact absurd hs.phase hlive
    · rcases hphase with hr | ⟨-, hslot, -⟩
      · exact absurd hr hnew
      · exact hslot
  · rw [hrest.1]
    rfl
  · rw [hrest.2] at ha
    cases ha

theorem Landed.same_length {stream' : List UInt8} {slot' : UInt32} {mem mem' : ByteMem}
    {m m' : BootManifest} {s s' : BootStoreSnapshot} (hl : Landed stream slot mem m s)
    (hl' : Landed stream' slot' mem' m' s')
    (hfront : stream'.take bootManifestBytes = stream.take bootManifestBytes) :
    stream'.length = stream.length := by
  have hm : m' = m := by
    have hd := hl'.decoded
    rw [hfront, hl.decoded] at hd
    exact (Except.ok.inj hd).symm
  rw [hl'.length, hl.length, hm]

theorem Landed.unique {stream' : List UInt8} {slot' : UInt32} {mem mem' : ByteMem}
    {m m' : BootManifest} {s s' : BootStoreSnapshot} (hl : Landed stream slot mem m s)
    (hl' : Landed stream' slot' mem' m' s')
    (hends : stream <+: stream' ∨ stream' <+: stream) : stream' = stream := by
  have hlen := hl.length
  have hlen' := hl'.length
  rcases hends with ⟨t, rfl⟩ | ⟨t, rfl⟩
  · have hfront := hl.same_length hl' (List.take_append_of_le_length (by omega))
    exact ((List.prefix_append stream t).eq_of_length hfront.symm).symm
  · have hfront := hl.same_length hl' (List.take_append_of_le_length (by omega)).symm
    exact (List.prefix_append stream' t).eq_of_length hfront

/-- What a step of the receiver returns. -/
def Delivery.result (C : Crypto) (h : Replies σ) (x : Delivery σ) : BootReceiveResult :=
  ((ReceiveCall.step.perform C x.receiver x.flash).run h x.device).1.1.result

theorem result_accepted (hs : x.result C h = .accepted) :
    ∃ acceptance, (x.move C h .step).out = some acceptance := by
  obtain ⟨-, -, acceptance, hacc, -⟩ :=
    (served_safe (h := h) (step_phased (C := C)) x.flash x.device).accepted hs
  exact ⟨acceptance, congrArg (Option.or · x.out) hacc⟩

/-- A receiver is not begun where no record loads. -/
theorem begin_unloaded {b : Board}
    (hload : ∀ a, bootStoreLoad.eval (storeAnswers b.mem) ≠ .ok a)
    (config : BootReceiveConfig) :
    wp boardDevice (fun _ => True) (bootReceiveBegin config bootReceiveInit)
      (fun reply _ => reply.receiver.phase = .terminal ∨ reply.receiver.phase = .new) b := by
  unfold bootReceiveBegin
  rw [if_neg (by decide)]
  split
  · exact .inr rfl
  rw [wp_bind']
  refine wp_mono (receive_load_wp .ok b) (fun _ _ => trivial) fun x b' hx => ?_
  obtain ⟨loaded, kept⟩ := x
  cases loaded with
  | error e => exact wp_ask_bind.mpr ⟨fun _ _ => trivial, fun _ _ _ => .inl rfl⟩
  | ok a => exact absurd (hx.2 a rfl) (hload a)

theorem run_unloaded {config : BootReceiveConfig} {f : BootFlash} {d : σ}
    {tr : List (DeliveryMove × Delivery σ)}
    (hv : (Handler.ofFun h).Views (controllerDevice.sum hostDevice) π)
    (hload : ∀ a, bootStoreLoad.eval (storeAnswers (π d).board.mem) ≠ .ok a)
    (hq : Quiet f (π d)) (hr : Run (DeliveryStep C h) (.begun C h config f d stream) tr x) :
    (x.receiver.phase = .terminal ∨ x.receiver.phase = .new) ∧ x.out = none := by
  have hbegun : (Delivery.begun C h config f d stream).receiver.phase = .terminal ∨
      (Delivery.begun C h config f d stream).receiver.phase = .new := by
    have he := exec_run (H := Handler.ofFun h) (fun _ _ => rfl)
      (ReceiveCall.perform C bootReceiveInit f (.begin config)) d
    exact ((he.view hv).post (wp_interp serveReceive_wp hq (begin_unloaded hload config))).1
  have hkeep : x = .begun C h config f d stream := (hr.invariant
    (I := fun y => DeliveryInv y ∧ y = .begun C h config f d stream)
    (fun {y m y'} hy hs => ⟨delivery_keeps hy.1 hs, by
      rw [still_terminal hy.1 (hy.2 ▸ hbegun) hs, hy.2]⟩)
    ⟨begun_inv C h config f d stream, rfl⟩).2
  rw [hkeep]
  refine ⟨hbegun, ?_⟩
  obtain ⟨reply, f', d', hb, hafter⟩ := begun_after C h config f d stream
  rw [hafter]
  rcases hb with hs | ⟨-, -, hacc, -⟩
  · exact hs.after.2
  · exact after_out hacc

/-- However a stream is cut and stepped, its counters agree while it arrives. When
it is accepted, the whole of it is a manifest and a payload, both where they belong,
every other delivery of it that comes to an end is accepted too and leaves the very
same state, and no stream with a byte more or less behind the manifest is accepted,
nor one that goes on behind its end or stops before it. -/
theorem receive_end_to_end {config : BootReceiveConfig} {f : BootFlash} {d : σ}
    {tr : List (DeliveryMove × Delivery σ)}
    (hv : (Handler.ofFun h).Views (controllerDevice.sum hostDevice) π)
    (hlog : (π d).board.log = []) (hq : Quiet f (π d))
    (hr : Run (DeliveryStep C h) (.begun C h config f d stream) tr x) :
    (x.receiver.phase = .payload →
      x.receiver.received.toNat =
        x.receiver.programmed.toNat + x.receiver.word.length ∧
      x.receiver.received ≤ x.receiver.evidence.incoming.payloadLength) ∧
    (x.result C h = .accepted →
      ∃ acceptance, (x.move C h .step).out = some acceptance) ∧
    ∀ acceptance, x.out = some acceptance →
      (∃ m, Landed stream config.permittedSlot (π x.device).board.mem m
        acceptance.snapshot) ∧
      (∀ tr' x', Run (DeliveryStep C h) (.begun C h config f d stream) tr' x' →
        x'.receiver.phase = .terminal → x' = x) ∧
      ∀ stream' tr' x', Run (DeliveryStep C h) (.begun C h config f d stream') tr' x' →
        x'.out.isSome = true →
        (stream'.take bootManifestBytes = stream.take bootManifestBytes →
          stream'.length = stream.length) ∧
        (stream <+: stream' ∨ stream' <+: stream → stream' = stream) := by
  refine ⟨fun hp => ?_, result_accepted, fun acceptance ho => ?_⟩
  · have hI : DeliveryInv x :=
      hr.invariant (I := DeliveryInv) delivery_keeps (begun_inv C h config f d stream)
    have hshape := hI.shape
    rw [hp] at hshape
    exact ⟨hshape.2.1.received, hshape.2.1.room⟩
  by_cases hload : ∀ a, bootStoreLoad.eval (storeAnswers (π d).board.mem) ≠ .ok a
  · rw [(run_unloaded hv hload hq hr).2] at ho
    cases ho
  obtain ⟨a, hload⟩ := not_forall_not.mp hload
  have hall : ∀ {stream : List UInt8} {tr : List (DeliveryMove × Delivery σ)} {x},
      Run (DeliveryStep C h) (.begun C h config f d stream) tr x →
      HonestInv C (fun _ => False) a.record.currentSlot config.permittedSlot stream π x :=
    fun {stream tr x} hr => hr.invariant
      (I := HonestInv C (fun _ => False) a.record.currentSlot config.permittedSlot stream π)
      (honestInv_step hv) (begun_honest hv hload hlog hq)
  have hH := hall hr
  refine ⟨hH.landed _ ho, fun tr' x' hr' ht => ?_, fun stream' tr' x' hr' ho' => ?_⟩
  · exact schedule_unique (begun_inv C h config f d stream) hr hr' (by rw [ho]; rfl) ht
  · obtain ⟨acceptance', ho'⟩ := Option.isSome_iff_exists.mp ho'
    obtain ⟨m, hl⟩ := hH.landed _ ho
    obtain ⟨m', hl'⟩ := (hall hr').landed _ ho'
    exact ⟨hl.same_length hl', hl.unique hl'⟩

end Honest

end Deliveries

/-- One delivery of the package for slot B is in the middle of a word of the payload.
Another has been accepted. -/
theorem receive_end_to_end_station :
    (∃ tr x, Run (DeliveryStep packageCrypto workingController) stationDelivery tr x ∧
      x.receiver.phase = .payload ∧ x.receiver.received.toNat = 42 ∧
      x.receiver.received.toNat =
        x.receiver.programmed.toNat + x.receiver.word.length) ∧
    ∃ tr x p, Run (DeliveryStep packageCrypto workingController) stationDelivery tr x ∧
      x.out = some ⟨⟨readyRecord, p⟩, packageImage bootSlotB, true⟩ ∧
      (∃ m, Landed (packageWire bootSlotB ++ packagePayload bootSlotB) bootSlotB
        x.device.mem m ⟨readyRecord, p⟩) ∧
      ∀ tr' x', Run (DeliveryStep packageCrypto workingController) stationDelivery tr' x' →
        x'.receiver.phase = .terminal → x' = x := by
  have hrest : AtRest workingDriver stationBoard := ⟨rfl, rfl⟩
  have hlen : (packagePayload bootSlotB).length = 236 := station_deliverable.payload_length
  constructor
  · obtain ⟨x, hx, hfilling⟩ := fills station_deliverable hrest station_authority
      (k := 10) (by omega)
    obtain ⟨htake, hfed⟩ := hfilling.feeds station_deliverable (n := 2) (by decide)
      (by decide) (by omega)
    obtain ⟨tr, hr⟩ := hx.trans (feed_reaches 2)
    rw [hfed] at hr
    have hword := (receive_end_to_end workingController_views rfl (fun _ => rfl) hr).1
      hfilling.phase
    refine ⟨tr, _, hr, hfilling.phase, ?_, hword.1⟩
    rw [hword.1]
    show x.receiver.programmed.toNat + (x.receiver.word ++ x.rest.take 2).length = 42
    rw [hfilling.programmed, hfilling.word, htake]
    rfl
  · obtain ⟨x, p, ⟨tr, hr⟩, -, hout, -⟩ := arrives station_deliverable hrest station_authority
    obtain ⟨hland, hsame, -⟩ :=
      (receive_end_to_end workingController_views rfl (fun _ => rfl) hr).2.2 _ hout
    exact ⟨tr, x, p, hr, hout, hland, hsame⟩

/-! ## Packages that go through -/

/-- A package that goes through is accepted by a board that works. Whatever was done of
its delivery, the rest of it can be done, and the end is always the same. -/
theorem package_accepted {C : Crypto} {e : BootUploadEvidence} {page : UInt32}
    {r₀ r₁ r₂ : BootMetadata} {image : BootVerifiedImage} {wire payload : List UInt8}
    {f : BootFlash} {d : WorkingDevice}
    (hp : Deliverable C e page r₀ r₁ r₂ image wire payload) (hr : AtRest f d)
    (h : Authority d.mem page r₀) :
    ∃ y p, y.receiver.phase = .terminal ∧ y.out = some ⟨⟨r₂, p⟩, image, true⟩ ∧
      bootStoreLoad.eval (storeAnswers y.device.mem) = .ok ⟨r₂, p⟩ ∧
      ∀ tr x, Run (DeliveryStep C workingController) (.begun C workingController
          ⟨e.permittedSlot, pure (some e.running)⟩ f d (wire ++ payload)) tr x →
        Reaches (DeliveryStep C workingController) x y := by
  obtain ⟨y, p, ⟨tr₁, hy⟩, hphase, hout, hauth⟩ := arrives hp hr h
  refine ⟨y, p, hphase, hout, hauth.loaded, fun tr x hx => ?_⟩
  obtain ⟨n, hn⟩ := schedule_returns (begun_inv _ _ _ _ _ _) hy hx (by rw [hout]; rfl)
  rw [← hn]
  exact next_reaches x n

theorem package_accepted_station :
    ∃ y p, y.out = some ⟨⟨readyRecord, p⟩, packageImage bootSlotB, true⟩ ∧
      bootStoreLoad.eval (storeAnswers y.device.mem) = .ok ⟨readyRecord, p⟩ ∧
      ∀ tr x, Run (DeliveryStep packageCrypto workingController) stationDelivery tr x →
        Reaches (DeliveryStep packageCrypto workingController) x y := by
  obtain ⟨y, p, -, hout, hload, hall⟩ :=
    package_accepted station_deliverable ⟨rfl, rfl⟩ station_authority
  exact ⟨y, p, hout, hload, hall⟩

end EkBareMetal.Boot

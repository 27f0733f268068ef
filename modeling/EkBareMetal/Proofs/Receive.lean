import EkBareMetal.Proofs.Calls

/-!
# The receiver's invariant

What is true between any two calls of the receiver, phase by phase: which
record is the authority and that it still vouches for the bytes, what of the
stream has arrived, and where it is. Every phase implies `Durable`, so a call
that stops for any reason, or never returns, leaves a board whose record tells
the truth.

The order of the phases is what makes the invariant hold. The destination's
entry is emptied before its first page is erased, and it is filled again only
after a verification of what the slot then holds.
-/

namespace EkBareMetal.Boot

open Words Interact ByteMem

/-! ## The invariant -/

/-- The commands so far worked in the metadata pages and the slot `slot`, and
none of them in the current slot. There are none before an authentic manifest
has been received. -/
structure Sent (C : Crypto) (current : UInt32) (fed : List UInt8)
    (slot : UInt32) (log : List FlashCommand) : Prop where
  places : ∀ c ∈ log, ∀ x, c.Touches x →
    (InMetadata x ∨ InSlot slot x) ∧ ¬ InSlot current x
  authentic : log = [] ∨
    ∃ m, admittedManifest C (fed.take bootManifestBytes) slot = .ok m

/-- The manifest is arriving, and nothing behind it has. -/
structure Header (C : Crypto) (trusted : UInt32 → Prop) (current : UInt32)
    (fed : List UInt8) (r : BootReceive) (b : Board) : Prop where
  vouched : Vouched C trusted current b.mem r.authority.page r.authority.record
  slot : r.evidence.permittedSlot = r.permittedSlot
  manifest : r.manifest = fed
  word : r.word = []
  received : r.received = 0
  programmed : r.programmed = 0
  manifestProgrammed : r.manifestProgrammed = 0
  eof : r.eof = false

/-- The manifest is complete, signed, and for a slot that is not running. -/
structure Authenticated (C : Crypto) (current : UInt32) (r : BootReceive) :
    Prop where
  length : r.manifest.length = bootManifestBytes
  incoming : admittedManifest C r.manifest r.permittedSlot =
    .ok r.evidence.incoming
  inactive : r.permittedSlot ≠ current

/-- Where the stream is: the manifest in its buffer, the programmed bytes in
the slot, and the rest in the word buffer. -/
structure Streamed (fed : List UInt8) (r : BootReceive) (mem : ByteMem) :
    Prop where
  split : fed = r.manifest ++
    (mem.read r.evidence.incoming.executionBase.toNat r.programmed.toNat ++ r.word)
  count : r.received.toNat = r.programmed.toNat + r.word.length
  room : r.received ≤ r.evidence.incoming.payloadLength
  word : r.word.length ≤ 4
  ended : r.eof = true → r.received = r.evidence.incoming.payloadLength

/-- From the first erase to the last commit: the entry of the destination is
empty. -/
structure Loading (C : Crypto) (trusted : UInt32 → Prop) (current : UInt32)
    (fed : List UInt8) (r : BootReceive) (b : Board) : Prop where
  vouched : Vouched C trusted current b.mem r.authority.page r.authority.record
  slot : r.evidence.permittedSlot = r.permittedSlot
  authenticated : Authenticated C current r
  emptied : (r.authority.record.image r.permittedSlot).payloadLength = 0
  streamed : Streamed fed r b.mem

/-- Everything is programmed. -/
structure Complete (r : BootReceive) : Prop where
  word : r.word = []
  programmed : r.programmed = r.evidence.incoming.payloadLength

/-- The manifest words programmed so far end at a word before the last. -/
structure WritingManifest (r : BootReceive) : Prop where
  room : r.manifestProgrammed.toNat < bootManifestBytes
  aligned : r.manifestProgrammed.toNat % 4 = 0

/-- The slot holds what was received, and it verifies. -/
structure Stored (C : Crypto) (r : BootReceive) (mem : ByteMem) : Prop where
  manifest : storedManifest mem r.permittedSlot = r.manifest
  verified : slotVerified C mem r.permittedSlot = .ok r.stored
  proposal : Committed r.authority.record (.acceptReady r.evidence r.stored)
    r.proposal

def PhaseInv (C : Crypto) (trusted : UInt32 → Prop) (current : UInt32)
    (fed : List UInt8) (r : BootReceive) (b : Board) : BootReceivePhase → Prop
  | .new => r = bootReceiveInit ∧ fed = [] ∧ b.log = [] ∧
      Durable C trusted current b.mem
  | .header => Header C trusted current fed r b ∧ fed.length < bootManifestBytes
  | .authenticate =>
      Header C trusted current fed r b ∧ fed.length = bootManifestBytes
  | .invalidate => Header C trusted current fed r b ∧ Authenticated C current r ∧
      Committed r.authority.record (.invalidate r.evidence) r.proposal
  | .erase => Loading C trusted current fed r b ∧ r.programmed = 0 ∧
      r.manifestProgrammed = 0 ∧ r.erase.destination = r.permittedSlot
  | .payload => Loading C trusted current fed r b ∧ r.manifestProgrammed = 0
  | .writeManifest =>
      Loading C trusted current fed r b ∧ Complete r ∧ WritingManifest r
  | .verify => Loading C trusted current fed r b ∧ Complete r
  | .ready => Loading C trusted current fed r b ∧ Complete r ∧ Stored C r b.mem
  | .terminal => Durable C trusted current b.mem

/-- What holds between two calls, when `fed` has been accepted so far. -/
structure ReceiveInv (C : Crypto) (trusted : UInt32 → Prop) (current : UInt32)
    (fed : List UInt8) (r : BootReceive) (b : Board) : Prop where
  sent : Sent C current fed r.permittedSlot b.log
  phase : PhaseInv C trusted current fed r b r.phase

/-- An accepted update: the stream was a manifest and its payload, the slot
holds both, and the record the board loads offers the slot as a candidate. -/
structure Landed (fed : List UInt8) (slot : UInt32) (mem : ByteMem)
    (m : BootManifest) (s : BootStoreSnapshot) : Prop where
  decoded : bootManifestDecode (fed.take bootManifestBytes) = .ok m
  slot_eq : m.slot = slot
  length : fed.length = bootManifestBytes + m.payloadLength.toNat
  payload : mem.read m.executionBase.toNat m.payloadLength.toNat =
    fed.drop bootManifestBytes
  manifest : storedManifest mem slot = fed.take bootManifestBytes
  loaded : bootStoreLoad.eval (storeAnswers mem) = .ok s
  candidate : s.record.candidateSlot = slot
  state : s.record.state slot = bootStateReady
  payloadHash : (s.record.image slot).payloadHash = m.payloadHash
  release : (s.record.image slot).release = m.release
  payloadLength : (s.record.image slot).payloadLength = m.payloadLength

/-- What a call that returns leaves. -/
structure Stepped (C : Crypto) (trusted : UInt32 → Prop) (current : UInt32)
    (fed : List UInt8) (slot : UInt32) (reply : ReceiveReply) (b : Board) :
    Prop where
  inv : ReceiveInv C trusted current fed reply.receiver b
  slot_eq : reply.receiver.permittedSlot = slot
  accepted : reply.result = .accepted → ∃ m a, reply.acceptance = some a ∧
    Landed fed slot b.mem m a.snapshot

/-- What a call leaves that does not return. -/
def Cut (C : Crypto) (trusted : UInt32 → Prop) (current : UInt32)
    (fed : List UInt8) (slot : UInt32) (b : Board) : Prop :=
  Durable C trusted current b.mem ∧ Sent C current fed slot b.log

section Steps

variable {C : Crypto} {trusted : UInt32 → Prop} {current : UInt32}
  {fed : List UInt8} {r : BootReceive} {b b' : Board}

theorem ReceiveInv.durable (h : ReceiveInv C trusted current fed r b) :
    Durable C trusted current b.mem := by
  have hp := h.phase
  cases hr : r.phase <;> rw [hr] at hp
  · exact hp.2.2.2
  · exact hp.1.vouched.durable
  · exact hp.1.vouched.durable
  · exact hp.1.vouched.durable
  · exact hp.1.vouched.durable
  · exact hp.1.vouched.durable
  · exact hp.1.vouched.durable
  · exact hp.1.vouched.durable
  · exact hp.1.vouched.durable
  · exact hp

/-! ## Commands stay where they may be -/

theorem Sent.confined {slot : UInt32} {P : Nat → Prop}
    (h : Sent C current fed slot b.log) (hc : Confined P b b')
    (ha : ∃ m, admittedManifest C (fed.take bootManifestBytes) slot = .ok m)
    (hP : ∀ x, P x → (InMetadata x ∨ InSlot slot x) ∧ ¬ InSlot current x) :
    Sent C current fed slot b'.log := by
  obtain ⟨cs, hl, hcs⟩ := hc.log
  refine ⟨fun c hm x hx => ?_, .inr ha⟩
  rw [hl] at hm
  rcases List.mem_append.mp hm with hm | hm
  · exact h.places c hm x hx
  · exact hP x (hcs c hm x hx)

theorem Sent.metadata {slot : UInt32} (h : Sent C current fed slot b.log)
    (hc : Confined InMetadata b b')
    (ha : ∃ m, admittedManifest C (fed.take bootManifestBytes) slot = .ok m) :
    Sent C current fed slot b'.log :=
  h.confined hc ha
    fun _ hx => ⟨.inl hx, fun hs => not_inMetadata_of_inSlot hs hx⟩

theorem Sent.slot {slot : UInt32} (h : Sent C current fed slot b.log)
    (hne : slot ≠ current) (hc : Confined (InSlot slot) b b')
    (ha : ∃ m, admittedManifest C (fed.take bootManifestBytes) slot = .ok m) :
    Sent C current fed slot b'.log :=
  h.confined hc ha fun _ hx => ⟨.inr hx, inSlot_disjoint hne hx⟩

/-- A longer stream has the same manifest once there is one. -/
theorem Sent.extend {slot : UInt32} {log : List FlashCommand}
    (h : Sent C current fed slot log) (p : List UInt8) :
    Sent C current (fed ++ p) slot log := by
  refine ⟨h.places, h.authentic.imp id fun hm => ?_⟩
  obtain ⟨m, hm⟩ := hm
  obtain ⟨-, hd, -, -⟩ := admittedManifest_ok.mp hm
  have hlen := manifestDecode_length hd
  rw [List.length_take] at hlen
  refine ⟨m, ?_⟩
  rw [List.take_append_of_le_length (by omega)]
  exact hm

/-- The manifest in the buffer is the front of the stream. -/
theorem Authenticated.front (h : Authenticated C current r)
    {rest : List UInt8} (hfed : fed = r.manifest ++ rest) :
    ∃ m, admittedManifest C (fed.take bootManifestBytes) r.permittedSlot =
      .ok m := by
  refine ⟨r.evidence.incoming, ?_⟩
  rw [hfed, ← h.length, List.take_left]
  exact h.incoming

/-- A command in the emptied slot. -/
theorem Loading.command (h : Loading C trusted current fed r b)
    (hs : Sent C current fed r.permittedSlot b.log) {c : FlashCommand}
    (hc : Commanded c b b')
    (ht : ∀ x, c.Touches x → InSlot r.permittedSlot x) :
    Vouched C trusted current b'.mem r.authority.page r.authority.record ∧
      Sent C current fed r.permittedSlot b'.log := by
  have hconf := hc.confined ht
  exact ⟨h.vouched.inside_slot h.emptied hconf.mem,
    hs.slot h.authenticated.inactive hconf
      (h.authenticated.front h.streamed.split)⟩

/-! ## Stopping -/

section Stopping

variable {slot : UInt32} {result : BootReceiveResult} {p : BootReceivePhase}

theorem stopped (hslot : r.permittedSlot = slot)
    (hd : Durable C trusted current b.mem) (hs : Sent C current fed slot b.log)
    (hne : result ≠ .accepted) :
    Stepped C trusted current fed slot (stop r result) b := by
  refine ⟨⟨?_, hd⟩, hslot, fun h => absurd h hne⟩
  show Sent C current fed r.permittedSlot b.log
  rw [hslot]
  exact hs

theorem stopUnlessBlocked_wp (hslot : r.permittedSlot = slot)
    (hd : Durable C trusted current b.mem) (hs : Sent C current fed slot b.log)
    (hne : result ≠ .accepted) :
    wp boardDevice (Cut C trusted current fed slot) (stopUnlessBlocked r result)
      (Stepped C trusted current fed slot) b := by
  refine wp_ask_bind.mpr ⟨fun b' hc => ?_, fun blocked b' h => ?_⟩
  · obtain rfl : b' = b := hc
    exact ⟨hd, hs⟩
  · obtain rfl : b' = b := h
    refine stopped hslot hd hs ?_
    split
    · decide
    · exact hne

theorem storeFailure_wp (hslot : r.permittedSlot = slot)
    (hd : Durable C trusted current b.mem) (hs : Sent C current fed slot b.log) :
    wp boardDevice (Cut C trusted current fed slot) (storeFailure r)
      (Stepped C trusted current fed slot) b := by
  unfold storeFailure
  split
  · exact stopped hslot hd hs (by decide)
  · exact stopUnlessBlocked_wp hslot hd hs (by decide)

theorem flashFailure_wp (hslot : r.permittedSlot = slot)
    (hd : Durable C trusted current b.mem) (hs : Sent C current fed slot b.log) :
    wp boardDevice (Cut C trusted current fed slot) (flashFailure r)
      (Stepped C trusted current fed slot) b :=
  stopUnlessBlocked_wp hslot hd hs (by decide)

/-- A step that goes on, and accepts nothing. -/
theorem proceeded (hslot : r.permittedSlot = slot) (hs : Sent C current fed slot b.log)
    (hphase : r.phase = p) (hp : PhaseInv C trusted current fed r b p) :
    Stepped C trusted current fed slot (proceed r) b :=
  ⟨⟨by rw [← hslot] at hs; exact hs, by rw [← hphase] at hp; exact hp⟩, hslot,
    fun h => by cases h⟩

theorem refused (hslot : r.permittedSlot = slot) (hs : Sent C current fed slot b.log)
    (hphase : r.phase = p) (hp : PhaseInv C trusted current fed r b p)
    (hne : result ≠ .accepted) :
    Stepped C trusted current fed slot (refuse r result) b :=
  ⟨⟨by rw [← hslot] at hs; exact hs, by rw [← hphase] at hp; exact hp⟩, hslot,
    fun h => absurd h hne⟩

end Stopping

/-! ## The phases -/

theorem stepAuthenticate_wp (h : Header C trusted current fed r b)
    (hlen : fed.length = bootManifestBytes)
    (hs : Sent C current fed r.permittedSlot b.log) :
    wp boardDevice (Cut C trusted current fed r.permittedSlot) (stepAuthenticate C r)
      (Stepped C trusted current fed r.permittedSlot) b := by
  have hd := h.vouched.durable
  unfold stepAuthenticate
  rw [wp_bind']
  refine wp_mono (receive_verifyManifest_wp C r.manifest r.permittedSlot
    r.flashResult b) (fun b' hb => hb ▸ ⟨hd, hs⟩) fun x b' hx => ?_
  obtain ⟨rfl, hm⟩ := hx
  obtain ⟨verified, kept⟩ := x
  cases verified with
  | error e => exact stopped rfl hd hs (by decide)
  | ok incoming =>
      have hm := hm incoming rfl
      dsimp only
      split
      · next proposal hp =>
          obtain ⟨hadm, -⟩ := invalidate_committed.mp hp
          refine proceeded rfl hs rfl ⟨?_, ⟨?_, hm, ?_⟩, hp⟩
          · exact ⟨h.vouched, h.slot, h.manifest, h.word, h.received,
              h.programmed, h.manifestProgrammed, h.eof⟩
          · exact (congrArg _ h.manifest).trans hlen
          · have hne := hadm.inactive
            show r.permittedSlot ≠ current
            rw [← h.slot, ← h.vouched.current_eq]
            exact hne
      · exact stopped rfl hd hs (by decide)

theorem eraseBegin_ok {s : BootStoreSnapshot} {running destination : UInt32}
    {plan : BootFlashErasePlan}
    (h : bootFlashEraseBegin s running destination = .ok plan) :
    plan = ⟨destination, 0, false⟩ := by
  unfold bootFlashEraseBegin at h
  dsimp only at h
  split at h
  · cases h
  split at h
  · cases h
  split at h
  · cases h
  · injection h with h
    exact h.symm

/-- What a commit leaves, when the new record vouches wherever it is. -/
theorem commit_durable {page : UInt32} {rec d : BootMetadata}
    (h : Vouched C trusted current b.mem page rec)
    (hc : Confined InMetadata b b')
    (hnew : ∀ page', Authority b'.mem page' d →
      Vouched C trusted current b'.mem page' d)
    (he : Either page rec d b'.mem) : Durable C trusted current b'.mem := by
  rcases he with hold | hdone
  · exact (h.kept hc.mem hold).durable
  · exact (hnew _ hdone).durable

theorem outcome_either {page : UInt32} {rec d : BootMetadata}
    {res : Except BootStoreResult BootStoreSnapshot} {mem : ByteMem}
    (h : Outcome page rec d res mem) : Either page rec d mem := by
  cases res with
  | ok s => exact .inr h.2
  | error e =>
      cases e with
      | uncertain => exact h
      | _ => exact .inl h

theorem stepInvalidate_wp (h : Header C trusted current fed r b)
    (ha : Authenticated C current r)
    (hp : Committed r.authority.record (.invalidate r.evidence) r.proposal)
    (hs : Sent C current fed r.permittedSlot b.log) :
    wp boardDevice (Cut C trusted current fed r.permittedSlot) (stepInvalidate r)
      (Stepped C trusted current fed r.permittedSlot) b := by
  have hnew : ∀ b', Confined InMetadata b b' → ∀ page',
      Authority b'.mem page' r.proposal →
        Vouched C trusted current b'.mem page' r.proposal :=
    fun b' hc page' hauth => h.vouched.invalidated hp hc.mem hauth
  have hfront := ha.front (h.manifest.symm.trans (List.append_nil _).symm)
  unfold stepInvalidate
  rw [wp_bind']
  refine wp_mono (receive_replace_wp h.vouched.authority r.authority r.proposal .ok)
    (fun b' hk => ⟨commit_durable h.vouched hk.1 (hnew b' hk.1) hk.2,
      hs.metadata hk.1 hfront⟩) fun x b' hx => ?_
  obtain ⟨hconf, hout⟩ := hx
  have hs' := hs.metadata hconf hfront
  have hd' := commit_durable h.vouched hconf (hnew b' hconf) (outcome_either hout)
  obtain ⟨replaced, kept⟩ := x
  cases replaced with
  | error e =>
      dsimp only
      exact storeFailure_wp rfl hd' hs'
  | ok committed =>
      obtain ⟨rfl, hauth⟩ := hout
      dsimp only
      split
      · exact flashFailure_wp rfl hd' hs'
      · next plan hplan =>
          refine proceeded rfl hs' rfl ⟨⟨?_, h.slot, ?_, ?_, ?_⟩, h.programmed,
            h.manifestProgrammed, ?_⟩
          · exact hnew b' hconf _ hauth
          · exact ⟨ha.length, ha.incoming, ha.inactive⟩
          · show (r.proposal.image r.permittedSlot).payloadLength = 0
            rw [← h.slot]
            exact invalidated_empty hp
          · refine ⟨?_, ?_, ?_, ?_, fun he => ?_⟩
            · show fed = r.manifest ++ (b'.mem.read _ r.programmed.toNat ++ r.word)
              rw [h.programmed, h.word, h.manifest]
              exact (List.append_nil _).symm
            · show r.received.toNat = r.programmed.toNat + r.word.length
              rw [h.received, h.programmed, h.word]
              rfl
            · show r.received ≤ _
              rw [h.received]
              exact UInt32.zero_le
            · show r.word.length ≤ 4
              rw [h.word]
              exact Nat.zero_le _
            · have hf := h.eof
              rw [show r.eof = true from he] at hf
              cases hf
          · rw [eraseBegin_ok hplan]

/-! ### Erasing -/

theorem toNat_planAddress {plan : BootFlashErasePlan} (h0 : plan.page ≠ 0)
    (h : plan.page < slotPages) :
    plan.address.toNat =
      (slotBase plan.destination).toNat + (plan.page - 1) * 1024 := by
  have hpages : slotPages = 110 := rfl
  have h1024 : (1024 : UInt32).toNat = 1024 := rfl
  have hb : (slotBase plan.destination).toNat ≤ 147456 := by
    unfold slotBase
    split <;> decide
  unfold BootFlashErasePlan.address
  rw [if_neg h0, UInt32.toNat_add, UInt32.toNat_mul, UInt32.toNat_ofNat', h1024]
  omega

/-- The pages of a plan are the pages of its slot. -/
theorem planAddress_inSlot {plan : BootFlashErasePlan}
    (hv : slotValid plan.destination = true) (h : plan.page < slotPages)
    {x : Nat} (hx : (FlashCommand.erase plan.address).Touches x) :
    InSlot plan.destination x := by
  obtain ⟨h₁, h₂⟩ := hx
  have hpages : slotPages = 110 := rfl
  by_cases h0 : plan.page = 0
  · have ha : plan.address = slotManifest plan.destination := by
      unfold BootFlashErasePlan.address
      rw [if_pos h0]
    rw [FlashCommand.address, ha] at h₁ h₂
    exact inSlot_manifest hv h₁ h₂
  · rw [FlashCommand.address, toNat_planAddress h0 h] at h₁ h₂
    simp only [FlashCommand.size, bootEraseBytes] at h₂
    refine ⟨hv, by omega, ?_⟩
    simp only [bootSlotBytes]
    omega

theorem Authenticated.slotValid (h : Authenticated C current r) :
    slotValid r.permittedSlot = true := (admittedManifest_ok.mp h.incoming).1

/-- The loading state does not depend on the bookkeeping fields. -/
theorem Loading.frame {r' : BootReceive} (h : Loading C trusted current fed r b)
    (hauth : r'.authority = r.authority) (he : r'.evidence = r.evidence)
    (hslot : r'.permittedSlot = r.permittedSlot)
    (hm : r'.manifest = r.manifest) (hw : r'.word = r.word)
    (hr : r'.received = r.received) (hp : r'.programmed = r.programmed)
    (heof : r'.eof = r.eof) : Loading C trusted current fed r' b := by
  obtain ⟨hv, hs, ⟨hlen, hin, hina⟩, hempty, ⟨hsplit, hcount, hroom, hword, hend⟩⟩ := h
  refine ⟨?_, ?_, ⟨?_, ?_, ?_⟩, ?_, ⟨?_, ?_, ?_, ?_, ?_⟩⟩ <;>
    simpa only [hauth, he, hslot, hm, hw, hr, hp, heof]

theorem stepErase_wp (h : Loading C trusted current fed r b)
    (hphase : r.phase = .erase)
    (hzero : r.programmed = 0) (hmanifest : r.manifestProgrammed = 0)
    (hdest : r.erase.destination = r.permittedSlot)
    (hs : Sent C current fed r.permittedSlot b.log) :
    wp boardDevice (Cut C trusted current fed r.permittedSlot) (stepErase r)
      (Stepped C trusted current fed r.permittedSlot) b := by
  have hd := h.vouched.durable
  have hv := h.authenticated.slotValid
  unfold stepErase bootFlashEraseStep
  split
  · exact flashFailure_wp rfl hd hs
  split
  · exact flashFailure_wp rfl hd hs
  next hrange =>
  split
  · exact proceeded rfl hs rfl ⟨h.frame rfl rfl rfl rfl rfl rfl rfl rfl, hmanifest⟩
  next hpage =>
  simp only [not_or, gt_iff_lt, Nat.not_lt] at hrange
  have htouch : ∀ x, (FlashCommand.erase r.erase.address).Touches x →
      InSlot r.permittedSlot x := by
    intro x hx
    rw [← hdest] at hv ⊢
    exact planAddress_inSlot hv (by omega) hx
  rw [wp_bind', wp_bind']
  refine wp_ask.mpr ⟨fun b' hc => ?_, fun result b' hres => ?_⟩
  · obtain ⟨hv', hs'⟩ := h.command hs hc htouch
    exact ⟨hv'.durable, hs'⟩
  obtain ⟨hv', hs'⟩ := h.command hs hres.1 htouch
  -- nothing is programmed yet, so no byte of the stream is in the slot
  have hload : Loading C trusted current fed r b' := by
    refine ⟨hv', h.slot, h.authenticated, h.emptied, ⟨?_, h.streamed.count,
      h.streamed.room, h.streamed.word, h.streamed.ended⟩⟩
    rw [h.streamed.split, hzero]
    rfl
  split
  · exact proceeded rfl hs' hphase
      ⟨hload.frame rfl rfl rfl rfl rfl rfl rfl rfl, hzero, hmanifest, hdest⟩
  split
  · exact proceeded rfl hs' rfl ⟨hload.frame rfl rfl rfl rfl rfl rfl rfl rfl, hmanifest⟩
  · next hok hdone =>
      simp only [wp_pure]
      rw [if_neg hdone, if_pos hok]
      exact flashFailure_wp rfl hv'.durable hs'

/-! ### Programming -/

/-- The payload of the incoming manifest lies in the destination. -/
theorem Authenticated.bounds (h : Authenticated C current r) :
    r.evidence.incoming.executionBase = slotBase r.permittedSlot ∧
      (slotBase r.permittedSlot).toNat +
        r.evidence.incoming.payloadLength.toNat ≤
          (slotManifest r.permittedSlot).toNat ∧
      (slotManifest r.permittedSlot).toNat ≤ 259072 ∧
      r.evidence.incoming.payloadLength.toNat ≤ bootPayloadMax.toNat := by
  obtain ⟨hv, hd, hslot, -⟩ := admittedManifest_ok.mp h.incoming
  have hvalid := manifestDecode_ok hd
  obtain ⟨hfit, -⟩ := payload_bounds hvalid
  obtain ⟨-, hbase, -, hmax, -⟩ := manifestValidate_eq_ok hvalid
  rw [hslot] at hbase hfit hmax
  rw [hbase] at hfit
  rw [UInt32.le_iff_toNat_le, (slotManifest_bounds hv).2] at hmax
  refine ⟨hbase, hfit, ?_, hmax⟩
  rcases slot_bounds hv with ⟨-, -, hm⟩ | ⟨-, -, hm⟩ <;> omega

theorem Streamed.agree {mem mem' : ByteMem} (h : Streamed fed r mem)
    (hm : Agree mem mem' r.evidence.incoming.executionBase.toNat
      r.programmed.toNat) : Streamed fed r mem' := by
  refine ⟨?_, h.count, h.room, h.word, h.ended⟩
  rw [← hm.read_eq]
  exact h.split

/-- The word buffer went into the slot. -/
theorem Streamed.programmed {mem mem' : ByteMem} {address : Nat}
    (h : Streamed fed r mem) (hw : r.word.length = 4)
    (ha : address = r.evidence.incoming.executionBase.toNat + r.programmed.toNat)
    (hm : mem' = mem.write address r.word) {kept : BootFlashResult} :
    Streamed fed { r with
      flashResult := kept
      programmed := r.programmed + 4
      word := [] } mem' := by
  have h4 : (4 : UInt32).toNat = 4 := rfl
  have hroom := UInt32.le_iff_toNat_le.mp h.room
  have hcount := h.count
  have hlt := r.evidence.incoming.payloadLength.toNat_lt
  have hnext : (r.programmed + 4).toNat = r.programmed.toNat + 4 := by
    rw [UInt32.toNat_add, h4]
    omega
  have hkeep : Agree mem mem' r.evidence.incoming.executionBase.toNat
      r.programmed.toNat := by
    rw [hm]
    exact (within_write mem address r.word).agree (by omega)
  have hword : mem'.read address 4 = r.word := by
    rw [hm, ← hw]
    exact read_write_same mem address r.word
  refine ⟨?_, ?_, h.room, Nat.zero_le _, h.ended⟩
  · show fed = r.manifest ++ (mem'.read _ (r.programmed + 4).toNat ++ [])
    rw [hnext, read_add, ← ha, hword, ← hkeep.read_eq, List.append_nil]
    exact h.split
  · show r.received.toNat = (r.programmed + 4).toNat + 0
    omega

theorem payloadEnd_stepped (h : Loading C trusted current fed r b)
    (hphase : r.phase = .payload) (hm : r.manifestProgrammed = 0)
    {slot : UInt32} (hslot : r.permittedSlot = slot)
    (hs : Sent C current fed slot b.log) {result : BootReceiveResult}
    (hne : result ≠ .accepted) :
    Stepped C trusted current fed slot (payloadEnd r result) b := by
  unfold payloadEnd
  split
  · next hend =>
      refine proceeded hslot hs rfl
        ⟨h.frame rfl rfl rfl rfl rfl rfl rfl rfl, ⟨?_, hend.2⟩, ?_⟩
      · have hcount := h.streamed.count
        rw [h.streamed.ended hend.1, hend.2] at hcount
        have hw : r.word.length = 0 := by omega
        exact List.length_eq_zero_iff.mp hw
      · constructor
        · show r.manifestProgrammed.toNat < bootManifestBytes
          rw [hm]
          decide
        · show r.manifestProgrammed.toNat % 4 = 0
          rw [hm]
          rfl
  · exact refused hslot hs hphase ⟨h, hm⟩ hne

theorem stepPayload_wp (h : Loading C trusted current fed r b)
    (hphase : r.phase = .payload) (hm : r.manifestProgrammed = 0)
    (hs : Sent C current fed r.permittedSlot b.log) :
    wp boardDevice (Cut C trusted current fed r.permittedSlot) (stepPayload r)
      (Stepped C trusted current fed r.permittedSlot) b := by
  unfold stepPayload
  split
  swap
  · exact payloadEnd_stepped h hphase hm rfl hs (by decide)
  next hfull =>
  obtain ⟨hbase, hfit, htop, hmax⟩ := h.authenticated.bounds
  have h111616 : bootPayloadMax.toNat = 111616 := rfl
  have hroom := UInt32.le_iff_toNat_le.mp h.streamed.room
  have hcount := h.streamed.count
  have ha : (r.evidence.incoming.executionBase + r.programmed).toNat =
      r.evidence.incoming.executionBase.toNat + r.programmed.toNat := by
    rw [UInt32.toNat_add, hbase]
    omega
  have htouch : ∀ x, (FlashCommand.program
      (r.evidence.incoming.executionBase + r.programmed)
      (get32 r.word)).Touches x → InSlot r.permittedSlot x := by
    intro x hx
    obtain ⟨h₁, h₂⟩ := hx
    rw [FlashCommand.address, ha, hbase] at h₁ h₂
    simp only [FlashCommand.size, bootProgramBytes] at h₂
    exact inSlot_payload h.authenticated.slotValid (by omega) (by omega)
  refine wp_ask_bind.mpr ⟨fun b' hc => ?_, fun result b' hres => ?_⟩
  · obtain ⟨hv', hs'⟩ := h.command hs hc htouch
    exact ⟨hv'.durable, hs'⟩
  obtain ⟨hv', hs'⟩ := h.command hs hres.1 htouch
  dsimp only
  split
  · exact flashFailure_wp rfl hv'.durable hs'
  next hok =>
  obtain ⟨hmem, -⟩ := hres.2 (not_not.mp hok)
  rw [put32_get32 hfull] at hmem
  have hload : Loading C trusted current fed { r with
      flashResult := result
      programmed := r.programmed + 4
      word := [] } b' :=
    ⟨hv', h.slot, ⟨h.authenticated.length, h.authenticated.incoming,
      h.authenticated.inactive⟩, h.emptied,
      h.streamed.programmed hfull ha hmem⟩
  exact payloadEnd_stepped hload hphase hm rfl hs' (by decide)

theorem stepWriteManifest_wp (h : Loading C trusted current fed r b)
    (hphase : r.phase = .writeManifest) (hc : Complete r)
    (hw : WritingManifest r) (hs : Sent C current fed r.permittedSlot b.log) :
    wp boardDevice (Cut C trusted current fed r.permittedSlot) (stepWriteManifest r)
      (Stepped C trusted current fed r.permittedSlot) b := by
  obtain ⟨hbase, hfit, htop, -⟩ := h.authenticated.bounds
  obtain ⟨hlt, halign⟩ := hw
  simp only [bootManifestBytes] at hlt
  have h4 : (4 : UInt32).toNat = 4 := rfl
  have ha : (slotManifest r.permittedSlot + r.manifestProgrammed).toNat =
      (slotManifest r.permittedSlot).toNat + r.manifestProgrammed.toNat := by
    rw [UInt32.toNat_add]
    omega
  have htouch : ∀ x, (FlashCommand.program
      (slotManifest r.permittedSlot + r.manifestProgrammed)
      (get32 (slice r.manifest r.manifestProgrammed.toNat 4))).Touches x →
        InSlot r.permittedSlot x := by
    intro x hx
    obtain ⟨h₁, h₂⟩ := hx
    rw [FlashCommand.address, ha] at h₁ h₂
    simp only [FlashCommand.size, bootProgramBytes] at h₂
    refine inSlot_manifest h.authenticated.slotValid (by omega) ?_
    simp only [bootEraseBytes]
    omega
  -- the manifest page begins where the payload may end
  have hkeep : ∀ b', Commanded (.program
      (slotManifest r.permittedSlot + r.manifestProgrammed)
      (get32 (slice r.manifest r.manifestProgrammed.toNat 4))) b b' →
        Streamed fed r b'.mem := by
    intro b' hcmd
    rcases hcmd with rfl | ⟨-, hm⟩
    · exact h.streamed
    · refine h.streamed.agree (hm.within.agree (.inl ?_))
      rw [FlashCommand.address, ha, hbase, hc.programmed]
      omega
  unfold stepWriteManifest
  refine wp_ask_bind.mpr ⟨fun b' hcmd => ?_, fun result b' hres => ?_⟩
  · obtain ⟨hv', hs'⟩ := h.command hs hcmd htouch
    exact ⟨hv'.durable, hs'⟩
  obtain ⟨hv', hs'⟩ := h.command hs hres.1 htouch
  have hload : Loading C trusted current fed r b' :=
    ⟨hv', h.slot, h.authenticated, h.emptied, hkeep b' hres.1⟩
  dsimp only
  split
  · exact flashFailure_wp rfl hv'.durable hs'
  split
  · exact proceeded rfl hs' rfl ⟨hload.frame rfl rfl rfl rfl rfl rfl rfl rfl,
      ⟨hc.word, hc.programmed⟩⟩
  · next hnot =>
      refine proceeded rfl hs' hphase
        ⟨hload.frame rfl rfl rfl rfl rfl rfl rfl rfl, ⟨hc.word, hc.programmed⟩, ?_⟩
      have hnext : (r.manifestProgrammed + 4).toNat =
          r.manifestProgrammed.toNat + 4 := by
        rw [UInt32.toNat_add, h4]
        omega
      have hne : (r.manifestProgrammed + 4).toNat ≠ 160 := fun he =>
        hnot (UInt32.toNat_inj.mp he)
      constructor
      · show (r.manifestProgrammed + 4).toNat < 160
        omega
      · show (r.manifestProgrammed + 4).toNat % 4 = 0
        omega

/-! ### Verification and the last commit -/

theorem stepVerify_wp (h : Loading C trusted current fed r b) (hc : Complete r)
    (hs : Sent C current fed r.permittedSlot b.log) :
    wp boardDevice (Cut C trusted current fed r.permittedSlot) (stepVerify C r)
      (Stepped C trusted current fed r.permittedSlot) b := by
  have hd := h.vouched.durable
  unfold stepVerify
  refine wp_ask_bind.mpr ⟨fun b' hcut => ?_, fun answer b' hread => ?_⟩
  · obtain rfl : b' = b := hcut
    exact ⟨hd, hs⟩
  obtain ⟨rfl, hread⟩ := hread
  cases answer with
  | error e => exact flashFailure_wp rfl hd hs
  | ok wire =>
      have hwire : wire.val = storedManifest b'.mem r.permittedSlot :=
        hread wire rfl
      dsimp only
      split
      · exact stopped rfl hd hs (by decide)
      next hsame =>
      have hsame : wire.val = r.manifest := not_not.mp hsame
      unfold stepVerifyWire
      rw [wp_bind']
      refine wp_mono (receive_verifyStored_wp C wire.val r.permittedSlot .ok b')
        (fun b'' hb => hb ▸ ⟨hd, hs⟩) fun x b'' hx => ?_
      obtain ⟨rfl, hv⟩ := hx
      obtain ⟨verified, kept⟩ := x
      cases verified with
      | error e =>
          dsimp only
          exact stopUnlessBlocked_wp rfl hd hs (by decide)
      | ok image =>
          have hv := hv image rfl
          dsimp only
          split
          · next proposal hp =>
              refine proceeded rfl hs rfl
                ⟨h.frame rfl rfl rfl rfl rfl rfl rfl rfl,
                  ⟨hc.word, hc.programmed⟩, hwire.symm.trans hsame, ?_, hp⟩
              show slotVerified C b''.mem r.permittedSlot = .ok image
              rw [slotVerified_eq, ← hwire]
              exact hv
          · exact stopped rfl hd hs (by decide)

/-- The board after the last commit. -/
theorem landed (h : Loading C trusted current fed r b) (hc : Complete r)
    (hst : Stored C r b.mem) (hconf : Confined InMetadata b b')
    {page : UInt32} (ha : Authority b'.mem page r.proposal) :
    Landed fed r.permittedSlot b'.mem r.evidence.incoming ⟨r.proposal, page⟩ := by
  obtain ⟨hacc, hadv⟩ := acceptReady_committed.mp hst.proposal
  obtain ⟨hv, hdec, hslot, -⟩ := admittedManifest_ok.mp h.authenticated.incoming
  obtain ⟨hbase, hfit, -, hmax⟩ := h.authenticated.bounds
  have hlen := h.authenticated.length
  have hsplit := h.streamed.split
  rw [hc.word, hc.programmed, List.append_nil] at hsplit
  have htake : fed.take bootManifestBytes = r.manifest := by
    rw [hsplit, ← hlen, List.take_left]
  have hdrop : fed.drop bootManifestBytes =
      b.mem.read r.evidence.incoming.executionBase.toNat
        r.evidence.incoming.payloadLength.toNat := by
    rw [hsplit, ← hlen, List.drop_left]
  have hpayload : Agree b.mem b'.mem r.evidence.incoming.executionBase.toNat
      r.evidence.incoming.payloadLength.toNat := by
    rw [hbase]
    exact hconf.mem.agree fun x hlo hhi =>
      not_inMetadata_of_inSlot (inSlot_payload hv hlo (by omega))
  have himage := (hadv.image r.evidence.incoming.slot).trans
    BootMetadata.image_setImage_same
  rw [hslot] at himage
  refine ⟨?_, hslot, ?_, ?_, ?_, ha.loaded, ?_, ?_, ?_, ?_, ?_⟩
  · rw [htake]
    exact hdec
  · rw [hsplit, List.length_append, hlen, length_read]
  · rw [hdrop, hpayload.read_eq]
  · rw [htake, storedManifest_congr hv hconf.mem
      fun x hx => not_inMetadata_of_inSlot hx]
    exact hst.manifest
  · rw [hadv.eq]
    exact hslot
  · have hready : accountState bootStateReady = bootStateReady := by decide
    rw [BootMetadata.state, himage]
    exact hready
  · rw [himage]
  · rw [himage]
  · rw [himage]

theorem stepReady_wp (h : Loading C trusted current fed r b) (hc : Complete r)
    (hst : Stored C r b.mem) (hs : Sent C current fed r.permittedSlot b.log) :
    wp boardDevice (Cut C trusted current fed r.permittedSlot) (stepReady r)
      (Stepped C trusted current fed r.permittedSlot) b := by
  have hverified : slotVerified C b.mem r.evidence.permittedSlot = .ok r.stored := by
    rw [h.slot]
    exact hst.verified
  have hnew : ∀ b', Confined InMetadata b b' → ∀ page',
      Authority b'.mem page' r.proposal →
        Vouched C trusted current b'.mem page' r.proposal :=
    fun b' hconf page' hauth =>
      h.vouched.accepted hst.proposal hverified hconf.mem hauth
  have hfront := h.authenticated.front h.streamed.split
  unfold stepReady
  rw [wp_bind']
  refine wp_mono (receive_replace_wp h.vouched.authority r.authority r.proposal .ok)
    (fun b' hk => ⟨commit_durable h.vouched hk.1 (hnew b' hk.1) hk.2,
      hs.metadata hk.1 hfront⟩) fun x b' hx => ?_
  obtain ⟨hconf, hout⟩ := hx
  have hs' := hs.metadata hconf hfront
  have hd' := commit_durable h.vouched hconf (hnew b' hconf) (outcome_either hout)
  obtain ⟨replaced, kept⟩ := x
  cases replaced with
  | error e =>
      dsimp only
      exact storeFailure_wp rfl hd' hs'
  | ok committed =>
      obtain ⟨rfl, hauth⟩ := hout
      exact ⟨⟨hs', hd'⟩, rfl, fun _ =>
        ⟨r.evidence.incoming, _, rfl, landed h hc hst hconf hauth⟩⟩

/-- One step of the receiver, from any phase. -/
theorem step_wp (h : ReceiveInv C trusted current fed r b) :
    wp boardDevice (Cut C trusted current fed r.permittedSlot) (bootReceiveStep C r)
      (Stepped C trusted current fed r.permittedSlot) b := by
  obtain ⟨hs, hp⟩ := h
  unfold bootReceiveStep
  cases hr : r.phase <;> rw [hr] at hp <;> dsimp only
  · exact refused rfl hs hr hp (by decide)
  · exact refused rfl hs hr hp (by decide)
  · exact stepAuthenticate_wp hp.1 hp.2 hs
  · exact stepInvalidate_wp hp.1 hp.2.1 hp.2.2 hs
  · exact stepErase_wp hp.1 hr hp.2.1 hp.2.2.1 hp.2.2.2 hs
  · exact stepPayload_wp hp.1 hr hp.2 hs
  · exact stepWriteManifest_wp hp.1 hr hp.2.1 hp.2.2 hs
  · exact stepVerify_wp hp.1 hp.2 hs
  · exact stepReady_wp hp.1 hp.2.1 hp.2.2 hs
  · exact refused rfl hs hr hp (by decide)

/-! ## The other calls -/

/-- The bytes of the stream a call took. -/
def ReceiveCall.taken (call : ReceiveCall) (reply : ReceiveReply) : List UInt8 :=
  match call with
  | .feed bytes => bytes.take reply.accepted
  | _ => []

/-- What any call leaves that returns. -/
structure Returned (C : Crypto) (trusted : UInt32 → Prop) (current : UInt32)
    (fed : List UInt8) (call : ReceiveCall) (reply : ReceiveReply) (b : Board) :
    Prop where
  inv : ReceiveInv C trusted current (fed ++ call.taken reply) reply.receiver b
  accepted : reply.result = .accepted → ∃ m a, reply.acceptance = some a ∧
    Landed fed reply.receiver.permittedSlot b.mem m a.snapshot

theorem Stepped.returned {slot : UInt32} {call : ReceiveCall}
    {reply : ReceiveReply} (h : Stepped C trusted current fed slot reply b)
    (ht : call.taken reply = []) :
    Returned C trusted current fed call reply b := by
  refine ⟨?_, fun ha => ?_⟩
  · rw [ht, List.append_nil]
    exact h.inv
  · rw [h.slot_eq]
    exact h.accepted ha

theorem beginRunning_wp {config : BootReceiveConfig}
    (hh : Header C trusted current fed { r with
      evidence := { r.evidence with permittedSlot := config.permittedSlot } } b)
    (hphase : r.phase = .header) (hfed : fed = []) {slot : UInt32}
    (hslot : r.permittedSlot = slot) (hs : Sent C current fed slot b.log) :
    wp boardDevice (· = b) (beginRunning config r)
      (Stepped C trusted current fed slot) b := by
  have hd := hh.vouched.durable
  unfold beginRunning
  split
  · exact stopped hslot hd hs (by decide)
  rw [wp_bind']
  refine wp_mono (running_wp config.running b) (fun b' hb => hb) fun x b' hx => ?_
  subst hx
  cases x with
  | none =>
      refine wp_ask_bind.mpr ⟨fun b'' hc => hc, fun blocked b'' hb => ?_⟩
      obtain rfl : b'' = b' := hb
      cases blocked with
      | none => exact stopped hslot hd hs (by decide)
      | some cause => exact stopped hslot hd hs (by decide)
  | some image =>
      refine proceeded hslot hs hphase ⟨⟨hh.vouched, hh.slot, hh.manifest, hh.word,
        hh.received, hh.programmed, hh.manifestProgrammed, hh.eof⟩, ?_⟩
      rw [hfed]
      decide

theorem begin_wp (h : ReceiveInv C trusted current fed r b)
    (config : BootReceiveConfig) :
    wp boardDevice (· = b) (bootReceiveBegin config r)
      (fun reply => Returned C trusted current fed (.begin config) reply) b := by
  have hrefuse : ∀ result : BootReceiveResult, result ≠ .accepted →
      Returned C trusted current fed (.begin config) (refuse r result) b :=
    fun result hne => (refused rfl h.sent rfl h.phase hne).returned rfl
  unfold bootReceiveBegin
  split
  · exact hrefuse _ (by split <;> decide)
  next hnew =>
  split
  · exact hrefuse _ (by decide)
  obtain ⟨hs, hp⟩ := h
  rw [not_not.mp hnew] at hp
  obtain ⟨rfl, rfl, hlog, page, rec, hv⟩ := hp
  have hs' : Sent C current [] config.permittedSlot b.log := by
    rw [hlog]
    exact ⟨fun c hc => absurd hc List.not_mem_nil, .inl rfl⟩
  rw [wp_bind']
  refine wp_mono (receive_load_wp .ok b) (fun b' hb => hb) fun x b' hx => ?_
  obtain ⟨rfl, hload⟩ := hx
  obtain ⟨loaded, kept⟩ := x
  cases loaded with
  | error e =>
      refine wp_ask_bind.mpr ⟨fun b'' hc => hc, fun blocked b'' hb => ?_⟩
      obtain rfl : b'' = b' := hb
      refine (stopped (@rfl _ config.permittedSlot) hv.durable hs' ?_).returned
        rfl
      split <;> decide
  | ok snapshot =>
      have hsnap := hload snapshot rfl
      rw [hv.authority.loaded] at hsnap
      injection hsnap with hsnap
      subst hsnap
      dsimp only
      refine wp_post (beginRunning_wp ⟨hv, ?_, ?_, ?_, ?_, ?_, ?_, ?_⟩
        rfl (@rfl _ []) rfl hs') fun reply b'' hr => hr.returned rfl
      all_goals rfl

/-- The end of the stream is noted without leaving the phase. -/
theorem phaseInv_ended {p : BootReceivePhase}
    (hp : PhaseInv C trusted current fed r b p)
    (hpast : BootReceivePhase.payload.code ≤ p.code)
    (hall : r.received = r.evidence.incoming.payloadLength) :
    PhaseInv C trusted current fed { r with eof := true } b p := by
  have hkeep : Loading C trusted current fed r b →
      Loading C trusted current fed { r with eof := true } b := fun hl =>
    ⟨hl.vouched, hl.slot, ⟨hl.authenticated.length, hl.authenticated.incoming,
      hl.authenticated.inactive⟩, hl.emptied, ⟨hl.streamed.split,
      hl.streamed.count, hl.streamed.room, hl.streamed.word, fun _ => hall⟩⟩
  cases p with
  | payload => exact ⟨hkeep hp.1, hp.2⟩
  | writeManifest =>
      exact ⟨hkeep hp.1, ⟨hp.2.1.word, hp.2.1.programmed⟩,
        ⟨hp.2.2.room, hp.2.2.aligned⟩⟩
  | verify => exact ⟨hkeep hp.1, ⟨hp.2.word, hp.2.programmed⟩⟩
  | ready =>
      exact ⟨hkeep hp.1, ⟨hp.2.1.word, hp.2.1.programmed⟩,
        ⟨hp.2.2.manifest, hp.2.2.verified, hp.2.2.proposal⟩⟩
  | terminal => exact hp
  | _ => exact absurd hpast (by decide)

theorem eof_stepped (h : ReceiveInv C trusted current fed r b) :
    Stepped C trusted current fed r.permittedSlot (bootReceiveEof r) b := by
  unfold bootReceiveEof
  split
  · exact refused rfl h.sent rfl h.phase (by decide)
  split
  · exact refused rfl h.sent rfl h.phase (by decide)
  split
  · exact stopped rfl h.durable h.sent (by decide)
  next hend =>
  simp only [not_or, not_not, Nat.not_lt] at hend
  exact proceeded rfl h.sent rfl (phaseInv_ended h.phase hend.2.1 hend.2.2)

theorem abort_stepped (h : ReceiveInv C trusted current fed r b) :
    Stepped C trusted current fed r.permittedSlot (bootReceiveAbort r) b := by
  unfold bootReceiveAbort
  split
  · exact refused rfl h.sent rfl h.phase (by decide)
  split
  · exact refused rfl h.sent rfl h.phase (by decide)
  · exact stopped rfl h.durable h.sent (by decide)

/-! ### Feeding -/

theorem length_take_fill {size used : Nat} {p : List UInt8} :
    (p.take (fill size used p)).length = fill size used p :=
  List.length_take_of_le (Nat.min_le_right _ _)

theorem Header.extend (h : Header C trusted current fed r b) (p : List UInt8)
    {next : BootReceivePhase} :
    Header C trusted current (fed ++ p)
      { r with manifest := r.manifest ++ p, phase := next } b :=
  ⟨h.vouched, h.slot, congrArg (· ++ p) h.manifest, h.word, h.received,
    h.programmed, h.manifestProgrammed, h.eof⟩

theorem Loading.extend (h : Loading C trusted current fed r b) {p : List UInt8}
    (hword : r.word.length + p.length ≤ 4)
    (hroom : p.length ≤
      (r.evidence.incoming.payloadLength - r.received).toNat)
    (heof : r.eof = false) :
    Loading C trusted current (fed ++ p) { r with
      word := r.word ++ p
      received := r.received + UInt32.ofNat p.length } b := by
  have hle := h.streamed.room
  have hlt := r.evidence.incoming.payloadLength.toNat_lt
  have hcount := h.streamed.count
  rw [UInt32.toNat_sub_of_le _ _ hle] at hroom
  rw [UInt32.le_iff_toNat_le] at hle
  have hnext : (r.received + UInt32.ofNat p.length).toNat =
      r.received.toNat + p.length := by
    rw [UInt32.toNat_add, UInt32.toNat_ofNat']
    omega
  refine ⟨h.vouched, h.slot, ⟨h.authenticated.length, h.authenticated.incoming,
    h.authenticated.inactive⟩, h.emptied, ⟨?_, ?_, ?_, ?_, fun he => ?_⟩⟩
  · show fed ++ p = r.manifest ++ (b.mem.read _ _ ++ (r.word ++ p))
    rw [h.streamed.split, List.append_assoc, List.append_assoc]
  · show (r.received + UInt32.ofNat p.length).toNat =
      r.programmed.toNat + (r.word ++ p).length
    rw [hnext, List.length_append]
    omega
  · show r.received + UInt32.ofNat p.length ≤ r.evidence.incoming.payloadLength
    rw [UInt32.le_iff_toNat_le, hnext]
    omega
  · show (r.word ++ p).length ≤ 4
    rw [List.length_append]
    exact hword
  · rw [show r.eof = true from he] at heof
    cases heof

theorem feed_returned (h : ReceiveInv C trusted current fed r b)
    (p : List UInt8) :
    Returned C trusted current fed (.feed p) (bootReceiveFeed r p) b := by
  have hrefuse : ∀ result : BootReceiveResult, result ≠ .accepted →
      Returned C trusted current fed (.feed p) (refuse r result) b :=
    fun result hne => (refused rfl h.sent rfl h.phase hne).returned rfl
  unfold bootReceiveFeed
  split
  · exact hrefuse _ (by decide)
  split
  · exact hrefuse _ (by decide)
  split
  · exact hrefuse _ (by decide)
  split
  · exact (stopped rfl h.durable h.sent (by decide)).returned rfl
  next hnt hnn hpos hfits =>
  simp only [not_or, not_and, Nat.not_lt, gt_iff_lt] at hfits
  obtain ⟨heof, hroom⟩ := hfits
  obtain ⟨hs, hp⟩ := h
  split
  · next hr =>
      rw [hr] at hp
      have htake : (r.manifest ++ p.take
          (fill bootManifestBytes r.manifest.length p)).length =
            fed.length + fill bootManifestBytes r.manifest.length p := by
        rw [List.length_append, length_take_fill, hp.1.manifest]
      have hcount : fill bootManifestBytes r.manifest.length p ≤
          bootManifestBytes - fed.length := by
        rw [hp.1.manifest]
        exact Nat.min_le_left _ _
      have hlt := hp.2
      refine ⟨⟨hs.extend _, ?_⟩, fun ha => by cases ha⟩
      dsimp only
      split
      · next hfull =>
          refine ⟨hp.1.extend _, ?_⟩
          rw [ReceiveCall.taken, List.length_append, length_take_fill]
          omega
      · next hpart =>
          rw [hr]
          refine ⟨hp.1.extend _, ?_⟩
          rw [ReceiveCall.taken, List.length_append, length_take_fill]
          omega
  split
  · next hr =>
      rw [hr] at hp
      dsimp only
      split
      · exact (refused rfl hs hr hp (by decide)).returned rfl
      have hle : fill 4 r.word.length p ≤ 4 - r.word.length := Nat.min_le_left _ _
      have hle' : fill 4 r.word.length p ≤ p.length := Nat.min_le_right _ _
      have hword := hp.1.streamed.word
      have hroom := hroom (by rw [hr])
      have hload := hp.1.extend (p := p.take (fill 4 r.word.length p))
        (by rw [length_take_fill]; omega) (by rw [length_take_fill]; omega)
        (by simpa using heof)
      rw [length_take_fill] at hload
      have hphase : PhaseInv C trusted current _ _ b .payload := ⟨hload, hp.2⟩
      rw [← hr] at hphase
      exact ⟨⟨hs.extend _, hphase⟩, fun ha => by cases ha⟩
  · exact (refused rfl hs rfl hp (by decide)).returned rfl

/-- One call of the interface, whatever is called. -/
theorem call_wp (h : ReceiveInv C trusted current fed r b) (call : ReceiveCall) :
    wp boardDevice (Cut C trusted current fed r.permittedSlot) (call.calls C r)
      (Returned C trusted current fed call) b := by
  cases call with
  | begin config =>
      exact wp_mono (begin_wp h config) (fun b' hb => hb ▸ ⟨h.durable, h.sent⟩)
        fun reply b' hr => hr
  | feed bytes => exact feed_returned h bytes
  | step => exact wp_post (step_wp h) fun reply b' hr => hr.returned rfl
  | eof => exact (eof_stepped h).returned rfl
  | abort => exact (abort_stepped h).returned rfl

end Steps

end EkBareMetal.Boot

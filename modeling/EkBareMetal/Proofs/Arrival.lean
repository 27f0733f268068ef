import EkBareMetal.Proofs.Delivery
import EkBareMetal.Proofs.Working

/-!
# A package that arrives

A board that may fail at every request accepts nothing. On one that works, a
package that passes every check does go through: the manifest is offered in one
piece, the payload word by word, and a step is taken whenever there is one to
take. Each phase of the receiver has its own account of what is in the flash,
and `arrives` puts the phases together.
-/

namespace EkBareMetal.Boot

open Words Interact Transition ByteMem

/-! ## Flash that is being filled -/

/-- The addresses from `a` to `b` are erased. -/
def Erased (m : ByteMem) (a b : Nat) : Prop := ∀ x, a ≤ x → x < b → m x = 0xff

/-- From `s` on the memory holds the first `i` bytes of `w`, and behind them it is
erased up to `t`. -/
structure Laid (m : ByteMem) (s t : Nat) (w : List UInt8) (i : Nat) : Prop where
  held : m.read s i = w.take i
  erased : Erased m (s + i) t

section Filling

variable {m m' : ByteMem} {a b c n s t i : Nat} {w : List UInt8}

theorem Erased.read (h : Erased m a b) (hlo : a ≤ c) (hhi : c + n ≤ b) :
    m.read c n = List.replicate n 0xff := by
  rw [List.eq_replicate_iff]
  refine ⟨length_read _ _ _, fun y hy => ?_⟩
  obtain ⟨k, hk, rfl⟩ := List.mem_iff_getElem.mp hy
  rw [length_read] at hk
  rw [getElem_read]
  exact h _ (by omega) (by omega)

theorem Erased.mono (h : Erased m a b) {a' b' : Nat} (ha : a ≤ a') (hb : b' ≤ b) :
    Erased m a' b' := fun x hlo hhi => h x (by omega) (by omega)

theorem Erased.within (h : Erased m a b) (hw : Within m m' c n)
    (hd : c + n ≤ a ∨ b ≤ c) : Erased m' a b := by
  intro x hlo hhi
  rw [hw x (by omega)]
  exact h x hlo hhi

theorem laid_zero (h : Erased m s t) : Laid m s t w 0 := ⟨rfl, h⟩

/-- The next word. -/
theorem Laid.word (h : Laid m s t w i) (hi : i + 4 ≤ w.length) :
    Laid (m.write (s + i) (slice w i 4)) s t w (i + 4) := by
  have hlen : (slice w i 4).length = 4 := length_slice hi
  have hw := within_write m (s + i) (slice w i 4)
  have hnew := read_write_same m (s + i) (slice w i 4)
  rw [hlen] at hw hnew
  have hold : Agree m (m.write (s + i) (slice w i 4)) s i := hw.agree (.inl (Nat.le_refl _))
  refine ⟨?_, ?_⟩
  · rw [read_add, ← hold.read_eq, h.held, hnew, slice, ← List.take_add]
  · exact (h.erased.mono (by omega) (Nat.le_refl _)).within hw (.inl (by omega))

/-- Writes elsewhere do not matter. -/
theorem Laid.within (h : Laid m s t w i) (hw : Within m m' c n) (hd : c + n ≤ s ∨ t ≤ c)
    (hst : s + i ≤ t) : Laid m' s t w i := by
  have hagree : Agree m m' s i := hw.agree (by omega)
  exact ⟨hagree.read_eq.symm.trans h.held, h.erased.within hw (by omega)⟩

/-- A word that is still erased may be programmed. -/
theorem Laid.bits (h : Laid m s t w i) (ht : s + i + 4 ≤ t) (word : UInt32) :
    get32 (m.read (s + i) 4) &&& word = word := by
  rw [h.erased.read (Nat.le_refl _) ht]
  exact and_erased word

end Filling

/-! ## The receiver's steps -/

/-- A package that goes through on the station it is for: `r₀` is what the station
starts from, `r₁` the record with the slot emptied, `r₂` the one with the candidate. -/
structure Deliverable (C : Crypto) (e : BootUploadEvidence) (page : UInt32)
    (r₀ r₁ r₂ : BootMetadata) (image : BootVerifiedImage) (wire payload : List UInt8) :
    Prop where
  admitted : admittedManifest C wire e.permittedSlot = .ok e.incoming
  wire_length : wire.length = bootManifestBytes
  payload_length : payload.length = e.incoming.payloadLength.toNat
  stored : ∀ m : ByteMem, m.read (slotBase e.permittedSlot).toNat payload.length = payload →
    storedResult C m wire e.permittedSlot = .ok image
  room : r₀.sequence ≤ uint32Max - 2
  invalidated : Committed r₀ (.invalidate e) r₁
  plan : bootFlashEraseBegin ⟨r₁, 1 - page⟩ e.running.manifest.slot e.permittedSlot =
    .ok ⟨e.permittedSlot, 0, false⟩
  accepted : Committed r₁ (.acceptReady e image) r₂

section Steps

variable {C : Crypto} {e : BootUploadEvidence} {page : UInt32} {r₀ r₁ r₂ : BootMetadata}
  {image : BootVerifiedImage} {wire payload : List UInt8} {r : BootReceive} {mem : ByteMem}
  {K : ByteMem → Prop}

theorem begin_works (hp : Deliverable C e page r₀ r₁ r₂ image wire payload)
    (h : Authority mem page r₀) (hslot : e.permittedSlot ≤ bootSlotB) :
    wp obligingReceive K
      (bootReceiveBegin ⟨e.permittedSlot, pure (some e.running)⟩ bootReceiveInit)
      (fun reply m => m = mem ∧ ∃ kept, reply = proceed { bootReceiveInit with
        permittedSlot := e.permittedSlot
        phase := .header
        flashResult := kept
        authority := ⟨r₀, page⟩
        evidence := { e with incoming := .zero } }) mem := by
  unfold bootReceiveBegin
  rw [if_neg (by decide), if_neg (UInt32.not_lt.mpr hslot), wp_bind']
  refine wp_post (store_works .ok (load_works h)) fun x m hx => ?_
  obtain ⟨res, kept⟩ := x
  obtain ⟨rfl, rfl⟩ := hx
  dsimp only [beginRunning]
  rw [if_neg (UInt32.not_lt.mpr hp.room)]
  exact ⟨rfl, kept, rfl⟩

theorem authenticate_works (hp : Deliverable C e page r₀ r₁ r₂ image wire payload)
    (hphase : r.phase = .authenticate) (hm : r.manifest = wire)
    (hslot : r.permittedSlot = e.permittedSlot) (ha : r.authority = ⟨r₀, page⟩)
    (he : r.evidence = { e with incoming := .zero }) :
    wp obligingReceive K (bootReceiveStep C r)
      (fun reply m => m = mem ∧ ∃ kept, reply = proceed { r with
        flashResult := kept
        verifyResult := .ok
        evidence := e
        lifecycleResult := .change
        proposal := r₁
        phase := .invalidate }) mem := by
  have hs := (admittedManifest_ok.mp hp.admitted).1
  have hinv : bootLifecycleInvalidate r₀ e = (.change, some r₁) := hp.invalidated
  unfold bootReceiveStep
  rw [hphase]
  dsimp only [stepAuthenticate]
  rw [wp_bind', hm, hslot]
  refine wp_post (verify_works hs verifyManifest_only r.flashResult) fun x m hx => ?_
  obtain ⟨res, kept⟩ := x
  obtain ⟨rfl, hres⟩ := hx
  rw [board_manifest, hp.admitted] at hres
  dsimp only at hres
  subst hres
  dsimp only
  rw [ha, he]
  dsimp only
  rw [hinv]
  exact ⟨rfl, kept, rfl⟩

theorem invalidate_works (hp : Deliverable C e page r₀ r₁ r₂ image wire payload)
    (h : Authority mem page r₀) (hphase : r.phase = .invalidate)
    (hslot : r.permittedSlot = e.permittedSlot) (ha : r.authority = ⟨r₀, page⟩)
    (he : r.evidence = e) (hproposal : r.proposal = r₁) :
    wp obligingReceive K (bootReceiveStep C r)
      (fun reply m => Authority m (1 - page) r₁ ∧ reply = proceed { r with
        storeResult := .ok
        authority := ⟨r₁, 1 - page⟩
        flashResult := .ok
        erase := ⟨e.permittedSlot, 0, false⟩
        phase := .erase }) mem := by
  unfold bootReceiveStep
  rw [hphase]
  dsimp only [stepInvalidate]
  rw [wp_bind', ha, hproposal]
  refine wp_post (store_works .ok (replace_works h
    (metadataValidate_eq_ok.mpr hp.invalidated.after) hp.invalidated.next)) fun x m hx => ?_
  obtain ⟨res, kept⟩ := x
  obtain ⟨hres, hauth, -⟩ := hx
  dsimp only at hres
  subst hres
  dsimp only
  rw [he, hslot, hp.plan]
  exact ⟨hauth, rfl⟩

/-- Where the pages of a plan are. -/
theorem toNat_eraseAddress {slot : UInt32} {n : Nat} (hn : n < slotPages) :
    (BootFlashErasePlan.address ⟨slot, n, false⟩).toNat =
      if n = 0 then (slotManifest slot).toNat else (slotBase slot).toNat + (n - 1) * 1024 := by
  split
  · next h0 =>
      subst h0
      rfl
  · next h0 => exact toNat_planAddress h0 hn

theorem erase_proper {slot : UInt32} (hs : slotValid slot = true) {n : Nat}
    (hn : n < slotPages) :
    (ReceiveOp.flashErase (BootFlashErasePlan.address ⟨slot, n, false⟩)).Proper mem := by
  have hend : bootSlotBEnd.toNat = 260096 := rfl
  have h0 : bootMetadataPage0.toNat = 32768 := rfl
  have hpages : slotPages = 110 := rfl
  have ha := @toNat_eraseAddress slot n hn
  simp only [ReceiveOp.Proper, Placed, bootEraseBytes]
  rcases slot_bounds hs with ⟨-, hb, hm⟩ | ⟨-, hb, hm⟩ <;>
    rw [hb, hm] at ha <;> split at ha <;> omega

theorem erase_works {n : Nat} (hs : slotValid e.permittedSlot = true)
    (hphase : r.phase = .erase) (herase : r.erase = ⟨e.permittedSlot, n, false⟩)
    (hn : n < slotPages) :
    wp obligingReceive K (bootReceiveStep C r)
      (fun reply m => m = erasePage (BootFlashErasePlan.address ⟨e.permittedSlot, n, false⟩) mem ∧
        reply = proceed { r with
          flashResult := .ok
          erase := ⟨e.permittedSlot, n + 1, false⟩ }) mem := by
  have hslot : ¬ (e.permittedSlot > bootSlotB ∨ n > slotPages) := by
    rintro (h | h)
    · rcases slotValid_iff.mp hs with hs | hs <;>
      · rw [hs] at h
        exact absurd h (by decide)
    · omega
  unfold bootReceiveStep
  rw [hphase]
  dsimp only [stepErase]
  rw [herase, bootFlashEraseStep, if_neg Bool.false_ne_true, if_neg hslot,
    if_neg (Nat.ne_of_lt hn)]
  refine wp_obliging (erase_proper hs hn) ?_
  exact ⟨rfl, by rw [hphase]⟩

theorem erased_works (hphase : r.phase = .erase) (hs : slotValid e.permittedSlot = true)
    (herase : r.erase = ⟨e.permittedSlot, slotPages, false⟩) :
    wp obligingReceive K (bootReceiveStep C r)
      (fun reply m => m = mem ∧ reply = proceed { r with
        flashResult := .done
        phase := .payload }) mem := by
  have hslot : ¬ (e.permittedSlot > bootSlotB ∨ slotPages > slotPages) := by
    rintro (h | h)
    · rcases slotValid_iff.mp hs with hs | hs <;>
      · rw [hs] at h
        exact absurd h (by decide)
    · omega
  unfold bootReceiveStep
  rw [hphase]
  dsimp only [stepErase]
  rw [herase, bootFlashEraseStep, if_neg Bool.false_ne_true, if_neg hslot, if_pos rfl]
  exact ⟨rfl, rfl⟩

theorem word_works {address : UInt32} (hphase : r.phase = .payload) (hw : r.word.length = 4)
    (heof : r.eof = false)
    (ha : r.evidence.incoming.executionBase + r.programmed = address)
    (hprog : (ReceiveOp.flashProgram address (get32 r.word)).Proper mem) :
    wp obligingReceive K (bootReceiveStep C r)
      (fun reply m => m = mem.write address.toNat r.word ∧
        reply = refuse { r with
          flashResult := .ok
          programmed := r.programmed + 4
          word := [] } .ok) mem := by
  unfold bootReceiveStep
  rw [hphase]
  dsimp only [stepPayload]
  rw [if_pos hw, ha]
  refine wp_obliging hprog ?_
  dsimp only [workingReceive]
  rw [if_neg (not_not.mpr rfl), payloadEnd, heof, if_neg (fun h => Bool.false_ne_true h.1),
    put32_get32 hw]
  exact ⟨rfl, by rw [hphase]⟩

theorem manifest_works {address : UInt32} (hphase : r.phase = .writeManifest)
    (ha : slotManifest r.permittedSlot + r.manifestProgrammed = address)
    (hprog : (ReceiveOp.flashProgram address
      (get32 (slice r.manifest r.manifestProgrammed.toNat 4))).Proper mem)
    (hlen : r.manifestProgrammed.toNat + 4 ≤ r.manifest.length) :
    wp obligingReceive K (bootReceiveStep C r)
      (fun reply m =>
        m = mem.write address.toNat (slice r.manifest r.manifestProgrammed.toNat 4) ∧
        reply = proceed { r with
          flashResult := .ok
          manifestProgrammed := r.manifestProgrammed + 4
          phase := if r.manifestProgrammed + 4 = UInt32.ofNat bootManifestBytes then .verify
            else .writeManifest }) mem := by
  unfold bootReceiveStep
  rw [hphase]
  dsimp only [stepWriteManifest]
  rw [ha]
  refine wp_obliging hprog ?_
  dsimp only [workingReceive]
  rw [if_neg (not_not.mpr rfl), put32_get32 (length_slice hlen), hphase]
  exact ⟨rfl, rfl⟩

theorem verify_phase_works (hp : Deliverable C e page r₀ r₁ r₂ image wire payload)
    (hphase : r.phase = .verify) (hm : r.manifest = wire)
    (hslot : r.permittedSlot = e.permittedSlot) (ha : r.authority = ⟨r₁, 1 - page⟩)
    (he : r.evidence = e)
    (hread : mem.read (slotManifest e.permittedSlot).toNat bootManifestBytes = wire)
    (hpayload : mem.read (slotBase e.permittedSlot).toNat payload.length = payload) :
    wp obligingReceive K (bootReceiveStep C r)
      (fun reply m => m = mem ∧ ∃ kept, reply = proceed { r with
        flashResult := kept
        verifyResult := .ok
        stored := image
        lifecycleResult := .change
        proposal := r₂
        phase := .ready }) mem := by
  have hs := (admittedManifest_ok.mp hp.admitted).1
  have haccept : bootLifecycleAcceptReady r₁ e image = (.change, some r₂) := hp.accepted
  have hplaced : Placed (slotManifest e.permittedSlot) bootManifestBytes := by
    have hend : bootSlotBEnd.toNat = 260096 := rfl
    have h0 : bootMetadataPage0.toNat = 32768 := rfl
    simp only [Placed, bootManifestBytes]
    rcases slot_bounds hs with ⟨-, -, hb⟩ | ⟨-, -, hb⟩ <;> omega
  unfold bootReceiveStep
  rw [hphase]
  dsimp only [stepVerify]
  rw [hslot]
  refine wp_obliging hplaced ?_
  dsimp only [workingReceive]
  rw [if_neg (not_not.mpr (hread.trans hm.symm)), stepVerifyWire, wp_bind', hm]
  refine wp_post (verify_works hs verifyStored_only .ok) fun x m hx => ?_
  obtain ⟨res, kept⟩ := x
  obtain ⟨rfl, hres⟩ := hx
  dsimp only at hres
  rw [board_verify, hread, hp.stored m hpayload] at hres
  subst hres
  dsimp only
  rw [ha, he]
  dsimp only
  rw [haccept]
  exact ⟨rfl, kept, rfl⟩

theorem ready_works (hp : Deliverable C e page r₀ r₁ r₂ image wire payload)
    (h : Authority mem (1 - page) r₁) (hphase : r.phase = .ready)
    (ha : r.authority = ⟨r₁, 1 - page⟩) (hproposal : r.proposal = r₂) :
    wp obligingReceive K (bootReceiveStep C r)
      (fun reply m => Authority m (1 - (1 - page)) r₂ ∧
        reply.acceptance = some ⟨⟨r₂, 1 - (1 - page)⟩, r.stored, true⟩ ∧
        reply.receiver.phase = .terminal) mem := by
  unfold bootReceiveStep
  rw [hphase]
  dsimp only [stepReady]
  rw [wp_bind', ha, hproposal]
  refine wp_post (store_works .ok (replace_works h
    (metadataValidate_eq_ok.mpr hp.accepted.after) hp.accepted.next)) fun x m hx => ?_
  obtain ⟨res, kept⟩ := x
  obtain ⟨hres, hauth, -⟩ := hx
  dsimp only at hres
  subst hres
  exact ⟨hauth, rfl, rfl⟩

end Steps

/-! ## A run of the delivery -/

/-- The manifest has arrived, and nothing has been changed yet. -/
structure Announced (e : BootUploadEvidence) (page : UInt32) (r₀ : BootMetadata)
    (wire payload : List UInt8) (x : Delivery WorkingDevice) : Prop where
  manifest : x.receiver.manifest = wire
  slot : x.receiver.permittedSlot = e.permittedSlot
  snapshot : x.receiver.authority = ⟨r₀, page⟩
  blank : Blank x.receiver
  unsealed : x.receiver.manifestProgrammed = 0
  rest : x.rest = payload
  authority : Authority x.device.mem page r₀
  atRest : AtRest x.flash x.device

/-- The slot is given up, and `r₁` says so. -/
structure Vacated (e : BootUploadEvidence) (page : UInt32) (r₁ : BootMetadata)
    (wire : List UInt8) (x : Delivery WorkingDevice) : Prop where
  manifest : x.receiver.manifest = wire
  slot : x.receiver.permittedSlot = e.permittedSlot
  evidence : x.receiver.evidence = e
  snapshot : x.receiver.authority = ⟨r₁, 1 - page⟩
  authority : Authority x.device.mem (1 - page) r₁
  atRest : AtRest x.flash x.device

/-- So many pages are erased, the first of them the one of the manifest. -/
structure Wiping (e : BootUploadEvidence) (page : UInt32) (r₁ : BootMetadata)
    (wire payload : List UInt8) (n : Nat) (x : Delivery WorkingDevice) : Prop
    extends Vacated e page r₁ wire x where
  phase : x.receiver.phase = .erase
  plan : x.receiver.erase = ⟨e.permittedSlot, n, false⟩
  blank : Blank x.receiver
  unsealed : x.receiver.manifestProgrammed = 0
  rest : x.rest = payload
  sealed : Erased x.device.mem (slotManifest e.permittedSlot).toNat
    ((slotManifest e.permittedSlot).toNat + min n 1 * 1024)
  pages : Erased x.device.mem (slotBase e.permittedSlot).toNat
    ((slotBase e.permittedSlot).toNat + (n - 1) * 1024)

/-- So many words of the payload are programmed. -/
structure Filling (e : BootUploadEvidence) (page : UInt32) (r₁ : BootMetadata)
    (wire payload : List UInt8) (k : Nat) (x : Delivery WorkingDevice) : Prop
    extends Vacated e page r₁ wire x where
  phase : x.receiver.phase = .payload
  word : x.receiver.word = []
  eof : x.receiver.eof = false
  programmed : x.receiver.programmed.toNat = 4 * k
  received : x.receiver.received = x.receiver.programmed
  unsealed : x.receiver.manifestProgrammed = 0
  rest : x.rest = payload.drop (4 * k)
  sealed : Erased x.device.mem (slotManifest e.permittedSlot).toNat
    ((slotManifest e.permittedSlot).toNat + 1024)
  laid : Laid x.device.mem (slotBase e.permittedSlot).toNat
    (slotManifest e.permittedSlot).toNat payload (4 * k)

/-- All of the payload is in its place, and so many words of the manifest are. -/
structure Sealing (e : BootUploadEvidence) (page : UInt32) (r₁ : BootMetadata)
    (wire payload : List UInt8) (j : Nat) (x : Delivery WorkingDevice) : Prop
    extends Vacated e page r₁ wire x where
  phase : x.receiver.phase = if 4 * j = bootManifestBytes then .verify else .writeManifest
  programmed : x.receiver.manifestProgrammed.toNat = 4 * j
  held : x.device.mem.read (slotBase e.permittedSlot).toNat payload.length = payload
  laid : Laid x.device.mem (slotManifest e.permittedSlot).toNat
    ((slotManifest e.permittedSlot).toNat + 1024) wire (4 * j)

/-- The record with the candidate is next. -/
structure Poised (page : UInt32) (r₁ r₂ : BootMetadata) (image : BootVerifiedImage)
    (x : Delivery WorkingDevice) : Prop where
  phase : x.receiver.phase = .ready
  snapshot : x.receiver.authority = ⟨r₁, 1 - page⟩
  proposal : x.receiver.proposal = r₂
  stored : x.receiver.stored = image
  authority : Authority x.device.mem (1 - page) r₁
  atRest : AtRest x.flash x.device

section Delivering

variable {C : Crypto} {e : BootUploadEvidence} {page : UInt32} {r₀ r₁ r₂ : BootMetadata}
  {image : BootVerifiedImage} {wire payload : List UInt8} {x : Delivery WorkingDevice}
  {f : BootFlash} {d : WorkingDevice}

/-- Deliveries on the working board. -/
abbrev WorkingStep (C : Crypto) := DeliveryStep C workingController

theorem Authority.in_slot {m m' : ByteMem} {p slot : UInt32} {r : BootMetadata} {a n : Nat}
    (h : Authority m p r) (hw : Within m m' a n)
    (hin : ∀ y, a ≤ y → y < a + n → InSlot slot y) : Authority m' p r :=
  h.congr (recordBytes_congr (hw.inside hin) fun _ hm hs => not_inMetadata_of_inSlot hs hm)

/-- Every move but the announcement may be taken at any time. -/
theorem move_reaches {m : DeliveryMove} (hm : m ≠ .eof) :
    Reaches (WorkingStep C) x (x.move C workingController m) :=
  .single (l := m) ⟨fun he => absurd he hm, rfl⟩

theorem feed_reaches (n : Nat) : Reaches (WorkingStep C) x (x.move C workingController (.feed n)) :=
  move_reaches nofun

theorem stepped_reaches : Reaches (WorkingStep C) x (x.move C workingController .step) :=
  move_reaches nofun

theorem step_reaches {Q : ReceiveReply → ByteMem → Prop} (ha : AtRest x.flash x.device)
    (hw : wp obligingReceive (fun _ => False) (bootReceiveStep C x.receiver) Q x.device.mem) :
    ∃ reply f d, Reaches (WorkingStep C) x (x.after reply f d) ∧ Q reply d.mem ∧
      AtRest f d := by
  obtain ⟨hq, hrest⟩ := @perform_works C x.receiver x.flash x.device .step Q ha hw
  exact ⟨_, _, _, stepped_reaches, hq, hrest⟩

/-- A fresh receiver that was begun. -/
def opened (e : BootUploadEvidence) (page : UInt32) (r₀ : BootMetadata)
    (kept : BootFlashResult) : BootReceive :=
  { bootReceiveInit with
    permittedSlot := e.permittedSlot
    phase := .header
    flashResult := kept
    authority := ⟨r₀, page⟩
    evidence := { e with incoming := .zero } }

theorem begun_works (hp : Deliverable C e page r₀ r₁ r₂ image wire payload)
    (hr : AtRest f d) (h : Authority d.mem page r₀) :
    ∃ kept f' d', Delivery.begun C workingController
        ⟨e.permittedSlot, pure (some e.running)⟩ f d (wire ++ payload) =
      ⟨opened e page r₀ kept, f', d', wire ++ payload, none⟩ ∧
      d'.mem = d.mem ∧ AtRest f' d' := by
  have hs := (admittedManifest_ok.mp hp.admitted).1
  have hslot : e.permittedSlot ≤ bootSlotB := by
    rcases slotValid_iff.mp hs with hs | hs <;> rw [hs] <;> decide
  obtain ⟨⟨hm, kept, hreply⟩, hrest⟩ :=
    @perform_works C bootReceiveInit f d (.begin ⟨e.permittedSlot, pure (some e.running)⟩) _
      hr (begin_works hp h hslot)
  refine ⟨kept, _, _, ?_, hm, hrest⟩
  rw [Delivery.begun, Delivery.call]
  dsimp only
  rw [hreply]
  rfl

/-- The manifest arrives in one piece. -/
theorem header_arrives {r : BootReceive} (hphase : r.phase = .header)
    (hm : r.manifest = []) (heof : r.eof = false) (hw : wire.length = bootManifestBytes) :
    (Delivery.mk r f d (wire ++ payload) none).move C workingController
        (.feed bootManifestBytes) =
      ⟨{ r with manifest := wire, phase := .authenticate }, f, d, payload, none⟩ := by
  have htake : (wire ++ payload).take bootManifestBytes = wire := by
    rw [← hw, List.take_left]
  have hne : (wire ++ payload).take bootManifestBytes ≠ [] := by
    rw [htake]
    rintro rfl
    cases hw
  rw [move_header hphase heof hne]
  have hmin : min (bootManifestBytes - r.manifest.length)
      (min bootManifestBytes (wire ++ payload).length) = bootManifestBytes := by
    rw [hm, List.length_append, hw, List.length_nil]
    omega
  dsimp only
  rw [hmin, Delivery.headed, headed]
  dsimp only
  rw [htake, hm, List.nil_append, if_pos hw, ← hw, List.drop_left]

theorem Announced.authenticates (hp : Deliverable C e page r₀ r₁ r₂ image wire payload)
    (h : Announced e page r₀ wire payload x) (hphase : x.receiver.phase = .authenticate)
    (he : x.receiver.evidence = { e with incoming := .zero }) :
    ∃ x', Reaches (WorkingStep C) x x' ∧ Announced e page r₀ wire payload x' ∧
      x'.receiver.phase = .invalidate ∧ x'.receiver.evidence = e ∧
      x'.receiver.proposal = r₁ := by
  obtain ⟨reply, f, d, hx, ⟨hm, kept, rfl⟩, hr⟩ := step_reaches h.atRest
    (authenticate_works hp hphase h.manifest h.slot h.snapshot he)
  refine ⟨_, hx, ⟨h.manifest, h.slot, h.snapshot, ⟨h.blank.word, h.blank.received,
    h.blank.programmed, h.blank.eof⟩, h.unsealed, h.rest, ?_, hr⟩, rfl, rfl, rfl⟩
  exact hm ▸ h.authority

theorem Announced.invalidates (hp : Deliverable C e page r₀ r₁ r₂ image wire payload)
    (h : Announced e page r₀ wire payload x) (hphase : x.receiver.phase = .invalidate)
    (he : x.receiver.evidence = e) (hproposal : x.receiver.proposal = r₁) :
    ∃ x', Reaches (WorkingStep C) x x' ∧ Wiping e page r₁ wire payload 0 x' := by
  obtain ⟨reply, f, d, hx, ⟨hauth, rfl⟩, hr⟩ := step_reaches h.atRest
    (invalidate_works (C := C) hp h.authority hphase h.slot h.snapshot he hproposal)
  refine ⟨_, hx, ⟨h.manifest, h.slot, he, rfl, hauth, hr⟩, rfl, rfl, ⟨h.blank.word,
    h.blank.received, h.blank.programmed, h.blank.eof⟩, h.unsealed, h.rest,
    fun y hlo hhi => ?_, fun y hlo hhi => ?_⟩ <;> omega

theorem opens (hp : Deliverable C e page r₀ r₁ r₂ image wire payload)
    (hr : AtRest f d) (h : Authority d.mem page r₀) :
    ∃ x, Reaches (WorkingStep C) (.begun C workingController
        ⟨e.permittedSlot, pure (some e.running)⟩ f d (wire ++ payload)) x ∧
      Wiping e page r₁ wire payload 0 x := by
  obtain ⟨kept, f₀, d₀, hbegun, hm, hr⟩ := begun_works hp hr h
  rw [← hm] at h
  have hfed := @feed_reaches C ⟨opened e page r₀ kept, f₀, d₀, wire ++ payload, none⟩
    bootManifestBytes
  rw [header_arrives rfl rfl rfl hp.wire_length, ← hbegun] at hfed
  have hheard : Announced e page r₀ wire payload
      ⟨{ opened e page r₀ kept with manifest := wire, phase := .authenticate }, f₀, d₀,
        payload, none⟩ := ⟨rfl, rfl, rfl, ⟨rfl, rfl, rfl, rfl⟩, rfl, rfl, h, hr⟩
  obtain ⟨x₁, h₁, hheard, hphase, he, hproposal⟩ := hheard.authenticates hp rfl rfl
  obtain ⟨x₂, h₂, hwiping⟩ := hheard.invalidates hp hphase he hproposal
  exact ⟨x₂, (hfed.trans h₁).trans h₂, hwiping⟩

/-! ### The pages -/

theorem Erased.append {m : ByteMem} {a b c : Nat} (h : Erased m a b) (h' : Erased m b c) :
    Erased m a c := fun x hlo hhi => by
  by_cases hx : x < b
  · exact h x hlo hx
  · exact h' x (by omega) hhi

theorem erased_page (a : UInt32) (m : ByteMem) :
    Erased (erasePage a m) a.toNat (a.toNat + 1024) := by
  intro x hlo hhi
  have hread := @read_erasePage m a (x - a.toNat) 1 (by simp only [bootEraseBytes]; omega)
  rw [show a.toNat + (x - a.toNat) = x by omega] at hread
  exact List.singleton_inj.mp hread

theorem Wiping.next (hp : Deliverable C e page r₀ r₁ r₂ image wire payload) {n : Nat}
    (hn : n < slotPages) (h : Wiping e page r₁ wire payload n x) :
    ∃ x', Reaches (WorkingStep C) x x' ∧ Wiping e page r₁ wire payload (n + 1) x' := by
  have hs := (admittedManifest_ok.mp hp.admitted).1
  have hpages : slotPages = 110 := rfl
  obtain ⟨reply, f, d, hx, ⟨hm, rfl⟩, hr⟩ := step_reaches h.atRest
    (erase_works (C := C) hs h.phase h.plan hn)
  have hw := within_erasePage (BootFlashErasePlan.address ⟨e.permittedSlot, n, false⟩)
    x.device.mem
  have hnew := erased_page (BootFlashErasePlan.address ⟨e.permittedSlot, n, false⟩)
    x.device.mem
  have ha := @toNat_eraseAddress e.permittedSlot n hn
  rw [← hm] at hw hnew
  have hin : ∀ y, (BootFlashErasePlan.address ⟨e.permittedSlot, n, false⟩).toNat ≤ y →
      y < (BootFlashErasePlan.address ⟨e.permittedSlot, n, false⟩).toNat + bootEraseBytes →
      InSlot e.permittedSlot y := by
    simp only [InSlot, bootEraseBytes, bootSlotBytes]
    intro y hlo hhi
    refine ⟨hs, ?_⟩
    rcases slot_bounds hs with ⟨-, hb, hm⟩ | ⟨-, hb, hm⟩ <;>
      rw [hb, hm] at ha <;> split at ha <;> omega
  refine ⟨_, hx, ⟨h.manifest, h.slot, h.evidence, h.snapshot, h.authority.in_slot hw hin, hr⟩,
    h.phase, rfl, ⟨h.blank.word, h.blank.received, h.blank.programmed, h.blank.eof⟩,
    h.unsealed, h.rest, ?_, ?_⟩
  · rcases Nat.eq_zero_or_pos n with rfl | hpos
    · exact hnew
    · rw [if_neg (by omega)] at ha
      rw [show min (n + 1) 1 = min n 1 by omega]
      refine h.sealed.within hw (.inl ?_)
      simp only [bootEraseBytes]
      rcases slot_bounds hs with ⟨-, hb, hm⟩ | ⟨-, hb, hm⟩ <;> omega
  · rcases Nat.eq_zero_or_pos n with rfl | hpos
    · intro y hlo hhi
      omega
    · rw [if_neg (by omega)] at ha
      rw [ha] at hw hnew
      rw [show n + 1 - 1 = n - 1 + 1 by omega, Nat.succ_mul, ← Nat.add_assoc]
      exact (h.pages.within hw (.inr (Nat.le_refl _))).append hnew

/-- The whole slot is erased. -/
theorem Wiping.ends (hp : Deliverable C e page r₀ r₁ r₂ image wire payload)
    (h : Wiping e page r₁ wire payload slotPages x) :
    ∃ x', Reaches (WorkingStep C) x x' ∧ Filling e page r₁ wire payload 0 x' := by
  have hs := (admittedManifest_ok.mp hp.admitted).1
  obtain ⟨reply, f, d, hx, ⟨hm, rfl⟩, hr⟩ := step_reaches h.atRest
    (erased_works (C := C) h.phase hs h.plan)
  have hsealed := h.sealed
  have hpages := h.pages
  have hauth := h.authority
  rw [← hm] at hsealed hpages hauth
  refine ⟨_, hx, ⟨h.manifest, h.slot, h.evidence, h.snapshot, hauth, hr⟩, rfl, h.blank.word,
    h.blank.eof, congrArg UInt32.toNat h.blank.programmed,
    h.blank.received.trans h.blank.programmed.symm, h.unsealed, h.rest, hsealed,
    laid_zero ?_⟩
  refine hpages.mono (Nat.le_refl _) ?_
  have h110 : slotPages = 110 := rfl
  rcases slot_bounds hs with ⟨-, hb, hm⟩ | ⟨-, hb, hm⟩ <;> omega

/-! ### The words of the payload -/

/-- Where the payload of a package belongs. -/
theorem Deliverable.placed (hp : Deliverable C e page r₀ r₁ r₂ image wire payload) :
    slotValid e.permittedSlot = true ∧ e.incoming.executionBase = slotBase e.permittedSlot ∧
      4 ∣ payload.length ∧
      (slotBase e.permittedSlot).toNat + payload.length ≤
        (slotManifest e.permittedSlot).toNat := by
  obtain ⟨hs, hd, hslot, -⟩ := admittedManifest_ok.mp hp.admitted
  obtain ⟨-, hbase, -, -, hmask⟩ := manifestValidate_eq_ok (manifestDecode_ok hd)
  have hbound := (payload_bounds (manifestDecode_ok hd)).1
  have hfour := toNat_and_mask e.incoming.payloadLength (n := 2) (by decide)
  rw [show UInt32.ofNat (2 ^ 2 - 1) = 3 from rfl, hmask] at hfour
  rw [hbase, hslot, ← hp.payload_length] at hbound
  rw [hslot] at hbase
  rw [← hp.payload_length] at hfour
  exact ⟨hs, hbase, Nat.dvd_of_mod_eq_zero hfour.symm, hbound⟩

/-- More of the next word arrives. -/
theorem Filling.feeds (hp : Deliverable C e page r₀ r₁ r₂ image wire payload) {k n : Nat}
    (h0 : 0 < n) (h4 : n ≤ 4) (hn : 4 * k + n ≤ payload.length)
    (h : Filling e page r₁ wire payload k x) :
    x.rest.take n = slice payload (4 * k) n ∧
      x.move C workingController (.feed n) = x.worded n := by
  have hlen : x.rest.length = payload.length - 4 * k := by
    rw [h.rest, List.length_drop]
  have htake : (x.rest.take n).length = n := List.length_take_of_le (by omega)
  refine ⟨by rw [h.rest, slice], ?_⟩
  rw [move_word h.phase h.eof]
  · rw [h.word, List.length_nil, hlen]
    congr 1
    omega
  · rw [← List.length_pos_iff]
    omega
  · have hle : x.receiver.received ≤ e.incoming.payloadLength := by
      rw [UInt32.le_iff_toNat_le, h.received, h.programmed, ← hp.payload_length]
      omega
    rw [htake, h.evidence, UInt32.toNat_sub_of_le _ _ hle, h.received, h.programmed,
      ← hp.payload_length]
    omega

theorem toNat_add_four {w : UInt32} {k : Nat} (h : w.toNat = 4 * k) (hk : 4 * k + 4 < 2 ^ 32) :
    (w + 4).toNat = 4 * (k + 1) := by
  rw [UInt32.toNat_add, h, show (4 : UInt32).toNat = 4 from rfl, Nat.mod_eq_of_lt hk]
  omega

theorem Filling.next (hp : Deliverable C e page r₀ r₁ r₂ image wire payload) {k : Nat}
    (hk : 4 * k + 4 ≤ payload.length) (h : Filling e page r₁ wire payload k x) :
    ∃ x', Reaches (WorkingStep C) x x' ∧ Filling e page r₁ wire payload (k + 1) x' := by
  obtain ⟨hs, hbase, -, hbound⟩ := hp.placed
  obtain ⟨htake, hfed⟩ := h.feeds hp (by decide) (Nat.le_refl 4) hk
  have hword : x.receiver.word ++ x.rest.take 4 = slice payload (4 * k) 4 := by
    rw [h.word, List.nil_append, htake]
  have hmax : bootSlotBEnd.toNat = 260096 := rfl
  have h0 : bootMetadataPage0.toNat = 32768 := rfl
  have haddress : (e.incoming.executionBase + x.receiver.programmed).toNat =
      (slotBase e.permittedSlot).toNat + 4 * k := by
    rw [hbase, UInt32.toNat_add, h.programmed]
    rcases slot_bounds hs with ⟨-, hb, hm⟩ | ⟨-, hb, hm⟩ <;> omega
  have hproper : ∀ w, (ReceiveOp.flashProgram
      (e.incoming.executionBase + x.receiver.programmed) w).Proper x.device.mem := by
    intro w
    simp only [ReceiveOp.Proper, Placed, bootProgramBytes, haddress]
    refine ⟨?_, ?_, h.laid.bits (by omega) w⟩ <;>
      rcases slot_bounds hs with ⟨-, hb, hm⟩ | ⟨-, hb, hm⟩ <;> omega
  obtain ⟨reply, f, d, hx, ⟨hm, rfl⟩, hr⟩ := step_reaches (x := x.worded 4) h.atRest
    (word_works (C := C) h.phase (by rw [Delivery.worded, worded, hword, length_slice hk]) h.eof
      (by rw [Delivery.worded, worded, h.evidence]) (hproper _))
  have hm : d.mem = x.device.mem.write ((slotBase e.permittedSlot).toNat + 4 * k)
      (slice payload (4 * k) 4) := by
    rw [hm, haddress, Delivery.worded, worded, hword]
  have hw := within_write x.device.mem ((slotBase e.permittedSlot).toNat + 4 * k)
    (slice payload (4 * k) 4)
  have hlaid := h.laid.word hk
  rw [length_slice hk] at hw
  rw [← hm] at hw hlaid
  have hin : ∀ y, (slotBase e.permittedSlot).toNat + 4 * k ≤ y →
      y < (slotBase e.permittedSlot).toNat + 4 * k + 4 → InSlot e.permittedSlot y := by
    intro y hlo hhi
    refine inSlot_payload hs (by omega) ?_
    have hmax : bootPayloadMax.toNat = 111616 := rfl
    rcases slot_bounds hs with ⟨-, hb, hm⟩ | ⟨-, hb, hm⟩ <;> omega
  have hfour : (x.rest.take 4).length = 4 := by
    rw [htake, length_slice hk]
  have hfed : Reaches (WorkingStep C) x (x.worded 4) := hfed ▸ feed_reaches 4
  refine ⟨_, hfed.trans hx, ⟨h.manifest, h.slot, h.evidence, h.snapshot,
    h.authority.in_slot hw hin, hr⟩, h.phase, rfl, h.eof, toNat_add_four h.programmed ?_, ?_,
    h.unsealed, ?_, h.sealed.within hw (.inl (by omega)), hlaid⟩
  · rcases slot_bounds hs with ⟨-, hb, hm⟩ | ⟨-, hb, hm⟩ <;> omega
  · show x.receiver.received + UInt32.ofNat (x.rest.take 4).length = x.receiver.programmed + 4
    rw [h.received, hfour]
    rfl
  · show x.rest.drop 4 = payload.drop (4 * (k + 1))
    rw [h.rest, List.drop_drop]
    rfl

/-- The end is announced, and the receiver goes on to the manifest. -/
theorem Filling.ends (hp : Deliverable C e page r₀ r₁ r₂ image wire payload) {k : Nat}
    (hk : 4 * k = payload.length) (h : Filling e page r₁ wire payload k x) :
    ∃ x', Reaches (WorkingStep C) x x' ∧ Sealing e page r₁ wire payload 0 x' := by
  have hall : x.receiver.programmed = e.incoming.payloadLength := by
    rw [← UInt32.toNat_inj, h.programmed, hk, hp.payload_length]
  have hrest : x.rest = [] := by
    rw [h.rest, hk, List.drop_length]
  have heof : x.move C workingController .eof = x.ended :=
    call_eof (eof_complete (by rw [h.manifest, hp.wire_length]) (by rw [h.phase])
      (by rw [h.phase]; decide) (by rw [h.received, h.evidence, hall]))
  have hstep : x.ended.move C workingController .step = x.ended.closed :=
    step_ends h.phase (by rw [Delivery.ended, h.word]; decide)
      ⟨rfl, by rw [Delivery.ended, h.evidence]; exact hall⟩
  have hended : Reaches (WorkingStep C) x x.ended :=
    .single (l := .eof) ⟨fun _ => hrest, heof.symm⟩
  have hclosed := @stepped_reaches C x.ended
  rw [hstep] at hclosed
  refine ⟨_, hended.trans hclosed, ⟨h.manifest, h.slot, h.evidence, h.snapshot, h.authority, h.atRest⟩, rfl,
    congrArg UInt32.toNat h.unsealed, ?_, laid_zero h.sealed⟩
  have hheld := h.laid.held
  rwa [hk, List.take_length] at hheld

theorem Sealing.next (hp : Deliverable C e page r₀ r₁ r₂ image wire payload) {j : Nat}
    (hj : 4 * j + 4 ≤ bootManifestBytes) (h : Sealing e page r₁ wire payload j x) :
    ∃ x', Reaches (WorkingStep C) x x' ∧ Sealing e page r₁ wire payload (j + 1) x' := by
  obtain ⟨hs, -, -, hbound⟩ := hp.placed
  have hlen : bootManifestBytes = 160 := rfl
  have hmax : bootSlotBEnd.toNat = 260096 := rfl
  have h0 : bootMetadataPage0.toNat = 32768 := rfl
  have hwire : 4 * j + 4 ≤ wire.length := by rwa [hp.wire_length]
  have hphase : x.receiver.phase = .writeManifest := by
    rw [h.phase, if_neg (by omega)]
  have haddress : (slotManifest x.receiver.permittedSlot +
      x.receiver.manifestProgrammed).toNat = (slotManifest e.permittedSlot).toNat + 4 * j := by
    rw [h.slot, UInt32.toNat_add, h.programmed]
    rcases slot_bounds hs with ⟨-, hb, hm⟩ | ⟨-, hb, hm⟩ <;> omega
  have hproper : ∀ w, (ReceiveOp.flashProgram
      (slotManifest x.receiver.permittedSlot + x.receiver.manifestProgrammed) w).Proper
        x.device.mem := by
    intro w
    simp only [ReceiveOp.Proper, Placed, bootProgramBytes, haddress]
    refine ⟨?_, ?_, h.laid.bits (by omega) w⟩ <;>
      rcases slot_bounds hs with ⟨-, hb, hm⟩ | ⟨-, hb, hm⟩ <;> omega
  obtain ⟨reply, f, d, hx, ⟨hm, rfl⟩, hr⟩ := step_reaches h.atRest
    (manifest_works (C := C) hphase rfl (hproper _)
      (by rw [h.programmed, h.manifest]; exact hwire))
  have hm : d.mem = x.device.mem.write ((slotManifest e.permittedSlot).toNat + 4 * j)
      (slice wire (4 * j) 4) := by
    rw [hm, haddress, h.manifest, h.programmed]
  have hw := within_write x.device.mem ((slotManifest e.permittedSlot).toNat + 4 * j)
    (slice wire (4 * j) 4)
  have hlaid := h.laid.word hwire
  rw [length_slice hwire] at hw
  rw [← hm] at hw hlaid
  have hin : ∀ y, (slotManifest e.permittedSlot).toNat + 4 * j ≤ y →
      y < (slotManifest e.permittedSlot).toNat + 4 * j + 4 → InSlot e.permittedSlot y := by
    intro y hlo hhi
    refine inSlot_manifest hs (by omega) ?_
    simp only [bootEraseBytes]
    omega
  have hnext := toNat_add_four h.programmed (by omega)
  have hheld := (hw.agree (.inl (by omega)) :
    Agree x.device.mem d.mem (slotBase e.permittedSlot).toNat payload.length).read_eq
  refine ⟨_, hx, ⟨h.manifest, h.slot, h.evidence, h.snapshot, h.authority.in_slot hw hin, hr⟩,
    ?_, hnext, hheld.symm.trans h.held, hlaid⟩
  show (if x.receiver.manifestProgrammed + 4 = UInt32.ofNat bootManifestBytes then
    BootReceivePhase.verify else .writeManifest) = _
  refine if_congr ?_ rfl rfl
  rw [← UInt32.toNat_inj, hnext]
  rfl

/-- What is stored is verified, and found to be the image. -/
theorem Sealing.ends (hp : Deliverable C e page r₀ r₁ r₂ image wire payload)
    (h : Sealing e page r₁ wire payload 40 x) :
    ∃ x', Reaches (WorkingStep C) x x' ∧ Poised page r₁ r₂ image x' := by
  have hwire := h.laid.held
  rw [show 4 * 40 = wire.length by rw [hp.wire_length], List.take_length,
    hp.wire_length] at hwire
  obtain ⟨reply, f, d, hx, ⟨hm, kept, rfl⟩, hr⟩ := step_reaches h.atRest
    (verify_phase_works hp (by rw [h.phase]; rfl) h.manifest h.slot h.snapshot h.evidence
      hwire h.held)
  have hauth := h.authority
  rw [← hm] at hauth
  exact ⟨_, hx, rfl, h.snapshot, rfl, rfl, hauth, hr⟩

/-- Any part of the payload that ends with a word can arrive. -/
theorem fills (hp : Deliverable C e page r₀ r₁ r₂ image wire payload) (hr : AtRest f d)
    (h : Authority d.mem page r₀) {k : Nat} (hk : 4 * k ≤ payload.length) :
    ∃ x, Reaches (WorkingStep C) (.begun C workingController
        ⟨e.permittedSlot, pure (some e.running)⟩ f d (wire ++ payload)) x ∧
      Filling e page r₁ wire payload k x := by
  obtain ⟨x₁, h₁, hwiping⟩ := opens hp hr h
  obtain ⟨x₂, h₂, hwiping⟩ := Reaches.loop (P := Wiping e page r₁ wire payload)
    (fun n hn x hx => hx.next hp hn) hwiping slotPages (Nat.le_refl _)
  obtain ⟨x₃, h₃, hfilling⟩ := hwiping.ends hp
  obtain ⟨x₄, h₄, hfilling⟩ := Reaches.loop (P := Filling e page r₁ wire payload)
    (fun k hk x hx => hx.next hp (by omega)) hfilling k (Nat.le_refl _)
  exact ⟨x₄, ((h₁.trans h₂).trans h₃).trans h₄, hfilling⟩

theorem poises (hp : Deliverable C e page r₀ r₁ r₂ image wire payload) (hr : AtRest f d)
    (h : Authority d.mem page r₀) :
    ∃ x, Reaches (WorkingStep C) (.begun C workingController
        ⟨e.permittedSlot, pure (some e.running)⟩ f d (wire ++ payload)) x ∧
      Poised page r₁ r₂ image x := by
  obtain ⟨-, -, ⟨k, hk⟩, -⟩ := hp.placed
  obtain ⟨x₁, h₁, hfilling⟩ := fills hp hr h (Nat.le_of_eq hk.symm)
  obtain ⟨x₂, h₂, hsealing⟩ := hfilling.ends hp hk.symm
  obtain ⟨x₃, h₃, hsealing⟩ := Reaches.loop (P := Sealing e page r₁ wire payload)
    (fun j hj x hx => hx.next hp (show 4 * j + 4 ≤ 160 by omega)) hsealing 40 (Nat.le_refl _)
  obtain ⟨x₄, h₄, hpoised⟩ := hsealing.ends hp
  exact ⟨x₄, ((h₁.trans h₂).trans h₃).trans h₄, hpoised⟩

/-- A package that goes through is accepted by a board that works. -/
theorem arrives (hp : Deliverable C e page r₀ r₁ r₂ image wire payload) (hr : AtRest f d)
    (h : Authority d.mem page r₀) :
    ∃ x p, Reaches (WorkingStep C) (.begun C workingController
        ⟨e.permittedSlot, pure (some e.running)⟩ f d (wire ++ payload)) x ∧
      x.receiver.phase = .terminal ∧ x.out = some ⟨⟨r₂, p⟩, image, true⟩ ∧
      Authority x.device.mem p r₂ := by
  obtain ⟨x, hx, hpoised⟩ := poises hp hr h
  obtain ⟨reply, f, d, hnext, ⟨hauth, hacc, hphase⟩, -⟩ := step_reaches hpoised.atRest
    (ready_works hp hpoised.authority hpoised.phase hpoised.snapshot hpoised.proposal)
  rw [hpoised.stored] at hacc
  refine ⟨_, _, hx.trans hnext, hphase, ?_, hauth⟩
  show reply.acceptance.or x.out = _
  rw [hacc]
  rfl

end Delivering

/-! ## The station -/

/-- The package for slot B, on its way to the station that runs slot A. -/
def stationDelivery : Delivery WorkingDevice :=
  .begun packageCrypto workingController ⟨bootSlotB, pure (some (packageImage bootSlotA))⟩
    workingDriver stationBoard (packageWire bootSlotB ++ packagePayload bootSlotB)

theorem station_authority : Authority stationBoard.mem 0 factoryRecord :=
  authority_of_load station_loaded

set_option maxRecDepth 2000 in
theorem station_deliverable :
    Deliverable packageCrypto packageUpload 0 factoryRecord
      { factoryRecord with sequence := 2 } readyRecord (packageImage bootSlotB)
      (packageWire bootSlotB) (packagePayload bootSlotB) where
  admitted := package_admitted rfl
  wire_length := rfl
  payload_length := rfl
  stored _ h := package_stored rfl h
  room := by decide
  invalidated := factory_invalidated
  plan := by decide
  accepted := factory_accepted

end EkBareMetal.Boot
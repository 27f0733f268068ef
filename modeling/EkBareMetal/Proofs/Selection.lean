import EkBareMetal.Proofs.Select
import EkBareMetal.Proofs.Store
import EkBareMetal.Proofs.Accounting
import EkBareMetal.Proofs.Reachable
import EkBareMetal.Proofs.Replacement

/-!
# What a selection promises

The call sequences of `Proofs/Select` with each call served by the program
behind it. Whatever the reader, the progress callback and the store callbacks
do, what is published was verified in this call, for a slot with the right to
be booted in the record it is published with; and the calls that may follow
one another are few.
-/

namespace EkBareMetal.Boot

open Words Interact

/-! ## Served calls -/

/-- A call of a selection, with the transcript of the program that served it. -/
abbrev SelectServed (C : Crypto) := Served (S := SelectSig) (serveSelect C)

/-- What is known of a call from the program that serves it. -/
def CallOk (C : Crypto) : Event SelectSig → Prop
  | ⟨.load, r⟩ => ∀ s, r = .ok s → Loadable s
  | ⟨.replace expected desired, r⟩ => ∀ s, r = .ok s → Replaced expected desired s
  | ⟨.verify wire slot, r⟩ => ∀ i, r = .ok i → VerifiedFor C wire slot i

theorem served_callOk {C : Crypto} (c : SelectServed C) :
    CallOk C c.event := by
  obtain ⟨op, ans, sub, hr⟩ := c
  cases op with
  | load =>
      obtain ⟨tr, -, h⟩ := runs_left hr
      exact (load_safe tr ans h).2
  | replace expected desired =>
      obtain ⟨tr, -, h⟩ := runs_left hr
      exact (replace_safe expected desired tr ans h).2
  | verify wire slot =>
      obtain ⟨tr, -, h⟩ := runs_right hr
      exact (verifyStored_safe C wire slot tr ans h).2

/-! ## Publication -/

/-- The right of a slot to be booted under a record. -/
def Bootable (r : BootMetadata) (slot : UInt32) : Prop :=
  (r.candidateSlot = slot ∧ r.state slot = bootStateTrial ∧
    r.confirmed slot = false) ∨
  (r.currentSlot = slot ∧ r.confirmed slot = true)

/-- Where the right comes from, in the record the selection started with. -/
def Eligible (r : BootMetadata) (slot : UInt32) : Prop :=
  r.candidateSlot = slot ∨ r.confirmed slot = true

/-- What there is to say about a publication, over the calls of the selection. -/
structure Publication (expected : BootStoreSnapshot) (images : BootSelectImages)
    (evs : List (Event SelectSig)) (d : BootLaunchDecision) : Prop where
  valid : slotValid d.image.manifest.slot = true
  verified : verified (images.stored d.image.manifest.slot)
    d.image.manifest.slot (.ok d.image) ∈ evs
  matching : Matches d.snapshot.record d.image.manifest
  snapshot : ∃ front last, evs = front ++ [last] ∧
    (last = loaded (.ok d.snapshot) ∨
      ∃ e p, last = replaced e p (.ok d.snapshot))
  bootable : Bootable d.snapshot.record d.image.manifest.slot
  eligible : Eligible expected.record d.image.manifest.slot

theorem tried_state {r : BootMetadata} {s : UInt32} (hr : MetadataOk r)
    (hs : slotValid s = true) (hc : r.candidateSlot = s)
    (ht : r.state s ≠ bootStateTrial) :
    (r.image s).accounting = bootStateReady ∧
      (tried r s).state s = bootStateTrial := by
  have hcand := hr.roles.candidate (by rw [hc]; exact slotValid_ne_none hs)
  rw [hc] at hcand
  have hready := hcand.2.2.2.resolve_right ht
  have h0 : (r.image s).payloadLength ≠ 0 := fun h0 =>
    ((hr.image s hs).role h0).2.2.2 hc
  have hw : (r.image s).accounting = bootStateReady :=
    (accountValidate_fields (hr.account hs h0)).2.2.2.2.1 hready
  refine ⟨hw, ?_⟩
  rw [BootMetadata.state, tried, BootMetadata.image_setAccounting_same, hw]
  show accountState (bootStateReady &&& ~~~bootAccountStateMask |||
    bootStateTrial) = bootStateTrial
  decide

theorem publication_begun {C : Crypto} {expected : BootStoreSnapshot}
    {images : BootSelectImages} {image : BootVerifiedImage}
    {desired : BootMetadata} {snapshot : BootStoreSnapshot}
    (hb : Committed expected.record (.beginTrial image) desired)
    (hok : CallOk C (replaced expected desired (.ok snapshot))) :
    Publication expected images
      [loaded (.ok expected), loaded (.ok expected),
        verified (images.stored expected.record.candidateSlot)
          expected.record.candidateSlot (.ok image),
        replaced expected desired (.ok snapshot)] ⟨image, snapshot⟩ := by
  obtain ⟨hx, hc, ht, hadv⟩ := beginTrial_committed.mp hb
  obtain ⟨-, hst⟩ := tried_state hx.record hx.slotValid hc ht
  have himg : ∀ s, desired.image s = (tried expected.record
      image.manifest.slot).image s := hadv.image
  have hrec : snapshot.record = desired := (hok snapshot rfl).record
  refine ⟨hx.slotValid, by simp [hc], ?_, ⟨_ :: _ :: [_], _, rfl,
    .inr ⟨_, _, rfl⟩⟩, ?_, .inl hc⟩
  · rw [hrec]
    refine hx.toMatches.of_image hadv.after ?_ ?_ ?_ <;>
    · rw [himg, tried, BootMetadata.image_setAccounting_same]
  · rw [hrec]
    have hcand : desired.candidateSlot = image.manifest.slot := by
      rw [hadv.eq]; exact hc
    refine .inl ⟨hcand, ?_, ?_⟩
    · rw [BootMetadata.state, himg]
      exact hst
    · have hroles := hadv.after.roles.candidate
        (by rw [hcand]; exact slotValid_ne_none hx.slotValid)
      rw [hcand] at hroles
      exact hroles.1

theorem publication_retried {expected : BootStoreSnapshot}
    {images : BootSelectImages} {image : BootVerifiedImage}
    (hx : Executing expected.record image)
    (hc : expected.record.candidateSlot = image.manifest.slot)
    (ht : expected.record.state image.manifest.slot = bootStateTrial) :
    Publication expected images
      [loaded (.ok expected), loaded (.ok expected),
        verified (images.stored expected.record.candidateSlot)
          expected.record.candidateSlot (.ok image),
        loaded (.ok expected)] ⟨image, expected⟩ := by
  refine ⟨hx.slotValid, by simp [hc], hx.toMatches, ⟨_ :: _ :: [_], _, rfl,
    .inl rfl⟩, .inl ⟨hc, ht, ?_⟩, .inl hc⟩
  have hroles := hx.record.roles.candidate
    (by rw [hc]; exact slotValid_ne_none hx.slotValid)
  rw [hc] at hroles
  exact hroles.1

theorem confirmed_iff {r : BootMetadata} {s : UInt32} :
    confirmed r s = true ↔ slotValid s = true ∧ r.confirmed s = true := by
  simp only [confirmed, Bool.and_eq_true, decide_eq_true_eq, ← slotValid_iff_le]

/-- The calls of a selection from the current slot on, when they published. -/
theorem publication_current {C : Crypto} {expected : BootStoreSnapshot}
    {images : BootSelectImages} {tr : List (Event SelectSig)}
    {reply : SelectReply} (h : CurrentTrace images expected tr reply)
    (hok : ∀ e ∈ tr, CallOk C e) (hs : reply.1.status = .ok) :
    ∃ d, reply.2 = some d ∧ Publication expected images tr d := by
  cases h with
  | absent hw => exact absurd hs hw.1
  | withheld hw => exact absurd hs hw.1
  | @rechecked image r reply hc hm hr =>
      rcases hr with hw | ⟨rfl, hp⟩
      · exact absurd hs hw.1
      have hslot : image.manifest.slot = expected.record.currentSlot :=
        (hok _ List.mem_cons_self image rfl).slot_eq
      obtain ⟨hv, hconf⟩ := confirmed_iff.mp hc
      refine ⟨_, hp.2, ?_⟩
      refine ⟨?_, ?_, hm, ⟨[_], _, rfl, .inl rfl⟩, ?_, ?_⟩
      · show slotValid image.manifest.slot = true
        rw [hslot]
        exact hv
      · rw [hslot]
        exact List.mem_cons_self
      · show Bootable expected.record image.manifest.slot
        rw [hslot]
        exact .inr ⟨rfl, hconf⟩
      · show Eligible expected.record image.manifest.slot
        rw [hslot]
        exact .inr hconf
  | invalid hc he hprev =>
      cases hprev with
      | absent hw => exact absurd hs hw.1
      | withheld hw => exact absurd hs hw.1
      | @promoted image desired r reply hc' hm hp hr =>
          rcases hr with ⟨e, -, hw⟩ | ⟨snapshot, rfl, hpub⟩
          · exact absurd hs hw.1
          obtain ⟨hx, -, -, -, hslot, -, hadv⟩ := promotePrevious_committed.mp hp
          have hrec : snapshot.record = desired :=
            (hok (replaced expected desired (.ok snapshot)) (by simp)
              snapshot rfl).record
          obtain ⟨-, hconf⟩ := confirmed_iff.mp hc'
          have hcur : desired.currentSlot = image.manifest.slot := by
            rw [hadv.eq]; exact hslot
          refine ⟨_, hpub.2, ?_⟩
          refine ⟨hx.slotValid, ?_, ?_, ⟨_ :: [_], _, rfl, .inr ⟨_, _, rfl⟩⟩,
            ?_, ?_⟩
          · show verified (images.stored image.manifest.slot)
              image.manifest.slot (.ok image) ∈ _
            rw [← hslot]
            simp
          · show Matches snapshot.record image.manifest
            rw [hrec]
            refine hm.of_image hadv.after ?_ ?_ ?_ <;>
            · rw [hadv.image]
              rfl
          · show Bootable snapshot.record image.manifest.slot
            rw [hrec]
            refine .inr ⟨hcur, ?_⟩
            have hroles := hadv.after.roles.current
              (by rw [hcur]; exact slotValid_ne_none hx.slotValid)
            rwa [hcur] at hroles
          · show Eligible expected.record image.manifest.slot
            rw [← hslot]
            exact .inr hconf

theorem Publication.after {expected : BootStoreSnapshot}
    {images : BootSelectImages} {evs : List (Event SelectSig)}
    {d : BootLaunchDecision} (h : Publication expected images evs d)
    (front : List (Event SelectSig)) :
    Publication expected images (front ++ evs) d := by
  obtain ⟨f, last, rfl, hl⟩ := h.snapshot
  exact ⟨h.valid, List.mem_append_right _ h.verified, h.matching,
    ⟨front ++ f, last, by rw [List.append_assoc], hl⟩, h.bootable, h.eligible⟩

/-- Every way to publish. -/
theorem select_publication {C : Crypto} {expected : BootStoreSnapshot}
    {images : BootSelectImages} {evs : List (Event SelectSig)}
    {reply : SelectReply} (h : SelectTrace expected images evs reply)
    (hok : ∀ e ∈ evs, CallOk C e) (hs : reply.1.status = .ok) :
    ∃ d, reply.2 = some d ∧ Publication expected images evs d := by
  cases h with
  | stale _ hw => exact absurd hs hw.1
  | noCandidate hc hcur =>
      obtain ⟨d, hd, hp⟩ := publication_current hcur
        (fun e he => hok e (List.mem_cons_of_mem _ he)) hs
      exact ⟨d, hd, hp.after [_]⟩
  | fallback hc he hcur =>
      obtain ⟨d, hd, hp⟩ := publication_current hcur
        (fun e he => hok e (by simp [he])) hs
      exact ⟨d, hd, hp.after [_, _, _]⟩
  | @candidate tr launch reply hc hl hne hr =>
      have hls : launch.1.status = .ok := by
        by_contra hno
        exact (hr.1 hno).1 hs
      obtain ⟨-, hout⟩ := hr.2 hls
      rw [hout]
      cases hl with
      | refused _ hno => exact absurd hls hno.1
      | unverified hst =>
          rw [hls] at hst
          split at hst <;> cases hst
      | ineligible hst => rw [hls] at hst; cases hst
      | begun hb hr =>
          rcases hr with ⟨e, -, hst, -⟩ | ⟨snapshot, rfl, -, hd⟩
          · rw [hls] at hst
            rcases hst with hst | hst <;> cases hst
          · exact ⟨_, hd, publication_begun hb (hok _ (by simp))⟩
      | retried hx hc ht hr =>
          rcases hr with ⟨hst, -⟩ | ⟨rfl, -, hd⟩
          · rw [hls] at hst
            rcases hst with hst | hst <;> cases hst
          · exact ⟨_, hd, publication_retried hx hc ht⟩

theorem select_published {C : Crypto} {expected : BootStoreSnapshot}
    {images : BootSelectImages} {tr : List (Event (StoreSig.sum VerifySig))}
    {result : BootSelectResult} {out : Option BootLaunchDecision}
    (hrun : Runs (bootSelect C expected images) tr (result, out))
    (hok : result.status = .ok) :
    ∃ calls : List (SelectServed C), ∃ d, tr = calls.flatMap Served.sub ∧
      out = some d ∧ Publication expected images (calls.map Served.event) d := by
  obtain ⟨calls, rfl, hcalls⟩ := runs_inline hrun
  have hserved : ∀ e ∈ calls.map Served.event, CallOk C e := by
    intro e he
    obtain ⟨c, -, rfl⟩ := List.mem_map.mp he
    exact served_callOk c
  obtain ⟨d, hd, hp⟩ := select_publication (select_trace hcalls) hserved hok
  exact ⟨calls, d, rfl, hd, hp⟩

/-- The verification that a publication rests on, among the requests of the
selection. -/
theorem Publication.served {C : Crypto} {expected : BootStoreSnapshot}
    {images : BootSelectImages} {calls : List (SelectServed C)}
    {d : BootLaunchDecision}
    (h : Publication expected images (calls.map Served.event) d) :
    ∃ front sub back,
      calls.flatMap Served.sub = front ++ sub.map Event.right ++ back ∧
      Runs (bootVerifyStored C (images.stored d.image.manifest.slot)
        d.image.manifest.slot) sub (.ok d.image) := by
  obtain ⟨front, sub, back, heq, hsub⟩ := served_infix h.verified
  obtain ⟨sub', rfl, hv⟩ := runs_right hsub
  exact ⟨front, sub', back, heq, hv⟩

/-! ## A board that answers

The calls of a board whose storage holds a memory and never fails, and the
board as it leaves the factory: the record in page 0, page 1 erased, and the
package in slot A. -/

/-- What the calls of a selection answer on such a board. -/
def boardCalls (C : Crypto) (mem : ByteMem) : (op : SelectCall) → SelectSig.Ans op
  | .load => bootStoreLoad.eval (storeAnswers mem)
  | .replace expected desired =>
      (bootStoreReplace expected desired).eval (storeAnswers mem)
  | .verify wire slot => storedResult C mem wire slot

theorem board_select (C : Crypto) (mem : ByteMem) (expected : BootStoreSnapshot)
    (images : BootSelectImages) :
    ∃ tr, Runs (bootSelect C expected images) tr
      ((bootSelectCalls expected images).eval (boardCalls C mem)) := by
  obtain ⟨tr, hr, -⟩ := runs_eval
    (Prog.answerSum (storeAnswers mem) (verifyAnswers mem))
    (bootSelect C expected images)
  have heval : (bootSelect C expected images).eval
      (Prog.answerSum (storeAnswers mem) (verifyAnswers mem)) =
        (bootSelectCalls expected images).eval (boardCalls C mem) := by
    rw [bootSelect, Prog.eval_inline]
    congr 1
    funext op
    cases op with
    | load => exact Prog.eval_left _ _ _
    | replace e d => exact Prog.eval_left _ _ _
    | verify wire slot =>
        exact (Prog.eval_right _ _ _).trans (board_verify C mem wire slot)
  rw [heval] at hr
  exact ⟨tr, hr⟩

def factoryMemory : ByteMem :=
  ByteMem.write (ByteMem.write (fun _ => 0xff) 0x8000
    (metadataWire factoryRecord bootCommitValid)) 0x8800 (packagePayload bootSlotA)

def packageImages : BootSelectImages where
  a := ⟨⟨packageWire bootSlotA, by decide +kernel⟩, 160⟩
  b := ⟨⟨packageWire bootSlotB, by decide +kernel⟩, 160⟩

theorem factory_selected :
    (bootSelectCalls ⟨factoryRecord, 0⟩ packageImages).eval
      (boardCalls packageCrypto factoryMemory) =
    (⟨.ok, 1, ⟨.ok, .ok⟩, .noChange, .ok⟩,
      some ⟨packageImage bootSlotA, ⟨factoryRecord, 0⟩⟩) := by
  decide +kernel

/-- A selection that says OK published an image that this very call verified
for a slot, reading nothing but that slot's payload; the snapshot published
with it is the answer of the last call made to the store, and in its record
the image is the slot's and the slot is the running trial or the confirmed
current one. -/
theorem select_sound {C : Crypto} {expected : BootStoreSnapshot}
    {images : BootSelectImages} {tr : List (Event (StoreSig.sum VerifySig))}
    {result : BootSelectResult} {out : Option BootLaunchDecision}
    (hrun : Runs (bootSelect C expected images) tr (result, out))
    (hok : result.status = .ok) :
    ∃ d slot, out = some d ∧ slotValid slot = true ∧
      d.image.manifest.slot = slot ∧
      (∃ front sub back, tr = front ++ sub.map Event.right ++ back ∧
        Runs (bootVerifyStored C (images.stored slot) slot) sub (.ok d.image) ∧
        ∀ e ∈ sub, ReadsPayload slot e) ∧
      bootMetadataImageMatches d.snapshot.record d.image.manifest = .ok ∧
      (∃ front sub, tr = front ++ sub.map Event.left ∧
        (Runs bootStoreLoad sub (.ok d.snapshot) ∨
          ∃ loaded desired, Runs (bootStoreReplace loaded desired) sub
            (.ok d.snapshot))) ∧
      ((d.snapshot.record.candidateSlot = slot ∧
          d.snapshot.record.state slot = bootStateTrial ∧
          d.snapshot.record.confirmed slot = false) ∨
        (d.snapshot.record.currentSlot = slot ∧
          d.snapshot.record.confirmed slot = true)) := by
  obtain ⟨calls, d, rfl, hd, hp⟩ := select_published hrun hok
  refine ⟨d, d.image.manifest.slot, hd, hp.valid, rfl, ?_,
    imageMatches_eq_ok.mpr hp.matching, ?_, hp.bootable⟩
  · obtain ⟨front, sub, back, heq, hv⟩ := hp.served
    exact ⟨front, sub, back, heq, hv, (verifyStored_safe C _ _ sub _ hv).1⟩
  · obtain ⟨evs, last, heq, hlast⟩ := hp.snapshot
    obtain ⟨front, sub, hsub, hruns⟩ := served_suffix heq
    rcases hlast with rfl | ⟨e, p, rfl⟩
    · obtain ⟨sub', rfl, hl⟩ := runs_left hruns
      exact ⟨front, sub', hsub, .inl hl⟩
    · obtain ⟨sub', rfl, hl⟩ := runs_left hruns
      exact ⟨front, sub', hsub, .inr ⟨e, p, hl⟩⟩

theorem select_sound_factory :
    ∃ tr d, Runs (bootSelect packageCrypto ⟨factoryRecord, 0⟩ packageImages) tr
        (⟨.ok, 1, ⟨.ok, .ok⟩, .noChange, .ok⟩, some d) ∧
      bootMetadataImageMatches d.snapshot.record d.image.manifest = .ok := by
  obtain ⟨tr, hr⟩ := board_select packageCrypto factoryMemory
    ⟨factoryRecord, 0⟩ packageImages
  rw [factory_selected] at hr
  obtain ⟨d, slot, hd, -, -, -, hm, -⟩ := select_sound hr rfl
  rw [hd] at hr
  exact ⟨tr, d, hr, hm⟩

/-! ## Discipline -/

/-- A call after which the selection may make another: a load that succeeded,
or a verification. Nothing follows a replacement. -/
def Continues : Event SelectSig → Prop
  | ⟨.load, r⟩ => ∃ s, r = .ok s
  | ⟨.replace _ _, _⟩ => False
  | ⟨.verify _ _, _⟩ => True

/-- Not a verification, or one that found its image invalid. -/
def LeavesOpen : Event SelectSig → Prop
  | ⟨.verify _ _, r⟩ => ∃ e, r = .error e ∧ invalidImageFailure e = true
  | _ => True

/-- The replacement that makes a trial of the READY candidate just verified. -/
def BeginsTrial (expected : BootStoreSnapshot) (images : BootSelectImages)
    (front : List (Event SelectSig)) (desired : BootMetadata) : Prop :=
  let slot := expected.record.candidateSlot
  slotValid slot = true ∧ expected.record.state slot = bootStateReady ∧
    ∃ before image, front = before ++ [verified (images.stored slot) slot
        (.ok image)] ∧
      bootMetadataImageMatches expected.record image.manifest = .ok ∧
      image.manifest.slot = slot ∧
      bootLifecycleBeginTrial expected.record image = (.change, some desired)

/-- The replacement that promotes the previous slot, both slots verified just
before it, the current one invalid. -/
def PromotesPrevious (expected : BootStoreSnapshot) (images : BootSelectImages)
    (front : List (Event SelectSig)) (desired : BootMetadata) : Prop :=
  let slot := expected.record.currentSlot
  let previous := expected.record.previousSlot
  ∃ before e image, front = before ++ [verified (images.stored slot) slot
        (.error e),
      verified (images.stored previous) previous (.ok image)] ∧
    invalidImageFailure e = true ∧
    bootMetadataImageMatches expected.record image.manifest = .ok ∧
    image.manifest.slot = previous ∧
    bootLifecyclePromotePrevious expected.record
      (invalidCurrent expected.record e) image = (.change, some desired)

/-- When the selection makes the call `e`, the calls `front` behind it. -/
def Allowed (expected : BootStoreSnapshot) (images : BootSelectImages)
    (front : List (Event SelectSig)) (e : Event SelectSig) : Prop :=
  (∀ c ∈ front, Continues c) ∧
  match e.op with
  | .load => True
  | .replace snapshot desired => snapshot = expected ∧
      (BeginsTrial expected images front desired ∨
        PromotesPrevious expected images front desired)
  | .verify wire slot => wire = images.stored slot ∧
      (∀ c ∈ front, LeavesOpen c) ∧
      (slotValid expected.record.candidateSlot = true →
        slot = expected.record.candidateSlot ∨
        ∃ e, verified (images.stored expected.record.candidateSlot)
          expected.record.candidateSlot (.error e) ∈ front)

/-- `Allowed` along a list of calls. -/
def AllAllowed (expected : BootStoreSnapshot) (images : BootSelectImages) :
    List (Event SelectSig) → List (Event SelectSig) → Prop
  | _, [] => True
  | front, e :: rest => Allowed expected images front e ∧
      AllAllowed expected images (front ++ [e]) rest

theorem AllAllowed.get {expected : BootStoreSnapshot} {images : BootSelectImages}
    {front : List (Event SelectSig)} (evs : List (Event SelectSig))
    (h : AllAllowed expected images front evs)
    {before after : List (Event SelectSig)} {e : Event SelectSig}
    (he : evs = before ++ e :: after) :
    Allowed expected images (front ++ before) e := by
  induction before generalizing front evs with
  | nil =>
      subst he
      rw [List.append_nil]
      exact h.1
  | cons b before ih =>
      subst he
      have hrest := ih _ h.2 rfl
      rwa [List.append_assoc] at hrest

/-- Calls behind which the current slot may be tried. -/
structure Spent (expected : BootStoreSnapshot) (images : BootSelectImages)
    (front : List (Event SelectSig)) : Prop where
  continues : ∀ c ∈ front, Continues c
  leavesOpen : ∀ c ∈ front, LeavesOpen c
  candidate : slotValid expected.record.candidateSlot = true →
    ∃ e, verified (images.stored expected.record.candidateSlot)
      expected.record.candidateSlot (.error e) ∈ front

section Discipline

variable {expected : BootStoreSnapshot} {images : BootSelectImages}
  {front tr : List (Event SelectSig)}

theorem Spent.verify (h : Spent expected images front) (slot : UInt32)
    (r : Except BootVerifyResult BootVerifiedImage) :
    Allowed expected images front (verified (images.stored slot) slot r) :=
  ⟨h.continues, rfl, h.leavesOpen, fun hc => .inr (h.candidate hc)⟩

theorem Spent.invalid (h : Spent expected images front) (slot : UInt32)
    {e : BootVerifyResult} (he : invalidImageFailure e = true) :
    Spent expected images
      (front ++ [verified (images.stored slot) slot (.error e)]) := by
  refine ⟨?_, ?_, ?_⟩
  · intro c hc
    rcases List.mem_append.mp hc with hc | hc
    · exact h.continues c hc
    · rw [List.mem_singleton.mp hc]
      exact trivial
  · intro c hc
    rcases List.mem_append.mp hc with hc | hc
    · exact h.leavesOpen c hc
    · rw [List.mem_singleton.mp hc]
      exact ⟨e, rfl, he⟩
  · intro hc
    obtain ⟨e', hm⟩ := h.candidate hc
    exact ⟨e', List.mem_append_left _ hm⟩

theorem continues_snoc_verified (h : ∀ c ∈ front, Continues c)
    (wire : List UInt8) (slot : UInt32)
    (r : Except BootVerifyResult BootVerifiedImage) :
    ∀ c ∈ front ++ [verified wire slot r], Continues c := by
  intro c hc
  rcases List.mem_append.mp hc with hc | hc
  · exact h c hc
  · rw [List.mem_singleton.mp hc]
    exact trivial

theorem previous_allowed {failure : BootVerifyResult} {reply : SelectReply}
    (h : PreviousTrace images expected failure tr reply)
    (hf : invalidImageFailure failure = true)
    (hfront : Spent expected images front) :
    AllAllowed expected images
      (front ++ [verified (images.stored expected.record.currentSlot)
        expected.record.currentSlot (.error failure)]) tr := by
  have hspent := hfront.invalid expected.record.currentSlot hf
  cases h with
  | absent => exact trivial
  | withheld => exact ⟨hspent.verify _ _, trivial⟩
  | @promoted image desired r reply hc hm hp =>
      obtain ⟨-, -, -, -, hslot, -⟩ := promotePrevious_committed.mp hp
      refine ⟨hspent.verify _ _,
        ⟨continues_snoc_verified hspent.continues _ _ _, rfl, .inr ?_⟩, trivial⟩
      exact ⟨front, failure, image, by rw [List.append_assoc]; rfl, hf,
        imageMatches_eq_ok.mpr hm, hslot.symm, hp⟩

theorem current_allowed {reply : SelectReply}
    (h : CurrentTrace images expected tr reply)
    (hfront : Spent expected images front) :
    AllAllowed expected images front tr := by
  cases h with
  | absent => exact trivial
  | withheld => exact ⟨hfront.verify _ _, trivial⟩
  | rechecked =>
      exact ⟨hfront.verify _ _,
        ⟨continues_snoc_verified hfront.continues _ _ _, trivial⟩, trivial⟩
  | invalid hc he hprev =>
      exact ⟨hfront.verify _ _, previous_allowed hprev he hfront⟩

theorem mem_loads {n : Nat} {c : Event SelectSig}
    (h : c ∈ List.replicate n (loaded (.ok expected))) :
    Continues c ∧ LeavesOpen c := by
  rw [List.eq_of_mem_replicate h]
  exact ⟨⟨expected, rfl⟩, trivial⟩

theorem load_allowed (n : Nat) (r : Except BootStoreResult BootStoreSnapshot) :
    Allowed expected images (List.replicate n (loaded (.ok expected)))
      (loaded r) := ⟨fun _ hm => (mem_loads hm).1, trivial⟩

theorem candidate_allowed (n : Nat)
    (r : Except BootVerifyResult BootVerifiedImage) :
    Allowed expected images (List.replicate n (loaded (.ok expected)))
      (verified (images.stored expected.record.candidateSlot)
        expected.record.candidateSlot r) :=
  ⟨fun _ hm => (mem_loads hm).1, rfl, fun _ hm => (mem_loads hm).2,
    fun _ => .inl rfl⟩

theorem continues_launched (n : Nat) (wire : List UInt8) (slot : UInt32)
    (r : Except BootVerifyResult BootVerifiedImage) :
    ∀ c ∈ List.replicate n (loaded (.ok expected)) ++ [verified wire slot r],
      Continues c :=
  continues_snoc_verified (fun _ hm => (mem_loads hm).1) wire slot r

theorem launch_allowed {wire : List UInt8} {reply : LaunchReply}
    (h : LaunchTrace expected wire tr reply)
    (hw : wire = images.stored expected.record.candidateSlot)
    (hc : slotValid expected.record.candidateSlot = true) :
    AllAllowed expected images [loaded (.ok expected)] tr := by
  subst hw
  cases h with
  | refused htr =>
      rcases htr with rfl | ⟨r, rfl⟩
      · exact trivial
      · exact ⟨load_allowed 1 r, trivial⟩
  | unverified => exact ⟨load_allowed 1 _, candidate_allowed 2 _, trivial⟩
  | ineligible => exact ⟨load_allowed 1 _, candidate_allowed 2 _, trivial⟩
  | @begun image desired r reply hb =>
      obtain ⟨hx, hslot, ht, -⟩ := beginTrial_committed.mp hb
      have hready : expected.record.state expected.record.candidateSlot =
          bootStateReady :=
        (hx.record.roles.candidate (slotValid_ne_none hc)).2.2.2.resolve_right
          (by rw [hslot]; exact ht)
      exact ⟨load_allowed 1 _, candidate_allowed 2 _,
        ⟨continues_launched 2 _ _ _, rfl, .inl ⟨hc, hready, _, image,
          rfl, imageMatches_eq_ok.mpr hx.toMatches, hslot.symm, hb⟩⟩, trivial⟩
  | retried =>
      exact ⟨load_allowed 1 _, candidate_allowed 2 _,
        ⟨continues_launched 2 _ _ _, trivial⟩, trivial⟩

theorem select_allowed {reply : SelectReply}
    (h : SelectTrace expected images tr reply) :
    AllAllowed expected images [] tr := by
  cases h with
  | stale htr =>
      rcases htr with rfl | ⟨r, rfl⟩
      · exact trivial
      · exact ⟨load_allowed 0 r, trivial⟩
  | noCandidate hc hcur =>
      refine ⟨load_allowed 0 _, current_allowed hcur ⟨?_, ?_, fun he => ?_⟩⟩
      · exact fun c hm => (mem_loads (n := 1) hm).1
      · exact fun c hm => (mem_loads (n := 1) hm).2
      · rw [hc] at he
        cases he
  | candidate hc hl => exact ⟨load_allowed 0 _, launch_allowed hl rfl hc⟩
  | @fallback e tr reply hc he hcur =>
      refine ⟨load_allowed 0 _, load_allowed 1 _, candidate_allowed 2 _,
        current_allowed hcur ⟨continues_launched 2 _ _ _, ?_, fun _ => ?_⟩⟩
      · intro c hm
        rcases List.mem_append.mp hm with hm | hm
        · exact (mem_loads (n := 2) hm).2
        · rw [List.mem_singleton.mp hm]
          exact ⟨e, rfl, he⟩
      · exact ⟨e, List.mem_append_right _ List.mem_cons_self⟩

theorem select_withheld {reply : SelectReply}
    (h : SelectTrace expected images tr reply) (hs : reply.1.status ≠ .ok) :
    reply.2 = none := by
  have hcurrent : ∀ {tr}, CurrentTrace images expected tr reply →
      reply.2 = none := by
    intro tr h
    cases h with
    | absent hw => exact hw.2
    | withheld hw => exact hw.2
    | rechecked _ _ hr =>
        rcases hr with hw | ⟨-, hp⟩
        · exact hw.2
        · exact absurd hp.1 hs
    | invalid _ _ hprev =>
        cases hprev with
        | absent hw => exact hw.2
        | withheld hw => exact hw.2
        | promoted _ _ _ hr =>
            rcases hr with ⟨e, -, hw⟩ | ⟨sn, -, hp⟩
            · exact hw.2
            · exact absurd hp.1 hs
  cases h with
  | stale _ hw => exact hw.2
  | noCandidate _ hcur => exact hcurrent hcur
  | fallback _ _ hcur => exact hcurrent hcur
  | @candidate tr launch reply _ _ _ hr =>
      by_cases hl : launch.1.status = .ok
      · exact absurd (hr.2 hl).1 hs
      · exact (hr.1 hl).2

end Discipline

/-! ## A board that works

Here the store carries out what it is asked, too, so that a selection may commit. -/

/-- What the calls of a selection answer there. -/
def workingCalls (C : Crypto) (mem : ByteMem) (current : BootStoreSnapshot) :
    (op : SelectCall) → SelectSig.Ans op
  | .load => .ok current
  | .replace expected desired => .ok ⟨desired, 1 - expected.page⟩
  | .verify wire slot => storedResult C mem wire slot

section Working

variable {C : Crypto} {mem : ByteMem} {page : UInt32} {r desired : BootMetadata}
  {images : BootSelectImages} {front : List (Event SelectSig)}

theorem load_served (h : Authority mem page r) :
    ∃ sub, Runs (serveSelect C .load) sub (.ok ⟨r, page⟩) := by
  obtain ⟨-, -, hr⟩ := exec_working (load_works h)
  have hruns := runs_trace workingStore bootStoreLoad mem
  rw [hr] at hruns
  exact ⟨_, hruns.left⟩

theorem replace_served (h : Authority mem page r) {op : LifecycleOp}
    (hc : Committed r op desired) :
    ∃ sub, Runs (serveSelect C (.replace ⟨r, page⟩ desired)) sub
      (.ok ⟨desired, 1 - page⟩) := by
  obtain ⟨-, hr, -⟩ := exec_working (replace_works h (metadataValidate_eq_ok.mpr hc.after) hc.next)
  have hruns := runs_trace workingStore (bootStoreReplace ⟨r, page⟩ desired) mem
  rw [hr] at hruns
  exact ⟨_, hruns.left⟩

theorem verify_served (wire : List UInt8) (slot : UInt32) :
    ∃ sub, Runs (serveSelect C (.verify wire slot)) sub (storedResult C mem wire slot) := by
  obtain ⟨sub, hr, -⟩ := runs_eval (verifyAnswers mem) (bootVerifyStored C wire slot)
  rw [board_verify] at hr
  exact ⟨_, hr.right⟩

/-- The replacement a selection may make is one the store carries out. -/
theorem allowed_committed {expected : BootStoreSnapshot}
    (h : BeginsTrial expected images front desired ∨
      PromotesPrevious expected images front desired) :
    ∃ op, Committed expected.record op desired := by
  rcases h with ⟨-, -, -, image, -, -, -, hb⟩ | ⟨-, e, image, -, -, -, -, hp⟩
  · exact ⟨.beginTrial image, hb⟩
  · exact ⟨.promotePrevious _ image, hp⟩

theorem working_select (h : Authority mem page r) :
    ∃ calls : List (SelectServed C),
      Runs (bootSelect C ⟨r, page⟩ images) (calls.flatMap Served.sub)
        ((bootSelectCalls ⟨r, page⟩ images).eval (workingCalls C mem ⟨r, page⟩)) ∧
      Runs (bootSelectCalls ⟨r, page⟩ images) (calls.map Served.event)
        ((bootSelectCalls ⟨r, page⟩ images).eval (workingCalls C mem ⟨r, page⟩)) ∧
      ∀ c ∈ calls, c.ans = workingCalls C mem ⟨r, page⟩ c.op := by
  obtain ⟨evs, hr, hans⟩ := runs_eval (workingCalls C mem ⟨r, page⟩)
    (bootSelectCalls ⟨r, page⟩ images)
  have hallowed := select_allowed (select_trace hr)
  obtain ⟨calls, rfl, hruns⟩ := runs_served (h := serveSelect C) hr fun e he => by
    obtain ⟨before, after, hevs⟩ := List.append_of_mem he
    have hreplace := (hallowed.get _ hevs).2
    rw [hans e he]
    cases hop : e.op with
    | load => exact load_served h
    | replace s d =>
        rw [hop] at hreplace
        obtain ⟨rfl, hd⟩ := hreplace
        obtain ⟨op, hc⟩ := allowed_committed hd
        exact replace_served h hc
    | verify wire slot => exact verify_served wire slot
  exact ⟨calls, hruns, hr, fun c hc => hans c.event (List.mem_map_of_mem hc)⟩

end Working

/-- The board with a READY package in slot B. -/
def candidateMemory : ByteMem :=
  (freshPages readyRecord).write (slotBase bootSlotB).toNat (packagePayload bootSlotB)

theorem candidate_authority : Authority candidateMemory 0 readyRecord := by
  have hw := ByteMem.within_write (freshPages readyRecord) (slotBase bootSlotB).toNat
    (packagePayload bootSlotB)
  refine authority_fresh ?_ ?_
  · rw [candidateMemory, ← (hw.agree (.inl (by decide))).read_eq]
    exact freshPages_decode (by decide)
  · rw [candidateMemory, ← (hw.agree (.inl (by decide))).read_eq]
    exact freshPages_blank readyRecord

theorem candidate_selected :
    (bootSelectCalls ⟨readyRecord, 0⟩ packageImages).eval
      (workingCalls packageCrypto candidateMemory ⟨readyRecord, 0⟩) =
    (⟨.ok, 2, ⟨.ok, .ok⟩, .change, .ok⟩,
      some ⟨packageImage bootSlotB, ⟨trialRecord, 1⟩⟩) := by
  decide +kernel

/-! ## What is written -/

/-- A store request that changes something. -/
def WritesStore (e : Event (StoreSig.sum VerifySig)) : Prop :=
  (∃ address, e.op = .inl (.erasePage address)) ∨
    ∃ address word, e.op = .inl (.programWord address word)

theorem served_writes {C : Crypto} (c : SelectServed C)
    (h : ∃ e ∈ c.sub, WritesStore e) : ∃ s d, c.op = .replace s d := by
  obtain ⟨op, ans, sub, hr⟩ := c
  obtain ⟨e, he, hw⟩ := h
  cases op with
  | load =>
      obtain ⟨tr, rfl, hl⟩ := runs_left hr
      obtain ⟨e', he', rfl⟩ := List.mem_map.mp he
      obtain ⟨a, n, hop⟩ := (load_safe tr ans hl).1 e' he'
      rcases hw with ⟨address, hw⟩ | ⟨address, word, hw⟩ <;>
      · simp only [Event.left, hop] at hw
        cases hw
  | replace s d => exact ⟨s, d, rfl⟩
  | verify wire slot =>
      obtain ⟨tr, rfl, -⟩ := runs_right hr
      obtain ⟨e', -, rfl⟩ := List.mem_map.mp he
      rcases hw with ⟨address, hw⟩ | ⟨address, word, hw⟩ <;> cases hw

theorem replaced_writes {C : Crypto} (c : SelectServed C) {e s : BootStoreSnapshot}
    {d : BootMetadata} (hc : c.event = replaced e d (.ok s)) :
    ∃ ev ∈ c.sub, WritesStore ev := by
  obtain ⟨op, ans, sub, hr⟩ := c
  cases hc
  obtain ⟨tr, rfl, hreplace⟩ := runs_left hr
  cases replace_transcript hreplace with
  | committed =>
      refine ⟨_, List.mem_map_of_mem (List.mem_append_right _ List.mem_cons_self), .inr ?_⟩
      exact ⟨_, _, rfl⟩

/-- What is published without having been loaded was written. -/
theorem published_writes {C : Crypto} {expected : BootStoreSnapshot}
    {images : BootSelectImages} {calls : List (SelectServed C)} {result : BootSelectResult}
    {decision : BootLaunchDecision}
    (h : Runs (bootSelectCalls expected images) (calls.map Served.event)
      (result, some decision)) (hs : result.status = .ok)
    (hnew : ∀ c ∈ calls, c.event ≠ loaded (.ok decision.snapshot)) :
    ∃ e ∈ calls.flatMap Served.sub, WritesStore e := by
  obtain ⟨d, hd, hp⟩ := select_publication (select_trace h) (fun e he => by
    obtain ⟨c, -, rfl⟩ := List.mem_map.mp he
    exact served_callOk c) hs
  cases hd
  obtain ⟨front, last, hevs, hlast⟩ := hp.snapshot
  have hmem : last ∈ calls.map Served.event := by
    rw [hevs]
    exact List.mem_append_right _ List.mem_cons_self
  obtain ⟨c, hc, rfl⟩ := List.mem_map.mp hmem
  rcases hlast with hload | ⟨e, d, hreplace⟩
  · exact absurd hload (hnew c hc)
  · obtain ⟨e, he, hw⟩ := replaced_writes c hreplace
    exact ⟨e, List.mem_flatMap.mpr ⟨c, hc, he⟩, hw⟩

/-- The calls a selection makes, as `front ++ c :: back` for each of them.
Nothing is published with any status but OK. The store is erased or programmed
by the one replacement there may be, the last call, which commits the trial of
a READY candidate or the promotion of the previous slot, the images verified
and matched just before. Nothing follows a store error. Another slot than an
existing candidate is verified only behind an invalid candidate, and no slot
behind a verification that did not find its image invalid. -/
theorem select_discipline {C : Crypto} {expected : BootStoreSnapshot}
    {images : BootSelectImages} {tr : List (Event (StoreSig.sum VerifySig))}
    {result : BootSelectResult} {out : Option BootLaunchDecision}
    (hrun : Runs (bootSelect C expected images) tr (result, out)) :
    (result.status ≠ .ok → out = none) ∧
    ∃ calls : List (SelectServed C), tr = calls.flatMap Served.sub ∧
      ∀ front c back, calls = front ++ c :: back →
        ((∃ e ∈ c.sub, WritesStore e) → ∃ s d, c.op = .replace s d) ∧
        (∀ s d, c.op = .replace s d → back = [] ∧ s = expected ∧
          (BeginsTrial expected images (front.map Served.event) d ∨
            PromotesPrevious expected images (front.map Served.event) d)) ∧
        (∀ e, c.event = loaded (.error e) → back = []) ∧
        (∀ wire slot, c.op = .verify wire slot →
          wire = images.stored slot ∧
          (slotValid expected.record.candidateSlot = true →
            slot ≠ expected.record.candidateSlot →
            ∃ b ∈ front, ∃ e, invalidImageFailure e = true ∧
              b.event = verified
                (images.stored expected.record.candidateSlot)
                expected.record.candidateSlot (.error e)) ∧
          ((¬ ∃ e, invalidImageFailure e = true ∧
              c.event = verified wire slot (.error e)) →
            ∀ b ∈ back, ∀ w t, b.op ≠ .verify w t)) := by
  obtain ⟨calls, rfl, hcalls⟩ := runs_inline hrun
  have htrace := select_trace hcalls
  refine ⟨select_withheld htrace, calls, rfl, ?_⟩
  rintro front c back rfl
  have hall : ∀ pre b post, front ++ c :: back = pre ++ b :: post →
      Allowed expected images (pre.map Served.event) b.event := by
    intro pre b post heq
    rw [heq, List.map_append, List.map_cons] at htrace
    exact (select_allowed htrace).get _ rfl
  have hc := hall front c back rfl
  -- A later call is allowed only if this one lets anything follow.
  have hlater : ∀ pre b post, back = pre ++ b :: post →
      Continues c.event ∧ ∀ w t, b.op = .verify w t → LeavesOpen c.event := by
    rintro pre b post rfl
    have hb := hall (front ++ c :: pre) b post (by simp)
    have hm : c.event ∈ (front ++ c :: pre).map Served.event :=
      List.mem_map.mpr ⟨c, by simp, rfl⟩
    refine ⟨hb.1 _ hm, fun w t hop => ?_⟩
    have hv := hb.2
    simp only [Served.event, hop] at hv
    exact hv.2.1 _ hm
  have hlast : ¬ Continues c.event → back = [] := by
    intro hno
    cases back with
    | nil => rfl
    | cons b post => exact absurd (hlater [] b post rfl).1 hno
  refine ⟨served_writes c, ?_, ?_, ?_⟩
  · intro s d hop
    have hr := hc.2
    simp only [Served.event, hop] at hr
    refine ⟨hlast ?_, hr⟩
    obtain ⟨op, ans, sub, hruns⟩ := c
    subst hop
    exact id
  · intro e he
    refine hlast ?_
    rw [he]
    rintro ⟨s, hs⟩
    cases hs
  · intro wire slot hop
    have hv := hc.2
    simp only [Served.event, hop] at hv
    refine ⟨hv.1, fun hcand hne => ?_, fun hno b hb w t hbop => ?_⟩
    · obtain ⟨e, he⟩ := (hv.2.2 hcand).resolve_left hne
      obtain ⟨e', hee, hinv⟩ := hv.2.1 _ he
      injection hee with hee
      subst hee
      obtain ⟨b, hb, hbe⟩ := List.mem_map.mp he
      exact ⟨b, hb, e, hinv, hbe⟩
    · obtain ⟨pre, post, rfl⟩ := List.append_of_mem hb
      have hopen := (hlater pre b post rfl).2 w t hbop
      obtain ⟨op, ans, sub, hruns⟩ := c
      subst hop
      obtain ⟨e, he, hinv⟩ := hopen
      subst he
      exact hno ⟨e, hinv, rfl⟩

/-- The candidate is tried: its trial is committed, and that is the last thing done. -/
theorem select_discipline_ready :
    ∃ calls : List (SelectServed packageCrypto),
      Runs (bootSelect packageCrypto ⟨readyRecord, 0⟩ packageImages)
        (calls.flatMap Served.sub) (⟨.ok, 2, ⟨.ok, .ok⟩, .change, .ok⟩,
          some ⟨packageImage bootSlotB, ⟨trialRecord, 1⟩⟩) ∧
      ∃ front c d, calls = front ++ [c] ∧ (∃ e ∈ c.sub, WritesStore e) ∧
        c.op = .replace ⟨readyRecord, 0⟩ d ∧
        BeginsTrial ⟨readyRecord, 0⟩ packageImages (front.map Served.event) d := by
  obtain ⟨calls, hr, hcalls, hans⟩ :=
    @working_select packageCrypto _ _ _ packageImages candidate_authority
  rw [candidate_selected] at hr hcalls
  have hwrites := published_writes hcalls rfl fun c hc hload => by
    -- the board loads the record from the other page
    have ha := hans c hc
    obtain ⟨op, ans, sub, hsub⟩ := c
    cases hload
    exact absurd (BootStoreSnapshot.mk.inj (Except.ok.inj ha)).2 (by decide)
  obtain ⟨-, calls', htr, h⟩ := select_discipline hr
  rw [htr] at hr hwrites
  obtain ⟨e, he, hw⟩ := hwrites
  obtain ⟨c, hc, hec⟩ := List.mem_flatMap.mp he
  obtain ⟨front, back, hsplit⟩ := List.append_of_mem hc
  obtain ⟨hreplace, hlast, -⟩ := h front c back hsplit
  obtain ⟨s, d, hop⟩ := hreplace ⟨e, hec, hw⟩
  obtain ⟨rfl, rfl, hd⟩ := hlast s d hop
  refine ⟨calls', hr, front, c, d, hsplit, ⟨e, hec, hw⟩, hop, ?_⟩
  refine hd.resolve_right ?_
  rintro ⟨-, e, image, -, -, -, -, hp⟩
  obtain ⟨-, -, -, -, -, hnone, -⟩ := promotePrevious_committed.mp hp
  exact absurd hnone (by decide)

end EkBareMetal.Boot

import EkBareMetal.Proofs.PowerCut
import EkBareMetal.Proofs.Reset
import EkBareMetal.Boot.Reset

/-!
# One pass of the reset handler, and many

What a pass of `bootResetHandlerRun` writes, whatever its callbacks answer:
nothing, or the loaded record with one failure charged to its candidate. Run
against pages that may fail or lose their power at every request, a boot
leaves the record it found or that charged one, so a deadline intent, which
the charge takes away in the same write, is never charged twice.
-/

namespace EkBareMetal.Boot

open Words Interact Transition ByteMem

/-! ## What is charged -/

/-- A trial is running, and the flags name a cause to charge it with. -/
structure Chargeable (r : BootMetadata) (flags : UInt32) : Prop where
  slot : slotValid r.candidateSlot = true
  unconfirmed : r.confirmed r.candidateSlot = false
  trial : r.state r.candidateSlot = bootStateTrial
  cause : flags &&& bootResetWatchdog ≠ 0 ∨ flags &&& bootResetExternal ≠ 0 ∨
    flags &&& bootResetBrownout ≠ 0 ∨
    flags &&& bootResetSw ≠ 0 ∧ intentMatches r = true

theorem presentReasons_ne_nil {flags : UInt32} {matching : Bool} :
    presentReasons flags matching ≠ [] ↔
      flags &&& bootResetWatchdog ≠ 0 ∨ flags &&& bootResetExternal ≠ 0 ∨
        flags &&& bootResetBrownout ≠ 0 ∨
        flags &&& bootResetSw ≠ 0 ∧ matching = true := by
  simp only [presentReasons, bne_iff_ne, Bool.and_eq_true]
  by_cases h1 : flags &&& bootResetWatchdog ≠ 0
  · simp [h1]
  by_cases h2 : flags &&& bootResetExternal ≠ 0
  · simp [h2]
  by_cases h3 : flags &&& bootResetBrownout ≠ 0
  · simp [h3]
  by_cases h4 : flags &&& bootResetSw ≠ 0 ∧ matching = true
  · simp [h4]
  · simp [h1, h2, h3, h4]

/-- A cause is one of the supported flags, so the mask hides none. -/
theorem resetCauses_ne_nil {r : BootMetadata} {flags : UInt32} :
    resetCauses r flags ≠ [] ↔
      flags &&& bootResetWatchdog ≠ 0 ∨ flags &&& bootResetExternal ≠ 0 ∨
        flags &&& bootResetBrownout ≠ 0 ∨
        flags &&& bootResetSw ≠ 0 ∧ intentMatches r = true := by
  rw [resetCauses, presentReasons_ne_nil, UInt32.and_assoc, UInt32.and_assoc,
    UInt32.and_assoc, UInt32.and_assoc]
  exact Iff.rfl

theorem chargeable_iff {r : BootMetadata} {flags : UInt32} :
    Chargeable r flags ↔
      trialApplicable r = true ∧ resetCauses r flags ≠ [] := by
  rw [trialApplicable_iff, resetCauses_ne_nil]
  constructor
  · intro h
    exact ⟨⟨h.slot, h.unconfirmed, h.trial⟩, h.cause⟩
  · intro h
    exact ⟨h.1.1, h.1.2.1, h.1.2.2, h.2⟩

/-- The record with the failure charged, as it is committed. -/
def chargedRecord (r : BootMetadata) (flags : UInt32) : BootMetadata :=
  { charged r r.candidateSlot (chargeReason (resetCauses r flags))
      (if intentMatches r then 1 else 0) with
    sequence := r.sequence + 1 }

/-- A boot proposes a change exactly when there is something to charge and a
sequence number left to commit it under. -/
theorem resetPropose_change_iff {r r' : BootMetadata} {flags : UInt32}
    {d : BootResetDecision} :
    bootResetPropose r flags = (.change, some (r', d)) ↔
      MetadataOk r ∧ Chargeable r flags ∧ r.sequence ≠ uint32Max ∧
        r' = chargedRecord r flags ∧ d = countedDecision r flags := by
  rw [resetPropose_change, chargeable_iff]
  constructor
  · rintro ⟨hr, happ, hc, hd, hcom⟩
    have hroom := (applyCountedFailure_committed.mp hcom).2.2.2.2.room
    have hcom' := bootFailure_committed flags hr happ hroom
    have heq := hcom.symm.trans hcom'
    simp only [Prod.mk.injEq, Option.some.injEq, true_and] at heq
    exact ⟨hr, ⟨happ, hc⟩, hroom, heq, hd⟩
  · rintro ⟨hr, ⟨happ, hc⟩, hroom, rfl, hd⟩
    exact ⟨hr, happ, hc, hd, bootFailure_committed flags hr happ hroom⟩

/-- What the committed record says that the loaded one did not. -/
structure Charges (r : BootMetadata) (flags : UInt32) (r' : BootMetadata) :
    Prop where
  chargeable : Chargeable r flags
  room : r.sequence ≠ uint32Max
  eq : r' = chargedRecord r flags
  sequence : r'.sequence = r.sequence + 1
  /-- One more failure, under the one category present or COMBINED. -/
  counted : accountReasons (r'.image r.candidateSlot).accounting =
    accountReasons (r.image r.candidateSlot).accounting ++
      [chargeReason (resetCauses r flags)]
  others : ∀ t, slotValid t = true → t ≠ r.candidateSlot →
    r'.image t = r.image t
  intent : intentMatches r = true → r'.intentKind = bootIntentNone ∧
    r'.intentSlot = bootSlotNone ∧ r'.intentTrialId = 0

theorem charges_intro {r : BootMetadata} {flags : UInt32} (hr : MetadataOk r)
    (hc : Chargeable r flags) (hroom : r.sequence ≠ uint32Max) :
    Charges r flags (chargedRecord r flags) := by
  have h0 : (r.image r.candidateSlot).payloadLength ≠ 0 := by
    intro h0
    exact ((hr.image _ hc.slot).role h0).2.2.2 rfl
  refine ⟨hc, hroom, rfl, rfl, ?_, ?_, ?_⟩
  · obtain ⟨w, hw, hreasons, -⟩ := @charged_word r r.candidateSlot _
      (if intentMatches r then 1 else 0) hr hc.slot h0 hc.trial
      (chargeReason_mem (flags &&& bootResetSupported) (intentMatches r))
    have himg : (chargedRecord r flags).image r.candidateSlot =
      { r.image r.candidateSlot with accounting := w } := hw
    rw [himg]
    exact hreasons
  · intro t ht hne
    exact charged_image_other hc.slot ht hne
  · intro hm
    refine (@charged_intent r r.candidateSlot _ _).1 (.inr ?_)
    rw [hm]
    decide

/-! ## The calls of a pass -/

/-- A register callback that did not return zero. -/
def RegisterFailed (e : Event ResetSig) : Prop :=
  e = ⟨.readRegister, none⟩ ∨ ∃ flags, e = ⟨.writeRegister flags, false⟩

def isReplace (e : Event ResetSig) : Bool :=
  match e.op with
  | .replace _ _ => true
  | _ => false

/-- The clearing of the captured flags: a read and a write, if any was set. -/
inductive Clearing (captured : UInt32) : List (Event ResetSig) → Prop where
  | nothing (h : captured &&& bootResetSupported = 0) : Clearing captured []
  | readFailed : Clearing captured [⟨.readRegister, none⟩]
  | writeFailed (fresh : UInt32) : Clearing captured
      [⟨.readRegister, some fresh⟩, ⟨.writeRegister
        (fresh &&& ~~~(captured &&& bootResetSupported)), false⟩]
  | cleared (fresh : UInt32) : Clearing captured
      [⟨.readRegister, some fresh⟩, ⟨.writeRegister
        (fresh &&& ~~~(captured &&& bootResetSupported)), true⟩]

/-- From the load on. -/
inductive Accounted (captured : UInt32) : List (Event ResetSig) → Prop where
  | notLoaded (e : BootStoreResult) : Accounted captured [⟨.load, .error e⟩]
  | kept (loaded : BootStoreSnapshot)
      (h : ∀ desired d, bootResetPropose loaded.record captured ≠
        (.change, some (desired, d))) :
      Accounted captured [⟨.load, .ok loaded⟩]
  | replaced (loaded : BootStoreSnapshot) (desired : BootMetadata)
      (d : BootResetDecision) (r : Except BootStoreResult BootStoreSnapshot)
      (h : bootResetPropose loaded.record captured =
        (.change, some (desired, d))) :
      Accounted captured [⟨.load, .ok loaded⟩, ⟨.replace loaded desired, r⟩]

inductive HandlerTrace : List (Event ResetSig) → Prop where
  | captureFailed : HandlerTrace [⟨.readRegister, none⟩]
  | clearFailed (captured : UInt32) {front : List (Event ResetSig)}
      (hc : Clearing captured front) (hf : ∃ e ∈ front, RegisterFailed e) :
      HandlerTrace (⟨.readRegister, some captured⟩ :: front)
  | accounted (captured : UInt32) {front back : List (Event ResetSig)}
      (hc : Clearing captured front) (ha : Accounted captured back) :
      HandlerTrace (⟨.readRegister, some captured⟩ :: (front ++ back))

theorem handlerLoad_trace {p : BootResetHandlerReport}
    {tr : List (Event ResetSig)} {reply : HandlerReply}
    (h : Runs (handlerLoad p) tr reply) : Accounted p.capturedFlags tr := by
  unfold handlerLoad at h
  rw [runs_ask_iff] at h
  obtain ⟨r, rest, rfl, h⟩ := h
  cases r with
  | error e =>
      have hrest : rest = [] := by
        dsimp only at h
        split at h
        · exact (runs_pure_iff.mp h).1
        · exact (runs_pure_iff.mp h).1
      rw [hrest]
      exact .notLoaded e
  | ok loaded =>
      dsimp only [handlerClassify] at h
      split at h
      · next desired d hp =>
          rw [runs_ask_iff] at h
          obtain ⟨r, rest', rfl, h⟩ := h
          have hrest : rest' = [] := by
            cases r with
            | error e => exact (runs_pure_iff.mp h).1
            | ok s => exact (runs_pure_iff.mp h).1
          rw [hrest]
          exact .replaced loaded desired d r hp
      · next m d hp =>
          rw [(runs_pure_iff.mp h).1]
          refine .kept loaded fun desired d' he => ?_
          rw [hp] at he
          cases he
      · next hne _ hp =>
          rw [(runs_pure_iff.mp h).1]
          refine .kept loaded fun desired d' he => ?_
          rw [hp, Prod.mk.injEq] at he
          exact hne _ _ he.1 he.2

theorem handler_trace {tr : List (Event ResetSig)} {reply : HandlerReply}
    (h : Runs resetHandlerCalls tr reply) : HandlerTrace tr := by
  unfold resetHandlerCalls at h
  rw [runs_ask_iff] at h
  obtain ⟨r, rest, rfl, h⟩ := h
  cases r with
  | none =>
      rw [(runs_pure_iff.mp h).1]
      exact .captureFailed
  | some captured =>
  dsimp only at h
  split at h
  · next hset =>
      rw [runs_ask_iff] at h
      obtain ⟨r, rest', rfl, h⟩ := h
      cases r with
      | none =>
          rw [(runs_pure_iff.mp h).1]
          exact .clearFailed captured .readFailed ⟨_, List.mem_cons_self, .inl rfl⟩
      | some fresh =>
          dsimp only at h
          rw [runs_ask_iff] at h
          obtain ⟨r, rest'', rfl, h⟩ := h
          cases r with
          | false =>
              rw [(runs_pure_iff.mp h).1]
              exact .clearFailed captured (.writeFailed fresh)
                ⟨_, List.mem_cons_of_mem _ List.mem_cons_self, .inr ⟨_, rfl⟩⟩
          | true =>
              exact .accounted captured (.cleared fresh) (handlerLoad_trace h)
  · next hset =>
      exact .accounted captured (.nothing (not_not.mp hset))
        (handlerLoad_trace h)

/-- A pass as one program makes these calls and no others. -/
theorem reset_calls {tr : List (Event (RegisterSig.sum StoreSig))}
    {reply : HandlerReply} (h : Runs bootResetHandlerRun tr reply) :
    ∃ calls : List (Served serveReset), tr = calls.flatMap Served.sub ∧
      HandlerTrace (calls.map Served.event) := by
  obtain ⟨calls, rfl, hcalls⟩ := runs_inline h
  exact ⟨calls, rfl, handler_trace hcalls⟩

theorem Clearing.register {captured : UInt32} {tr : List (Event ResetSig)}
    (h : Clearing captured tr) {e : Event ResetSig} (he : e ∈ tr) :
    e.op = .readRegister ∨ ∃ flags, e.op = .writeRegister flags := by
  cases h with
  | nothing => exact absurd he List.not_mem_nil
  | readFailed =>
      rw [List.mem_singleton.mp he]
      exact .inl rfl
  | writeFailed fresh =>
      rcases List.mem_cons.mp he with rfl | he
      · exact .inl rfl
      · rw [List.mem_singleton.mp he]
        exact .inr ⟨_, rfl⟩
  | cleared fresh =>
      rcases List.mem_cons.mp he with rfl | he
      · exact .inl rfl
      · rw [List.mem_singleton.mp he]
        exact .inr ⟨_, rfl⟩

theorem Clearing.not_replace {captured : UInt32} {tr : List (Event ResetSig)}
    (h : Clearing captured tr) : ∀ e ∈ tr, isReplace e = false := by
  intro e he
  rcases h.register he with ho | ⟨flags, ho⟩
  · rw [isReplace, ho]
  · rw [isReplace, ho]

theorem Clearing.not_load {captured : UInt32} {tr : List (Event ResetSig)}
    (h : Clearing captured tr) (ans : Except BootStoreResult BootStoreSnapshot) :
    (⟨.load, ans⟩ : Event ResetSig) ∉ tr := by
  intro he
  rcases h.register he with ho | ⟨flags, ho⟩
  · cases ho
  · cases ho

theorem Accounted.replaces_once {captured : UInt32}
    {tr : List (Event ResetSig)} (h : Accounted captured tr) :
    tr.countP isReplace ≤ 1 := by
  cases h with
  | notLoaded e => exact Nat.zero_le 1
  | kept => exact Nat.zero_le 1
  | replaced => exact Nat.le_refl 1

theorem HandlerTrace.replaces_once {tr : List (Event ResetSig)}
    (h : HandlerTrace tr) : tr.countP isReplace ≤ 1 := by
  have hzero : ∀ {captured front}, Clearing captured front →
      front.countP isReplace = 0 := by
    intro captured front hc
    rw [List.countP_eq_zero]
    intro e he
    rw [hc.not_replace e he]
    decide
  cases h with
  | captureFailed => exact Nat.zero_le 1
  | clearFailed captured hc hf =>
      rw [List.countP_cons, hzero hc]
      exact Nat.zero_le 1
  | accounted captured hc ha =>
      rw [List.countP_cons, List.countP_append, hzero hc]
      have hone := ha.replaces_once
      have hread : isReplace ⟨.readRegister, some captured⟩ = false := rfl
      rw [hread]
      simpa using hone

/-- A replacement of a pass is the charge of the record it loaded. -/
theorem HandlerTrace.replaced {tr : List (Event ResetSig)}
    (h : HandlerTrace tr) {expected : BootStoreSnapshot} {desired : BootMetadata}
    {r : Except BootStoreResult BootStoreSnapshot}
    (he : (⟨.replace expected desired, r⟩ : Event ResetSig) ∈ tr) :
    ∃ captured, tr.head? = some ⟨.readRegister, some captured⟩ ∧
      (⟨.load, .ok expected⟩ : Event ResetSig) ∈ tr ∧
      Charges expected.record captured desired := by
  cases h with
  | captureFailed => cases List.mem_singleton.mp he
  | clearFailed captured hc hf =>
      rcases List.mem_cons.mp he with he | he
      · cases he
      · exact absurd (hc.not_replace _ he) (by simp [isReplace])
  | accounted captured hc ha =>
      rcases List.mem_cons.mp he with he | he
      · cases he
      rcases List.mem_append.mp he with he | he
      · exact absurd (hc.not_replace _ he) (by simp [isReplace])
      cases ha with
      | notLoaded e => cases List.mem_singleton.mp he
      | kept => cases List.mem_singleton.mp he
      | replaced loaded desired' d r' hp =>
          rcases List.mem_cons.mp he with he | he
          · cases he
          cases List.mem_singleton.mp he
          obtain ⟨hr, hch, hroom, rfl, -⟩ := resetPropose_change_iff.mp hp
          refine ⟨captured, rfl, ?_, charges_intro hr hch hroom⟩
          simp

/-- A pass that loads a record it can charge, charges it. -/
theorem HandlerTrace.charges {tr : List (Event ResetSig)} (h : HandlerTrace tr)
    {captured : UInt32} {loaded : BootStoreSnapshot}
    (hcaptured : tr.head? = some ⟨.readRegister, some captured⟩)
    (hload : (⟨.load, .ok loaded⟩ : Event ResetSig) ∈ tr)
    (hr : MetadataOk loaded.record) (hc : Chargeable loaded.record captured)
    (hroom : loaded.record.sequence ≠ uint32Max) :
    ∃ r, (⟨.replace loaded (chargedRecord loaded.record captured), r⟩ :
      Event ResetSig) ∈ tr := by
  have hpropose := resetPropose_change_iff.mpr ⟨hr, hc, hroom, rfl, rfl⟩
  cases h with
  | captureFailed => cases List.mem_singleton.mp hload
  | clearFailed captured' hc' hf =>
      rcases List.mem_cons.mp hload with he | he
      · cases he
      · exact absurd he (hc'.not_load _)
  | accounted captured' hc' ha =>
      cases hcaptured
      rcases List.mem_cons.mp hload with he | he
      · cases he
      rcases List.mem_append.mp he with he | he
      · exact absurd he (hc'.not_load _)
      cases ha with
      | notLoaded e => cases List.mem_singleton.mp he
      | kept loaded' hne =>
          cases List.mem_singleton.mp he
          exact absurd hpropose (hne _ _)
      | replaced loaded' desired d r hp =>
          rcases List.mem_cons.mp he with he | he
          · cases he
            rw [hpropose] at hp
            cases hp
            exact ⟨r, by simp⟩
          · cases List.mem_singleton.mp he

theorem HandlerTrace.loads {tr : List (Event ResetSig)} (h : HandlerTrace tr)
    (hok : ∀ e ∈ tr, ¬ RegisterFailed e) :
    ∃ ans, (⟨.load, ans⟩ : Event ResetSig) ∈ tr := by
  cases h with
  | captureFailed => exact absurd (.inl rfl) (hok _ List.mem_cons_self)
  | clearFailed captured hc hf =>
      obtain ⟨e, he, hfail⟩ := hf
      exact absurd hfail (hok e (List.mem_cons_of_mem _ he))
  | accounted captured hc ha =>
      cases ha with
      | notLoaded e => exact ⟨.error e, by simp⟩
      | kept loaded => exact ⟨.ok loaded, by simp⟩
      | replaced loaded => exact ⟨.ok loaded, by simp⟩

/-- A request of the pass that erases or programs. -/
def WritesFlash (e : Event (RegisterSig.sum StoreSig)) : Prop :=
  (∃ a, e.op = .inr (.erasePage a)) ∨ ∃ a word, e.op = .inr (.programWord a word)

/-- Only a replacement writes. -/
theorem served_reads {c : Served serveReset} (hc : isReplace c.event = false) :
    ∀ e ∈ c.sub, ¬ WritesFlash e := by
  obtain ⟨op, ans, sub, hr⟩ := c
  have hleft : ∀ p : Prog RegisterSig (ResetSig.Ans op),
      Runs (p.left : Prog (RegisterSig.sum StoreSig) _) sub ans →
        ∀ e ∈ sub, ¬ WritesFlash e := by
    intro p hp e he
    obtain ⟨tr', rfl, -⟩ := runs_left hp
    obtain ⟨e', -, rfl⟩ := List.mem_map.mp he
    rintro (⟨a, ha⟩ | ⟨a, word, ha⟩)
    · cases ha
    · cases ha
  cases op with
  | readRegister => exact hleft _ hr
  | writeRegister flags => exact hleft _ hr
  | replace expected desired => cases hc
  | load =>
      intro e he
      obtain ⟨tr', rfl, hr'⟩ := runs_right hr
      obtain ⟨e', he', rfl⟩ := List.mem_map.mp he
      obtain ⟨a, n, hread⟩ := (load_safe _ _ hr').1 e' he'
      rintro (⟨b, hb⟩ | ⟨b, word, hb⟩)
      · simp only [Event.right, hread] at hb
        cases hb
      · simp only [Event.right, hread] at hb
        cases hb

/-! ## Boots against a device -/

/-- The reset register answers anything; the pages are `pageDevice`. -/
def bootDevice : Handler (RegisterSig.sum StoreSig) ByteMem :=
  Handler.sum
    { step := fun _ m _ m' => m' = m
      cut := fun _ m m' => m' = m } pageDevice

/-- What a boot may find durable afterwards. -/
def Booted (page : UInt32) (r : BootMetadata) (mem : ByteMem) : Prop :=
  Authority mem page r ∨
    ∃ flags r', Charges r flags r' ∧ Authority mem (1 - page) r'

theorem handler_wp {mem : ByteMem} {page : UInt32} {r : BootMetadata}
    (h : Authority mem page r) :
    wp bootDevice (Booted page r) bootResetHandlerRun
      (fun _ m => Booted page r m) mem := by
  have hr : MetadataOk r := metadataValidate_eq_ok.mp (decode_ok_validate h.holds)
  have hregister : ∀ {α : Type} (op : RegisterOp)
      (f : RegisterSig.Ans op → Prog (RegisterSig.sum StoreSig) α),
      (∀ a, wp bootDevice (Booted page r) (f a) (fun _ m => Booted page r m)
        mem) → wp bootDevice (Booted page r)
        (Prog.left (Prog.ask (S := RegisterSig) op) >>= f)
        (fun _ m => Booted page r m) mem := by
    intro α op f hf
    rw [wp_bind', bootDevice, wp_left]
    refine ⟨fun m' hc => ?_, fun a m' hs => ?_⟩
    · have hm : m' = mem := hc
      rw [hm]
      exact .inl h
    · have hm : m' = mem := hs
      rw [hm]
      exact hf a
  have hload : ∀ p : BootResetHandlerReport, wp bootDevice (Booted page r)
      ((handlerLoad p).inline serveReset) (fun _ m => Booted page r m) mem := by
    intro p
    unfold handlerLoad
    dsimp only
    rw [Prog.inline_ask_bind, wp_bind', serveReset, bootDevice, wp_right]
    refine wp_post (load_wp (.inl h)) fun res m hres => ?_
    obtain ⟨rfl, hres⟩ := hres
    cases res with
    | error e =>
        dsimp only
        split
        · exact .inl h
        · exact .inl h
    | ok s =>
        have hsnap : s = ⟨r, page⟩ := by
          rw [h.loaded] at hres
          rcases hres with he | he
          · cases he
          · injection he
        subst hsnap
        dsimp only [handlerClassify]
        split
        · next desired d hp =>
            obtain ⟨-, hch, hroom, rfl, -⟩ := resetPropose_change_iff.mp hp
            have hboth : ∀ m', Either page r (chargedRecord r p.capturedFlags) m' →
                Booted page r m' := by
              intro m' he
              rcases he with he | he
              · exact .inl he
              · exact .inr ⟨_, _, charges_intro hr hch hroom, he⟩
            rw [Prog.inline_ask_bind, wp_bind', serveReset, wp_right]
            refine wp_mono (replace_wp h _ _) hboth fun res m' ho => ?_
            cases res with
            | ok s => exact hboth m' (.inr ho.2)
            | error e =>
                cases e with
                | uncertain => exact hboth m' ho
                | _ => exact .inl ho
        · exact .inl h
        · exact .inl h
  unfold bootResetHandlerRun resetHandlerCalls
  refine hregister .read _ fun a => ?_
  cases a with
  | none => exact .inl h
  | some captured =>
      simp only [Prog.ret_bind]
      split
      · refine hregister .read _ fun a => ?_
        cases a with
        | none => exact .inl h
        | some fresh =>
            refine hregister (.write _) _ fun done => ?_
            cases done with
            | false => exact .inl h
            | true => exact hload _
      · exact hload _

/-- One boot, completed or cut. -/
inductive BootStep : ByteMem → Unit → ByteMem → Prop where
  | boot {m m' : ByteMem} {outcome : Option HandlerReply}
      (h : Exec bootDevice bootResetHandlerRun m outcome m') : BootStep m () m'

/-- The record a load through an adapter that works would give. -/
def durable (mem : ByteMem) : Option BootMetadata :=
  match bootStoreLoad.eval (storeAnswers mem) with
  | .ok s => some s.record
  | .error _ => none

/-- The boots of a run that took a record with a matching deadline intent and
left a different one. -/
def intentCharges : ByteMem → List (Unit × ByteMem) → Nat
  | _, [] => 0
  | m, (_, m') :: rest =>
      (if durable m' ≠ durable m ∧ (durable m).any intentMatches then 1 else 0) +
        intentCharges m' rest

theorem Authority.durable {mem : ByteMem} {page : UInt32} {r : BootMetadata}
    (h : Authority mem page r) : durable mem = some r := by
  rw [Boot.durable, h.loaded]

theorem bootStep_booted {m m' : ByteMem} {u : Unit} {page : UInt32}
    {r : BootMetadata} (h : Authority m page r) (hstep : BootStep m u m') :
    Booted page r m' := by
  obtain ⟨he⟩ := hstep
  rename_i outcome
  cases outcome with
  | none => exact he.crash (handler_wp h)
  | some reply => exact he.post (handler_wp h)

/-- A charge never writes an intent. -/
theorem Charges.no_intent {r r' : BootMetadata} {flags : UInt32}
    (h : Charges r flags r') (hk : r.intentKind = bootIntentNone) :
    r'.intentKind = bootIntentNone := by
  by_cases hm : intentMatches r = true
  · exact (h.intent hm).1
  · rw [h.eq]
    by_cases hc : accountCount (r.image r.candidateSlot).accounting = 2 ∨
        (if intentMatches r = true then (1 : UInt32) else 0) ≠ 0
    · exact ((@charged_intent r r.candidateSlot _ _).1 hc).1
    · exact ((@charged_intent r r.candidateSlot _ _).2 hc).1.trans hk

theorem not_matches_of_none {r : BootMetadata}
    (hk : r.intentKind = bootIntentNone) : intentMatches r = false := by
  rw [intentMatches, hk]
  rfl

/-- Without an intent there is nothing to take away. -/
theorem intentCharges_eq_zero {m m' : ByteMem} {tr : List (Unit × ByteMem)}
    {page : UInt32} {r : BootMetadata} (h : Authority m page r)
    (hk : r.intentKind = bootIntentNone) (hrun : Run BootStep m tr m') :
    intentCharges m tr = 0 := by
  induction hrun generalizing page r with
  | nil => rfl
  | @cons m m₁ m₂ u tr hstep hr ih =>
      have hno : ¬ (durable m₁ ≠ durable m ∧
          (durable m).any intentMatches = true) := by
        rw [h.durable, Option.any_some, not_matches_of_none hk]
        exact fun hc => absurd hc.2 (by decide)
      rw [intentCharges, if_neg hno, Nat.zero_add]
      rcases bootStep_booted h hstep with h' | ⟨flags, r', hc, h'⟩
      · exact ih h' hk
      · exact ih h' (hc.no_intent hk)

theorem intentCharges_le_one {m m' : ByteMem} {tr : List (Unit × ByteMem)}
    {page : UInt32} {r : BootMetadata} (h : Authority m page r)
    (hrun : Run BootStep m tr m') : intentCharges m tr ≤ 1 := by
  induction hrun generalizing page r with
  | nil => exact Nat.zero_le 1
  | @cons m m₁ m₂ u tr hstep hr ih =>
      rw [intentCharges]
      rcases bootStep_booted h hstep with h' | ⟨flags, r', hc, h'⟩
      · rw [h.durable, h'.durable, if_neg (fun hc => hc.1 rfl), Nat.zero_add]
        exact ih h'
      · by_cases hm : intentMatches r = true
        · have hzero := intentCharges_eq_zero h' (hc.intent hm).1 hr
          rw [hzero]
          split
          · exact Nat.le_refl 1
          · exact Nat.zero_le 1
        · rw [h.durable, Option.any_some, if_neg (fun hc => hm hc.2),
            Nat.zero_add]
          exact ih h'

/-- A pass issues at most one replacement, the charge of the record it loaded,
exactly when there is something to charge, and otherwise writes nothing; and
no run of boots charges one deadline intent twice. -/
theorem reset_accounting :
    (∀ tr reply, Runs bootResetHandlerRun tr reply →
      ∃ calls : List (Served serveReset), tr = calls.flatMap Served.sub ∧
        let evs := calls.map Served.event
        evs.countP isReplace ≤ 1 ∧
        (∀ expected desired r, ⟨.replace expected desired, r⟩ ∈ evs →
          ∃ captured, evs.head? = some ⟨.readRegister, some captured⟩ ∧
            ⟨.load, .ok expected⟩ ∈ evs ∧
            Charges expected.record captured desired) ∧
        ((∀ e ∈ evs, ¬ RegisterFailed e) → ∃ ans, ⟨.load, ans⟩ ∈ evs) ∧
        (∀ captured loaded,
          evs.head? = some ⟨.readRegister, some captured⟩ →
          ⟨.load, .ok loaded⟩ ∈ evs → Chargeable loaded.record captured →
          loaded.record.sequence ≠ uint32Max →
            ∃ r, ⟨.replace loaded (chargedRecord loaded.record captured), r⟩ ∈
              evs) ∧
        ((∀ e ∈ evs, isReplace e = false) → ∀ e ∈ tr, ¬ WritesFlash e)) ∧
    ∀ m page r m' tr, Authority m page r → Run BootStep m tr m' →
      intentCharges m tr ≤ 1 := by
  refine ⟨fun tr reply h => ?_, fun m page r m' tr h => intentCharges_le_one h⟩
  obtain ⟨calls, rfl, htrace⟩ := reset_calls h
  refine ⟨calls, rfl, htrace.replaces_once, fun e d r => htrace.replaced,
    htrace.loads, ?_, ?_⟩
  · intro captured loaded hcaptured hload hc hroom
    refine htrace.charges hcaptured hload ?_ hc hroom
    obtain ⟨front, sub, back, -, hr⟩ := served_infix hload
    obtain ⟨tr', -, hr'⟩ := runs_right hr
    exact ((load_safe _ _ hr').2 loaded rfl).record
  · intro hno e he
    obtain ⟨c, hc, hec⟩ := List.mem_flatMap.mp he
    exact served_reads (hno _ (List.mem_map_of_mem hc)) e hec

/-- A board that was reset by software, and whose pages work. -/
def softwareReset : (op : RegisterOp) → ByteMem → RegisterSig.Ans op × ByteMem
  | .read, m => (some bootResetSw, m)
  | .write _, m => (true, m)

def workingBoot : (op : (RegisterSig.sum StoreSig).Op) → ByteMem →
    (RegisterSig.sum StoreSig).Ans op × ByteMem
  | .inl op, m => softwareReset op m
  | .inr op, m => workingStore op m

theorem workingBoot_step (op : (RegisterSig.sum StoreSig).Op) (m : ByteMem) :
    bootDevice.step op m (workingBoot op m).1 (workingBoot op m).2 := by
  match op with
  | .inl .read => rfl
  | .inl (.write _) => rfl
  | .inr op => exact workingStore_step op m

theorem exists_boot (m : ByteMem) : ∃ m', BootStep m () m' :=
  ⟨_, ⟨exec_run workingBoot_step bootResetHandlerRun m⟩⟩

/-- On that board a failure that can be charged is charged. -/
theorem handler_charges {m : ByteMem} {page : UInt32} {r : BootMetadata}
    (h : Authority m page r) (hc : Chargeable r bootResetSw)
    (hroom : r.sequence ≠ uint32Max) :
    wp ((Handler.ofFun softwareReset).sum obligingStore) (fun _ => True) bootResetHandlerRun
      (fun _ m' => Authority m' (1 - page) (chargedRecord r bootResetSw)) m := by
  have hr : MetadataOk r := metadataValidate_eq_ok.mp (decode_ok_validate h.holds)
  have hpropose := resetPropose_change_iff.mpr ⟨hr, hc, hroom, rfl, rfl⟩
  have hd : MetadataOk (chargedRecord r bootResetSw) :=
    (bootFailure_committed bootResetSw hr (chargeable_iff.mp hc).1 hroom).after
  have hregister : ∀ {α : Type} (op : RegisterOp)
      {f : RegisterSig.Ans op → Prog (RegisterSig.sum StoreSig) α} {Q : α → ByteMem → Prop},
      wp ((Handler.ofFun softwareReset).sum obligingStore) (fun _ => True)
        (f (softwareReset op m).1) Q (softwareReset op m).2 →
      wp ((Handler.ofFun softwareReset).sum obligingStore) (fun _ => True)
        (Prog.left (Prog.ask (S := RegisterSig) op) >>= f) Q m := by
    intro α op f Q hf
    rw [wp_bind', wp_left]
    exact wp_answer (f := pure) hf
  have hload : ∀ p : BootResetHandlerReport, p.capturedFlags = bootResetSw →
      wp ((Handler.ofFun softwareReset).sum obligingStore) (fun _ => True)
        ((handlerLoad p).inline serveReset)
        (fun _ m' => Authority m' (1 - page) (chargedRecord r bootResetSw)) m := by
    intro p hp
    unfold handlerLoad
    dsimp only
    rw [Prog.inline_ask_bind, wp_bind', serveReset, wp_right]
    refine wp_post (load_works h) fun res m' hres => ?_
    obtain ⟨rfl, rfl⟩ := hres
    dsimp only [handlerClassify]
    rw [hp, hpropose]
    dsimp only
    rw [Prog.inline_ask_bind, wp_bind', serveReset, wp_right]
    refine wp_post (replace_works h (metadataValidate_eq_ok.mpr hd)
      (nextSequence_eq_ok hr hroom)) fun res m'' hres => ?_
    obtain ⟨rfl, ha, -⟩ := hres
    exact ha
  unfold bootResetHandlerRun resetHandlerCalls
  refine hregister .read ?_
  simp only [softwareReset, Prog.ret_bind]
  rw [if_pos (by decide)]
  exact hregister .read (hregister (.write _) (hload _ rfl))

/-- The trial of the package with its deadline missed. -/
def overdueRecord : BootMetadata :=
  { trialRecord with
    sequence := 5
    intentKind := bootIntentDeadline
    intentSlot := bootSlotB
    intentTrialId := 3 }

/-- The missed deadline is charged by the first boot, and not by the second. -/
theorem reset_accounting_overdue :
    let pages := freshPages overdueRecord
    ∃ m₁ m₂, Run BootStep pages [((), m₁), ((), m₂)] m₂ ∧
      durable pages = some overdueRecord ∧ intentMatches overdueRecord = true ∧
      durable m₁ = some (chargedRecord overdueRecord bootResetSw) ∧
      intentCharges pages [((), m₁), ((), m₂)] ≤ 1 := by
  have h : Authority (freshPages overdueRecord) 0 overdueRecord :=
    authority_freshPages (by decide)
  have hboot := exec_run workingBoot_step bootResetHandlerRun (freshPages overdueRecord)
  have hcharged := (exec_run
    (H := (Handler.ofFun softwareReset).sum obligingStore) (h := workingBoot)
    (fun op m => by cases op <;> first | rfl | exact fun _ => rfl)
    bootResetHandlerRun (freshPages overdueRecord)).post
    (handler_charges h (chargeable_iff.mpr (by decide)) (by decide))
  obtain ⟨m₂, hboot₂⟩ := exists_boot (bootResetHandlerRun.run workingBoot
    (freshPages overdueRecord)).2
  have hrun : Run BootStep _ _ m₂ := .cons ⟨hboot⟩ (.cons hboot₂ (.nil m₂))
  exact ⟨_, m₂, hrun, h.durable, by decide, hcharged.durable,
    reset_accounting.2 _ _ _ _ _ h hrun⟩

end EkBareMetal.Boot

import EkBareMetal.Boot.RuntimeWatchdog
import EkBareMetal.Proofs.Stored
import EkBareMetal.Proofs.Watchdog

/-!
# The verifier keeps the watchdog's stream

The verifier says how far it is, and the watchdog believes no report that is
not the next one. The two agree: what the verifier emits is always what the
watchdog expects, whatever the reader and the library do, however a
verification ends and whichever one follows. So the only things that can stop
a verification through its progress callback are the registers and the two
numbers that are never reused.
-/

namespace EkBareMetal.Boot

open Words Interact Transition

/-! ## Registers that behave -/

/-- What a read of a register finds while the protection is in place. -/
structure Holds (reload : UInt32) (locked : Bool) (address value : UInt32) : Prop where
  lock : address = bootWatchdogLock → value = if locked then 1 else 0
  clock : address = bootWatchdogRcgc0 → value &&& wdtClock ≠ 0
  control : address = bootWatchdogCtl → enabled value = true
  load : address = bootWatchdogLoad → value = reload
  raw : address = bootWatchdogRis → value &&& 1 = 0

/-- Every access of the transcript succeeded, and every read found what it
should. The lock is followed: any value but the key closes it. -/
def Behaves (reload : UInt32) : Bool → List (Event WatchdogSig) → Prop
  | _, [] => True
  | locked, ⟨.readRegister address, r⟩ :: tr =>
      (∃ value, r = some value ∧ Holds reload locked address value) ∧
        Behaves reload locked tr
  | locked, ⟨.writeRegister address value, r⟩ :: tr =>
      r = true ∧
        Behaves reload (if address = bootWatchdogLock then value != wdtUnlock
          else locked) tr

instance (reload : UInt32) (locked : Bool) (address value : UInt32) :
    Decidable (Holds reload locked address value) :=
  decidable_of_iff
    ((address = bootWatchdogLock → value = if locked then 1 else 0) ∧
      (address = bootWatchdogRcgc0 → value &&& wdtClock ≠ 0) ∧
      (address = bootWatchdogCtl → enabled value = true) ∧
      (address = bootWatchdogLoad → value = reload) ∧
      (address = bootWatchdogRis → value &&& 1 = 0))
    ⟨fun ⟨hl, hc, he, hv, hr⟩ => ⟨hl, hc, he, hv, hr⟩,
      fun h => ⟨h.lock, h.clock, h.control, h.load, h.raw⟩⟩

instance decidableBehaves (reload : UInt32) :
    (locked : Bool) → (tr : List (Event WatchdogSig)) →
      Decidable (Behaves reload locked tr)
  | _, [] => isTrue trivial
  | _, ⟨.readRegister _, none⟩ :: _ => isFalse fun h => nomatch h.1
  | locked, ⟨.readRegister address, some value⟩ :: tr =>
      have := decidableBehaves reload locked tr
      decidable_of_iff (Holds reload locked address value ∧ Behaves reload locked tr)
        ⟨fun ⟨h, htr⟩ => ⟨⟨value, rfl, h⟩, htr⟩, fun ⟨⟨_, he, h⟩, htr⟩ =>
          ⟨Option.some.inj he ▸ h, htr⟩⟩
  | locked, ⟨.writeRegister address value, r⟩ :: tr =>
      have := decidableBehaves reload
        (if address = bootWatchdogLock then value != wdtUnlock else locked) tr
      inferInstanceAs (Decidable (r = true ∧ Behaves reload _ tr))

/-- On registers that behave `p` ends well, and leaves the lock as said. -/
def EndsWell (reload : UInt32) (p : Prog WatchdogSig BootWatchdogResult)
    (locked locked' : Bool) : Prop :=
  ∀ tr tail r, Runs p tr r → Behaves reload locked (tr ++ tail) →
    r = .ok ∧ Behaves reload locked' tail

section EndsWell

variable {reload : UInt32} {locked locked' locked'' : Bool}
  {p q : Prog WatchdogSig BootWatchdogResult}

theorem endsWell_expect {address : UInt32} {good : UInt32 → Bool}
    (h : ∀ v, Holds reload locked address v → good v = true) :
    EndsWell reload (expect address good) locked locked := by
  intro tr tail r hr hb
  obtain ⟨a, rest, rfl, hk⟩ := runs_ask_iff.mp hr
  obtain ⟨⟨value, rfl, hv⟩, htail⟩ := hb
  obtain ⟨rfl, rfl⟩ := runs_pure_iff.mp hk
  exact ⟨if_pos (h value hv), htail⟩

theorem endsWell_writeExpect {address value readBack : UInt32}
    {good : UInt32 → Bool}
    (hlock : (if address = bootWatchdogLock then value != wdtUnlock else locked) =
      locked')
    (h : ∀ v, Holds reload locked' readBack v → good v = true) :
    EndsWell reload (writeExpect address value readBack good) locked locked' := by
  intro tr tail r hr hb
  obtain ⟨a, rest, rfl, hk⟩ := runs_ask_iff.mp hr
  obtain ⟨rfl, hrest⟩ := hb
  rw [hlock] at hrest
  exact endsWell_expect h rest tail r hk hrest

theorem EndsWell.andThen (hp : EndsWell reload p locked locked')
    (hq : EndsWell reload q locked' locked'') :
    EndsWell reload (Boot.andThen p q) locked locked'' := by
  intro tr tail r hr hb
  obtain ⟨tr₁, r₁, tr₂, rfl, h₁, h₂⟩ := runs_bind_iff'.mp hr
  rw [List.append_assoc] at hb
  obtain ⟨rfl, hrest⟩ := hp tr₁ _ r₁ h₁ hb
  exact hq tr₂ tail r h₂ hrest

theorem endsWell_lock {value expected : UInt32} (h : (value != wdtUnlock) = locked')
    (he : expected = if locked' then 1 else 0) :
    EndsWell reload (lock value expected) locked locked' :=
  endsWell_writeExpect h fun _ hv => beq_iff_eq.mpr ((hv.lock rfl).trans he.symm)

theorem endsWell_checkProtection :
    EndsWell reload (checkProtection reload) locked locked :=
  .andThen (endsWell_expect fun _ h => bne_iff_ne.mpr (h.clock rfl))
    (.andThen (endsWell_expect fun _ h => h.control rfl)
      (endsWell_expect fun _ h => beq_iff_eq.mpr (h.load rfl)))

theorem endsWell_feedUnlocked : EndsWell reload feedUnlocked locked true :=
  have hunlock : EndsWell reload (lock wdtUnlock 0) locked false :=
    endsWell_lock rfl rfl
  .andThen hunlock
    (.andThen (endsWell_writeExpect rfl fun _ h => beq_iff_eq.mpr (h.raw rfl))
      (endsWell_lock rfl rfl))

end EndsWell

/-! ## A service whose evidence is there -/

/-- The results of looking at registers. -/
def Looks (p : Prog WatchdogSig BootWatchdogResult) : Prop :=
  ∀ tr r, Runs p tr r → r = .ok ∨ r = .io ∨ r = .verify

theorem looks_expect (address : UInt32) (good : UInt32 → Bool) :
    Looks (expect address good) := by
  intro tr r hr
  obtain ⟨a, rest, rfl, hk⟩ := runs_ask_iff.mp hr
  split at hk
  · exact .inr (.inl (runs_pure_iff.mp hk).2)
  · obtain ⟨-, rfl⟩ := runs_pure_iff.mp hk
    split
    · exact .inl rfl
    · exact .inr (.inr rfl)

theorem looks_writeExpect (address value readBack : UInt32) (good : UInt32 → Bool) :
    Looks (writeExpect address value readBack good) := by
  intro tr r hr
  obtain ⟨a, rest, rfl, hk⟩ := runs_ask_iff.mp hr
  split at hk
  · exact .inr (.inl (runs_pure_iff.mp hk).2)
  · exact looks_expect _ _ rest r hk

theorem Looks.andThen {p q : Prog WatchdogSig BootWatchdogResult} (hp : Looks p)
    (hq : Looks q) : Looks (Boot.andThen p q) := by
  intro tr r hr
  obtain ⟨tr₁, r₁, tr₂, rfl, h₁, h₂⟩ := runs_bind_iff'.mp hr
  split at h₂
  · obtain ⟨-, rfl⟩ := runs_pure_iff.mp h₂
    exact hp tr₁ _ h₁
  · exact hq tr₂ r h₂

theorem looks_checkProtection (reload : UInt32) : Looks (checkProtection reload) :=
  .andThen (looks_expect _ _) (.andThen (looks_expect _ _) (looks_expect _ _))

theorem looks_feedUnlocked : Looks feedUnlocked :=
  .andThen (looks_writeExpect _ _ _ _)
    (.andThen (looks_writeExpect _ _ _ _) (looks_writeExpect _ _ _ _))

/-- A service that is due succeeds or leaves the watchdog blocked, and it fails
for nothing but the last epoch and the registers. -/
theorem service_due {w w' : BootWatchdog} {owner : BootWatchdogOwner}
    {epoch : UInt32} {tr : List (Event WatchdogSig)} {r : BootWatchdogResult}
    (h : Runs (bootWatchdogServiceHeld w owner epoch) tr (r, w'))
    (hready : ready w owner epoch = .ok) (hfull : w.evidence = owner.required) :
    r ≠ .progress ∧
      (r = .ok ∧ w' = { w with evidence := 0, epoch := w.epoch + 1 } ∨
        w' = w.quarantine ∧
          (w.epoch = uint32Max ∨ ¬ Behaves w.reload true tr)) := by
  have unclean {e : BootWatchdogResult} (hl : e = .ok ∨ e = .io ∨ e = .verify) :
      e ≠ .progress := by
    rcases hl with rfl | rfl | rfl <;> decide
  rw [bootWatchdogServiceHeld, hready] at h
  dsimp only at h
  rw [if_neg (not_not_intro rfl), if_neg (not_not_intro hfull)] at h
  split at h
  · next hmax =>
      obtain ⟨-, he⟩ := runs_pure_iff.mp h
      cases he
      exact ⟨by decide, .inr ⟨rfl, .inl hmax⟩⟩
  obtain ⟨tr₁, r₁, tr₂, rfl, h₁, h₂⟩ := runs_bind_iff'.mp h
  have hcheck (hb : Behaves w.reload true (tr₁ ++ tr₂)) :=
    endsWell_checkProtection tr₁ tr₂ r₁ h₁ hb
  split at h₂
  · next hne =>
      obtain ⟨-, he⟩ := runs_pure_iff.mp h₂
      cases he
      exact ⟨unclean (looks_checkProtection _ tr₁ _ h₁),
        .inr ⟨rfl, .inr fun hb => hne (hcheck hb).1⟩⟩
  · obtain ⟨tr₃, r₂, tr₄, rfl, h₃, h₄⟩ := runs_bind_iff'.mp h₂
    split at h₄
    · next hne =>
        obtain ⟨rfl, rfl⟩ := faultHeld_runs h₄
        exact ⟨unclean (looks_feedUnlocked tr₃ _ h₃), .inr ⟨rfl, .inr fun hb =>
          hne (endsWell_feedUnlocked tr₃ tr₄ _ h₃ (hcheck hb).2).1⟩⟩
    · obtain ⟨-, he⟩ := runs_pure_iff.mp h₄
      cases he
      exact ⟨by decide, .inl ⟨rfl, rfl⟩⟩

/-! ## One event at the bridge -/

/-- A progress event as the bridge served it: the watchdog it found, what it
answered and recorded, and what it asked the registers. -/
structure Notified where
  before : BootWatchdog
  phase : BootVerifyPhase
  completed : UInt32
  total : UInt32
  answer : Bool
  record : BootProgressRecord
  events : List (Event WatchdogSig)

namespace Notified

/-- The report the bridge makes of the event. -/
def report (n : Notified) : BootReport where
  epoch := n.before.epoch
  verification := if n.phase = .manifestBegin then n.before.verification + 1
    else n.before.verification
  phase := n.phase
  completed := n.completed
  total := n.total

/-- The registers behaved when the bridge used them. -/
def Behaved (n : Notified) : Prop := Behaves n.before.reload true n.events

instance (n : Notified) : Decidable n.Behaved :=
  inferInstanceAs (Decidable (Behaves _ _ _))

/-- There is an epoch, and for a begin a verification, to go on with. -/
def Below (n : Notified) : Prop :=
  n.before.epoch ≠ uint32Max ∧
    (n.phase = .manifestBegin → n.before.verification ≠ uint32Max)

/-- The report was accepted, a milestone was served, and the verifier was told
to go on. -/
def Accepted (n : Notified) : Prop :=
  (bootWatchdogReportHeld n.before n.report).1 = .ok ∧
    (n.phase ≠ .manifestBegin → n.record.operation = .service) ∧
    n.record.watchdog = .ok ∧ n.answer = true

end Notified

/-- The watchdog a verification runs under. It can only be blocked if the
registers misbehaved (`clean` is false then) or the epochs are used up. -/
structure Guarding (clean : Prop) (w : BootWatchdog) : Prop where
  configured : w.configured = true
  owner : w.owner = .boot
  free : clean → w.epoch ≠ uint32Max → w.blocked = false

theorem Guarding.mono {clean clean' : Prop} {w : BootWatchdog}
    (h : Guarding clean w) (hc : clean' → clean) : Guarding clean' w :=
  ⟨h.configured, h.owner, fun hclean => h.free (hc hclean)⟩

/-- A report the watchdog expects is accepted unless the watchdog is blocked. -/
theorem report_expected {clean : Prop} {w : BootWatchdog} {r : BootReport}
    (hg : Guarding clean w) (hepoch : r.epoch = w.epoch) (hnext : w.Expects r) :
    bootWatchdogReportHeld w r =
      if w.blocked then (.blocked, w) else (.ok, w.reported r) := by
  have hready : ready w .boot r.epoch = if w.blocked then .blocked else .ok := by
    simp only [ready, hg.configured, hg.owner, hepoch, Bool.not_true,
      Bool.false_eq_true, ne_eq, not_true_eq_false, or_self, if_false]
  rw [bootWatchdogReportHeld, hready]
  by_cases hb : w.blocked = true
  · rw [if_pos hb, if_pos hb]
    exact if_pos (by decide)
  · rw [if_neg hb, if_neg hb, if_neg (not_not_intro rfl)]
    rcases r with ⟨epoch, verification, phase, completed, total⟩
    cases phase with
    | manifestBegin =>
        have hbegin : beginOk w ⟨epoch, verification, .manifestBegin, completed,
          total⟩ = true := hnext
        simp only [hbegin, Bool.not_true, Bool.false_eq_true, if_true, if_false]
        rfl
    | manifestAuthenticated =>
        obtain ⟨rfl, rfl, hphase, rfl⟩ := hnext
        simp only [hphase, reduceCtorEq, ne_eq, not_true_eq_false, or_self,
          one_ne_zero, if_true, if_false]
        rfl
    | payloadProgress =>
        obtain ⟨rfl, rfl, hchunk⟩ := hnext
        have hphase : w.phase ≠ 0 := by
          simp only [chunkOk, Bool.and_eq_true, decide_eq_true_eq] at hchunk
          omega
        simp only [hchunk, hphase, reduceCtorEq, ne_eq, not_true_eq_false, or_self,
          Bool.not_true, Bool.false_eq_true, if_false]
        rfl

/-- The watchdog after an event the verifier was told to go on from: where its
stream then is. -/
def Moved (w w' : BootWatchdog) (r : BootReport) : Prop :=
  w'.total = (w.reported r).total ∧ w'.phase = (w.reported r).phase ∧
    w'.completed = (w.reported r).completed

theorem reported_evidence (w : BootWatchdog) {r : BootReport}
    (h : r.phase ≠ .manifestBegin) : (w.reported r).evidence = 1 := by
  rcases r with ⟨_, _, phase, _, _⟩
  cases phase with
  | manifestBegin => exact absurd rfl h
  | manifestAuthenticated | payloadProgress => rfl

theorem reported_fields (w : BootWatchdog) (r : BootReport) :
    (w.reported r).configured = w.configured ∧ (w.reported r).reload = w.reload := by
  rcases r with ⟨_, _, phase, _, _⟩
  cases phase <;> exact ⟨rfl, rfl⟩

theorem progressReport_next {clean : Prop} {w w' : BootWatchdog}
    {r r' : BootProgressRecord} {answer : Bool} {tr : List (Event WatchdogSig)}
    {report : BootReport} (hg : Guarding clean w)
    (hreport : report = ⟨w.epoch, r.verification, r.phase, r.completed, r.total⟩)
    (hnext : w.Expects report)
    (h : Runs (progressReport w r) tr ((answer, r'), w')) :
    r'.watchdog ≠ .progress ∧
    (clean → Behaves w.reload true tr → w.epoch ≠ uint32Max →
      (bootWatchdogReportHeld w report).1 = .ok ∧
      (r.phase ≠ .manifestBegin → r'.operation = .service) ∧
      r'.watchdog = .ok ∧ answer = true) ∧
    Guarding (clean ∧ Behaves w.reload true tr) w' ∧
    (answer = true → Moved w w' report) := by
  have hrefused : BootWatchdogResult.blocked ≠ .ok ∧ BootWatchdogResult.blocked ≠ .progress := by
    decide
  have hserved : BootWatchdogResult.ok ≠ .progress := by decide
  have hepoch : report.epoch = w.epoch := by rw [hreport]
  have hphase : report.phase = r.phase := by rw [hreport]
  have hspec := report_expected hg hepoch hnext
  obtain ⟨howner, hsame, hblocked⟩ := reported_frame w report
  obtain ⟨hconf, hreload⟩ := reported_fields w report
  rw [progressReport, ← hreport, hspec] at h
  dsimp only at h
  by_cases hb : w.blocked = true
  · rw [if_pos hb, if_pos hrefused.1] at h
    obtain ⟨rfl, he⟩ := runs_pure_iff.mp h
    cases he
    refine ⟨hrefused.2, fun hclean _ hmax => ?_, hg.mono And.left, fun ha => by cases ha⟩
    rw [hg.free hclean hmax] at hb
    cases hb
  rw [if_neg hb, if_neg (not_not_intro rfl)] at h
  rw [if_neg hb] at hspec
  have hfree : w.blocked = false := Bool.eq_false_iff.mpr hb
  split at h
  · next hbegin =>
      obtain ⟨rfl, he⟩ := runs_pure_iff.mp h
      cases he
      refine ⟨hserved, fun _ _ _ => ⟨by rw [hspec], fun hne => absurd hbegin hne,
        rfl, rfl⟩, ⟨?_, ?_, fun _ _ => ?_⟩, fun _ => ⟨rfl, rfl, rfl⟩⟩
      · rw [hconf, hg.configured]
      · rw [howner, hg.owner]
      · rw [hblocked, hfree]
  · next hbegin =>
      obtain ⟨tr₁, ⟨result, w₁⟩, tr₂, rfl, hs, hk⟩ := runs_bind_iff'.mp h
      obtain ⟨rfl, he⟩ := runs_pure_iff.mp hk
      cases he
      rw [List.append_nil] at *
      have hready : ready (w.reported report) .boot (w.reported report).epoch = .ok := by
        simp only [ready, hblocked, hfree, hconf, hg.configured, howner, hg.owner,
          Bool.not_true, Bool.false_eq_true, ne_eq, not_true_eq_false, or_self,
          if_false]
      have hfull : (w.reported report).evidence = BootWatchdogOwner.boot.required :=
        reported_evidence w (hphase.symm ▸ hbegin)
      obtain ⟨hclear, hdue⟩ := service_due hs hready hfull
      rw [hreload, hsame] at hdue
      rcases hdue with ⟨rfl, rfl⟩ | ⟨rfl, hwhy⟩
      · refine ⟨hserved, fun _ _ _ => ⟨by rw [hspec], fun _ => rfl, rfl, rfl⟩,
          ⟨?_, ?_, fun _ _ => ?_⟩, fun _ => ⟨rfl, rfl, rfl⟩⟩
        · exact hconf.trans hg.configured
        · exact howner.trans hg.owner
        · exact hblocked.trans hfree
      · have hnone : ¬ (Behaves w.reload true tr₁ ∧ w.epoch ≠ uint32Max) :=
          fun hboth => hwhy.elim hboth.2 fun hn => hn hboth.1
        refine ⟨hclear, fun _ hbe hmax => absurd ⟨hbe, hmax⟩ hnone,
          ⟨?_, ?_, fun hc hmax => ?_⟩, fun ha => ⟨rfl, rfl, rfl⟩⟩
        · exact hconf.trans hg.configured
        · exact howner.trans hg.owner
        · exact absurd ⟨hc.2, fun he => hmax (hsame.trans he)⟩ hnone

/-- What the bridge does with the event that is next. -/
theorem progress_next {clean : Prop} {n : Notified} {w' : BootWatchdog}
    (hg : Guarding clean n.before)
    (hnext : (n.phase = .manifestBegin → n.before.verification ≠ uint32Max) →
      n.before.Expects n.report)
    (h : Runs (progress n.before n.phase n.completed n.total) n.events
      ((n.answer, n.record), w')) :
    n.record.watchdog ≠ .progress ∧
    (clean → n.Behaved → n.Below → n.Accepted) ∧
    Guarding (clean ∧ n.Behaved) w' ∧
    (n.answer = true → Moved n.before w' n.report) := by
  rcases n with ⟨w, phase, completed, total, answer, record, events⟩
  dsimp only [Notified.Below] at *
  rw [progress] at h
  split at h
  · next hbegin =>
      split at h
      · next hmax =>
          obtain ⟨rfl, he⟩ := runs_pure_iff.mp h
          cases he
          exact ⟨nofun, fun _ _ hbelow => absurd hmax (hbelow.2 hbegin),
            hg.mono And.left, nofun⟩
      · next hmax =>
          obtain ⟨hclear, haccept, hguard, hmoved⟩ :=
            progressReport_next hg (by rw [Notified.report, if_pos hbegin]; rfl)
              (hnext fun _ => hmax) h
          exact ⟨hclear, fun hc hb hbelow => haccept hc hb hbelow.1, hguard, hmoved⟩
  · next hbegin =>
      obtain ⟨hclear, haccept, hguard, hmoved⟩ :=
        progressReport_next hg (by rw [Notified.report, if_neg hbegin]; rfl)
          (hnext fun he => absurd he hbegin) h
      exact ⟨hclear, fun hc hb hbelow => haccept hc hb hbelow.1, hguard, hmoved⟩

/-! ## Verifications under the bridge -/

/-- The progress events of a transcript of the verifier were answered by the
bridge, as recorded. Reads and library calls were answered in any way. -/
inductive Bridged : BootWatchdog → List (Event VerifySig) → List Notified →
    BootWatchdog → Prop where
  | nil (w : BootWatchdog) : Bridged w [] [] w
  | read {w w' : BootWatchdog} {address : UInt32} {requested : Nat}
      {r : Option (Bytes requested)} {tr : List (Event VerifySig)}
      {ns : List Notified} (h : Bridged w tr ns w') :
      Bridged w (⟨.read address requested, r⟩ :: tr) ns w'
  | library {w w' : BootWatchdog} {r : Bool} {tr : List (Event VerifySig)}
      {ns : List Notified} (h : Bridged w tr ns w') :
      Bridged w (⟨.library, r⟩ :: tr) ns w'
  | progress {n : Notified} {w₁ w' : BootWatchdog} {tr : List (Event VerifySig)}
      {ns : List Notified}
      (hn : Runs (progress n.before n.phase n.completed n.total) n.events
        ((n.answer, n.record), w₁))
      (h : Bridged w₁ tr ns w') :
      Bridged n.before (⟨.progress n.phase n.completed n.total, n.answer⟩ :: tr)
        (n :: ns) w'

section Bridged

variable {w w' : BootWatchdog} {tr tr' : List (Event VerifySig)} {ns : List Notified}

theorem bridged_nil (h : Bridged w [] ns w') : ns = [] ∧ w' = w := by
  cases h
  exact ⟨rfl, rfl⟩

theorem bridged_append (h : Bridged w (tr ++ tr') ns w') :
    ∃ ns₁ w₁ ns₂, ns = ns₁ ++ ns₂ ∧ Bridged w tr ns₁ w₁ ∧ Bridged w₁ tr' ns₂ w' := by
  induction tr generalizing w ns with
  | nil => exact ⟨[], w, ns, rfl, .nil w, h⟩
  | cons e tr ih =>
      cases h with
      | read h =>
          obtain ⟨ns₁, w₁, ns₂, rfl, h₁, h₂⟩ := ih h
          exact ⟨ns₁, w₁, ns₂, rfl, .read h₁, h₂⟩
      | library h =>
          obtain ⟨ns₁, w₁, ns₂, rfl, h₁, h₂⟩ := ih h
          exact ⟨ns₁, w₁, ns₂, rfl, .library h₁, h₂⟩
      | progress hn h =>
          obtain ⟨ns₁, w₁, ns₂, rfl, h₁, h₂⟩ := ih h
          exact ⟨_ :: ns₁, w₁, ns₂, rfl, .progress hn h₁, h₂⟩

theorem bridged_progress {phase : BootVerifyPhase} {completed total : UInt32}
    {answer : Bool} (h : Bridged w (⟨.progress phase completed total, answer⟩ :: tr)
      ns w') :
    ∃ record events w₁ ns', ns = ⟨w, phase, completed, total, answer, record,
        events⟩ :: ns' ∧
      Runs (progress w phase completed total) events ((answer, record), w₁) ∧
      Bridged w₁ tr ns' w' := by
  cases h with
  | progress hn h => exact ⟨_, _, _, _, rfl, hn, h⟩

end Bridged

/-- What is said of every event, in the order they came: never out of order,
and accepted when nothing before it and nothing about it stood in the way. -/
def Accepts (clean : Prop) : List Notified → Prop
  | [] => True
  | n :: ns => n.record.watchdog ≠ .progress ∧
      (clean → n.Behaved → n.Below → n.Accepted) ∧ Accepts (clean ∧ n.Behaved) ns

/-- A stretch of events was as it should be, and the watchdog still guards. -/
structure Keeps (clean : Prop) (ns : List Notified) (w' : BootWatchdog) : Prop where
  accepts : Accepts clean ns
  guarding : Guarding (clean ∧ ∀ n ∈ ns, n.Behaved) w'

section Keeps

variable {clean clean' : Prop} {w' : BootWatchdog} {n : Notified}
  {ns ns₁ ns₂ : List Notified}

theorem Accepts.mono (h : Accepts clean ns) (hc : clean' → clean) :
    Accepts clean' ns := by
  induction ns generalizing clean clean' with
  | nil => trivial
  | cons n ns ih =>
      obtain ⟨hclear, haccept, hrest⟩ := h
      exact ⟨hclear, fun hclean => haccept (hc hclean),
        ih hrest fun ⟨hclean, hb⟩ => ⟨hc hclean, hb⟩⟩

theorem accepts_append (h₁ : Accepts clean ns₁)
    (h₂ : Accepts (clean ∧ ∀ n ∈ ns₁, n.Behaved) ns₂) :
    Accepts clean (ns₁ ++ ns₂) := by
  induction ns₁ generalizing clean with
  | nil => exact h₂.mono fun hc => ⟨hc, fun n hn => absurd hn List.not_mem_nil⟩
  | cons n ns ih =>
      obtain ⟨hclear, haccept, hrest⟩ := h₁
      refine ⟨hclear, haccept, ih hrest (h₂.mono fun ⟨⟨hc, hb⟩, hall⟩ => ⟨hc, ?_⟩)⟩
      exact List.forall_mem_cons.mpr ⟨hb, hall⟩

theorem Keeps.nil (h : Guarding clean w') : Keeps clean [] w' :=
  ⟨trivial, h.mono And.left⟩

theorem Keeps.append (h₁ : Accepts clean ns₁)
    (h₂ : Keeps (clean ∧ ∀ n ∈ ns₁, n.Behaved) ns₂ w') :
    Keeps clean (ns₁ ++ ns₂) w' := by
  refine ⟨accepts_append h₁ h₂.accepts, h₂.guarding.mono fun ⟨hc, hall⟩ => ?_⟩
  exact ⟨⟨hc, fun n hn => hall n (List.mem_append_left _ hn)⟩,
    fun n hn => hall n (List.mem_append_right _ hn)⟩

theorem Keeps.cons (hclear : n.record.watchdog ≠ .progress)
    (haccept : clean → n.Behaved → n.Below → n.Accepted)
    (h : Keeps (clean ∧ n.Behaved) ns w') : Keeps clean (n :: ns) w' := by
  refine ⟨⟨hclear, haccept, h.accepts⟩, h.guarding.mono fun ⟨hc, hall⟩ => ?_⟩
  obtain ⟨hb, hrest⟩ := List.forall_mem_cons.mp hall
  exact ⟨⟨hc, hb⟩, hrest⟩

/-- Of an event that nothing stood in the way of. -/
theorem Accepts.mid (h : Accepts clean (ns₁ ++ n :: ns₂)) :
    n.record.watchdog ≠ .progress ∧
      (clean → (∀ m ∈ ns₁, m.Behaved) → n.Behaved → n.Below → n.Accepted) := by
  induction ns₁ generalizing clean with
  | nil => exact ⟨h.1, fun hc _ => h.2.1 hc⟩
  | cons m ns ih =>
      obtain ⟨hclear, haccept⟩ := ih h.2.2
      exact ⟨hclear, fun hc hall => haccept ⟨hc, (List.forall_mem_cons.mp hall).1⟩
        (List.forall_mem_cons.mp hall).2⟩

end Keeps

/-- One event that is next, and what follows it if the verifier goes on. -/
theorem keeps_event {clean Q : Prop} {w w' : BootWatchdog} {phase : BootVerifyPhase}
    {completed total : UInt32} {answer : Bool} {tr : List (Event VerifySig)}
    {ns : List Notified} (hg : Guarding clean w) {report : BootReport}
    (hreport : report = ⟨w.epoch, if phase = .manifestBegin then w.verification + 1
      else w.verification, phase, completed, total⟩)
    (hnext : (phase = .manifestBegin → w.verification ≠ uint32Max) →
      w.Expects report)
    (h : Bridged w (⟨.progress phase completed total, answer⟩ :: tr) ns w')
    (hrest : ∀ {b : Prop} {w₁ ns₁}, Guarding (clean ∧ b) w₁ →
      (answer = true → Moved w w₁ report) → Bridged w₁ tr ns₁ w' →
      Keeps (clean ∧ b) ns₁ w' ∧ Q) : Keeps clean ns w' ∧ Q := by
  subst hreport
  obtain ⟨record, events, w₁, ns', rfl, hn, hb⟩ := bridged_progress h
  let n : Notified := ⟨w, phase, completed, total, answer, record, events⟩
  obtain ⟨hclear, haccept, hguard, hmoved⟩ := @progress_next clean n w₁ hg hnext hn
  obtain ⟨hkeeps, hq⟩ := hrest hguard hmoved hb
  exact ⟨.cons hclear haccept hkeeps, hq⟩

/-- The lengths a manifest can have are those a verification may begin with. -/
theorem beginOk_admitted {w : BootWatchdog} {m : BootManifest}
    (hm : bootManifestValidate m = .ok) (hmax : w.verification ≠ uint32Max) :
    beginOk w ⟨w.epoch, w.verification + 1, .manifestBegin, 0, m.payloadLength⟩ =
      true := by
  obtain ⟨hs, -, hmin, hlimit, halign⟩ := manifestValidate_eq_ok hm
  have hlt := w.verification.toNat_lt
  have hne : w.verification.toNat ≠ 2 ^ 32 - 1 := fun h => hmax (UInt32.toNat_inj.mp h)
  have hsucc : (w.verification + 1).toNat = w.verification.toNat + 1 := by
    rw [UInt32.toNat_add, UInt32.toNat_one]
    exact Nat.mod_eq_of_lt (by omega)
  have hzero : w.verification + 1 ≠ 0 := by
    rw [ne_eq, ← UInt32.toNat_inj, hsucc]
    exact Nat.succ_ne_zero _
  have hnext : w.verification < w.verification + 1 := by
    rw [UInt32.lt_iff_toNat_lt, hsucc]
    exact Nat.lt_succ_self _
  have hle : m.payloadLength ≤ bootPayloadMax := by
    rw [UInt32.le_iff_toNat_le] at hlimit ⊢
    exact hlimit.trans_eq (slotManifest_bounds hs).2
  have hmod : m.payloadLength % 4 = 0 := by
    rw [← UInt32.toNat_inj, UInt32.toNat_mod]
    rw [← UInt32.toNat_inj, UInt32.toNat_and] at halign
    exact (Nat.and_two_pow_sub_one_eq_mod m.payloadLength.toNat 2).symm.trans halign
  simp only [beginOk, hzero, hnext, hmin, hle, hmod, ne_eq, not_false_eq_true,
    decide_true, Bool.and_self]

theorem manifest_keeps {C : Crypto} {clean : Prop} {w w' : BootWatchdog}
    {wire : List UInt8} {slot : UInt32} {tr : List (Event VerifySig)}
    {res : Except BootVerifyResult BootManifest} {ns : List Notified}
    (hg : Guarding clean w) (hr : Runs (bootVerifyManifest C wire slot) tr res)
    (hb : Bridged w tr ns w') :
    Keeps clean ns w' ∧ ∀ m, res = .ok m → bootManifestValidate m = .ok ∧
      w'.total = m.payloadLength ∧ w'.phase = 2 ∧ w'.completed = 0 := by
  have stops {clean : Prop} {w : BootWatchdog} {e : BootVerifyResult}
      {tr : List (Event VerifySig)} {ns : List Notified} (hg : Guarding clean w)
      (hr : Runs (pure (.error e)) tr res) (hb : Bridged w tr ns w') :
      Keeps clean ns w' ∧ ∀ m, res = .ok m → bootManifestValidate m = .ok ∧
        w'.total = m.payloadLength ∧ w'.phase = 2 ∧ w'.completed = 0 := by
    obtain ⟨rfl, rfl⟩ := runs_pure_iff.mp hr
    obtain ⟨rfl, rfl⟩ := bridged_nil hb
    exact ⟨.nil hg, nofun⟩
  rw [bootVerifyManifest] at hr
  split at hr
  · exact stops hg hr hb
  split at hr
  · exact stops hg hr hb
  next m hdecode =>
  have hm := manifestDecode_ok hdecode
  split at hr
  · exact stops hg hr hb
  obtain ⟨go, rest, rfl, hk⟩ := runs_ask_iff.mp hr
  refine keeps_event hg rfl (fun hmax => beginOk_admitted hm (hmax rfl)) hb ?_
  intro b w₁ ns₁ hg₁ hmoved₁ hb₁
  split at hk
  · exact stops hg₁ hk hb₁
  next hgo =>
  obtain ⟨htotal, hphase, hcompleted⟩ := hmoved₁ (by simpa using hgo)
  obtain ⟨available, rest, rfl, hk₂⟩ := runs_ask_iff.mp hk
  cases hb₁ with
  | library hb₂ =>
  split at hk₂
  · exact stops hg₁ hk₂ hb₂
  split at hk₂
  · exact stops hg₁ hk₂ hb₂
  obtain ⟨go₂, rest, rfl, hk₃⟩ := runs_ask_iff.mp hk₂
  refine keeps_event hg₁ rfl ?_ hb₂ ?_
  · exact fun _ => ⟨rfl, htotal.symm, hphase, rfl⟩
  intro b₂ w₂ ns₂ hg₂ hmoved₂ hb₃
  split at hk₃
  · exact stops hg₂ hk₃ hb₃
  next hgo₂ =>
  obtain ⟨rfl, rfl⟩ := runs_pure_iff.mp hk₃
  obtain ⟨rfl, rfl⟩ := bridged_nil hb₃
  obtain ⟨htotal₂, hphase₂, hcompleted₂⟩ := hmoved₂ (by simpa using hgo₂)
  refine ⟨.nil hg₂, fun m' he => ?_⟩
  cases he
  exact ⟨hm, htotal₂.trans htotal, hphase₂, hcompleted₂.trans hcompleted⟩

/-- The verifier's next chunk is the watchdog's. -/
theorem chunkOk_next {w : BootWatchdog} {completed total verification epoch : UInt32}
    (hphase : w.phase = 2) (hw : w.completed = completed) (hlt : completed < total) :
    let requested := if total - completed > bootVerifyChunkBytes then
      bootVerifyChunkBytes else total - completed
    chunkOk w ⟨epoch, verification, .payloadProgress, completed + requested, total⟩ =
      true := by
  obtain ⟨hpos, hend, -, hadd⟩ := chunk_bounds hlt
  intro requested
  have hremaining : total - completed ≠ 0 := by
    rw [ne_eq, ← UInt32.toNat_inj, UInt32.toNat_sub_of_le _ _ (UInt32.le_of_lt hlt)]
    rw [UInt32.lt_iff_toNat_lt] at hlt
    exact Nat.sub_ne_zero_of_lt hlt
  have hgrows : completed < completed + requested := by
    rw [UInt32.lt_iff_toNat_lt, hadd]
    exact Nat.lt_add_of_pos_right hpos
  have hle : completed + requested ≤ total := by
    rw [UInt32.le_iff_toNat_le, hadd]
    exact hend
  have hchunk : requested = if total - completed < bootVerifyChunkBytes then
      total - completed else bootVerifyChunkBytes := by
    grind
  have hdiff : completed + requested - completed = requested := by
    rw [UInt32.add_comm, UInt32.add_sub_cancel]
  simp only [chunkOk, hphase, hw, hremaining, hgrows, hle, hdiff, ← hchunk, ne_eq,
    not_false_eq_true, decide_true, Bool.and_self]

theorem hashPayload_keeps {clean : Prop} {w w' : BootWatchdog} {m : BootManifest}
    {completed : UInt32} {sha vectors : List UInt8} {tr : List (Event VerifySig)}
    {res : Except BootVerifyResult (List UInt8 × List UInt8)} {ns : List Notified}
    (hg : Guarding clean w) (htotal : w.total = m.payloadLength)
    (hphase : w.phase = 2) (hcompleted : w.completed = completed)
    (hr : Runs (hashPayload m completed sha vectors) tr res)
    (hb : Bridged w tr ns w') : Keeps clean ns w' := by
  have stops {clean : Prop} {w : BootWatchdog} {e : BootVerifyResult}
      {tr : List (Event VerifySig)} {ns : List Notified} (hg : Guarding clean w)
      (hr : Runs (.ret (.error e)) tr res) (hb : Bridged w tr ns w') :
      Keeps clean ns w' := by
    obtain ⟨rfl, -⟩ := runs_ret_iff.mp hr
    obtain ⟨rfl, rfl⟩ := bridged_nil hb
    exact .nil hg
  induction hn : (m.payloadLength - completed).toNat using Nat.strong_induction_on
    generalizing clean w completed sha vectors tr ns with
  | _ k ih =>
      rw [hashPayload] at hr
      split at hr
      · next hlt =>
          dsimp only at hr
          obtain ⟨buffer, rest, rfl, hk⟩ := runs_ask_iff.mp hr
          cases hb with
          | read hb =>
          cases buffer with
          | none => exact stops hg hk hb
          | some buffer =>
          obtain ⟨available, rest, rfl, hk₂⟩ := runs_ask_iff.mp hk
          cases hb with
          | library hb =>
          cases available with
          | false => exact stops hg hk₂ hb
          | true =>
          obtain ⟨go, rest, rfl, hk₃⟩ := runs_ask_iff.mp hk₂
          refine (keeps_event (Q := True) hg rfl ?_ hb ?_).1
          · exact fun _ => ⟨rfl, htotal.symm, chunkOk_next hphase hcompleted hlt⟩
          intro b w₁ ns₁ hg₁ hmoved hb₁
          refine ⟨?_, trivial⟩
          cases go with
          | false => exact stops hg₁ hk₃ hb₁
          | true =>
          obtain ⟨htotal₁, hphase₁, hcompleted₁⟩ := hmoved rfl
          exact ih _ (hn ▸ chunk_decreases hlt) hg₁ (htotal₁.trans htotal)
            (hphase₁.trans hphase) hcompleted₁ hk₃ hb₁ rfl
      · obtain ⟨rfl, -⟩ := runs_pure_iff.mp hr
        obtain ⟨rfl, rfl⟩ := bridged_nil hb
        exact .nil hg

theorem stored_keeps {C : Crypto} {clean : Prop} {w w' : BootWatchdog}
    {wire : List UInt8} {slot : UInt32} {tr : List (Event VerifySig)}
    {res : Except BootVerifyResult BootVerifiedImage} {ns : List Notified}
    (hg : Guarding clean w) (hr : Runs (bootVerifyStored C wire slot) tr res)
    (hb : Bridged w tr ns w') : Keeps clean ns w' := by
  obtain ⟨tr₁, manifest, tr₂, rfl, h₁, h₂⟩ := runs_bind_iff'.mp hr
  obtain ⟨ns₁, w₁, ns₂, rfl, hb₁, hb₂⟩ := bridged_append hb
  obtain ⟨hkeeps, hplace⟩ := manifest_keeps hg h₁ hb₁
  refine .append hkeeps.accepts ?_
  replace hg := hkeeps.guarding
  cases manifest with
  | error e =>
      obtain ⟨rfl, -⟩ := runs_pure_iff.mp h₂
      obtain ⟨rfl, rfl⟩ := bridged_nil hb₂
      exact .nil hg
  | ok m =>
      obtain ⟨-, htotal, hphase, hcompleted⟩ := hplace m rfl
      obtain ⟨available, rest, rfl, h₃⟩ := runs_ask_iff.mp h₂
      cases hb₂ with
      | library hb₂ =>
      cases available with
      | false =>
          obtain ⟨rfl, -⟩ := runs_pure_iff.mp h₃
          obtain ⟨rfl, rfl⟩ := bridged_nil hb₂
          exact .nil hg
      | true =>
          obtain ⟨tr₃, payload, tr₄, rfl, h₄, h₅⟩ := runs_bind_iff'.mp h₃
          obtain ⟨ns₃, w₃, ns₄, rfl, hb₃, hb₄⟩ := bridged_append hb₂
          have hhash := hashPayload_keeps hg htotal hphase hcompleted h₄ hb₃
          refine .append hhash.accepts ?_
          -- after the payload nothing is notified any more
          cases payload with
          | error e =>
              obtain ⟨rfl, -⟩ := runs_pure_iff.mp h₅
              obtain ⟨rfl, rfl⟩ := bridged_nil hb₄
              exact .nil hhash.guarding
          | ok payload =>
              obtain ⟨available, rest, rfl, h₆⟩ := runs_ask_iff.mp h₅
              cases hb₄ with
              | library hb₄ =>
              cases available <;>
                obtain ⟨rfl, -⟩ := runs_pure_iff.mp h₆ <;>
                obtain ⟨rfl, rfl⟩ := bridged_nil hb₄ <;>
                exact .nil hhash.guarding

/-! ## All verifications of a boot -/

/-- A call of the verifier with the bridge as its progress callback. -/
inductive VerifyCall where
  | stored (wire : List UInt8) (slot : UInt32)
  | manifest (wire : List UInt8) (slot : UInt32)

structure VerifyLabel where
  call : VerifyCall
  notes : List Notified

/-- What is read and what the library does is arbitrary. -/
def VerifyStep (C : Crypto) (w : BootWatchdog) (l : VerifyLabel)
    (w' : BootWatchdog) : Prop :=
  ∃ tr, (match l.call with
    | .stored wire slot => ∃ res, Runs (bootVerifyStored C wire slot) tr res
    | .manifest wire slot => ∃ res, Runs (bootVerifyManifest C wire slot) tr res) ∧
    Bridged w tr l.notes w'

theorem step_keeps {C : Crypto} {clean : Prop} {w w' : BootWatchdog} {l : VerifyLabel}
    (hg : Guarding clean w) (h : VerifyStep C w l w') : Keeps clean l.notes w' := by
  obtain ⟨tr, hcall, hb⟩ := h
  split at hcall
  · obtain ⟨res, hr⟩ := hcall
    exact stored_keeps hg hr hb
  · obtain ⟨res, hr⟩ := hcall
    exact (manifest_keeps hg hr hb).1

/-- All events of a run of calls. -/
def notified (tr : List (VerifyLabel × BootWatchdog)) : List Notified :=
  tr.flatMap fun x => x.1.notes

theorem run_keeps {C : Crypto} {clean : Prop} {w w' : BootWatchdog}
    {tr : List (VerifyLabel × BootWatchdog)} (hg : Guarding clean w)
    (h : Run (VerifyStep C) w tr w') : Keeps clean (notified tr) w' := by
  induction h generalizing clean with
  | nil => exact .nil hg
  | cons hs hr ih =>
      have hstep := step_keeps hg hs
      exact .append hstep.accepts (ih hstep.guarding)

/-- Whatever was verified and however it ended, no progress event is ever
answered with PROGRESS; and as long as the registers behave, an event that
finds an epoch and, for a begin, a verification left is accepted. -/
theorem verifier_accepted {C : Crypto} {w w' : BootWatchdog}
    {tr : List (VerifyLabel × BootWatchdog)} (hconfigured : w.configured = true)
    (howner : w.owner = .boot) (hfree : w.blocked = false)
    (h : Run (VerifyStep C) w tr w') {before after : List Notified} {n : Notified}
    (hn : notified tr = before ++ n :: after) :
    n.record.watchdog ≠ .progress ∧
      ((∀ m ∈ before, m.Behaved) → n.Behaved → n.Below → n.Accepted) := by
  have hg : Guarding True w := ⟨hconfigured, howner, fun _ _ => hfree⟩
  have haccepts := (run_keeps hg h).accepts
  rw [hn] at haccepts
  obtain ⟨hclear, haccept⟩ := haccepts.mid
  exact ⟨hclear, haccept trivial⟩

/-! The package of the test, verified under a watchdog whose registers behave. -/

/-- A verification with a reader and a library that do not fail. -/
def playVerify {α : Type} (reader : UInt32 → (n : Nat) → Bytes n) :
    Prog VerifySig α → BootWatchdog × WatchdogRegisters →
      List (Event VerifySig) × List Notified × α × BootWatchdog × WatchdogRegisters
  | .ret a, x => ([], [], a, x)
  | .call (.read address n) k, x =>
      let y := playVerify reader (k (some (reader address n))) x
      (⟨.read address n, some (reader address n)⟩ :: y.1, y.2)
  | .call .library k, x =>
      let y := playVerify reader (k true) x
      (⟨.library, true⟩ :: y.1, y.2)
  | .call (.progress phase completed total) k, x =>
      let p := progress x.1 phase completed total
      let z := p.run watchdogDevice x.2
      let y := playVerify reader (k z.1.1.1) (z.1.2, z.2)
      (⟨.progress phase completed total, z.1.1.1⟩ :: y.1,
        ⟨x.1, phase, completed, total, z.1.1.1, z.1.1.2,
          p.trace watchdogDevice x.2⟩ :: y.2.1, y.2.2)

theorem playVerify_spec {α : Type} {reader : UInt32 → (n : Nat) → Bytes n}
    (p : Prog VerifySig α) (x : BootWatchdog × WatchdogRegisters) :
    Runs p (playVerify reader p x).1 (playVerify reader p x).2.2.1 ∧
      Bridged x.1 (playVerify reader p x).1 (playVerify reader p x).2.1
        (playVerify reader p x).2.2.2.1 := by
  induction p generalizing x with
  | ret a => exact ⟨.ret a, .nil _⟩
  | call op k ih =>
      cases op with
      | read address n =>
          obtain ⟨hr, hb⟩ := ih (some (reader address n)) x
          exact ⟨.call _ hr, .read hb⟩
      | library =>
          obtain ⟨hr, hb⟩ := ih true x
          exact ⟨.call _ hr, .library hb⟩
      | progress phase completed total =>
          have hn := runs_trace watchdogDevice (progress x.1 phase completed total) x.2
          obtain ⟨hr, hb⟩ := ih _ (_, _)
          exact ⟨.call _ hr, .progress (n := ⟨x.1, phase, completed, total, _, _, _⟩)
            hn hb⟩

theorem run_playVerify (C : Crypto) (reader : UInt32 → (n : Nat) → Bytes n)
    (wire : List UInt8) (slot : UInt32) (x : BootWatchdog × WatchdogRegisters) :
    ∃ tr w', Run (VerifyStep C) x.1 tr w' ∧
      notified tr = (playVerify reader (bootVerifyStored C wire slot) x).2.1 := by
  obtain ⟨hr, hb⟩ := @playVerify_spec _ reader (bootVerifyStored C wire slot) x
  exact ⟨[(⟨.stored wire slot, _⟩, _)], _, .cons ⟨_, ⟨_, hr⟩, hb⟩ (.nil _),
    List.append_nil _⟩

def packageReader (address : UInt32) (n : Nat) : Bytes n :=
  ⟨List.ofFn fun i : Fin n =>
    (packagePayload bootSlotA).getD (address.toNat - (slotBase bootSlotA).toNat + i) 0,
    List.length_ofFn⟩

/-- A configured watchdog before its first verification. -/
def packageStart : BootWatchdog × WatchdogRegisters :=
  ({ bootWatchdogInit with configured := true, reload := 5000 }, ⟨true, 3, 5000⟩)

def packageNotes : List Notified :=
  (playVerify packageReader
    (bootVerifyStored packageCrypto (packageWire bootSlotA) bootSlotA)
    packageStart).2.1

theorem length_packageNotes : packageNotes.length = 3 := by decide +kernel

/-- The event of the package's only chunk. -/
def packageChunk : Notified :=
  packageNotes.get ⟨2, by rw [length_packageNotes]; exact Nat.lt_succ_self 2⟩

theorem packageNotes_split : packageNotes = packageNotes.take 2 ++ packageChunk :: [] := by
  have hdrop : packageNotes.drop 2 = packageChunk :: packageNotes.drop 3 :=
    List.drop_eq_getElem_cons _
  rw [List.drop_of_length_le (Nat.le_of_eq length_packageNotes)] at hdrop
  rw [← hdrop, List.take_append_drop]

theorem verifier_accepted_package :
    packageChunk.completed = 236 ∧ packageChunk.Accepted := by
  obtain ⟨tr, w', hrun, hnotes⟩ := run_playVerify packageCrypto packageReader
    (packageWire bootSlotA) bootSlotA packageStart
  have hsplit : notified tr = packageNotes.take 2 ++ packageChunk :: [] :=
    hnotes.trans packageNotes_split
  refine ⟨by decide +kernel, (verifier_accepted rfl rfl rfl hrun hsplit).2 ?_ ?_ ?_⟩
  · decide +kernel
  · decide +kernel
  · exact ⟨by decide +kernel, by decide +kernel⟩

end EkBareMetal.Boot

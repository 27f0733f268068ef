import EkBareMetal.Proofs.HandoffTarget

/-!
# The sequence is accepted

Where nothing comes back into the adapter, every callback succeeds, what is
written is read back and all registers stay idle, the calls that
`boot_handoff_run` makes are all accepted. The environment is a condition on the
answers (`Ideal`), and `Meets` says what a program does under it: a check finds
what it looks for and leaves everything as it was.
-/

namespace EkBareMetal.Boot

open Interact

/-! ## The environment -/

/-- The writes that succeeded, the last one first. -/
abbrev Writes := List (UInt32 × UInt32)

def Writes.last (w : Writes) (address : UInt32) : Option UInt32 :=
  (w.find? fun x => x.1 = address).map (·.2)

def noteWrite (w : Writes) : TargetMoment → Writes
  | .answer ⟨.writeRegister address value, _⟩ _ => (address, value) :: w
  | _ => w

/-- The registers that the checks look at: an address, a mask, and what the
masked value must be. The pending bit of the watchdog may be set until the
pending interrupts of bank 0 are cleared. -/
def idleRegisters (c : TargetContinuity) (w : Writes) : List (UInt32 × UInt32 × UInt32) :=
  [(nvicDis0, uint32Max, 0),
    (nvicUnpend0, if (w.last nvicUnpend0).isSome then uint32Max else ~~~wdtPending, 0),
    (nvicActive0, uint32Max, 0), (nvicDis0 + 4, bank1Mask, 0), (nvicUnpend0 + 4, bank1Mask, 0),
    (nvicActive0 + 4, bank1Mask, 0), (nvicIcsr, corePending, 0), (nvicStctrl, 3, 0),
    (sysRcgc0, 0x00110348, 0x48), (sysRcgc1, 0x030f5317, 0x40000), (sysRcgc2, 0x5000007f, 0),
    (hibIm, 15, 0), (hibMis, 15, 0), (sysImc, 0x42, 0), (flashFcim, 3, 0), (flashFmc, 15, 0),
    (wdtCtl, 3, 3), (wdtRis, 1, 0), (timer2, uint32Max, 0), (timer2 + 4, uint32Max, 2),
    (timer2 + 12, uint32Max, 1), (timer2 + 24, uint32Max, 0), (timer2 + 28, uint32Max, 0),
    (timer2 + 40, uint32Max, uint32Max), (sysRcc, uint32Max, c.capsule.clock.rcc),
    (sysRcc2, uint32Max, c.capsule.clock.rcc2)]

/-- The same for the timer's own reads, without its counter. -/
def idleTimer (g : BootStartupGptm) : List (UInt32 × UInt32 × UInt32) :=
  [(sysRcgc1, 0x40000, 0x40000), (timer2, uint32Max, 0), (timer2 + 4, uint32Max, 2),
    (timer2 + 12, uint32Max, 1), (timer2 + 24, uint32Max, 0), (timer2 + 28, uint32Max, 0),
    (timer2 + 40, uint32Max, uint32Max), (sysRcc, uint32Max, g.rcc), (sysRcc2, uint32Max, g.rcc2)]

def Masked (table : List (UInt32 × UInt32 × UInt32)) (address v : UInt32) : Prop :=
  ∀ x ∈ table, x.1 = address → v &&& x.2.1 = x.2.2

/-- The answers of an environment whose core stays as in `o`. The two registers
that can be read back are read as they were written; the others are cleared by
a write of ones, and are idle. -/
def Ideal (o : BootHandoffContext) (c : TargetContinuity) (w : Writes) : TargetMoment → Prop
  | .answer ⟨.readRegister address, x⟩ _ =>
      x.1 = true ∧ Masked (idleRegisters c w) address x.2 ∧
        (address = nvicVtor ∨ address = nvicStctrl → ∀ v ∈ w.last address, x.2 = v)
  | .answer ⟨.writeRegister _ _, ok⟩ _ => ok = true
  | .answer ⟨.observe, x⟩ _ =>
      x.1 = true ∧ coreValid x.2 = true ∧ x.2.control = o.control ∧ x.2.basepri = o.basepri ∧
        x.2.faultmask = o.faultmask
  | .answer ⟨.barrier _, ok⟩ _ => ok = true
  | .answer ⟨.gptmRead address, x⟩ _ => x.1 = true ∧ Masked (idleTimer c.gptm) address x.2
  | _ => True

/-- The capsule as the source check wants it. -/
structure SourcesReady (c : TargetContinuity) : Prop where
  idle : capsuleIdle c = true
  registers : c.gptm.registers = true
  hz : c.gptm.hz ≠ 0
  bound : c.gptm.hz ≤ uint32Max / 5

/-- Nothing is called while a request is served. -/
abbrev Undisturbed (s : TargetObjects) (ms : List TargetMoment) (s' : TargetObjects) : Prop :=
  ms = [] ∧ s' = s

/-! ## Programs under it -/

section Meets

variable {o : BootHandoffContext} {c : TargetContinuity} {w : Writes} {s : TargetObjects}
variable {α β : Type}

def Meets (o : BootHandoffContext) (c : TargetContinuity) (w : Writes) (s : TargetObjects)
    (p : TargetProg α) (Q : α → TargetObjects → Writes → Prop) : Prop :=
  ∀ ms a s', Passes Undisturbed p s ms a s' → Along noteWrite (Ideal o c) w ms →
    Q a s' (ms.foldl noteWrite w)

theorem meets_pure {a : α} {Q : α → TargetObjects → Writes → Prop} (h : Q a s w) :
    Meets o c w s (pure a) Q := by
  intro ms b s' hp _
  obtain ⟨rfl, rfl, rfl⟩ := passes_pure_iff.mp hp
  exact h

theorem meets_load {f : TargetObjects → TargetProg α} {Q : α → TargetObjects → Writes → Prop}
    (h : Meets o c w s (f s) Q) : Meets o c w s (Prog.loadObj >>= f) Q :=
  fun ms a s' hp => h ms a s' (passes_load_iff.mp hp)

theorem meets_modify {g : TargetObjects → TargetObjects} {f : Unit → TargetProg α}
    {Q : α → TargetObjects → Writes → Prop} (h : Meets o c w (g s) (f ()) Q) :
    Meets o c w s (Prog.modifyObj g >>= f) Q :=
  fun ms a s' hp => h ms a s' (passes_modify_iff.mp hp)

theorem meets_bind {p : TargetProg α} {f : α → TargetProg β}
    {Q : β → TargetObjects → Writes → Prop}
    (h : Meets o c w s p fun a s' w' => Meets o c w' s' (f a) Q) :
    Meets o c w s (p >>= f) Q := by
  intro ms b s' hp halong
  obtain ⟨ms₁, a, s₁, ms₂, rfl, h₁, h₂⟩ := passes_bind_iff.mp hp
  obtain ⟨ha₁, ha₂⟩ := along_append.mp halong
  rw [List.foldl_append]
  exact h ms₁ a s₁ h₁ ha₁ ms₂ b s' h₂ ha₂

theorem meets_ask {op : TargetOp} {f : TargetSig.Ans op → TargetProg α}
    {Q : α → TargetObjects → Writes → Prop}
    (h : ∀ r, Ideal o c w (.answer ⟨op, r⟩ s) →
      Meets o c (noteWrite w (.answer ⟨op, r⟩ s)) s (f r) Q) :
    Meets o c w s (Prog.ask (S := ObjSig TargetObjects TargetSig) (.outside op) >>= f) Q := by
  intro ms a s' hp halong
  obtain ⟨r, ns, s₁, ks, rfl, ⟨rfl, rfl⟩, hk⟩ := passes_ask_iff.mp hp
  exact h r halong.2.1 ks a s' hk halong.2.2

theorem Meets.imp {p : TargetProg α} {Q R : α → TargetObjects → Writes → Prop}
    (h : Meets o c w s p Q) (hQR : ∀ a s' w', Q a s' w' → R a s' w') : Meets o c w s p R :=
  fun ms a s' hp halong => hQR _ _ _ (h ms a s' hp halong)

/-- A check that holds and changes nothing. -/
abbrev Confirms (o : BootHandoffContext) (c : TargetContinuity) (w : Writes) (s : TargetObjects)
    (p : TargetProg Bool) : Prop :=
  Meets o c w s p fun a s' w' => a = true ∧ s' = s ∧ w' = w

theorem meets_every_cons {p : TargetProg Bool} {ps : List (TargetProg Bool)}
    {Q : Bool → TargetObjects → Writes → Prop}
    (h : Meets o c w s p fun a s' w' => a = true ∧ Meets o c w' s' (Prog.every ps) Q) :
    Meets o c w s (Prog.every (p :: ps)) Q := by
  refine meets_bind (h.imp ?_)
  rintro a s' w' ⟨rfl, hps⟩
  exact hps

theorem Confirms.then {p : TargetProg Bool} {ps : List (TargetProg Bool)}
    {Q : Bool → TargetObjects → Writes → Prop} (hp : Confirms o c w s p)
    (h : Meets o c w s (Prog.every ps) Q) : Meets o c w s (Prog.every (p :: ps)) Q := by
  refine meets_every_cons (hp.imp ?_)
  rintro a s' w' ⟨rfl, rfl, rfl⟩
  exact ⟨rfl, h⟩

theorem holds_every {ps : List (TargetProg Bool)} (h : ∀ p ∈ ps, Confirms o c w s p) :
    Confirms o c w s (Prog.every ps) := by
  induction ps with
  | nil => exact meets_pure ⟨rfl, rfl, rfl⟩
  | cons p ps ih =>
      obtain ⟨hp, hps⟩ := List.forall_mem_cons.mp h
      exact Confirms.then hp (ih hps)

/-! ### Registers -/

theorem meets_readInto {address : UInt32} {place : UInt32 → BootHandoffTarget → BootHandoffTarget}
    {Q : Option UInt32 → TargetObjects → Writes → Prop} (hs : s.target.failed = false)
    (hplace : ∀ v t, (place v t).failed = t.failed)
    (h : ∀ v, Masked (idleRegisters c w) address v →
      (address = nvicVtor ∨ address = nvicStctrl → ∀ x, w.last address = some x → v = x) →
      Q (some v) (s.onTarget (place v)) w) :
    Meets o c w s (readInto address place) Q := by
  refine meets_load ?_
  rw [if_neg (by rw [hs]; decide)]
  refine meets_ask fun r hr => ?_
  obtain ⟨hok, hidle, hback⟩ := hr
  refine meets_modify ?_
  rw [if_neg (by rw [hok]; decide)]
  refine meets_load (meets_pure ?_)
  have hf : (s.onTarget (place r.2)).target.failed = false := (hplace _ _).trans hs
  rw [if_neg (by rw [hf]; decide)]
  exact h r.2 hidle hback

theorem holds_readIs {address : UInt32} {good : UInt32 → Bool} (hs : s.target.failed = false)
    (h : ∀ v, Masked (idleRegisters c w) address v →
      (address = nvicVtor ∨ address = nvicStctrl → ∀ x, w.last address = some x → v = x) →
      good v = true) : Confirms o c w s (readIs address good) := by
  refine meets_bind (meets_readInto hs (fun _ _ => rfl) fun v hidle hback => ?_)
  exact meets_pure ⟨h v hidle hback, rfl, rfl⟩

/-- A register of the table. -/
theorem holds_matches {address mask expected : UInt32} (hs : s.target.failed = false)
    (h : (address, mask, expected) ∈ idleRegisters c w) :
    Confirms o c w s (matchesReg address mask expected) :=
  holds_readIs hs fun _ hidle _ => decide_eq_true (hidle _ h rfl)

theorem meets_writeReg {address value : UInt32} {Q : Bool → TargetObjects → Writes → Prop}
    (hs : s.target.failed = false) (h : Q true s ((address, value) :: w)) :
    Meets o c w s (writeReg address value) Q := by
  refine meets_load ?_
  rw [if_neg (by rw [hs]; decide)]
  refine meets_ask fun r hr => ?_
  have hok : r = true := hr
  rw [if_neg (by rw [hok]; decide)]
  refine meets_load (meets_pure ?_)
  rw [hs]
  exact h

theorem holds_synchronize (kind : TargetBarrier) (hs : s.target.failed = false) :
    Confirms o c w s (synchronize kind) := by
  refine meets_load ?_
  rw [if_neg (by rw [hs]; decide)]
  refine meets_ask fun r hr => ?_
  have hok : r = true := hr
  rw [if_neg (by rw [hok]; decide)]
  refine meets_load (meets_pure ?_)
  rw [hs]
  exact ⟨rfl, rfl, rfl⟩

theorem meets_observeInto {place : BootHandoffContext → BootHandoffTarget → BootHandoffTarget}
    {Q : Option BootHandoffContext → TargetObjects → Writes → Prop}
    (hs : s.target.failed = false) (hplace : ∀ x t, (place x t).failed = t.failed)
    (h : ∀ x, x.control = o.control → x.basepri = o.basepri → x.faultmask = o.faultmask →
      Q (some x) (s.onTarget (place x)) w) :
    Meets o c w s (observeInto place) Q := by
  refine meets_load ?_
  rw [if_neg (by rw [hs]; decide)]
  refine meets_ask fun r hr => ?_
  obtain ⟨hok, hvalid, hc, hb, hf⟩ := hr
  refine meets_modify ?_
  rw [if_neg (by rw [hok]; decide)]
  refine meets_load (meets_pure ?_)
  have hfail : (s.onTarget (place r.2)).target.failed = false := (hplace _ _).trans hs
  rw [if_pos (by rw [hfail, hvalid]; rfl)]
  exact h r.2 hc hb hf

/-- The core that the adapter captured is the one the environment keeps. -/
structure CoreKept (o : BootHandoffContext) (s : TargetObjects) : Prop where
  control : s.target.original.control = o.control
  basepri : s.target.original.basepri = o.basepri
  faultmask : s.target.original.faultmask = o.faultmask

theorem holds_coreUnchanged (hs : s.target.failed = false) (ho : CoreKept o s) :
    Confirms o c w s coreUnchanged := by
  refine meets_bind (meets_observeInto hs (fun _ _ => rfl) fun x hc hb hf => ?_)
  refine meets_load (meets_pure ⟨?_, rfl, rfl⟩)
  change (decide (x.control = s.target.original.control) &&
    decide (x.basepri = s.target.original.basepri) &&
    decide (x.faultmask = s.target.original.faultmask)) = true
  rw [ho.control, ho.basepri, ho.faultmask, hc, hb, hf]
  simp only [decide_true, Bool.and_self]

/-! ### The interrupt banks -/

theorem holds_banksIdlePre (hs : s.target.failed = false) : Confirms o c w s banksIdlePre := by
  have hm : ∀ address mask, (address, mask, 0) ∈ idleRegisters c w →
      Confirms o c w s (readIs address fun v => v &&& mask = 0) :=
    fun _ _ h => holds_readIs hs fun v hidle _ => decide_eq_true (hidle _ h rfl)
  have hlow : Confirms o c w s (readIs nvicUnpend0 fun v =>
      v &&& uint32Max &&& ~~~wdtPending = 0) := by
    refine holds_readIs hs fun v hidle _ => decide_eq_true ?_
    have h := hidle (nvicUnpend0, if (w.last nvicUnpend0).isSome then uint32Max else ~~~wdtPending,
      0) (by simp [idleRegisters]) rfl
    rw [and_uint32Max]
    dsimp only at h
    split at h
    · rw [and_uint32Max] at h
      rw [h]
      rfl
    · exact h
  have hhigh : Confirms o c w s (readIs (nvicUnpend0 + 4) fun v =>
      v &&& bank1Mask &&& ~~~0 = 0) := by
    refine holds_readIs hs fun v hidle _ => decide_eq_true ?_
    have h := hidle (nvicUnpend0 + 4, bank1Mask, 0) (by simp [idleRegisters]) rfl
    dsimp only at h
    rw [h]
    rfl
  refine holds_every ?_
  simp only [List.forall_mem_cons, List.not_mem_nil, false_imp_iff, implies_true, and_true]
  refine ⟨hm _ _ ?_, hlow, hm _ _ ?_, hm _ _ ?_, hhigh, hm _ _ ?_, holds_matches hs ?_⟩ <;>
    simp [idleRegisters]

/-- Once the pending interrupts of bank 0 have been cleared. -/
theorem holds_banksIdle (hs : s.target.failed = false) (hw : (w.last nvicUnpend0).isSome = true) :
    Confirms o c w s banksIdle := by
  refine holds_every ?_
  simp only [List.forall_mem_cons, List.not_mem_nil, false_imp_iff, implies_true, and_true]
  refine ⟨holds_matches hs ?_, holds_matches hs ?_, holds_matches hs ?_, holds_matches hs ?_,
    holds_matches hs ?_, holds_matches hs ?_, holds_matches hs ?_⟩ <;> simp [idleRegisters, hw]

/-! ### The sources -/

theorem meets_gptmReadReg {address : UInt32} {Q : Option UInt32 → TargetObjects → Writes → Prop}
    (hs : s.continuity.gptm.state = gptmReading)
    (h : ∀ v, Masked (idleTimer c.gptm) address v → Q (some v) s w) :
    Meets o c w s (gptmReadReg address) Q := by
  refine meets_load ?_
  have hbusy : s.continuity.gptm.busy = true := by
    rw [BootStartupGptm.busy, hs]
    decide
  rw [if_neg (by rw [hbusy]; decide)]
  refine meets_ask fun r hr => ?_
  obtain ⟨hok, hidle⟩ := hr
  refine meets_load ?_
  rw [if_neg (by rw [hok]; simp)]
  exact meets_pure (h r.2 hidle)

theorem holds_gptmEqual {address : UInt32} {value : BootStartupGptm → UInt32}
    (hs : s.continuity.gptm.state = gptmReading)
    (h : (address, uint32Max, value s.continuity.gptm) ∈ idleTimer c.gptm) :
    Confirms o c w s (gptmEqual address value) := by
  refine meets_load (meets_bind (meets_gptmReadReg hs fun v hidle => meets_pure ⟨?_, rfl, rfl⟩))
  have hv := hidle _ h rfl
  rw [and_uint32Max] at hv
  rw [hv]
  exact decide_eq_true rfl

/-- The timer while it is read: the claimed one but for its state. -/
structure TimerReading (c : TargetContinuity) (g : BootStartupGptm) : Prop where
  state : g.state = gptmReading
  timer : g.timer = 2
  rcc : g.rcc = c.gptm.rcc
  rcc2 : g.rcc2 = c.gptm.rcc2
  registers : g.registers = true
  hz : g.hz ≠ 0
  bound : g.hz ≤ uint32Max / 5

theorem TimerReading.base {g : BootStartupGptm} (h : TimerReading c g) : g.base = timer2 := by
  rw [BootStartupGptm.base, h.timer]
  decide

theorem TimerReading.gate {g : BootStartupGptm} (h : TimerReading c g) : g.gate = 0x40000 := by
  rw [BootStartupGptm.gate, h.timer]
  decide

theorem holds_gptmMatched (h : TimerReading c s.continuity.gptm) :
    Confirms o c w s (gptmMatched gptmReading) := by
  refine meets_load ?_
  have hbusy : s.continuity.gptm.busy = true := by
    rw [BootStartupGptm.busy, h.state]
    decide
  have hbound : ¬s.continuity.gptm.hz > uint32Max / 5 := UInt32.not_lt.mpr h.bound
  dsimp only
  rw [if_neg (by simp [h.state, hbusy, h.timer, h.hz, hbound, h.registers])]
  refine meets_bind (meets_gptmReadReg h.state fun gate hgate => ?_)
  refine meets_load ?_
  have hg : gate &&& 0x40000 = 0x40000 :=
    hgate (sysRcgc1, 0x40000, 0x40000) (by simp [idleTimer]) rfl
  rw [if_neg (by rw [Option.all_some, h.gate, hg]; decide), h.base]
  refine holds_every ?_
  simp only [List.forall_mem_cons, List.not_mem_nil, false_imp_iff, implies_true, and_true]
  refine ⟨holds_gptmEqual h.state ?_, holds_gptmEqual h.state ?_, holds_gptmEqual h.state ?_,
    holds_gptmEqual h.state ?_, holds_gptmEqual h.state ?_, holds_gptmEqual h.state ?_,
    holds_gptmEqual h.state ?_⟩ <;> simp [idleTimer, h.rcc, h.rcc2]

theorem meets_gptmSample (h : TimerReading c s.continuity.gptm) :
    Meets o c w s gptmSample fun a s' w' => a.isSome = true ∧ s' = s ∧ w' = w := by
  refine meets_bind ((holds_gptmMatched h).imp ?_)
  rintro _ _ _ ⟨rfl, rfl, rfl⟩
  refine meets_load ?_
  rw [if_neg (by decide), h.base]
  have hzero : ∀ v, Masked (idleTimer c.gptm) (timer2 + 28) v → v = 0 := by
    intro v hv
    have h0 := hv (timer2 + 28, uint32Max, 0) (by simp [idleTimer]) rfl
    rwa [and_uint32Max] at h0
  refine meets_bind (meets_gptmReadReg h.state fun before hbefore => ?_)
  rw [if_neg (by rw [hzero before hbefore]; simp)]
  refine meets_bind (meets_gptmReadReg h.state fun counter _ => ?_)
  rw [if_neg (by simp)]
  refine meets_bind (meets_gptmReadReg h.state fun after hafter => ?_)
  rw [if_neg (by rw [hzero after hafter]; simp)]
  refine meets_bind ((holds_gptmMatched h).imp ?_)
  rintro _ _ _ ⟨rfl, rfl, rfl⟩
  exact meets_pure ⟨rfl, rfl, rfl⟩

theorem capsuleIdle_spec (h : capsuleIdle c = true) :
    c.gptm.state = gptmClaimed ∧ c.gptm.timer = 2 ∧ c.capsule.hz = c.gptm.hz ∧
      c.capsule.clock.rcc = c.gptm.rcc ∧ c.capsule.clock.rcc2 = c.gptm.rcc2 := by
  simp only [capsuleIdle, bootStartupGptmSupported, Bool.and_eq_true, decide_eq_true_eq] at h
  tauto

theorem timerReading (hr : SourcesReady c) (hs : s.continuity = c) :
    TimerReading c (s.onGptm gptmReading).continuity.gptm := by
  subst hs
  exact {
    state := rfl
    timer := (capsuleIdle_spec hr.idle).2.1
    rcc := rfl
    rcc2 := rfl
    registers := hr.registers
    hz := hr.hz
    bound := hr.bound }

theorem onGptm_claimed (hr : SourcesReady c) (hs : s.continuity = c) :
    (s.onGptm gptmReading).onGptm gptmClaimed = s := by
  subst hs
  rw [← (capsuleIdle_spec hr.idle).1]
  rfl

theorem holds_clockMatches (hr : SourcesReady c) (hf : s.target.failed = false)
    (hs : s.continuity = c) : Confirms o c w s clockMatches := by
  obtain ⟨hstate, -, hhz, hrcc, hrcc2⟩ := capsuleIdle_spec hr.idle
  have hread : Meets o c w s bootStartupGptmRead fun a s' w' => s' = s ∧ w' = w ∧
      ∃ us, a = some ⟨us, c.gptm.rcc, c.gptm.rcc2, c.gptm.hz, bootStartupGptmSource⟩ := by
    refine meets_load ?_
    have hidle : s.continuity.gptm.busy = false := by
      rw [BootStartupGptm.busy, hs, hstate]
      decide
    rw [if_neg (by rw [hidle]; decide), if_neg (by rw [hs, hstate]; simp)]
    refine meets_modify (meets_bind ((meets_gptmSample (timerReading hr hs)).imp ?_))
    rintro a _ _ ⟨ha, rfl, rfl⟩
    cases a with
    | none => cases ha
    | some counter =>
        refine meets_load (meets_modify (meets_pure ⟨onGptm_claimed hr hs, rfl, ?_⟩))
        rw [← hs]
        exact ⟨_, rfl⟩
  refine meets_bind (hread.imp ?_)
  rintro a s' w' ⟨rfl, rfl, us, rfl⟩
  refine meets_load (meets_pure ⟨?_, rfl, rfl⟩)
  simp only [Option.any_some, hf, hs, hrcc, hrcc2, hhz, Bool.not_false, decide_true,
    Bool.and_self]

theorem holds_sourcesIdle (hr : SourcesReady c) (hf : s.target.failed = false)
    (hs : s.continuity = c) : Confirms o c w s sourcesIdle := by
  refine meets_load ?_
  rw [if_neg (by rw [hs, hr.idle]; decide)]
  have hm : ∀ {address mask expected}, (address, mask, expected) ∈ idleRegisters c w →
      Confirms o c w s (matchesReg address mask expected) := holds_matches hf
  have hc : ∀ address expected, (address, uint32Max, expected c.capsule.clock) ∈
      idleRegisters c w → Confirms o c w s (matchesClock address expected) := by
    intro address expected h
    refine meets_load ?_
    rw [hs]
    exact hm h
  refine holds_every ?_
  simp only [List.forall_mem_cons, List.not_mem_nil, false_imp_iff, implies_true, and_true]
  refine ⟨hm ?_, hm ?_, hm ?_, hm ?_, hm ?_, hm ?_, hm ?_, hm ?_, hm ?_, hm ?_, hm ?_, hm ?_,
    hm ?_, hm ?_, hm ?_, hm ?_, hc _ _ ?_, hc _ _ ?_, holds_clockMatches hr hf hs, hm ?_⟩ <;>
    simp [idleRegisters]

/-! ### The exclusion -/

/-- One of the reads of a capture. -/
theorem meets_place {address : UInt32} (mask : UInt32)
    {place : UInt32 → BootHandoffTarget → BootHandoffTarget}
    {ps : List (TargetProg Bool)} {Q : Bool → TargetObjects → Writes → Prop}
    (hs : s.target.failed = false) (hplace : ∀ v t, (place v t).failed = t.failed)
    (hmem : (address, mask, 0) ∈ idleRegisters c w)
    (h : ∀ v, v &&& mask = 0 → Meets o c w (s.onTarget (place v)) (Prog.every ps) Q) :
    Meets o c w s (Prog.every ((do
      let v ← readInto address place
      pure v.isSome) :: ps)) Q := by
  refine meets_every_cons (meets_bind (meets_readInto hs hplace fun v hidle _ => meets_pure ?_))
  exact ⟨rfl, h v (hidle _ hmem rfl)⟩

theorem and_or (a b m : UInt32) : (a ||| b) &&& m = a &&& m ||| b &&& m := by
  apply UInt32.toBitVec_inj.mp
  simp only [UInt32.toBitVec_and, UInt32.toBitVec_or]
  exact BitVec.and_or_distrib_right

/-- What every operation leaves to the next one. The first `n` have been made. -/
structure Upheld (o : BootHandoffContext) (c : TargetContinuity) (i : BootHandoffIntent)
    (n : Nat) (s : TargetObjects) : Prop where
  initialized : s.target.initialized = true
  failed : s.target.failed = false
  recorded : s.target.recorded = false
  continuity : s.continuity = c
  core : 0 < n → CoreKept o s
  epoch : 0 < n → s.target.epoch = i.applicationEpoch
  vtor : 9 < n → s.target.vtor = i.vtor

/-- The same of the writes. -/
structure Wrote (vtor : UInt32) (n : Nat) (w : Writes) : Prop where
  cleared : 6 < n → (w.last nvicUnpend0).isSome = true
  vtor : 9 < n → w.last nvicVtor = some vtor

/-- The body of an operation that makes `n` operations into `n + 1`. -/
abbrev Advancing (o : BootHandoffContext) (c : TargetContinuity) (i : BootHandoffIntent)
    (n : Nat) (w : Writes) (s : TargetObjects) (p : TargetProg Bool) : Prop :=
  Meets o c w s p fun a s' w' => a = true ∧ Upheld o c i (n + 1) s' ∧
    s'.target.next = s.target.next ∧ Wrote i.vtor (n + 1) w'

theorem advances_captureEpoch {i : BootHandoffIntent} {s₁ : TargetObjects} (hr : SourcesReady c)
    (hk : Upheld o c i 0 s) (hcap : c.capsule.watchdog.capturable = true)
    (hepoch : c.capsule.watchdog.epoch + 1 = i.applicationEpoch)
    (hidle : s₁.target.capturedIdle = true) (hcore : CoreKept o s₁)
    (hspine : s₁.target.spine = s.target.spine) (hfail : s₁.target.failed = false)
    (hcont : s₁.continuity = c) :
    Meets o c w s₁ captureEpoch fun a s' w' => a = true ∧ Upheld o c i 1 s' ∧
      s'.target.next = s.target.next ∧ w' = w := by
  refine meets_load ?_
  rw [if_neg (by rw [hidle]; decide)]
  refine meets_bind ((holds_sourcesIdle hr hfail hcont).imp ?_)
  rintro _ _ _ ⟨rfl, rfl, rfl⟩
  refine meets_load ?_
  dsimp only
  rw [if_neg (by rw [hcont, hcap]; decide)]
  refine meets_modify ((holds_every ?_).imp ?_)
  · simp only [List.forall_mem_cons, List.not_mem_nil, false_imp_iff, implies_true, and_true]
    exact ⟨holds_synchronize _ hfail, holds_coreUnchanged hfail
      ⟨hcore.control, hcore.basepri, hcore.faultmask⟩⟩
  · rintro _ _ _ ⟨rfl, rfl, rfl⟩
    simp only [BootHandoffTarget.spine, BootHandoffTarget.progress, Prod.mk.injEq] at hspine
    obtain ⟨⟨hnext, hinit, -, hrec, -⟩, -, -⟩ := hspine
    refine ⟨rfl, ?_, hnext, rfl⟩
    exact {
      initialized := hinit.trans hk.initialized
      failed := hfail
      recorded := hrec.trans hk.recorded
      continuity := hcont
      core := fun _ => ⟨hcore.control, hcore.basepri, hcore.faultmask⟩
      epoch := fun _ => by rw [← hepoch, ← hcont]; rfl
      vtor := fun h => absurd h (by decide) }

theorem advances_exclude {i : BootHandoffIntent} (hr : SourcesReady c) (hk : Upheld o c i 0 s)
    (hcap : c.capsule.watchdog.capturable = true)
    (hepoch : c.capsule.watchdog.epoch + 1 = i.applicationEpoch) :
    Advancing o c i 0 [] s captureTarget := by
  refine meets_bind (meets_observeInto hk.failed (fun _ _ => rfl) fun x hc hb hf => ?_)
  rw [if_neg (by simp)]
  refine meets_bind ?_
  rw [captureReads]
  have hf₁ : s.target.failed = false := hk.failed
  refine meets_place uint32Max hf₁ (fun _ _ => rfl) (by simp [idleRegisters]) fun v₁ h₁ => ?_
  refine meets_place (~~~wdtPending) hf₁ (fun _ _ => rfl)
    (by simp [idleRegisters, Writes.last]) fun v₂ h₂ => ?_
  refine meets_place uint32Max hf₁ (fun _ _ => rfl) (by simp [idleRegisters]) fun v₃ h₃ => ?_
  refine meets_place bank1Mask hf₁ (fun _ _ => rfl) (by simp [idleRegisters]) fun v₄ h₄ => ?_
  refine meets_place bank1Mask hf₁ (fun _ _ => rfl) (by simp [idleRegisters]) fun v₅ h₅ => ?_
  refine meets_place bank1Mask hf₁ (fun _ _ => rfl) (by simp [idleRegisters]) fun v₆ h₆ => ?_
  refine meets_place corePending hf₁ (fun _ _ => rfl) (by simp [idleRegisters]) fun v₇ h₇ => ?_
  refine meets_place 3 hf₁ (fun _ _ => rfl) (by simp [idleRegisters]) fun v₈ h₈ => ?_
  refine meets_pure ?_
  rw [if_neg (by decide)]
  rw [and_uint32Max] at h₁ h₃
  have hhigh : (v₄ ||| v₅ ||| v₆) &&& bank1Mask = 0 := by
    rw [and_or, and_or, h₄, h₅, h₆]
    rfl
  refine (advances_captureEpoch hr hk hcap hepoch ?_ ?_ ?_ ?_ ?_).imp ?_
  · simp only [BootHandoffTarget.capturedIdle, TargetObjects.onTarget, h₁, h₂, h₃, hhigh, h₇, h₈,
      decide_true, Bool.and_self]
  · exact ⟨hc, hb, hf⟩
  · rfl
  · exact hf₁
  · exact hk.continuity
  · rintro a s' w' ⟨rfl, hk', hnext, rfl⟩
    exact ⟨rfl, hk', hnext, ⟨fun h => absurd h (by decide), fun h => absurd h (by decide)⟩⟩

/-! ### The other operations -/

theorem Upheld.core_pos {i : BootHandoffIntent} {n : Nat} (hk : Upheld o c i n s) (hn : 0 < n) :
    Confirms o c w s coreUnchanged := holds_coreUnchanged hk.failed (hk.core hn)

/-- An operation that only looks and writes registers. -/
theorem Upheld.succ {i : BootHandoffIntent} {n : Nat} (hk : Upheld o c i n s) (hn : 0 < n)
    (h9 : n ≠ 9) : Upheld o c i (n + 1) s where
  initialized := hk.initialized
  failed := hk.failed
  recorded := hk.recorded
  continuity := hk.continuity
  core := fun _ => hk.core hn
  epoch := fun _ => hk.epoch hn
  vtor := fun h => hk.vtor (by omega)

theorem last_cons (address value other : UInt32) (w : Writes) :
    Writes.last ((address, value) :: w) other =
      if address = other then some value else w.last other := by
  rw [Writes.last, List.find?_cons]
  by_cases h : address = other
  · simp only [h, decide_true, if_true, Option.map_some]
  · simp only [h, decide_false, if_false]
    rfl

theorem Wrote.succ {vtor : UInt32} {n : Nat} (hw : Wrote vtor n w) (h6 : n ≠ 6) (h9 : n ≠ 9) :
    Wrote vtor (n + 1) w :=
  ⟨fun h => hw.cleared (by omega), fun h => hw.vtor (by omega)⟩

/-- A write of another register. -/
theorem Wrote.cons {vtor : UInt32} {n : Nat} (hw : Wrote vtor n w) {address value : UInt32}
    (hv : address ≠ nvicVtor) : Wrote vtor n ((address, value) :: w) where
  cleared := by
    intro h
    rw [last_cons]
    split
    · rfl
    · exact hw.cleared h
  vtor := by
    intro h
    rw [last_cons, if_neg hv]
    exact hw.vtor h

theorem meets_write_then {address value : UInt32} {ps : List (TargetProg Bool)}
    {Q : Bool → TargetObjects → Writes → Prop} (hs : s.target.failed = false)
    (h : Meets o c ((address, value) :: w) s (Prog.every ps) Q) :
    Meets o c w s (Prog.every (writeReg address value :: ps)) Q :=
  meets_every_cons (meets_writeReg hs ⟨rfl, h⟩)

theorem advances_stopSystick {i : BootHandoffIntent} (hk : Upheld o c i 1 s)
    (hw : Wrote i.vtor 1 w) : Advancing o c i 1 w s (applyTarget .stopSystick 0) := by
  refine meets_bind (meets_readInto hk.failed (fun _ _ => rfl) fun v _ _ => ?_)
  refine meets_write_then hk.failed (Confirms.then ?_ (meets_pure ?_))
  · exact holds_matches hk.failed (by simp [idleRegisters])
  · exact ⟨rfl, hk.succ (by decide) (by decide), rfl,
      (hw.cons (by decide)).succ (by decide) (by decide)⟩

/-- Check, write ones, check that the register reads as cleared, check again. -/
theorem advances_clear {i : BootHandoffIntent} {n : Nat} {address value mask : UInt32}
    {before after : TargetProg Bool} (hk : Upheld o c i n s) (hn : 0 < n) (h9 : n ≠ 9)
    (hw : Wrote i.vtor (n + 1) ((address, value) :: w)) (hbefore : Confirms o c w s before)
    (hmem : (address, mask, 0) ∈ idleRegisters c ((address, value) :: w))
    (hafter : Confirms o c ((address, value) :: w) s after) :
    Advancing o c i n w s
      (Prog.every [before, writeReg address value, matchesReg address mask 0, after]) := by
  refine hbefore.then (meets_write_then hk.failed ?_)
  refine (holds_matches hk.failed hmem).then (hafter.then (meets_pure ?_))
  exact ⟨rfl, hk.succ hn h9, rfl, hw⟩

theorem advances_settled {i : BootHandoffIntent} {n : Nat} {after : Bool} (hr : SourcesReady c)
    (hk : Upheld o c i n s) (hw : Wrote i.vtor n w) (hn : 6 < n) (h9 : n ≠ 9)
    (hafter : after = true → 9 < n) : Advancing o c i n w s (settled after) := by
  have hdone : Upheld o c i (n + 1) s ∧ s.target.next = s.target.next ∧ Wrote i.vtor (n + 1) w :=
    ⟨hk.succ (by omega) h9, rfl, hw.succ (by omega) h9⟩
  refine meets_bind ((holds_every ?_).imp ?_)
  · simp only [List.forall_mem_cons, List.not_mem_nil, false_imp_iff, implies_true, and_true]
    exact ⟨holds_synchronize _ hk.failed, hk.core_pos (by omega),
      holds_sourcesIdle hr hk.failed hk.continuity, holds_banksIdle hk.failed (hw.cleared hn)⟩
  rintro _ _ _ ⟨rfl, rfl, rfl⟩
  rw [if_neg (by decide)]
  cases after with
  | false => exact meets_pure ⟨rfl, hdone⟩
  | true =>
      have hv := hw.vtor (hafter rfl)
      refine meets_load ((holds_readIs hk.failed fun v _ hback => ?_).imp ?_)
      · rw [hback (.inl rfl) _ hv, hk.vtor (hafter rfl), and_uint32Max]
        exact decide_eq_true rfl
      · rintro _ _ _ ⟨rfl, rfl, rfl⟩
        exact ⟨rfl, hdone⟩

theorem advances_setVtor {i : BootHandoffIntent} (hk : Upheld o c i 9 s) (hw : Wrote i.vtor 9 w) :
    Advancing o c i 9 w s (applyTarget .setVtor i.vtor) := by
  refine meets_bind ?_
  refine meets_write_then hk.failed (Confirms.then ?_ (meets_pure ?_))
  · refine holds_readIs hk.failed fun v _ hback => ?_
    have hlast : Writes.last ((nvicVtor, i.vtor) :: w) nvicVtor = some i.vtor := by
      rw [last_cons, if_pos rfl]
    rw [hback (.inl rfl) _ hlast, and_uint32Max]
    exact decide_eq_true rfl
  rw [if_neg (by decide)]
  refine meets_modify (meets_pure ⟨rfl, ?_, rfl, ?_⟩)
  · exact {
      initialized := hk.initialized
      failed := hk.failed
      recorded := hk.recorded
      continuity := hk.continuity
      core := fun _ => ⟨(hk.core (by decide)).control, (hk.core (by decide)).basepri,
        (hk.core (by decide)).faultmask⟩
      epoch := fun _ => hk.epoch (by decide)
      vtor := fun _ => rfl }
  · refine ⟨fun _ => ?_, fun _ => ?_⟩
    · rw [last_cons, if_neg (by decide)]
      exact hw.cleared (by decide)
    · rw [last_cons, if_pos rfl]

/-- Every operation at its place in the sequence. -/
theorem advances_apply {i : BootHandoffIntent} (op : BootHandoffOperation) (hr : SourcesReady c)
    (hk : Upheld o c i op.code.toNat s) (hw : Wrote i.vtor op.code.toNat w)
    (hfirst : op = .exclude → w = [] ∧ c.capsule.watchdog.capturable = true ∧
      c.capsule.watchdog.epoch + 1 = i.applicationEpoch) :
    Advancing o c i op.code.toNat w s
      (applyTarget op (if op = .setVtor then i.vtor else 0)) := by
  have hf := hk.failed
  have hpre : ∀ w, Confirms o c w s banksIdlePre := fun _ => holds_banksIdlePre hf
  cases op with
  | exclude =>
      obtain ⟨rfl, hcap, hepoch⟩ := hfirst rfl
      exact advances_exclude hr hk hcap hepoch
  | stopSystick => exact advances_stopSystick hk hw
  | disableBank0 =>
      exact advances_clear hk (by decide) (by decide)
        ((hw.cons (by decide)).succ (by decide) (by decide)) (hpre _) (by simp [idleRegisters])
        (hpre _)
  | disableBank1 =>
      exact advances_clear hk (by decide) (by decide)
        ((hw.cons (by decide)).succ (by decide) (by decide)) (hpre _) (by simp [idleRegisters])
        (hpre _)
  | quiesceSources =>
      refine Confirms.then (holds_sourcesIdle hr hf hk.continuity) ((hpre _).then (meets_pure ?_))
      exact ⟨rfl, hk.succ (by decide) (by decide), rfl, hw.succ (by decide) (by decide)⟩
  | clearCorePending =>
      refine (hpre _).then (meets_write_then hf (Confirms.then ?_ (meets_pure ?_)))
      · exact holds_matches hf (by simp [idleRegisters])
      · exact ⟨rfl, hk.succ (by decide) (by decide), rfl,
          (hw.cons (by decide)).succ (by decide) (by decide)⟩
  | clearBank0Pending =>
      have hcleared : Writes.last ((nvicUnpend0, uint32Max) :: w) nvicUnpend0 =
          some uint32Max := by
        rw [last_cons, if_pos rfl]
      refine advances_clear hk (by decide) (by decide) ⟨fun _ => ?_, fun h => ?_⟩ (hpre _) ?_
        (holds_banksIdle hf ?_)
      · rw [hcleared]
        rfl
      · exact absurd h (by decide)
      · rw [idleRegisters, hcleared]
        simp
      · rw [hcleared]
        rfl
  | clearBank1Pending =>
      have hcleared := hw.cleared (by decide)
      have hcleared' :
          (Writes.last ((nvicUnpend0 + 4, bank1Mask) :: w) nvicUnpend0).isSome = true := by
        rw [last_cons, if_neg (by decide)]
        exact hcleared
      exact advances_clear hk (by decide) (by decide)
        ((hw.cons (by decide)).succ (by decide) (by decide)) (holds_banksIdle hf hcleared)
        (by simp [idleRegisters]) (holds_banksIdle hf hcleared')
  | barrierBeforeVtor =>
      exact advances_settled hr hk hw (by decide) (by decide) nofun
  | setVtor => exact advances_setVtor hk hw
  | barrierAfterVtor =>
      exact advances_settled hr hk hw (by decide) (by decide) fun _ => by decide

/-! ### Calls -/

/-- Between two calls. -/
structure At (o : BootHandoffContext) (c : TargetContinuity) (i : BootHandoffIntent)
    (n : Nat) (s : TargetObjects) : Prop where
  kept : Upheld o c i n s
  busy : s.target.busy = false
  next : s.target.next.toNat = n

theorem meets_enter {i : BootHandoffIntent} {n : Nat} (h : At o c i n s) :
    Meets o c w s targetEnter fun a s' w' => a = true ∧ w' = w ∧
      s' = s.onTarget fun t => { t with busy := true } := by
  refine meets_load ?_
  rw [if_neg (by simp [h.kept.initialized, h.busy, h.kept.failed, h.kept.recorded])]
  exact meets_modify (meets_pure ⟨rfl, rfl, rfl⟩)

theorem meets_leave (hs : s.target.failed = false) :
    Meets o c w s (targetLeave true) fun a s' w' => a = true ∧ w' = w ∧
      s' = s.onTarget fun t => { t with busy := false } := by
  refine meets_modify (meets_load (meets_pure ⟨?_, rfl, ?_⟩))
  · simp only [TargetObjects.onTarget, hs, Bool.not_true, Bool.or_false, Bool.not_false]
  · simp only [TargetObjects.onTarget, hs, Bool.not_true, Bool.or_false]

theorem operationOf_self (op : BootHandoffOperation) : operationOf op.code = some op := by
  cases op <;> rfl

theorem validValue_self {vtor : UInt32} (op : BootHandoffOperation)
    (hv : vtor = bootSlotABase ∨ vtor = bootSlotBBase) :
    validValue op (if op = .setVtor then vtor else 0) = true := by
  cases op <;> first | rfl | (obtain rfl | rfl := hv <;> rfl)

theorem holds_coreKept {i : BootHandoffIntent} (op : BootHandoffOperation)
    (hk : Upheld o c i op.code.toNat s) : Confirms o c w s (coreKept op) := by
  rw [coreKept]
  split
  · exact meets_pure ⟨rfl, rfl, rfl⟩
  · rename_i hop
    refine hk.core_pos ?_
    cases op <;> first | exact absurd rfl hop | decide

theorem meets_operation {i : BootHandoffIntent} (op : BootHandoffOperation) (hr : SourcesReady c)
    (h : At o c i op.code.toNat s) (hw : Wrote i.vtor op.code.toNat w)
    (hfirst : op = .exclude → w = [] ∧ c.capsule.watchdog.capturable = true ∧
      c.capsule.watchdog.epoch + 1 = i.applicationEpoch)
    (hv : i.vtor = bootSlotABase ∨ i.vtor = bootSlotBBase) :
    Meets o c w s (targetCall (.operation op.code (if op = .setVtor then i.vtor else 0)))
      fun a s' w' => a = true ∧ At o c i (op.code.toNat + 1) s' ∧
        Wrote i.vtor (op.code.toNat + 1) w' := by
  have hnext : s.target.next = op.code := UInt32.toNat_inj.mp h.next
  refine meets_bind ((meets_enter h).imp ?_)
  rintro _ _ _ ⟨rfl, rfl, rfl⟩
  rw [if_neg (by decide)]
  refine meets_load ?_
  rw [operationOf_self]
  dsimp only
  rw [if_neg (by simp [TargetObjects.onTarget, hnext, validValue_self op hv])]
  have hk : Upheld o c i op.code.toNat (s.onTarget fun t => { t with busy := true }) := {
    initialized := h.kept.initialized
    failed := h.kept.failed
    recorded := h.kept.recorded
    continuity := h.kept.continuity
    core := fun hn => ⟨(h.kept.core hn).control, (h.kept.core hn).basepri,
      (h.kept.core hn).faultmask⟩
    epoch := h.kept.epoch
    vtor := h.kept.vtor }
  refine meets_bind ((holds_coreKept op hk).imp ?_)
  rintro _ _ _ ⟨rfl, rfl, rfl⟩
  rw [if_neg (by decide)]
  refine meets_bind ((advances_apply op hr hk hw hfirst).imp ?_)
  rintro _ t w' ⟨rfl, hk', htnext, hw'⟩
  refine meets_load ?_
  rw [if_neg (by rw [hk'.failed]; decide)]
  refine meets_modify ((meets_leave ?_).imp ?_)
  · exact hk'.failed
  rintro _ _ _ ⟨rfl, rfl, rfl⟩
  refine ⟨rfl, ⟨?_, rfl, ?_⟩, hw'⟩
  · exact {
      initialized := hk'.initialized
      failed := hk'.failed
      recorded := hk'.recorded
      continuity := hk'.continuity
      core := fun hn => ⟨(hk'.core hn).control, (hk'.core hn).basepri, (hk'.core hn).faultmask⟩
      epoch := hk'.epoch
      vtor := hk'.vtor }
  · have hlt := code_lt op
    have hsame : t.target.next = op.code := htnext.trans hnext
    change (t.target.next + 1).toNat = op.code.toNat + 1
    rw [hsame, UInt32.toNat_add]
    simp only [UInt32.toNat_one]
    omega

theorem order_code {pre ops : List BootHandoffOperation} {op : BootHandoffOperation}
    (h : handoffOrder = pre ++ op :: ops) : op.code.toNat = pre.length := by
  have hrange : handoffOrder.map (fun op => op.code.toNat) = List.range 11 := rfl
  have hlt : pre.length < 11 := by
    have hlen : handoffOrder.length = 11 := rfl
    rw [h, List.length_append, List.length_cons] at hlen
    omega
  rw [h] at hrange
  have hget := congrArg (fun l => l[pre.length]?) hrange
  simpa [hlt] using hget

/-- The callbacks of a handoff. By the time of the terminal intent the watchdog
has been transferred, and the capsule is `c'`. -/
def targetAnswer (c' : TargetContinuity) : (op : HandoffOp) → TargetProg Bool
  | .operation op value => targetCall (.operation op.code value)
  | .terminalIntent i => do
      let _ ← targetCall (.others c')
      targetCall (.terminalIntent (some i))

/-- The loop over the operations, from some place in the sequence on. -/
theorem meets_operations {i : BootHandoffIntent} {c' : TargetContinuity} (hr : SourcesReady c)
    (hcap : c.capsule.watchdog.capturable = true)
    (hepoch : c.capsule.watchdog.epoch + 1 = i.applicationEpoch)
    (hv : i.vtor = bootSlotABase ∨ i.vtor = bootSlotBBase) (ops pre : List BootHandoffOperation)
    (hpre : handoffOrder = pre ++ ops) (h : At o c i pre.length s)
    (hw : Wrote i.vtor pre.length w) (hfirst : pre = [] → w = []) :
    Meets o c w s ((handoffOperations i.vtor ops).inline (targetAnswer c')) fun a s' w' =>
      a = true ∧ At o c i 11 s' ∧ Wrote i.vtor 11 w' := by
  induction ops generalizing pre w s with
  | nil =>
      have hlen : pre.length = 11 := by
        rw [List.append_nil] at hpre
        rw [← hpre]
        rfl
      exact meets_pure ⟨rfl, hlen ▸ h, hlen ▸ hw⟩
  | cons op ops ih =>
      have hcode := order_code hpre
      have hop : op = .exclude → w = [] ∧ c.capsule.watchdog.capturable = true ∧
          c.capsule.watchdog.epoch + 1 = i.applicationEpoch := by
        rintro rfl
        exact ⟨hfirst (List.eq_nil_of_length_eq_zero hcode.symm), hcap, hepoch⟩
      rw [← hcode] at h hw
      rw [handoffOperations, Prog.inline_ask_bind]
      refine meets_bind ((meets_operation op hr h hw hop hv).imp ?_)
      rintro _ s₁ w₁ ⟨rfl, h₁, hw₁⟩
      have hlen : (pre ++ [op]).length = op.code.toNat + 1 := by
        rw [List.length_append, hcode]
        rfl
      rw [← hlen] at h₁ hw₁
      refine ih (pre ++ [op]) ?_ h₁ hw₁ ?_
      · rw [hpre, List.append_assoc]
        rfl
      · intro hnil
        exact absurd hnil (by simp)

/-- The terminal intent, once the watchdog is the application's. -/
theorem meets_terminal {i : BootHandoffIntent} (hr : SourcesReady c)
    (h : At o c i 11 s) (hgood : intentGood s.target c.capsule.watchdog i = true)
    (hw : Wrote i.vtor 11 w) :
    Meets o c w s (targetCall (.terminalIntent (some i))) fun a s' _ =>
      a = true ∧ s'.continuity = c ∧ s'.target.recorded = true ∧ s'.target.intent = i ∧
        s'.target.failed = false := by
  have hf := h.kept.failed
  have hs := h.kept.continuity
  have hnext : s.target.next = 11 := UInt32.toNat_inj.mp h.next
  refine meets_bind ((meets_enter h).imp ?_)
  rintro _ _ _ ⟨rfl, rfl, rfl⟩
  rw [if_neg (by decide)]
  refine meets_load ?_
  dsimp only
  have hcore := h.kept.core (by decide)
  have hgood' : intentGood (s.onTarget fun t => { t with busy := true }).target
      (s.onTarget fun t => { t with busy := true }).continuity.capsule.watchdog i = true := by
    change intentGood s.target s.continuity.capsule.watchdog i = true
    rwa [hs]
  rw [if_neg (by simp [TargetObjects.onTarget, hnext]), if_neg (by rw [hgood']; decide)]
  refine meets_bind ((holds_every ?_).imp ?_)
  · simp only [List.forall_mem_cons, List.not_mem_nil, false_imp_iff, implies_true, and_true]
    refine ⟨holds_coreUnchanged hf ⟨hcore.control, hcore.basepri, hcore.faultmask⟩,
      holds_sourcesIdle hr hf hs, holds_banksIdle hf (hw.cleared (by decide)),
      holds_matches hf (by simp [idleRegisters]), holds_readIs hf fun v _ hback => ?_⟩
    rw [hback (.inl rfl) _ (hw.vtor (by decide)), and_uint32Max]
    exact decide_eq_true rfl
  rintro _ _ _ ⟨rfl, rfl, rfl⟩
  rw [if_neg (by decide)]
  refine meets_modify ((meets_leave ?_).imp ?_)
  · exact hf
  · rintro _ _ _ ⟨rfl, rfl, rfl⟩
    exact ⟨rfl, hs, rfl, rfl, hf⟩

end Meets

/-! ## A whole run -/

/-- The capsule with the watchdog as the transfer leaves it. -/
def TargetContinuity.handed (c : TargetContinuity) (w : BootWatchdog) : TargetContinuity :=
  { c with capsule := { c.capsule with watchdog := w } }

theorem ideal_handed (o : BootHandoffContext) (c : TargetContinuity) (w' : BootWatchdog) :
    Ideal o (c.handed w') = Ideal o c := by
  funext w m
  cases m with
  | answer e s => cases e with | mk op r => cases op <;> rfl
  | _ => rfl

/-- The registers do not depend on who owns the watchdog. -/
theorem meets_handed {o : BootHandoffContext} {c : TargetContinuity} (w' : BootWatchdog)
    {w : Writes} {s : TargetObjects} {α : Type} {p : TargetProg α}
    {Q : α → TargetObjects → Writes → Prop} (h : Meets o (c.handed w') w s p Q) :
    Meets o c w s p Q := by
  rw [Meets, ideal_handed] at h
  exact h

/-- The clauses of the terminal intent that admission already checks. -/
theorem admitted_intent {request : BootHandoffRequest} {intent : BootHandoffIntent}
    (h : bootHandoffAdmit request = .ok intent) :
    (intent.vtor = bootSlotABase ∨ intent.vtor = bootSlotBBase) ∧
      intent.msp = bootInitialMsp ∧ intent.resetVector &&& 1 ≠ 0 ∧
      intent.resetVector &&& ~~~1 ≥ intent.vtor ∧
      (intent.resetVector &&& ~~~1) - intent.vtor < bootPayloadMax ∧
      (intent.control = 0 ∧ intent.primask = 0 ∧ intent.basepri = 0 ∧ intent.faultmask = 0) ∧
      intent.applicationEpoch = request.watchdogEpoch + 1 ∧ request.watchdogEpoch ≠ 0 := by
  rw [bootHandoffAdmit] at h
  split at h
  · cases h
  dsimp only at h
  split at h
  · cases h
  rename_i hgood
  cases h
  simp only [not_or, not_not] at hgood
  obtain ⟨-, -, -, -, hmax, -, hmsp, hodd, hlow, hhigh, -, hzero, -⟩ := hgood
  refine ⟨?_, hmsp, hodd, UInt32.not_lt.mp hlow, ?_, ⟨rfl, rfl, rfl, rfl⟩, rfl, hzero⟩
  · dsimp only
    rw [slotBase]
    split
    · exact .inl rfl
    · exact .inr rfl
  · have hlt := UInt32.not_le.mp hhigh
    have hle := UInt32.not_lt.mp hmax
    exact UInt32.lt_of_lt_of_le hlt hle

/-- A request that gets past the checks of `run`. -/
structure Underway (held : Bool) (h : BootHandoff) (w : BootWatchdog)
    (request : BootHandoffRequest) (intent : BootHandoffIntent) : Prop where
  blocked : h.blocked = false
  finished : h.finished = false
  entered : held = true ∨ w.entered = false
  intent : bootHandoffAdmit request = .ok intent
  state : handoffState w request.watchdogEpoch = .ok

theorem Underway.run {held : Bool} {h : BootHandoff} {w : BootWatchdog}
    {request : BootHandoffRequest} {intent : BootHandoffIntent}
    (ha : Underway held h w request intent) :
    handoffRun held h w request = handoffAdmitted held h w request.watchdogEpoch intent := by
  rw [handoffRun, if_neg (by rw [ha.blocked]; decide), if_neg (by rw [ha.finished]; decide),
    ha.intent]
  dsimp only
  rw [if_neg, if_neg (not_not.mpr ha.state)]
  obtain hheld | hfree := ha.entered
  · simp [hheld]
  · simp [hfree]

/-- The transfer of a run whose operations have succeeded. -/
theorem Underway.transfer {held : Bool} {h : BootHandoff} {w : BootWatchdog}
    {request : BootHandoffRequest} {intent : BootHandoffIntent}
    (ha : Underway held h w request intent) (hzero : request.watchdogEpoch ≠ 0) :
    w.capturable = true ∧ w.epoch = request.watchdogEpoch ∧
      ∃ w', handoffTransfer held w request.watchdogEpoch = (.ok, w') ∧ w'.configured = true ∧
        w'.blocked = false ∧ w'.owner = .application ∧ w'.epoch = w.epoch + 1 := by
  have hstate := ha.state
  rw [handoffState] at hstate
  split at hstate
  · cases hstate
  rename_i hgood
  simp only [not_or, not_not, Bool.not_eq_true', Bool.not_eq_false, Bool.not_eq_true] at hgood
  obtain ⟨hconf, hblocked, howner, hepoch, hmax⟩ := hgood
  have hheld : ∀ x : BootWatchdog, x.configured = true → x.blocked = false → x.owner = .boot →
      x.epoch = request.watchdogEpoch → bootWatchdogTransferHeld x request.watchdogEpoch =
        (.ok, { x with owner := .application, evidence := 0, epoch := x.epoch + 1 }) := by
    intro x hc hb ho he
    have hready : ready x .boot request.watchdogEpoch = .ok := by
      simp [ready, hb, hc, ho, he]
    rw [bootWatchdogTransferHeld, hready, if_neg (by simp),
      if_neg (by rw [he, ← hepoch]; exact hmax)]
  refine ⟨?_, hepoch, ?_⟩
  · simp [BootWatchdog.capturable, hconf, hblocked, howner, hepoch, hzero, hepoch ▸ hmax]
  · rw [handoffTransfer]
    split
    · rw [hheld w hconf hblocked howner hepoch]
      exact ⟨_, rfl, hconf, hblocked, rfl, rfl⟩
    · rename_i hnot
      have hfree : w.entered = false := ha.entered.resolve_left hnot
      rw [if_neg (by rw [hfree]; decide)]
      dsimp only
      rw [hheld { w with entered := true } hconf hblocked howner hepoch]
      exact ⟨_, rfl, hconf, hblocked, rfl, rfl⟩

/-- The adapter after the operations is one that takes the terminal intent. -/
theorem At.intentGood {o : BootHandoffContext} {c : TargetContinuity} {w' : BootWatchdog}
    {request : BootHandoffRequest} {intent : BootHandoffIntent} {s : TargetObjects}
    (h : At o c intent 11 s) (hrequest : bootHandoffAdmit request = .ok intent)
    (hconf : w'.configured = true) (hblocked : w'.blocked = false)
    (howner : w'.owner = .application) (hepoch : w'.epoch = intent.applicationEpoch) :
    intentGood s.target w' intent = true := by
  obtain ⟨-, hmsp, hodd, hlow, hhigh, ⟨hcon, hpri, hbase, hfault⟩, -, -⟩ := admitted_intent hrequest
  have hvtor : s.target.vtor = intent.vtor := h.kept.vtor (by decide)
  have hcaptured : s.target.epoch = intent.applicationEpoch := h.kept.epoch (by decide)
  simp [Boot.intentGood, hvtor, hcaptured, hmsp, hcon, hpri, hbase, hfault, hconf, hblocked,
    howner, hepoch, hodd, hlow, hhigh]

/-- The same adapter when the watchdog has been handed over. -/
theorem At.handed {o : BootHandoffContext} {c : TargetContinuity} {i : BootHandoffIntent}
    {n : Nat} {s : TargetObjects} (h : At o c i n s) (w' : BootWatchdog) :
    At o (c.handed w') i n { s with continuity := c.handed w' } where
  kept := {
    initialized := h.kept.initialized
    failed := h.kept.failed
    recorded := h.kept.recorded
    continuity := rfl
    core := fun hn => ⟨(h.kept.core hn).control, (h.kept.core hn).basepri,
      (h.kept.core hn).faultmask⟩
    epoch := h.kept.epoch
    vtor := h.kept.vtor }
  busy := h.busy
  next := h.next

/-- Everything a run asks for is accepted, and the run succeeds. -/
theorem handoff_target_accepts {o : BootHandoffContext} {c : TargetContinuity} {held : Bool}
    {h : BootHandoff} {request : BootHandoffRequest} {intent : BootHandoffIntent}
    (hr : SourcesReady c) (ha : Underway held h c.capsule.watchdog request intent) :
    Meets o c [] ⟨bootHandoffTargetInit, c⟩
      ((handoffRun held h c.capsule.watchdog request).inline (targetAnswer
        (c.handed (handoffTransfer held c.capsule.watchdog request.watchdogEpoch).2)))
      fun reply s' _ => reply.result = .ok ∧ reply.out = some intent ∧
        s'.watchdog = reply.watchdog ∧ s'.target.recorded = true ∧ s'.target.intent = intent ∧
        s'.target.failed = false := by
  obtain ⟨hv, -, -, -, -, -, hepoch, hzero⟩ := admitted_intent ha.intent
  obtain ⟨hcap, hwepoch, w', htransfer, hconf, hblocked, howner, hwnext⟩ := ha.transfer hzero
  have hnext : c.capsule.watchdog.epoch + 1 = intent.applicationEpoch := by rw [hwepoch, hepoch]
  have hstart : At o c intent 0 ⟨bootHandoffTargetInit, c⟩ :=
    ⟨⟨rfl, rfl, rfl, rfl, nofun, nofun, nofun⟩, rfl, rfl⟩
  rw [ha.run, handoffAdmitted, Prog.bind_def, Prog.inline_bind, htransfer]
  refine meets_bind ((meets_operations hr hcap hnext hv handoffOrder [] rfl hstart
    ⟨nofun, nofun⟩ (fun _ => rfl)).imp ?_)
  rintro _ s w ⟨rfl, hs, hw⟩
  dsimp only
  rw [if_neg (by decide), if_neg (by decide), Prog.inline_ask_bind]
  refine meets_bind (meets_bind (meets_modify (meets_pure (meets_handed w' ?_))))
  have hr' : SourcesReady (c.handed w') := ⟨hr.idle, hr.registers, hr.hz, hr.bound⟩
  have hgood := hs.intentGood ha.intent hconf hblocked howner (hwnext.trans hnext)
  refine (meets_terminal hr' (hs.handed w') hgood hw).imp ?_
  rintro _ s'' _ ⟨rfl, hcont, hrec, hint, hfail⟩
  refine meets_pure ⟨rfl, rfl, ?_, hrec, hint, hfail⟩
  rw [TargetObjects.watchdog, hcont]
  rfl

/-- What every history of calls shows, and that an undisturbed run is accepted. -/
theorem handoff_target_fixed :
    (∀ c ms s', History targetCall ⟨bootHandoffTargetInit, c⟩ ms s' →
      Along TargetPast.next TargetSeen .start ms) ∧
    ∀ (o : BootHandoffContext) (c : TargetContinuity) (held : Bool) (h : BootHandoff)
      (request : BootHandoffRequest) (intent : BootHandoffIntent), SourcesReady c →
      Underway held h c.capsule.watchdog request intent →
      Meets o c [] ⟨bootHandoffTargetInit, c⟩
        ((handoffRun held h c.capsule.watchdog request).inline (targetAnswer
          (c.handed (handoffTransfer held c.capsule.watchdog request.watchdogEpoch).2)))
        fun reply s' _ => reply.result = .ok ∧ reply.out = some intent ∧
          s'.watchdog = reply.watchdog ∧ s'.target.recorded = true ∧
          s'.target.intent = intent ∧ s'.target.failed = false :=
  ⟨fun _ _ _ h => handoff_target_along h,
    fun _ _ _ _ _ _ hr ha => handoff_target_accepts hr ha⟩

/-! ### A run -/

instance (o : BootHandoffContext) (c : TargetContinuity) (w : Writes) :
    ∀ m, Decidable (Ideal o c w m)
  | .answer ⟨.readRegister address, x⟩ _ =>
      -- the quantifiers range over members, not over all words
      have _hregisters : Decidable
          (∀ y ∈ idleRegisters c w, y.1 = address → x.2 &&& y.2.1 = y.2.2) :=
        List.decidableBAll _ _
      have _hlast : Decidable (∀ v ∈ w.last address, x.2 = v) := Option.decidableForallMem _
      inferInstanceAs (Decidable (x.1 = true ∧
        (∀ y ∈ idleRegisters c w, y.1 = address → x.2 &&& y.2.1 = y.2.2) ∧
          (address = nvicVtor ∨ address = nvicStctrl → ∀ v ∈ w.last address, x.2 = v)))
  | .answer ⟨.writeRegister _ _, ok⟩ _ => inferInstanceAs (Decidable (ok = true))
  | .answer ⟨.observe, x⟩ _ => inferInstanceAs (Decidable (x.1 = true ∧ coreValid x.2 = true ∧
      x.2.control = o.control ∧ x.2.basepri = o.basepri ∧ x.2.faultmask = o.faultmask))
  | .answer ⟨.barrier _, ok⟩ _ => inferInstanceAs (Decidable (ok = true))
  | .answer ⟨.gptmRead address, x⟩ _ =>
      have _htimer : Decidable (∀ y ∈ idleTimer c.gptm, y.1 = address → x.2 &&& y.2.1 = y.2.2) :=
        List.decidableBAll _ _
      inferInstanceAs (Decidable (x.1 = true ∧
        ∀ y ∈ idleTimer c.gptm, y.1 = address → x.2 &&& y.2.1 = y.2.2))
  | .enter _ _ => .isTrue trivial
  | .leave _ _ _ => .isTrue trivial
  | .ask _ _ => .isTrue trivial

/-- Boot at the end of its work: the timer runs, and the watchdog is configured. -/
def readyContinuity : TargetContinuity where
  capsule := { BootStartup.zeroed fun _ => 0 with
    magic := bootStartupMagic
    abi := bootStartupAbi
    hz := 8000000
    watchdog := { bootWatchdogInit with configured := true, reload := 40000000 }
    clock := ⟨0x078e3ac0, 0x07802810, uint32Max, uint32Max, 8000000, bootStartupGptmSource⟩ }
  gptm := ⟨true, 8000000, 2, gptmClaimed, 0x078e3ac0, 0x07802810⟩
  bound := true

def idleAnswer : (op : TargetOp) → TargetSig.Ans op
  | .readRegister address => (true, idleValue address)
  | .writeRegister _ _ => true
  | .observe => (true, ⟨0, 0, 1, 0, 0⟩)
  | .barrier _ => true
  | .gptmRead address => (true, idleValue address)
where
  /-- The registers of a board at rest. -/
  idleValue (address : UInt32) : UInt32 :=
    if address = nvicVtor then bootSlotABase
    else if address = sysRcgc0 then 0x48
    else if address = sysRcgc1 then 0x40000
    else if address = wdtCtl then 3
    else if address = timer2 + 4 then 2
    else if address = timer2 + 12 then 1
    else if address = timer2 + 40 then uint32Max
    else if address = sysRcc then 0x078e3ac0
    else if address = sysRcc2 then 0x07802810
    else 0

def readyRequest : BootHandoffRequest where
  image := {
    manifest := ⟨bootSlotA, bootSlotABase, 0x1000, 1,
      ⟨List.replicate 32 0, rfl⟩, ⟨List.replicate 64 0, rfl⟩⟩
    initialMsp := bootInitialMsp
    resetVector := bootSlotABase + 0x101 }
  selectedSlot := bootSlotA
  watchdogEpoch := 1
  observed := ⟨0, 0, 1, 0, 0⟩

def readyIntent : BootHandoffIntent :=
  ⟨bootSlotABase, bootInitialMsp, bootSlotABase + 0x101, 0, 0, 0, 0, 2⟩

/-- A program while nothing is called back. -/
def undisturbed {α : Type} (answer : (op : TargetOp) → TargetSig.Ans op) (p : TargetProg α)
    (s : TargetObjects) : List TargetMoment × α × TargetObjects :=
  p.meanwhile answer (fun s => ([], s)) s

theorem passes_undisturbed {α : Type} (answer : (op : TargetOp) → TargetSig.Ans op)
    (p : TargetProg α) (s : TargetObjects) :
    Passes Undisturbed p s (undisturbed answer p s).1 (undisturbed answer p s).2.1
      (undisturbed answer p s).2.2 :=
  passes_meanwhile answer (fun _ => ⟨rfl, rfl⟩) p s

def readyRun : TargetProg HandoffReply :=
  (handoffRun false ⟨false, false, false⟩ readyContinuity.capsule.watchdog readyRequest).inline
    (targetAnswer (readyContinuity.handed
      (handoffTransfer false readyContinuity.capsule.watchdog readyRequest.watchdogEpoch).2))

/-- What happens in it. -/
def readyMoments : List TargetMoment × HandoffReply × TargetObjects :=
  undisturbed idleAnswer readyRun ⟨bootHandoffTargetInit, readyContinuity⟩

/-- The first two operations, the second of which is called into while it waits. -/
def nestedScript : Script TargetSig TargetCall :=
  .turn (.operation 0 0) idleAnswer .done <|
  .turn (.operation 1 0) idleAnswer (.turn (.operation 2 0) idleAnswer .done .done) .done

theorem handoff_target_fixed_ready :
    Along TargetPast.next TargetSeen .start
      (plays targetCall nestedScript ⟨bootHandoffTargetInit, readyContinuity⟩).1 ∧
    readyMoments.2.1.result = .ok ∧ readyMoments.2.1.out = some readyIntent ∧
      readyMoments.2.2.watchdog = readyMoments.2.1.watchdog ∧
      readyMoments.2.2.target.recorded = true ∧ readyMoments.2.2.target.intent = readyIntent ∧
      readyMoments.2.2.target.failed = false := by
  have hsources : SourcesReady readyContinuity := ⟨by decide, rfl, by decide, by decide⟩
  have hadmitted : Underway false ⟨false, false, false⟩ readyContinuity.capsule.watchdog
      readyRequest readyIntent := ⟨rfl, rfl, .inr rfl, by decide +kernel, by decide⟩
  have hpasses := passes_undisturbed idleAnswer readyRun
    ⟨bootHandoffTargetInit, readyContinuity⟩
  refine ⟨handoff_target_fixed.1 _ _ _ (history_plays targetCall nestedScript _), ?_⟩
  rw [readyMoments]
  have hideal : Along noteWrite (Ideal ⟨0, 0, 1, 0, 0⟩ readyContinuity) []
      (undisturbed idleAnswer readyRun ⟨bootHandoffTargetInit, readyContinuity⟩).1 := by
    decide +kernel
  exact handoff_target_fixed.2 ⟨0, 0, 1, 0, 0⟩ _ _ _ _ _ hsources hadmitted _ _ _ hpasses hideal

end EkBareMetal.Boot

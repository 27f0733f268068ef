import EkBareMetal.Boot.NetClock
import EkBareMetal.Lib.Frame
import Mathlib.Algebra.Order.Field.Rat
import Mathlib.Tactic.Linarith
import Mathlib.Tactic.Ring

/-!
# The startup time is never reported short

A sample is the timer's count rounded down to a microsecond, and two of them are
subtracted before the difference is rounded up to a millisecond. The quotients
are used through the two products that define them, so the bound on the sum of
the rounding errors is linear. The rest is where the numbers come from: a reader
that returns has converted the counter it read, and the switch commits the
difference of its final sample and the entry's.
-/

namespace EkBareMetal.Boot

open Interact

/-! ## The conversion -/

/-- The microseconds of a counter that runs down from its maximum. -/
def startupMicroseconds (hz counter : UInt32) : UInt64 :=
  (uint32Max - counter).toUInt64 * 1000000 / hz.toUInt64

/-- The ticks that have passed. -/
def startupTicks (counter : UInt32) : Nat := 0xffffffff - counter.toNat

theorem ticks_sub (counter : UInt32) : (uint32Max - counter).toNat = startupTicks counter := by
  have hle : counter ≤ uint32Max := by
    rw [UInt32.le_iff_toNat_le]
    exact Nat.le_of_lt_succ counter.toNat_lt
  rw [UInt32.toNat_sub_of_le _ _ hle]
  rfl

/-- The product fits in 64 bits for every count. -/
theorem ticks_fit (counter : UInt32) : startupTicks counter * 1000000 < 2 ^ 64 := by
  unfold startupTicks
  omega

theorem toNat_startupMicroseconds (hz counter : UInt32) :
    (startupMicroseconds hz counter).toNat = startupTicks counter * 1000000 / hz.toNat := by
  have hfit := ticks_fit counter
  unfold startupMicroseconds
  rw [UInt64.toNat_div, UInt64.toNat_mul, UInt32.toNat_toUInt64, UInt32.toNat_toUInt64,
    ticks_sub]
  rw [show (1000000 : UInt64).toNat = 1000000 from rfl, Nat.mod_eq_of_lt hfit]

theorem startupMicroseconds_mono {hz c c' : UInt32} (h : c' ≤ c) :
    startupMicroseconds hz c ≤ startupMicroseconds hz c' := by
  rw [UInt64.le_iff_toNat_le, toNat_startupMicroseconds, toNat_startupMicroseconds]
  have hle : c'.toNat ≤ c.toNat := UInt32.le_iff_toNat_le.mp h
  refine Nat.div_le_div_right ?_
  unfold startupTicks
  omega

/-! ## The bound -/

/-- Two quotients rounded down, and their difference rounded up. -/
theorem elapsed_bounds {hz a b : Nat} (hhz : 0 < hz) (hle : b ≤ a) :
    ((a : ℚ) - b) / hz ≤ 1000 * (((a / hz - b / hz) / 1000 + 1 : Nat) : ℚ) ∧
      1000 * (((a / hz - b / hz) / 1000 + 1 : Nat) : ℚ) < ((a : ℚ) - b) / hz + 1001 := by
  have hpos : (0 : ℚ) < hz := by exact_mod_cast hhz
  have hquot : b / hz ≤ a / hz := Nat.div_le_div_right hle
  obtain ⟨d, hd⟩ := Nat.exists_eq_add_of_le hquot
  have hdelta : a / hz - b / hz = d := by omega
  -- the whole of the rounding is between these two
  have hround : d + 1 ≤ 1000 * (d / 1000 + 1) ∧ 1000 * (d / 1000 + 1) ≤ d + 1000 := by omega
  have ha : hz * (b / hz + d) ≤ a ∧ a < hz * (b / hz + d) + hz := by
    rw [← hd]
    exact ⟨Nat.mul_div_le a hz, Nat.lt_mul_div_succ a hhz⟩
  have hb : hz * (b / hz) ≤ b ∧ b < hz * (b / hz) + hz :=
    ⟨Nat.mul_div_le b hz, Nat.lt_mul_div_succ b hhz⟩
  rw [hdelta]
  generalize b / hz = q at ha hb
  generalize d / 1000 + 1 = e at hround ⊢
  have hround₁ : (d : ℚ) + 1 ≤ 1000 * (e : ℚ) := by exact_mod_cast hround.1
  have hround₂ : 1000 * (e : ℚ) ≤ (d : ℚ) + 1000 := by exact_mod_cast hround.2
  have ha₁ : (hz : ℚ) * (q + d) ≤ a := by exact_mod_cast ha.1
  have ha₂ : (a : ℚ) < hz * (q + d) + hz := by exact_mod_cast ha.2
  have hb₁ : (hz : ℚ) * q ≤ b := by exact_mod_cast hb.1
  have hb₂ : (b : ℚ) < hz * q + hz := by exact_mod_cast hb.2
  constructor
  · rw [div_le_iff₀ hpos]
    have hscaled := mul_le_mul_of_nonneg_right hround₁ hpos.le
    linarith
  · rw [← sub_lt_iff_lt_add, lt_div_iff₀ hpos]
    have hscaled := mul_le_mul_of_nonneg_right hround₂ hpos.le
    linarith

/-! ## The reader -/

/-- Only the state word of the timer is written. -/
def StateOnly (s s' : TargetObjects) : Prop := ∃ state, s' = s.onGptm state

theorem preserving_stateOnly : Preserving StateOnly where
  refl s := ⟨s.continuity.gptm.state, rfl⟩
  trans := by
    rintro s s₁ s' ⟨state, rfl⟩ ⟨state', rfl⟩
    exact ⟨state', rfl⟩

theorem stateOnly_gptmReadReg (address : UInt32) : Frames StateOnly (gptmReadReg address) := by
  have hpure : ∀ v, Frames StateOnly (pure v : TargetProg (Option UInt32)) :=
    frames_pure preserving_stateOnly
  refine frames_load fun s => frames_ite (hpure none) (frames_ask fun answer => ?_)
  refine frames_load fun s => frames_ite ?_ (hpure _)
  exact frames_modify preserving_stateOnly (fun s => ⟨gptmFailed, rfl⟩) (hpure none)

theorem stateOnly_gptmEqual (address : UInt32) (value : BootStartupGptm → UInt32) :
    Frames StateOnly (gptmEqual address value) :=
  frames_load fun _ => frames_bind preserving_stateOnly (stateOnly_gptmReadReg address)
    fun _ => frames_pure preserving_stateOnly _

theorem stateOnly_gptmMatched (held : UInt32) : Frames StateOnly (gptmMatched held) := by
  have hfalse : Frames StateOnly (pure false : TargetProg Bool) :=
    frames_pure preserving_stateOnly false
  have hequal := stateOnly_gptmEqual
  refine frames_load fun s => frames_ite hfalse ?_
  refine frames_bind preserving_stateOnly (stateOnly_gptmReadReg _) fun gate => frames_load fun s => ?_
  refine frames_ite hfalse (frames_every preserving_stateOnly ?_)
  simp only [List.forall_mem_cons, List.not_mem_nil, false_imp_iff, implies_true, and_true]
  exact ⟨hequal _ _, hequal _ _, hequal _ _, hequal _ _, hequal _ _, hequal _ _, hequal _ _⟩

section Reader

variable {s s' : TargetObjects} {tr : List (Event TargetSig)} {address v counter : UInt32}

/-- A register that was read has been answered so. -/
theorem gptmReadReg_some (h : Runs ((gptmReadReg address).held s) tr (some v, s')) :
    (⟨.gptmRead address, (true, v)⟩ : Event TargetSig) ∈ tr := by
  unfold gptmReadReg at h
  rw [held_load] at h
  dsimp only at h
  split at h
  · obtain ⟨-, he⟩ := runs_pure_iff.mp h
    cases he
  · rw [held_ask] at h
    obtain ⟨answer, rest, rfl, hk⟩ := runs_ask_iff.mp h
    obtain ⟨ok, value⟩ := answer
    rw [held_load] at hk
    split at hk
    · obtain ⟨-, he⟩ := runs_pure_iff.mp hk
      cases he
    · next hok =>
        obtain ⟨rfl, he⟩ := runs_pure_iff.mp hk
        cases he
        simp only [Bool.or_eq_true, not_or, Bool.not_eq_true, Bool.not_eq_false'] at hok
        obtain rfl : ok = true := hok.1
        exact List.mem_singleton.mpr rfl

theorem gptmMatched_true {held : UInt32} (h : Runs ((gptmMatched held).held s) tr (true, s')) :
    s.continuity.gptm.hz ≠ 0 ∧ s.continuity.gptm.hz ≤ uint32Max / 5 := by
  unfold gptmMatched at h
  rw [held_load] at h
  dsimp only at h
  split at h
  · obtain ⟨-, he⟩ := runs_pure_iff.mp h
    cases he
  · next hok =>
      simp only [Bool.or_eq_true, decide_eq_true_eq, not_or] at hok
      exact ⟨hok.1.1.2, UInt32.not_lt.mp hok.1.2⟩

theorem gptmSample_some (h : Runs (gptmSample.held s) tr (some counter, s')) :
    (s.continuity.gptm.hz ≠ 0 ∧ s.continuity.gptm.hz ≤ uint32Max / 5) ∧
      (⟨.gptmRead (s.continuity.gptm.base + 72), (true, counter)⟩ : Event TargetSig) ∈ tr ∧
      ∃ state, s' = s.onGptm state := by
  have hnone : ∀ {s₁ tr}, ¬ Runs ((pure none : TargetProg (Option UInt32)).held s₁) tr
      (some counter, s') := by
    intro s₁ tr hr
    obtain ⟨-, he⟩ := runs_pure_iff.mp hr
    cases he
  unfold gptmSample at h
  rw [held_bind] at h
  obtain ⟨tr₁, ⟨first, s₁⟩, tr₂, rfl, h₁, h₂⟩ := runs_bind_iff'.mp h
  obtain ⟨state₁, rfl⟩ := stateOnly_gptmMatched _ _ _ _ _ h₁
  rw [held_load] at h₂
  dsimp only at h₂
  split at h₂
  · exact absurd h₂ hnone
  next hfirst =>
  rw [Bool.not_eq_true', Bool.not_eq_false] at hfirst
  rw [hfirst] at h₁
  refine ⟨gptmMatched_true h₁, ?_⟩
  rw [held_bind] at h₂
  obtain ⟨tr₃, ⟨before, s₂⟩, tr₄, rfl, h₃, h₄⟩ := runs_bind_iff'.mp h₂
  obtain ⟨state₂, rfl⟩ := stateOnly_gptmReadReg _ _ _ _ _ h₃
  dsimp only at h₄
  split at h₄
  · exact absurd h₄ hnone
  rw [held_bind] at h₄
  obtain ⟨tr₅, ⟨count, s₃⟩, tr₆, rfl, h₅, h₆⟩ := runs_bind_iff'.mp h₄
  obtain ⟨state₃, rfl⟩ := stateOnly_gptmReadReg _ _ _ _ _ h₅
  dsimp only at h₆
  split at h₆
  · exact absurd h₆ hnone
  rw [held_bind] at h₆
  obtain ⟨tr₇, ⟨after, s₄⟩, tr₈, rfl, h₇, h₈⟩ := runs_bind_iff'.mp h₆
  obtain ⟨state₄, rfl⟩ := stateOnly_gptmReadReg _ _ _ _ _ h₇
  dsimp only at h₈
  split at h₈
  · exact absurd h₈ hnone
  rw [held_bind] at h₈
  obtain ⟨tr₉, ⟨again, s₅⟩, tr₁₀, rfl, h₉, h₁₀⟩ := runs_bind_iff'.mp h₈
  obtain ⟨state₅, rfl⟩ := stateOnly_gptmMatched _ _ _ _ _ h₉
  obtain ⟨rfl, he⟩ := runs_pure_iff.mp h₁₀
  obtain ⟨hcount, rfl⟩ := Prod.mk.inj he
  refine ⟨?_, state₅, rfl⟩
  split at hcount
  · rw [← hcount] at h₅
    have hread := gptmReadReg_some h₅
    simp only [List.mem_append]
    exact .inr (.inr (.inl hread))
  · cases hcount

/-- A reader that returns has converted the counter that it read. -/
theorem gptmRead_some {sample : BootStartupSample}
    (h : Runs (bootStartupGptmRead.held s) tr (some sample, s')) :
    (s.continuity.gptm.hz ≠ 0 ∧ s.continuity.gptm.hz ≤ uint32Max / 5) ∧
    ∃ counter, (⟨.gptmRead (s.continuity.gptm.base + 72), (true, counter)⟩ : Event TargetSig) ∈ tr ∧
      sample.us = startupMicroseconds s.continuity.gptm.hz counter ∧
      sample.hz = s.continuity.gptm.hz := by
  unfold bootStartupGptmRead at h
  rw [held_load] at h
  split at h
  · obtain ⟨-, he⟩ := runs_pure_iff.mp h
    cases he
  split at h
  · obtain ⟨-, he⟩ := runs_pure_iff.mp h
    cases he
  rw [held_modify, held_bind] at h
  obtain ⟨tr₁, ⟨found, s₁⟩, tr₂, rfl, h₁, h₂⟩ := runs_bind_iff'.mp h
  cases found with
  | none =>
      obtain ⟨-, he⟩ := runs_pure_iff.mp h₂
      cases he
  | some counter =>
      obtain ⟨hhz, hread, state, rfl⟩ := gptmSample_some h₁
      obtain ⟨rfl, he⟩ := runs_pure_iff.mp h₂
      cases he
      exact ⟨hhz, counter, List.mem_append_left _ hread, rfl, rfl⟩

end Reader

/-! ## The capsule -/

section Capsule

variable {c c' : BootStartup} {tr : List (Event ClockSig)} {us : UInt64}

theorem clockRead_some (h : Runs (BootStartup.clockRead.held c) tr (some us, c')) :
    c' = c ∧ ∃ sample, (⟨.read, some sample⟩ : Event ClockSig) ∈ tr ∧ sample.us = us := by
  unfold BootStartup.clockRead at h
  rw [held_load] at h
  split at h
  · obtain ⟨-, he⟩ := runs_pure_iff.mp h
    cases he
  rw [held_ask] at h
  obtain ⟨answer, rest, rfl, hk⟩ := runs_ask_iff.mp h
  cases answer with
  | none =>
      obtain ⟨-, he⟩ := runs_pure_iff.mp hk
      cases he
  | some sample =>
      dsimp only at hk
      rw [held_load] at hk
      obtain ⟨rfl, he⟩ := runs_pure_iff.mp hk
      obtain ⟨hus, rfl⟩ := Prod.mk.inj he
      refine ⟨rfl, sample, List.mem_singleton.mpr rfl, ?_⟩
      split at hus
      · exact (Option.some.inj hus).symm
      · cases hus

/-- The entry takes the sample of its clock. -/
theorem early_entry {excluded : Bool} {stub witness : UInt32}
    (h : Runs ((bootStartupEarly excluded stub witness).held c) tr (true, c')) :
    ∃ sample, (⟨.read, some sample⟩ : Event ClockSig) ∈ tr ∧ c'.entryUs = sample.us := by
  have hfalse : ∀ {c₁ tr}, ¬ Runs ((BootStartup.failing false : StartupProg Bool).held c₁) tr
      (true, c') := by
    intro c₁ tr hr
    obtain ⟨-, he⟩ := runs_pure_iff.mp hr
    cases he
  unfold bootStartupEarly at h
  rw [held_bind] at h
  obtain ⟨tr₁, ⟨claimed, c₁⟩, tr₂, rfl, h₁, h₂⟩ := runs_bind_iff'.mp h
  dsimp only at h₂
  split at h₂
  · obtain ⟨-, he⟩ := runs_pure_iff.mp h₂
    cases he
  rw [held_load] at h₂
  split at h₂
  · exact absurd h₂ hfalse
  rw [held_bind] at h₂
  obtain ⟨tr₃, ⟨read, c₂⟩, tr₄, rfl, h₃, h₄⟩ := runs_bind_iff'.mp h₂
  cases read with
  | none => exact absurd h₄ hfalse
  | some us =>
      obtain ⟨rfl, sample, hsample, hus⟩ := clockRead_some h₃
      dsimp only at h₄
      rw [held_load] at h₄
      split at h₄
      · exact absurd h₄ hfalse
      rw [held_modify] at h₄
      unfold BootStartup.complete at h₄
      rw [held_load] at h₄
      split at h₄
      · exact absurd h₄ hfalse
      obtain ⟨rfl, he⟩ := runs_pure_iff.mp h₄
      obtain ⟨-, rfl⟩ := Prod.mk.inj he
      refine ⟨sample, ?_, hus.symm⟩
      exact List.mem_append_right _ (List.mem_append_left _ hsample)

/-- The time is the sample of the clock, and the entry stays. -/
theorem time_some {pointers : Bool}
    (h : Runs ((bootStartupTime pointers).held c) tr (some us, c')) :
    c'.entryUs = c.entryUs ∧
      ∃ sample, (⟨.read, some sample⟩ : Event ClockSig) ∈ tr ∧ sample.us = us := by
  have hnone : ∀ {c₁ tr}, ¬ Runs
      ((BootStartup.failing none : StartupProg (Option UInt64)).held c₁) tr (some us, c') := by
    intro c₁ tr hr
    obtain ⟨-, he⟩ := runs_pure_iff.mp hr
    cases he
  unfold bootStartupTime at h
  rw [held_load] at h
  split at h
  · exact absurd h hnone
  rw [held_modify, held_load] at h
  split at h
  · exact absurd h hnone
  rw [held_bind] at h
  obtain ⟨tr₁, ⟨read, c₁⟩, tr₂, rfl, h₁, h₂⟩ := runs_bind_iff'.mp h
  cases read with
  | none => exact absurd h₂ hnone
  | some sampled =>
      obtain ⟨rfl, sample, hsample, hus⟩ := clockRead_some h₁
      dsimp only at h₂
      rw [held_load] at h₂
      split at h₂
      · exact absurd h₂ hnone
      obtain ⟨rfl, he⟩ := runs_pure_iff.mp h₂
      obtain ⟨hsome, rfl⟩ := Prod.mk.inj he
      refine ⟨rfl, sample, List.mem_append_left _ hsample, ?_⟩
      rw [hus]
      exact (Option.some.inj hsome).symm

end Capsule

/-! ## The switch -/

section Switch

variable {s s' : NetObjects} {tr : List (Event NetSig)}

def NetObjects.withCapsule (s : NetObjects) (c : BootStartup) : NetObjects :=
  { s with continuity := { s.continuity with capsule := c } }

/-- A sample of the capsule's clock, as the switch asks for it. -/
def sampleEvent (e : Event ClockSig) : Event NetSig := ⟨.sample, e.ans⟩

/-- An operation of the capsule runs on the capsule of the objects. -/
theorem runs_onCapsule {α : Type} {p : StartupProg α} {a : α}
    (h : Runs ((p.inline onCapsule).held s) tr (a, s')) :
    ∃ tr₀ c', Runs (p.held s.continuity.capsule) tr₀ (a, c') ∧ s' = s.withCapsule c' ∧
      tr = tr₀.map sampleEvent := by
  induction p generalizing s tr with
  | ret b =>
      obtain ⟨rfl, he⟩ := runs_ret_iff.mp h
      obtain ⟨rfl, rfl⟩ := Prod.mk.inj he
      exact ⟨[], s'.continuity.capsule, .ret _, rfl, rfl⟩
  | call op k ih =>
      cases op with
      | load => exact ih _ h
      | store c =>
          obtain ⟨tr₀, c', hr, rfl, rfl⟩ := ih () (s := s.withCapsule c) h
          exact ⟨tr₀, c', hr, rfl, rfl⟩
      | outside op =>
          cases op
          obtain ⟨answer, rest, rfl, hk⟩ := runs_call_iff.mp h
          obtain ⟨tr₀, c', hr, rfl, rfl⟩ := ih answer hk
          exact ⟨⟨.read, answer⟩ :: tr₀, c', runs_call_iff.mpr ⟨answer, tr₀, rfl, hr⟩, rfl, rfl⟩

theorem frames_netAsk (op : NetOp) : Frames Eq (netAsk op) := by
  intro s tr a s' h
  obtain ⟨r, rest, rfl, hk⟩ := runs_call_iff.mp h
  obtain ⟨-, he⟩ := runs_ret_iff.mp hk
  cases he
  rfl

theorem frames_faultsQuiet : Frames Eq faultsQuiet := by
  refine frames_bind preserving_eq (frames_netAsk _) fun handlers => ?_
  refine frames_ite (frames_pure preserving_eq false) ?_
  exact frames_bind preserving_eq (frames_netAsk _) fun control => frames_pure preserving_eq _

theorem frames_bankQuiet (bank : UInt32) : Frames Eq (bankQuiet bank) := by
  refine frames_bind preserving_eq (frames_netAsk _) fun enables => ?_
  refine frames_ite (frames_pure preserving_eq false) ?_
  exact frames_bind preserving_eq (frames_netAsk _) fun pending => frames_pure preserving_eq _

theorem frames_interruptsSafe : Frames Eq interruptsSafe := by
  refine frames_bind preserving_eq (frames_netAsk _) fun masked => ?_
  refine frames_ite (frames_pure preserving_eq false) (frames_every preserving_eq ?_)
  simp only [List.forall_mem_cons, List.not_mem_nil, false_imp_iff, implies_true, and_true]
  exact ⟨frames_bankQuiet 0, frames_bankQuiet 1, frames_faultsQuiet⟩

theorem frames_maskBank (bank : UInt32) : Frames Eq (maskBank bank) :=
  frames_bind preserving_eq (frames_netAsk _) fun _ => frames_netAsk _

theorem frames_interruptsPrepare : Frames Eq interruptsPrepare := by
  refine frames_bind preserving_eq (frames_netAsk _) fun masked => ?_
  refine frames_ite (frames_pure preserving_eq false) ?_
  refine frames_bind preserving_eq (frames_maskBank 0) fun _ => ?_
  refine frames_bind preserving_eq (frames_maskBank 1) fun _ => ?_
  refine frames_bind preserving_eq (frames_netAsk _) fun _ => ?_
  exact frames_bind preserving_eq (frames_netAsk _) fun _ => frames_faultsQuiet

/-- The offset that a commit writes. -/
theorem netClockCommit_true {us : UInt64} (h : Runs ((netClockCommit us).held s) tr (true, s')) :
    s.continuity.capsule.entryUs ≤ us ∧
      s'.clock.startupElapsedMs.toNat =
        (us.toNat - s.continuity.capsule.entryUs.toNat) / 1000 + 1 ∧
      s'.clock.initialized = true := by
  unfold netClockCommit at h
  rw [held_load] at h
  dsimp only at h
  split at h
  · obtain ⟨-, he⟩ := runs_pure_iff.mp h
    cases he
  next hentry =>
  split at h
  · obtain ⟨-, he⟩ := runs_pure_iff.mp h
    cases he
  next hmax =>
  rw [held_modify, held_bind] at h
  obtain ⟨tr₁, ⟨safe, s₁⟩, tr₂, rfl, h₁, h₂⟩ := runs_bind_iff'.mp h
  obtain rfl := frames_interruptsSafe _ _ _ _ h₁
  dsimp only at h₂
  split at h₂
  · obtain ⟨-, he⟩ := runs_pure_iff.mp h₂
    cases he
  rw [held_modify, held_bind] at h₂
  obtain ⟨tr₃, ⟨u, s₂⟩, tr₄, rfl, h₃, h₄⟩ := runs_bind_iff'.mp h₂
  obtain rfl := frames_netAsk _ _ _ _ _ h₃
  obtain ⟨rfl, he⟩ := runs_pure_iff.mp h₄
  obtain ⟨-, rfl⟩ := Prod.mk.inj he
  have hle : s.continuity.capsule.entryUs ≤ us := UInt64.not_lt.mp hentry
  refine ⟨hle, ?_, rfl⟩
  have hoffset := UInt64.not_lt.mp hmax
  rw [UInt64.le_iff_toNat_le] at hoffset
  have hlt := us.toNat_lt
  have hvalue : ((us - s.continuity.capsule.entryUs) / 1000 + 1).toNat =
      (us.toNat - s.continuity.capsule.entryUs.toNat) / 1000 + 1 := by
    rw [UInt64.toNat_add, UInt64.toNat_div, UInt64.toNat_sub_of_le _ _ hle,
      show (1000 : UInt64).toNat = 1000 from rfl, show (1 : UInt64).toNat = 1 from rfl]
    omega
  show ((us - s.continuity.capsule.entryUs) / 1000 + 1).toUInt32.toNat = _
  rw [UInt64.toNat_toUInt32, Nat.mod_eq_of_lt, hvalue]
  rw [show uint32Max.toUInt64.toNat = 0xffffffff from rfl] at hoffset
  omega

theorem frames_systickStart (period : UInt32) :
    Frames (fun s s' => s'.continuity = s.continuity) (systickStart period) := by
  have hR : Preserving fun s s' : NetObjects => s'.continuity = s.continuity :=
    ⟨fun _ => rfl, fun h h' => h'.trans h⟩
  have hask : ∀ op, Frames (fun s s' : NetObjects => s'.continuity = s.continuity) (netAsk op) := by
    intro op s tr a s' h
    rw [frames_netAsk op s tr a s' h]
  refine frames_bind hR (hask _) fun _ => frames_bind hR (hask _) fun _ => ?_
  refine frames_modify hR ?_ ?_
  · intro s
    rfl
  refine frames_bind hR (hask _) fun _ => frames_bind hR (hask _) fun _ => ?_
  exact frames_bind hR (hask _) fun _ => hask _

/-- What an accepted switch has sampled and committed. -/
theorem netClock_true {cpuClockHz : UInt32}
    (h : Runs ((netClockInitialize cpuClockHz).held s) tr (true, s')) :
    ∃ sample, (⟨.sample, some sample⟩ : Event NetSig) ∈ tr ∧
      s.continuity.capsule.entryUs ≤ sample.us ∧
      s'.clock.startupElapsedMs.toNat =
        (sample.us.toNat - s.continuity.capsule.entryUs.toNat) / 1000 + 1 ∧
      s'.clock.initialized = true := by
  have hfalse : ∀ {s₁ tr}, ¬ Runs ((pure false : NetProg Bool).held s₁) tr (true, s') := by
    intro s₁ tr hr
    obtain ⟨-, he⟩ := runs_pure_iff.mp hr
    cases he
  unfold netClockInitialize at h
  dsimp only at h
  split at h
  · exact absurd h hfalse
  rw [held_load] at h
  split at h
  · exact absurd h hfalse
  rw [held_bind] at h
  obtain ⟨tr₁, ⟨prepared, s₁⟩, tr₂, rfl, h₁, h₂⟩ := runs_bind_iff'.mp h
  obtain rfl := frames_interruptsPrepare _ _ _ _ h₁
  dsimp only at h₂
  split at h₂
  · exact absurd h₂ hfalse
  rw [held_bind] at h₂
  obtain ⟨tr₃, ⟨u, s₂⟩, tr₄, rfl, h₃, h₄⟩ := runs_bind_iff'.mp h₂
  have hcontinuity : s₂.continuity = s.continuity := frames_systickStart _ _ _ _ _ h₃
  rw [held_bind] at h₄
  obtain ⟨tr₅, ⟨time, s₃⟩, tr₆, rfl, h₅, h₆⟩ := runs_bind_iff'.mp h₄
  obtain ⟨tr₀, c', hr, rfl, rfl⟩ := runs_onCapsule h₅
  cases time with
  | none => exact absurd h₆ hfalse
  | some us =>
      obtain ⟨hentry, sample, hsample, rfl⟩ := time_some hr
      obtain ⟨hle, hoffset, hinitialized⟩ := netClockCommit_true h₆
      have hsame : (s₂.withCapsule c').continuity.capsule.entryUs =
          s.continuity.capsule.entryUs := by
        rw [← hcontinuity]
        exact hentry
      rw [hsame] at hle hoffset
      refine ⟨sample, ?_, hle, hoffset, hinitialized⟩
      have hevent : (⟨.sample, some sample⟩ : Event NetSig) ∈ tr₀.map sampleEvent :=
        List.mem_map.mpr ⟨_, hsample, rfl⟩
      simp only [List.mem_append]
      exact .inr (.inr (.inl hevent))

end Switch

/-- A reader that returns has converted the counter without an overflow; the samples of a
counter that runs down do not fall; the entry is a sample; and the offset that an accepted
switch commits is no less than the exact time from the entry's sample to its own, and less than
1001 microseconds more. -/
theorem startup_elapsed_conservative :
    (∀ s tr sample s', Runs (bootStartupGptmRead.held s) tr (some sample, s') →
      (s.continuity.gptm.hz ≠ 0 ∧ s.continuity.gptm.hz ≤ uint32Max / 5) ∧
      ∃ counter, (⟨.gptmRead (s.continuity.gptm.base + 72), (true, counter)⟩ :
          Event TargetSig) ∈ tr ∧
        sample.us = startupMicroseconds s.continuity.gptm.hz counter) ∧
    (∀ hz counter : UInt32, (uint32Max - counter).toNat * 1000000 < 2 ^ 64 ∧
      (startupMicroseconds hz counter).toNat =
        (0xffffffff - counter.toNat) * 1000000 / hz.toNat) ∧
    (∀ hz (counters : List UInt32), counters.Pairwise (fun c c' => c' ≤ c) →
      (counters.map (startupMicroseconds hz)).Pairwise (· ≤ ·)) ∧
    (∀ excluded stub witness c tr c',
      Runs ((bootStartupEarly excluded stub witness).held c) tr (true, c') →
      ∃ sample, (⟨.read, some sample⟩ : Event ClockSig) ∈ tr ∧ c'.entryUs = sample.us) ∧
    ∀ (hz c₀ c₁ cpuClockHz : UInt32) s tr s', hz ≠ 0 → c₁ ≤ c₀ →
      s.continuity.capsule.entryUs = startupMicroseconds hz c₀ →
      Runs ((netClockInitialize cpuClockHz).held s) tr (true, s') →
      (∀ sample, (⟨.sample, some sample⟩ : Event NetSig) ∈ tr →
        sample.us = startupMicroseconds hz c₁) →
      ((c₀.toNat : ℚ) - c₁.toNat) * 1000000 / hz.toNat ≤
          1000 * (s'.clock.startupElapsedMs.toNat : ℚ) ∧
        1000 * (s'.clock.startupElapsedMs.toNat : ℚ) <
          ((c₀.toNat : ℚ) - c₁.toNat) * 1000000 / hz.toNat + 1001 := by
  refine ⟨fun s tr sample s' h => ?_, fun hz counter => ?_, fun hz counters h => ?_,
    fun excluded stub witness c tr c' h => early_entry h,
    fun hz c₀ c₁ cpuClockHz s tr s' hhz hle hentry h hsample => ?_⟩
  · obtain ⟨hhz, counter, hread, hus, -⟩ := gptmRead_some h
    exact ⟨hhz, counter, hread, hus⟩
  · rw [ticks_sub]
    exact ⟨ticks_fit counter, toNat_startupMicroseconds hz counter⟩
  · exact List.pairwise_map.mpr (h.imp startupMicroseconds_mono)
  · obtain ⟨sample, hevent, -, hoffset, -⟩ := netClock_true h
    rw [hsample sample hevent, hentry, toNat_startupMicroseconds,
      toNat_startupMicroseconds] at hoffset
    have hpos : 0 < hz.toNat := Nat.pos_of_ne_zero fun h0 => hhz (UInt32.toNat_inj.mp h0)
    have hc₀ := c₀.toNat_lt
    have hle' : c₁.toNat ≤ c₀.toNat := UInt32.le_iff_toNat_le.mp hle
    have hticks : startupTicks c₀ * 1000000 ≤ startupTicks c₁ * 1000000 := by
      unfold startupTicks
      omega
    have hexact : ((startupTicks c₁ * 1000000 : Nat) : ℚ) - (startupTicks c₀ * 1000000 : Nat) =
        ((c₀.toNat : ℚ) - c₁.toNat) * 1000000 := by
      unfold startupTicks
      rw [Nat.cast_mul, Nat.cast_mul, Nat.cast_sub (by omega), Nat.cast_sub (by omega)]
      push_cast
      ring
    have hbounds := elapsed_bounds hpos hticks
    rw [hexact, ← hoffset] at hbounds
    exact hbounds

/-- The capsule of an application that is ready at 8 MHz, entered at the counter 4294967290. -/
def readyNet : NetObjects where
  clock := .start
  continuity := {
    capsule := { BootStartup.zeroed (fun _ => 0) with
      magic := bootStartupMagic
      version := 1
      bytes := bootStartupBytes
      abi := bootStartupAbi
      state := .cReady
      hz := 8000000
      reload := 40000000
      entryUs := startupMicroseconds 8000000 4294967290
      watchdog := { bootWatchdogInit with
        configured := true
        owner := .application
        reload := 40000000 }
      publication := { bootDiagPublicationZero with associated := true }
      clock := ⟨0, 0, 1, 1, 8000000, bootStartupGptmSource⟩
      placed := true }
    gptm := ⟨true, 8000000, 2, gptmClaimed, 0, 0⟩
    bound := true }

/-- Quiet registers, and a clock whose counter is at 4286967290. -/
def quietNet : (op : NetOp) → Unit → NetSig.Ans op × Unit
  | .readRegister _, _ => (0, ())
  | .writeRegister _ _, _ => ((), ())
  | .maskedThread, _ => (true, ())
  | .barrier, _ => ((), ())
  | .unmask, _ => ((), ())
  | .sample, _ => (some ⟨startupMicroseconds 8000000 4286967290, 0, 0, 8000000,
      bootStartupGptmSource⟩, ())

theorem quietNet_answers {α : Type} {p : Prog NetSig α} {e : Event NetSig}
    (h : e ∈ p.trace quietNet ()) : e.ans = (quietNet e.op ()).1 := by
  induction p with
  | ret a => cases h
  | call op k ih =>
      obtain rfl | h := List.mem_cons.mp h
      · rfl
      · exact ih _ h

/-- One second and its ceiling. -/
theorem startup_elapsed_conservative_second :
    (((4294967290 : UInt32).toNat : ℚ) - (4286967290 : UInt32).toNat) * 1000000 /
      (8000000 : UInt32).toNat ≤ 1000 * (1001 : ℚ) ∧
    1000 * (1001 : ℚ) <
      (((4294967290 : UInt32).toNat : ℚ) - (4286967290 : UInt32).toNat) * 1000000 /
        (8000000 : UInt32).toNat + 1001 := by
  have hrun := runs_trace quietNet ((netClockInitialize 8000000).held readyNet) ()
  have htrue : (((netClockInitialize 8000000).held readyNet).run quietNet ()).1.1 = true := by
    decide +kernel
  have hms : (((netClockInitialize 8000000).held readyNet).run quietNet
      ()).1.2.clock.startupElapsedMs = 1001 := by decide +kernel
  generalize hout : (((netClockInitialize 8000000).held readyNet).run quietNet ()).1 = out
    at hrun htrue hms
  obtain ⟨ok, s'⟩ := out
  obtain rfl : ok = true := htrue
  have hbounds := startup_elapsed_conservative.2.2.2.2 8000000 4294967290 4286967290 8000000
    readyNet _ s' (by decide) (by decide) rfl hrun ?_
  · rw [hms] at hbounds
    exact hbounds
  · intro sample hevent
    exact congrArg BootStartupSample.us (Option.some.inj (quietNet_answers hevent))

end EkBareMetal.Boot

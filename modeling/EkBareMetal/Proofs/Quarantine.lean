import EkBareMetal.Proofs.Flash

/-!
# The quarantine of the flash controller

A command whose end was not seen must not be followed by another one, so from
the keyed write on the driver is blocked until it has compared the array, and
it stays blocked until a recovery has found the controller idle. The results
are about every run of calls with any answers, except for the last part: on a
device that does what its registers say, a command reported as done has done
exactly what was asked.
-/

namespace EkBareMetal.Boot

open Words Interact Transition ByteMem FlashDevice

/-! ## Calls -/

inductive FlashCall where
  | read (address : UInt32) (size : Nat)
  | program (address word : UInt32)
  | erase (address : UInt32)
  | recover
  deriving DecidableEq

def FlashCall.run (f : BootFlash) : FlashCall → Prog FlashSig FlashReply
  | .read address size => do
      let (r, f) ← bootFlashRead f address size
      pure (flashCode r, f)
  | .program address word => bootFlashProgram f address word
  | .erase address => bootFlashErase f address
  | .recover => bootFlashRecover f

structure FlashLabel where
  call : FlashCall
  events : List (Event FlashSig)
  result : BootFlashResult

def FlashStep (f : BootFlash) (l : FlashLabel) (f' : BootFlash) : Prop :=
  Runs (l.call.run f) l.events (l.result, f')

/-! ## What the driver asks for -/

/-- The request starts no command. -/
def Harmless (e : Event FlashSig) : Prop :=
  ∀ v, e.op ≠ .writeRegister bootFlashFmc v

section Requests

variable {tr : List (Event FlashSig)} {r : BootFlashResult}

theorem idle_runs {n : Nat} (h : Runs (idle n) tr r) :
    ∀ e ∈ tr, e.op = .readRegister bootFlashFmc := by
  induction n generalizing tr with
  | zero =>
      obtain ⟨rfl, -⟩ := runs_pure_iff.mp h
      exact fun e he => absurd he List.not_mem_nil
  | succ n ih =>
      obtain ⟨answer, rest, rfl, hk⟩ := runs_ask_iff.mp h
      have hrest : ∀ e ∈ rest, e.op = .readRegister bootFlashFmc := by
        cases answer with
        | none =>
            obtain ⟨rfl, -⟩ := runs_pure_iff.mp hk
            exact fun e he => absurd he List.not_mem_nil
        | some value =>
            dsimp only at hk
            split at hk
            · obtain ⟨rfl, -⟩ := runs_pure_iff.mp hk
              exact fun e he => absurd he List.not_mem_nil
            · exact ih hk
      exact List.forall_mem_cons.mpr ⟨rfl, hrest⟩

/-- One look that found no command bit. -/
theorem idle_ok (h : Runs (idle 1) tr .ok) :
    ∃ value, tr = [⟨.readRegister bootFlashFmc, some value⟩] ∧
      value &&& flashCommands = 0 := by
  obtain ⟨answer, rest, rfl, hk⟩ := runs_ask_iff.mp h
  cases answer with
  | none =>
      obtain ⟨-, he⟩ := runs_pure_iff.mp hk
      cases he
  | some value =>
      dsimp only at hk
      split at hk
      · next hidle =>
          obtain ⟨rfl, -⟩ := runs_pure_iff.mp hk
          exact ⟨value, rfl, hidle⟩
      · obtain ⟨-, he⟩ := runs_pure_iff.mp hk
        cases he

theorem clearStatus_runs (h : Runs clearStatus tr r) :
    (∀ e ∈ tr, e.op = .writeRegister bootFlashFcmisc flashStatus ∨
      e.op = .readRegister bootFlashFcris) ∧
    (r = .ok → ∃ value, tr = [⟨.writeRegister bootFlashFcmisc flashStatus, true⟩,
      ⟨.readRegister bootFlashFcris, some value⟩] ∧ value &&& flashStatus = 0) := by
  obtain ⟨done, rest, rfl, hk⟩ := runs_ask_iff.mp h
  cases done with
  | false =>
      obtain ⟨rfl, rfl⟩ := runs_pure_iff.mp hk
      exact ⟨List.forall_mem_singleton.mpr (.inl rfl), nofun⟩
  | true =>
      obtain ⟨answer, rest, rfl, hl⟩ := runs_ask_iff.mp hk
      have hops : ∀ e ∈ ([⟨.writeRegister bootFlashFcmisc flashStatus, true⟩,
          ⟨.readRegister bootFlashFcris, answer⟩] : List (Event FlashSig)),
          e.op = .writeRegister bootFlashFcmisc flashStatus ∨
            e.op = .readRegister bootFlashFcris :=
        List.forall_mem_cons.mpr ⟨.inl rfl, List.forall_mem_singleton.mpr (.inr rfl)⟩
      cases answer with
      | none =>
          obtain ⟨rfl, rfl⟩ := runs_pure_iff.mp hl
          exact ⟨hops, nofun⟩
      | some value =>
          obtain ⟨rfl, rfl⟩ := runs_pure_iff.mp hl
          refine ⟨hops, fun hok => ⟨value, rfl, ?_⟩⟩
          by_contra hne
          rw [if_neg hne] at hok
          cases hok

theorem checkBits_runs {address word command : UInt32}
    (h : Runs (checkBits address word command) tr r) :
    (∀ e ∈ tr, Harmless e) ∧
    (r = .ok → if command = flashWrite then
      ∃ bytes : Bytes bootProgramBytes,
        tr = [⟨.readFlash address bootProgramBytes, some bytes⟩] ∧
          get32 bytes.val &&& word = word
      else tr = []) := by
  rw [checkBits] at h
  split at h
  · next hw =>
      rw [if_pos hw]
      obtain ⟨answer, rest, rfl, hk⟩ := runs_ask_iff.mp h
      cases answer with
      | none =>
          obtain ⟨rfl, rfl⟩ := runs_pure_iff.mp hk
          exact ⟨List.forall_mem_singleton.mpr fun _ => nofun, nofun⟩
      | some bytes =>
          obtain ⟨rfl, rfl⟩ := runs_pure_iff.mp hk
          refine ⟨List.forall_mem_singleton.mpr fun _ => nofun, fun hok =>
            ⟨bytes, rfl, ?_⟩⟩
          by_contra hne
          rw [if_pos hne] at hok
          cases hok
  · next hw =>
      rw [if_neg hw]
      obtain ⟨rfl, rfl⟩ := runs_pure_iff.mp h
      exact ⟨fun e he => absurd he List.not_mem_nil, fun _ => rfl⟩

theorem latch_runs {address word command : UInt32} {done : Bool}
    (h : Runs (latch address word command) tr done) :
    (∀ e ∈ tr, Harmless e) ∧
    (done = true → tr = if command = flashWrite then
      [⟨.writeRegister bootFlashFmd word, true⟩,
        ⟨.writeRegister bootFlashFma address, true⟩]
      else [⟨.writeRegister bootFlashFma address, true⟩]) := by
  have hfma {tr : List (Event FlashSig)}
      (h : Runs (FlashOp.askWrite bootFlashFma address) tr done) :
      tr = [⟨.writeRegister bootFlashFma address, done⟩] := by
    obtain ⟨a, rest, rfl, hk⟩ := runs_call_iff.mp h
    obtain ⟨rfl, rfl⟩ := runs_ret_iff.mp hk
    rfl
  have hharmless {address value : UInt32} {a : Bool} (ha : address ≠ bootFlashFmc) :
      Harmless ⟨.writeRegister address value, a⟩ := by
    intro v he
    injection he with he
    exact ha he
  rw [latch] at h
  split at h
  · next hw =>
      rw [if_pos hw]
      obtain ⟨a, rest, rfl, hk⟩ := runs_ask_iff.mp h
      cases a with
      | false =>
          obtain ⟨rfl, rfl⟩ := runs_pure_iff.mp hk
          exact ⟨List.forall_mem_singleton.mpr (hharmless (by decide)), nofun⟩
      | true =>
          obtain rfl := hfma hk
          refine ⟨List.forall_mem_cons.mpr ⟨hharmless (by decide),
            List.forall_mem_singleton.mpr (hharmless (by decide))⟩, ?_⟩
          rintro rfl
          rfl
  · next hw =>
      rw [if_neg hw]
      obtain rfl := hfma h
      refine ⟨List.forall_mem_singleton.mpr (hharmless (by decide)), ?_⟩
      rintro rfl
      rfl

end Requests

/-! ## The state between calls -/

/-- A driver is blocked exactly while it has a cause for it. -/
def Sealed (f : BootFlash) : Prop := f.blocked = false ↔ f.blockedResult = .ok

/-- What a call can make of the state: nothing, the start of a quarantine, or,
in a recovery, its end. -/
inductive FlashOutcome (f : BootFlash) (r : BootFlashResult) : BootFlash → Prop where
  | stays (h : f.blocked = true → r ≠ .ok) : FlashOutcome f r f
  | starts (hfree : f.blocked = false) (hr : r ≠ .ok) :
      FlashOutcome f r { f with blocked := true, blockedResult := r }
  | ends (hr : r = .ok) :
      FlashOutcome f r { f with blocked := false, blockedResult := .ok }

section Outcome

variable {f f' : BootFlash} {r : BootFlashResult}

theorem leave_free (h : f.blocked = false) : leave f r = f := by
  rw [leave, h]
  rfl

theorem leave_kept (h : f.blockedResult ≠ .ok) : leave f r = f := by
  rw [leave, beq_eq_false_iff_ne.mpr h, Bool.and_false, Bool.false_and]
  rfl

/-- A call that blocked the driver and failed. -/
theorem outcome_blocks (hs : Sealed f) (hr : r ≠ .ok) :
    FlashOutcome f r (leave { f with blocked := true } r) := by
  by_cases hb : f.blocked = true
  · have hcause : f.blockedResult ≠ .ok := fun h => by
      rw [hs.mpr h] at hb
      cases hb
    have hsame : { f with blocked := true } = f := by rw [← hb]
    rw [hsame, leave_kept hcause]
    exact .stays fun _ => hr
  · have hfree : f.blocked = false := Bool.eq_false_iff.mpr hb
    have hfirst : leave { f with blocked := true } r =
        { f with blocked := true, blockedResult := r } := by
      rw [leave, if_pos]
      rw [hs.mp hfree]
      exact bne_iff_ne.mpr hr
    rw [hfirst]
    exact .starts hfree hr

theorem FlashOutcome.sealed (hs : Sealed f) (h : FlashOutcome f r f') : Sealed f' := by
  cases h with
  | stays _ => exact hs
  | starts _ hr => exact ⟨nofun, fun h => absurd h hr⟩
  | ends _ => exact ⟨fun _ => rfl, fun _ => rfl⟩

theorem outcome_free (hfree : f.blocked = false) : FlashOutcome f r (leave f r) := by
  rw [leave_free hfree]
  refine .stays fun hb => ?_
  rw [hfree] at hb
  cases hb

theorem outcome_refuses (hr : r ≠ .ok) : FlashOutcome f r f := .stays fun _ => hr

end Outcome

/-! ## Programs and erases -/

/-- Everything that came before a command: the controller was found idle and
clocked as stated, a word to program only clears bits, both sources were
cleared, and the data and the address were latched. -/
def Prepared (f : BootFlash) (address word command : UInt32)
    (before : List (Event FlashSig)) : Prop :=
  ∃ control clock status bits,
    before = [⟨.readRegister bootFlashFmc, some control⟩,
        ⟨.readRegister bootFlashUsecrl, some clock⟩] ++ bits ++
      [⟨.writeRegister bootFlashFcmisc flashStatus, true⟩,
        ⟨.readRegister bootFlashFcris, some status⟩] ++
      (if command = flashWrite then
        [⟨.writeRegister bootFlashFmd word, true⟩,
          ⟨.writeRegister bootFlashFma address, true⟩]
      else [⟨.writeRegister bootFlashFma address, true⟩]) ∧
    control &&& flashCommands = 0 ∧ clock &&& 255 = f.mhz - 1 ∧
    status &&& flashStatus = 0 ∧
    if command = flashWrite then
      ∃ bytes : Bytes bootProgramBytes,
        bits = [⟨.readFlash address bootProgramBytes, some bytes⟩] ∧
          get32 bytes.val &&& word = word
    else bits = []

/-- The one command of a call, if it got as far. -/
inductive Commands (f : BootFlash) (address word command : UInt32) :
    List (Event FlashSig) → BootFlashResult → BootFlash → Prop where
  | none {tr : List (Event FlashSig)} {r : BootFlashResult} {f' : BootFlash}
      (h : ∀ e ∈ tr, Harmless e) (hr : r ≠ .ok) :
      Commands f address word command tr r f'
  | one {before after : List (Event FlashSig)} {a : Bool} {r : BootFlashResult}
      {f' : BootFlash} (hbefore : Prepared f address word command before)
      (hafter : ∀ e ∈ after, Harmless e) (hfail : r ≠ .ok → f'.blocked = true) :
      Commands f address word command
        (before ++ ⟨.writeRegister bootFlashFmc (flashKey ||| command), a⟩ :: after)
        r f'

theorem launch_runs {polls address word command : UInt32}
    {tr : List (Event FlashSig)} {r : BootFlashResult}
    (h : Runs (launch polls address word command) tr r) :
    ∃ a after, tr = ⟨.writeRegister bootFlashFmc (flashKey ||| command), a⟩ :: after ∧
      ∀ e ∈ after, Harmless e := by
  obtain ⟨a, rest, rfl, hk⟩ := runs_ask_iff.mp h
  refine ⟨a, rest, rfl, ?_⟩
  have hnil : ∀ e ∈ ([] : List (Event FlashSig)), Harmless e :=
    fun e he => absurd he List.not_mem_nil
  cases a with
  | false =>
      obtain ⟨rfl, -⟩ := runs_pure_iff.mp hk
      exact hnil
  | true =>
  obtain ⟨tr₁, r₁, tr₂, rfl, hidle, hl⟩ := runs_bind_iff'.mp hk
  have hpolls : ∀ e ∈ tr₁, Harmless e := fun e he v hw => by
    rw [idle_runs hidle e he] at hw
    cases hw
  refine List.forall_mem_append.mpr ⟨hpolls, ?_⟩
  split at hl
  · obtain ⟨rfl, -⟩ := runs_pure_iff.mp hl
    exact hnil
  obtain ⟨answer, rest, rfl, hm⟩ := runs_ask_iff.mp hl
  refine List.forall_mem_cons.mpr ⟨fun _ => nofun, ?_⟩
  cases answer with
  | none =>
      obtain ⟨rfl, -⟩ := runs_pure_iff.mp hm
      exact hnil
  | some value =>
  dsimp only at hm
  split at hm
  · obtain ⟨rfl, -⟩ := runs_pure_iff.mp hm
    exact hnil
  split at hm
  · obtain ⟨rfl, -⟩ := runs_pure_iff.mp hm
    exact hnil
  obtain ⟨answer, rest, rfl, hn⟩ := runs_ask_iff.mp hm
  refine List.forall_mem_cons.mpr ⟨fun _ => nofun, ?_⟩
  cases answer <;>
    obtain ⟨rfl, -⟩ := runs_pure_iff.mp hn <;>
    exact hnil

section Modify

variable {f f' : BootFlash} {address word command : UInt32}
  {tr : List (Event FlashSig)} {r : BootFlashResult}

theorem harmless_clear {e : Event FlashSig}
    (h : e.op = .writeRegister bootFlashFcmisc flashStatus ∨
      e.op = .readRegister bootFlashFcris) : Harmless e := by
  intro v hv
  rcases h with h | h
  · rw [h] at hv
    injection hv with ha
    exact absurd ha (by decide)
  · rw [h] at hv
    cases hv

/-- From the checks of the bits on, with what had been asked before them. -/
theorem modifyIdle_runs {control clock : UInt32} (hs : Sealed f)
    (hfree : f.blocked = false) (hcontrol : control &&& flashCommands = 0)
    (hclock : clock &&& 255 = f.mhz - 1)
    (h : Runs (modifyIdle f address word command) tr (r, f')) :
    FlashOutcome f r f' ∧
      Commands f address word command
        (⟨.readRegister bootFlashFmc, some control⟩ ::
          ⟨.readRegister bootFlashUsecrl, some clock⟩ :: tr) r f' := by
  have stops {tr : List (Event FlashSig)} (htr : ∀ e ∈ tr, Harmless e)
      (hr : r ≠ .ok) : Commands f address word command
        (⟨.readRegister bootFlashFmc, some control⟩ ::
          ⟨.readRegister bootFlashUsecrl, some clock⟩ :: tr) r (leave f r) := by
    refine .none (List.forall_mem_cons.mpr ⟨fun _ => nofun, ?_⟩) hr
    exact List.forall_mem_cons.mpr ⟨fun _ => nofun, htr⟩
  obtain ⟨tr₁, r₁, tr₂, rfl, hbits, hk⟩ := runs_bind_iff'.mp h
  obtain ⟨hquiet₁, hbits⟩ := checkBits_runs hbits
  split at hk
  · next hne =>
      obtain ⟨rfl, he⟩ := runs_pure_iff.mp hk
      cases he
      rw [List.append_nil]
      exact ⟨outcome_free hfree, stops hquiet₁ hne⟩
  next hok =>
  replace hbits := hbits (Decidable.not_not.mp hok)
  obtain ⟨tr₃, r₃, tr₄, rfl, hclear, hl⟩ := runs_bind_iff'.mp hk
  obtain ⟨hops, hclear⟩ := clearStatus_runs hclear
  have hquiet₃ : ∀ e ∈ tr₃, Harmless e := fun e he => harmless_clear (hops e he)
  split at hl
  · next hne =>
      obtain ⟨rfl, he⟩ := runs_pure_iff.mp hl
      cases he
      rw [List.append_nil]
      exact ⟨outcome_free hfree,
        stops (List.forall_mem_append.mpr ⟨hquiet₁, hquiet₃⟩) hne⟩
  next hok₃ =>
  obtain ⟨status, rfl, hstatus⟩ := hclear (Decidable.not_not.mp hok₃)
  obtain ⟨tr₅, latched, tr₆, rfl, hlatch, hm⟩ := runs_bind_iff'.mp hl
  obtain ⟨hquiet₅, hlatch⟩ := latch_runs hlatch
  cases latched with
  | false =>
      obtain ⟨rfl, he⟩ := runs_pure_iff.mp hm
      cases he
      rw [List.append_nil]
      exact ⟨outcome_free hfree, stops (List.forall_mem_append.mpr ⟨hquiet₁,
        List.forall_mem_append.mpr ⟨hquiet₃, hquiet₅⟩⟩) nofun⟩
  | true =>
  obtain rfl := hlatch rfl
  obtain ⟨tr₇, r₇, tr₈, rfl, hlaunch, hn⟩ := runs_bind_iff'.mp hm
  obtain ⟨a, after, rfl, hafter⟩ := launch_runs hlaunch
  have hprepared : Prepared f address word command _ :=
    ⟨control, clock, status, tr₁, rfl, hcontrol, hclock, hstatus, hbits⟩
  split at hn
  · next hne =>
      obtain ⟨rfl, he⟩ := runs_pure_iff.mp hn
      cases he
      refine ⟨outcome_blocks hs hne, ?_⟩
      have hone : Commands f address word command _ r
          (leave { f with blocked := true } r) :=
        .one (a := a) hprepared hafter fun _ => leave_blocked _ _
      simpa using hone
  · obtain ⟨rfl, he⟩ := runs_pure_iff.mp hn
    cases he
    have hsame : { f with blocked := false } = f := by rw [← hfree]
    have hone : Commands f address word command _ .ok { f with blocked := false } :=
      .one (a := a) hprepared hafter fun hne => absurd rfl hne
    refine ⟨?_, by simpa using hone⟩
    rw [hsame]
    refine .stays fun hb => ?_
    rw [hfree] at hb
    cases hb

theorem modify_runs (hs : Sealed f) (h : Runs (modify f address word command) tr (r, f')) :
    FlashOutcome f r f' ∧ Commands f address word command tr r f' ∧
      (f.blocked = true → tr = [] ∧ r ≠ .ok ∧ f' = f) ∧
      (r = .ok → range address (commandBytes command) bootMetadataPage0
        bootSlotBEnd = true ∧ address.toNat % commandBytes command = 0) := by
  have hnone : ∀ e ∈ ([] : List (Event FlashSig)), Harmless e :=
    fun e he => absurd he List.not_mem_nil
  have free_absurd {p : Prop} (hfree : f.blocked = false) (hb : f.blocked = true) : p := by
    rw [hfree] at hb
    cases hb
  rw [modify] at h
  split at h
  · obtain ⟨rfl, he⟩ := runs_pure_iff.mp h
    cases he
    exact ⟨outcome_refuses nofun, .none hnone nofun, fun _ => ⟨rfl, nofun, rfl⟩, nofun⟩
  next hargs =>
  have hplace : range address (commandBytes command) bootMetadataPage0
      bootSlotBEnd = true ∧ address.toNat % commandBytes command = 0 := by
    simpa using hargs
  split at h
  · next hb =>
      obtain ⟨rfl, he⟩ := runs_pure_iff.mp h
      cases he
      have hcause : f.blockedResult ≠ .ok := fun hc => by
        rw [hs.mpr hc] at hb
        cases hb
      rw [leave_kept hcause]
      exact ⟨outcome_refuses nofun, .none hnone nofun, fun _ => ⟨rfl, nofun, rfl⟩, nofun⟩
  next hb =>
  have hfree : f.blocked = false := Bool.eq_false_iff.mpr hb
  suffices hcall : FlashOutcome f r f' ∧ Commands f address word command tr r f' from
    ⟨hcall.1, hcall.2, fun hb => free_absurd hfree hb, fun _ => hplace⟩
  obtain ⟨tr₁, r₁, tr₂, rfl, hidle, hk⟩ := runs_bind_iff'.mp h
  have hpoll : ∀ e ∈ tr₁, Harmless e := fun e he v hv => by
    rw [idle_runs hidle e he] at hv
    cases hv
  split at hk
  · next hne =>
      obtain ⟨rfl, he⟩ := runs_pure_iff.mp hk
      cases he
      rw [List.append_nil]
      exact ⟨outcome_blocks hs hne, .none hpoll hne⟩
  next hok =>
  obtain rfl : r₁ = .ok := Decidable.not_not.mp hok
  obtain ⟨control, rfl, hcontrol⟩ := idle_ok hidle
  obtain ⟨clock, rest, rfl, hl⟩ := runs_ask_iff.mp hk
  have hlooks : ∀ e ∈ ([⟨.readRegister bootFlashFmc, some control⟩] ++
      [⟨.readRegister bootFlashUsecrl, clock⟩] : List (Event FlashSig)), Harmless e :=
    List.forall_mem_append.mpr ⟨hpoll, List.forall_mem_singleton.mpr fun _ => nofun⟩
  cases clock with
  | none =>
      obtain ⟨rfl, he⟩ := runs_pure_iff.mp hl
      cases he
      exact ⟨outcome_free hfree, .none hlooks nofun⟩
  | some clock =>
  dsimp only at hl
  split at hl
  · obtain ⟨rfl, he⟩ := runs_pure_iff.mp hl
    cases he
    exact ⟨outcome_free hfree, .none hlooks nofun⟩
  · next hclock =>
      exact modifyIdle_runs hs hfree hcontrol (Decidable.not_not.mp hclock) hl

end Modify

/-! ## Reads and recoveries -/

section Calls

variable {f f' : BootFlash} {tr : List (Event FlashSig)} {r : BootFlashResult}

theorem sealed_cause (hs : Sealed f) (hb : f.blocked = true) : f.blockedResult ≠ .ok := by
  intro hc
  rw [hs.mpr hc] at hb
  cases hb

theorem read_runs {address : UInt32} {size : Nat} (hs : Sealed f)
    (h : Runs (FlashCall.run f (.read address size)) tr (r, f')) :
    FlashOutcome f r f' ∧ (∀ e ∈ tr, Harmless e) ∧
      (f.blocked = true → tr = [] ∧ r ≠ .ok ∧ f' = f) := by
  have hnone : ∀ e ∈ ([] : List (Event FlashSig)), Harmless e :=
    fun e he => absurd he List.not_mem_nil
  obtain ⟨tr₁, x, tr₂, rfl, hcall, hret⟩ := runs_bind_iff'.mp h
  obtain ⟨rfl, he⟩ := runs_pure_iff.mp hret
  rw [List.append_nil]
  rw [bootFlashRead] at hcall
  split at hcall
  · obtain ⟨rfl, rfl⟩ := runs_pure_iff.mp hcall
    cases he
    exact ⟨outcome_refuses nofun, hnone, fun _ => ⟨rfl, nofun, rfl⟩⟩
  split at hcall
  · next hb =>
      obtain ⟨rfl, rfl⟩ := runs_pure_iff.mp hcall
      cases he
      rw [leave_kept (sealed_cause hs hb)]
      exact ⟨outcome_refuses nofun, hnone, fun _ => ⟨rfl, nofun, rfl⟩⟩
  next hb =>
  have hfree : f.blocked = false := Bool.eq_false_iff.mpr hb
  obtain ⟨tr₃, r₃, tr₄, rfl, hidle, hk⟩ := runs_bind_iff'.mp hcall
  have hpoll : ∀ e ∈ tr₃, Harmless e := fun e he v hv => by
    rw [idle_runs hidle e he] at hv
    cases hv
  split at hk
  · next hne =>
      obtain ⟨rfl, rfl⟩ := runs_pure_iff.mp hk
      cases he
      rw [List.append_nil]
      exact ⟨outcome_blocks hs hne, hpoll, fun hb' => absurd hb' hb⟩
  obtain ⟨bytes, rest, rfl, hl⟩ := runs_ask_iff.mp hk
  have hread : ∀ e ∈ tr₃ ++ [⟨.readFlash address size, bytes⟩], Harmless e :=
    List.forall_mem_append.mpr ⟨hpoll, List.forall_mem_singleton.mpr fun _ => nofun⟩
  cases bytes with
  | none =>
      obtain ⟨rfl, rfl⟩ := runs_pure_iff.mp hl
      cases he
      exact ⟨outcome_free hfree, hread, fun hb' => absurd hb' hb⟩
  | some bytes =>
      obtain ⟨rfl, rfl⟩ := runs_pure_iff.mp hl
      cases he
      exact ⟨.stays fun hb' => absurd hb' hb, hread, fun hb' => absurd hb' hb⟩

/-- A recovery looks at the command register and clears the status, and
touches nothing else. -/
theorem recover_runs (hs : Sealed f) (h : Runs (bootFlashRecover f) tr (r, f')) :
    FlashOutcome f r f' ∧
      ∀ e ∈ tr, e.op = .readRegister bootFlashFmc ∨
        e.op = .writeRegister bootFlashFcmisc flashStatus ∨
        e.op = .readRegister bootFlashFcris := by
  obtain ⟨tr₁, r₁, tr₂, rfl, hidle, hk⟩ := runs_bind_iff'.mp h
  have hpoll : ∀ e ∈ tr₁, e.op = .readRegister bootFlashFmc ∨
      e.op = .writeRegister bootFlashFcmisc flashStatus ∨
      e.op = .readRegister bootFlashFcris := fun e he => .inl (idle_runs hidle e he)
  split at hk
  · next hne =>
      obtain ⟨rfl, he⟩ := runs_pure_iff.mp hk
      cases he
      rw [List.append_nil]
      exact ⟨outcome_blocks hs hne, hpoll⟩
  obtain ⟨tr₃, r₃, tr₄, rfl, hclear, hl⟩ := runs_bind_iff'.mp hk
  have hops : ∀ e ∈ tr₁ ++ tr₃, e.op = .readRegister bootFlashFmc ∨
      e.op = .writeRegister bootFlashFcmisc flashStatus ∨
      e.op = .readRegister bootFlashFcris :=
    List.forall_mem_append.mpr ⟨hpoll, fun e he => .inr ((clearStatus_runs hclear).1 e he)⟩
  split at hl
  · next hne =>
      obtain ⟨rfl, he⟩ := runs_pure_iff.mp hl
      cases he
      rw [List.append_nil]
      exact ⟨outcome_blocks hs hne, hops⟩
  · obtain ⟨rfl, he⟩ := runs_pure_iff.mp hl
    cases he
    rw [List.append_nil]
    exact ⟨.ends rfl, hops⟩

end Calls

/-! ## Every call -/

/-- The page or word a call is to change, and the command that changes it. -/
def FlashCall.target : FlashCall → Option (UInt32 × UInt32 × UInt32)
  | .program address word => some (address, word, flashWrite)
  | .erase address => some (address, 0, flashErase)
  | _ => none

/-- What is promised of one call. -/
structure FlashAccount (f : BootFlash) (l : FlashLabel) (f' : BootFlash) : Prop where
  /-- A blocked driver has a cause, and no other does. -/
  between : Sealed f'
  outcome : FlashOutcome f l.result f'
  /-- A command is only started by a program or an erase: once, with the key
  and its own bit, when everything was prepared; and a failure after it blocks
  the driver. -/
  command : match l.call.target with
    | some (address, word, command) =>
        Commands f address word command l.events l.result f'
    | none => ∀ e ∈ l.events, Harmless e
  /-- A blocked driver answers nothing but a recovery. -/
  blocked : f.blocked = true → l.call ≠ .recover →
    l.events = [] ∧ l.result ≠ .ok ∧ f' = f
  recover : l.call = .recover → ∀ e ∈ l.events, ∀ v,
    e.op ≠ .writeRegister bootFlashFmc v ∧ e.op ≠ .writeRegister bootFlashFma v ∧
      e.op ≠ .writeRegister bootFlashFmd v

theorem step_account {f f' : BootFlash} {l : FlashLabel} (hs : Sealed f)
    (h : FlashStep f l f') : FlashAccount f l f' := by
  rcases l with ⟨call, events, result⟩
  rw [FlashStep] at h
  cases call with
  | read address size =>
      obtain ⟨hout, hquiet, hblocked⟩ := read_runs hs h
      exact ⟨hout.sealed hs, hout, hquiet, fun hb _ => hblocked hb, nofun⟩
  | program address word =>
      obtain ⟨hout, hcommand, hblocked, -⟩ := modify_runs hs h
      exact ⟨hout.sealed hs, hout, hcommand, fun hb _ => hblocked hb, nofun⟩
  | erase address =>
      obtain ⟨hout, hcommand, hblocked, -⟩ := modify_runs hs h
      exact ⟨hout.sealed hs, hout, hcommand, fun hb _ => hblocked hb, nofun⟩
  | recover =>
      obtain ⟨hout, hops⟩ := recover_runs hs h
      have hnot : ∀ e ∈ events, ∀ v, e.op ≠ .writeRegister bootFlashFmc v ∧
          e.op ≠ .writeRegister bootFlashFma v ∧
          e.op ≠ .writeRegister bootFlashFmd v := by
        intro e he v
        rcases hops e he with hop | hop | hop
        · rw [hop]
          exact ⟨nofun, nofun, nofun⟩
        · rw [hop]
          refine ⟨fun hv => ?_, fun hv => ?_, fun hv => ?_⟩ <;>
            injection hv with ha <;> exact absurd ha (by decide)
        · rw [hop]
          exact ⟨nofun, nofun, nofun⟩
      exact ⟨hout.sealed hs, hout, fun e he v => (hnot e he v).1,
        fun _ hne => absurd rfl hne, fun _ => hnot⟩

/-! ## The cause of a quarantine -/

/-- While the driver is blocked, its cause is the result of the call that
blocked it, whatever was called since. -/
def Episode (f₀ : BootFlash) (tr : List (FlashLabel × BootFlash)) (f : BootFlash) :
    Prop :=
  f.blocked = true → ∃ pre x post a, tr = pre ++ x :: post ∧
    Run FlashStep f₀ pre a ∧ a.blocked = false ∧ x.1.result ≠ .ok ∧
    f.blockedResult = x.1.result ∧
    ∀ y ∈ x :: post, y.2.blocked = true ∧ y.2.blockedResult = x.1.result

theorem step_episode {f₀ f f' : BootFlash} {l : FlashLabel}
    {tr : List (FlashLabel × BootFlash)} (hr : Run FlashStep f₀ tr f)
    (h : Episode f₀ tr f) (ho : FlashOutcome f l.result f') :
    Episode f₀ (tr ++ [(l, f')]) f' := by
  intro hb
  cases ho with
  | stays _ =>
      obtain ⟨pre, x, post, a, rfl, ha, hfree, hne, hcause, hall⟩ := h hb
      refine ⟨pre, x, post ++ [(l, f)], a, ?_, ha, hfree, hne, hcause, ?_⟩
      · rw [List.append_assoc, List.cons_append]
      · rw [← List.cons_append]
        exact List.forall_mem_append.mpr ⟨hall, List.forall_mem_singleton.mpr ⟨hb, hcause⟩⟩
  | starts hfree hne =>
      exact ⟨tr, _, [], f, rfl, hr, hfree, hne, rfl,
        List.forall_mem_singleton.mpr ⟨rfl, rfl⟩⟩
  | ends _ => cases hb

theorem init_free {mhz polls : UInt32} {f : BootFlash}
    (h : bootFlashInit mhz polls = .ok f) : f.blocked = false ∧ Sealed f := by
  rw [bootFlashInit] at h
  split at h
  · cases h
  · cases h
    exact ⟨rfl, fun _ => rfl, fun _ => rfl⟩

/-- Between the calls of a run the driver is sealed, and every quarantine has
kept its first cause. -/
theorem run_sealed {f₀ f : BootFlash} {tr : List (FlashLabel × BootFlash)}
    (hfree : f₀.blocked = false) (hs : Sealed f₀) (h : Run FlashStep f₀ tr f) :
    Sealed f ∧ Episode f₀ tr f := by
  refine h.history (I := fun tr f => Sealed f ∧ Episode f₀ tr f) ?_ ⟨hs, fun hb => ?_⟩
  · intro tr a l b hr ⟨hsealed, hepisode⟩ hstep
    have haccount := step_account hsealed hstep
    exact ⟨haccount.between, step_episode hr hepisode haccount.outcome⟩
  · rw [hfree] at hb
    cases hb

/-! ## On a device that does what its registers say -/

section Honest

variable {d : FlashDevice} {f : BootFlash}

/-- Whatever was under way, a controller seen idle has nothing under way. -/
theorem idle_settles (n : Nat) :
    wp controllerDevice (fun _ => True) (idle n)
      (fun r d' => r = .ok → d'.pending = none) d := by
  induction n generalizing d with
  | zero => exact nofun
  | succ n ih =>
      refine wp_ask_bind.mpr ⟨fun _ _ => trivial, fun answer d' hs => ?_⟩
      obtain ⟨d₁, -, rfl⟩ := hs
      cases answer with
      | none => exact nofun
      | some value =>
          dsimp only
          split
          · next hidle =>
              have hseen : seenIdle bootFlashFmc (some value) = true := by
                simp only [seenIdle, Option.any_some, hidle, beq_self_eq_true,
                  Bool.and_self]
              rw [if_pos hseen]
              exact fun _ => rfl
          · exact ih

theorem recover_wp :
    wp controllerDevice (fun _ => True) (bootFlashRecover f)
      (fun x d' => Quiet x.2 d') d := by
  rw [bootFlashRecover]
  refine wp_bind'.mpr (wp_post (idle_settles _) fun r d₁ h₁ => ?_)
  split
  · exact quiet_blocked
  next hok =>
  have hpending := h₁ (Decidable.not_not.mp hok)
  refine wp_bind'.mpr (wp_post (clearStatus_wp hpending trivial) fun r₂ d₂ h₂ => ?_)
  subst h₂
  split
  · exact quiet_blocked
  · exact fun _ => hpending

/-- A call against the device, and how it ended. -/
def HonestStep (x : BootFlash × FlashDevice) (l : FlashCall × BootFlashResult)
    (x' : BootFlash × FlashDevice) : Prop :=
  Exec controllerDevice (l.1.run x.1) x.2 (some (l.2, x'.1)) x'.2

/-- What a call reported as done has done to the array. -/
def Changed (c : FlashCall) (d d' : FlashDevice) : Prop :=
  ∀ address word command, c.target = some (address, word, command) →
    range address (commandBytes command) bootMetadataPage0 bootSlotBEnd = true ∧
    address.toNat % commandBytes command = 0 ∧
    d'.board.mem = d.board.mem.write address.toNat (commanded word command)

theorem modify_placed {address word command : UInt32} :
    wp controllerDevice (fun _ => True) (modify f address word command)
      (fun x _ => x.1 = .ok →
        range address (commandBytes command) bootMetadataPage0 bootSlotBEnd = true ∧
          address.toNat % commandBytes command = 0) d := by
  by_cases hargs : range address (commandBytes command) bootMetadataPage0
      bootSlotBEnd = true ∧ address.toNat % commandBytes command = 0
  · have htrue : wp controllerDevice (fun _ => True) (modify f address word command)
        (fun _ _ => True) d :=
      wp_only (A := fun _ => True) (fun _ _ _ _ _ _ _ => trivial)
        (fun _ _ _ _ _ _ => trivial) (Prog.only_true _) trivial
    exact wp_post htrue fun _ _ _ _ => hargs
  · have hrefused : modify f address word command = pure (.argument, f) := by
      rw [modify, if_pos]
      by_contra hne
      refine hargs ?_
      simpa using hne
    rw [hrefused]
    exact nofun

theorem honest_step {x x' : BootFlash × FlashDevice} {c : FlashCall}
    {r : BootFlashResult} (hq : Quiet x.1 x.2) (h : HonestStep x (c, r) x') :
    Quiet x'.1 x'.2 ∧ (r = .ok → Changed c x.2 x'.2) := by
  have modified {address word command : UInt32}
      (hc : command = flashWrite ∨ command = flashErase)
      (htarget : c.target = some (address, word, command))
      (h : Exec controllerDevice (modify x.1 address word command) x.2
        (some (r, x'.1)) x'.2) :
      Quiet x'.1 x'.2 ∧ (r = .ok → Changed c x.2 x'.2) := by
    have hmod := h.post (modify_wp (K := fun _ => True) hq hc fun _ _ => trivial)
    have hplace := h.post modify_placed
    refine ⟨hmod.quiet, fun hok a w k ht => ?_⟩
    rw [htarget] at ht
    cases ht
    exact ⟨(hplace hok).1, (hplace hok).2, (hmod.done hok).1⟩
  cases c with
  | read address size =>
      have hwp : wp controllerDevice (fun _ => True)
          (FlashCall.run x.1 (.read address size)) (fun y d' => Quiet y.2 d') x.2 := by
        refine wp_bind'.mpr (wp_post (read_wp hq trivial address size) ?_)
        rintro y d' ⟨rfl, hquiet, -⟩
        exact hquiet
      exact ⟨h.post hwp, fun _ a w k ht => nomatch ht⟩
  | program address word => exact modified (.inl rfl) rfl h
  | erase address => exact modified (.inr rfl) rfl h
  | recover => exact ⟨h.post recover_wp, fun _ a w k ht => nomatch ht⟩

end Honest

/-- Every call of every run after the initialization, with any answers; and,
on a device that was idle at the start and does what its registers say, what
a program or an erase that returned OK has changed. -/
theorem flash_quarantine {mhz polls : UInt32} {f₀ : BootFlash}
    (hinit : bootFlashInit mhz polls = .ok f₀) :
    (∀ tr f l f', Run FlashStep f₀ tr f → FlashStep f l f' →
      FlashAccount f l f' ∧ Episode f₀ (tr ++ [(l, f')]) f') ∧
    ∀ d₀ tr f d c f' d', d₀.pending = none → Run HonestStep (f₀, d₀) tr (f, d) →
      HonestStep (f, d) (c, .ok) (f', d') → Changed c d d' := by
  obtain ⟨hfree, hs⟩ := init_free hinit
  constructor
  · intro tr f l f' hr hstep
    obtain ⟨hsealed, hepisode⟩ := run_sealed hfree hs hr
    have haccount := step_account hsealed hstep
    exact ⟨haccount, step_episode hr hepisode haccount.outcome⟩
  · intro d₀ tr f d c f' d' hd hr hstep
    have hquiet : Quiet f d := hr.invariant (I := fun x => Quiet x.1 x.2)
      (fun hq hs => (honest_step hq hs).1) fun _ => hd
    exact (honest_step hquiet hstep).2 rfl

/-- A controller that takes so many commands, and then refuses its command register. Its
flash is erased. -/
def tiredController : (op : FlashOp) → Nat × UInt32 → FlashSig.Ans op × (Nat × UInt32)
  | .readRegister address, d =>
      (some (if address = bootFlashUsecrl then 49
        else if address = bootFlashFcris then d.2 else 0), d)
  | .writeRegister address _, d =>
      if address = bootFlashFcmisc then (true, (d.1, 0))
      else if address = bootFlashFmc then (d.1 != 0, (d.1 - 1, 2))
      else (true, d)
  | .readFlash _ size, d => (some ⟨List.replicate size 0xff, length_erased size⟩, d)

def tiredLabel (f : BootFlash) (call : FlashCall) (d : Nat × UInt32) : FlashLabel :=
  ⟨call, (call.run f).trace tiredController d, ((call.run f).run tiredController d).1.1⟩

theorem tired_step (f : BootFlash) (call : FlashCall) (d : Nat × UInt32) :
    FlashStep f (tiredLabel f call d) ((call.run f).run tiredController d).1.2 := by
  have hruns := runs_trace tiredController (call.run f) d
  exact hruns

/-- A word is programmed, the next one is not, and a read is refused behind it. -/
theorem flash_quarantine_tired :
    ∃ x y z, x.call = .program bootMetadataPage0 0xffffffff ∧ x.result = .ok ∧
      FlashAccount ⟨50, 1, false, .ok⟩ x ⟨50, 1, false, .ok⟩ ∧
      y.call = .program bootMetadataPage0 0xffffffff ∧ y.result = .io ∧
      FlashAccount ⟨50, 1, false, .ok⟩ y ⟨50, 1, true, .io⟩ ∧
      z.call = .read bootMetadataPage0 4 ∧ z.events = [] ∧
      FlashAccount ⟨50, 1, true, .io⟩ z ⟨50, 1, true, .io⟩ ∧
      Episode ⟨50, 1, false, .ok⟩ [(x, ⟨50, 1, false, .ok⟩), (y, ⟨50, 1, true, .io⟩),
        (z, ⟨50, 1, true, .io⟩)] ⟨50, 1, true, .io⟩ := by
  have hinit : bootFlashInit 50 1 = .ok ⟨50, 1, false, .ok⟩ := rfl
  have hx := tired_step ⟨50, 1, false, .ok⟩ (.program bootMetadataPage0 0xffffffff) (1, 0)
  have hy := tired_step ⟨50, 1, false, .ok⟩ (.program bootMetadataPage0 0xffffffff) (0, 2)
  have hz := tired_step ⟨50, 1, true, .io⟩ (.read bootMetadataPage0 4) (0, 2)
  have hxy := Run.cons hx (.nil _)
  have hxyz := hxy.snoc hy
  exact ⟨_, _, _, rfl, rfl, ((flash_quarantine hinit).1 _ _ _ _ (.nil _) hx).1, rfl, rfl,
    ((flash_quarantine hinit).1 _ _ _ _ hxy hy).1, rfl, rfl,
    (flash_quarantine hinit).1 _ _ _ _ hxyz hz⟩

end EkBareMetal.Boot

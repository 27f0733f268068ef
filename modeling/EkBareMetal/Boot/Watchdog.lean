import EkBareMetal.Boot.Verify

/-!
# The watchdog and what it is fed for

`boot_watchdog.c` over its two callbacks, a register read and a register
write. The controller is fed by a write of ICR, and a feed is only made on
evidence: in the boot loader one milestone of the verifier, in the application
one report of each of its three duties. Evidence belongs to an epoch and each
feed ends one.

The functions with `Held` in their name are those the source exports to the
code that holds the guard already; the public ones take the guard and leave
it. A result other than OK from a callback is a false or an absent answer, and
a phase is one of the verifier's three: the source refuses any other value of
the enumeration with PROGRESS.
-/

namespace EkBareMetal.Boot

open Interact

abbrev bootWatchdogLoad : UInt32 := 0x40000000
abbrev bootWatchdogCtl : UInt32 := 0x40000008
abbrev bootWatchdogIcr : UInt32 := 0x4000000c
abbrev bootWatchdogRis : UInt32 := 0x40000010
abbrev bootWatchdogLock : UInt32 := 0x40000c00
abbrev bootWatchdogRcgc0 : UInt32 := 0x400fe100

abbrev wdtEnable : UInt32 := 3
abbrev wdtClock : UInt32 := 8
abbrev wdtUnlock : UInt32 := 0x1acce551

abbrev bootWatchdogEthernet : UInt32 := 1
abbrev bootWatchdogTimers : UInt32 := 2
abbrev bootWatchdogFtp : UInt32 := 4
abbrev appRequired : UInt32 := 7

inductive BootWatchdogResult where
  | ok
  | argument
  | busy
  | blocked
  | state
  | progress
  | io
  | verify
  deriving DecidableEq, Repr

inductive BootWatchdogOwner where
  | boot
  | application
  deriving DecidableEq

/-- The evidence a feed takes. -/
def BootWatchdogOwner.required : BootWatchdogOwner → UInt32
  | .boot => 1
  | .application => appRequired

inductive WatchdogOp where
  | readRegister (address : UInt32)
  | writeRegister (address value : UInt32)
  deriving DecidableEq

abbrev WatchdogSig : Sig where
  Op := WatchdogOp
  Ans
    | .readRegister _ => Option UInt32
    | .writeRegister _ _ => Bool

structure BootWatchdog where
  entered : Bool
  configured : Bool
  blocked : Bool
  owner : BootWatchdogOwner
  epoch : UInt32
  evidence : UInt32
  reload : UInt32
  verification : UInt32
  total : UInt32
  completed : UInt32
  phase : Nat
  deriving DecidableEq

def bootWatchdogInit : BootWatchdog where
  entered := false
  configured := false
  blocked := false
  owner := .boot
  epoch := 1
  evidence := 0
  reload := 0
  verification := 0
  total := 0
  completed := 0
  phase := 0

abbrev WatchdogReply := BootWatchdogResult × BootWatchdog

/-! ## The registers -/

/-- A register is read and what it holds is looked at. -/
def expect (address : UInt32) (good : UInt32 → Bool) :
    Prog WatchdogSig BootWatchdogResult := do
  match ← Prog.ask (S := WatchdogSig) (.readRegister address) with
  | none => pure .io
  | some value => pure (if good value then .ok else .verify)

/-- A register is written and another one, or the same, is looked at. -/
def writeExpect (address value readBack : UInt32) (good : UInt32 → Bool) :
    Prog WatchdogSig BootWatchdogResult := do
  let done ← Prog.ask (S := WatchdogSig) (.writeRegister address value)
  if !done then pure .io else expect readBack good

/-- The second action is only taken when the first one ended well. -/
def andThen (p q : Prog WatchdogSig BootWatchdogResult) :
    Prog WatchdogSig BootWatchdogResult := do
  let result ← p
  if result ≠ .ok then pure result else q

def lock (value expected : UInt32) : Prog WatchdogSig BootWatchdogResult :=
  writeExpect bootWatchdogLock value bootWatchdogLock (· == expected)

/-- ICR is write-only: whether the feed took is read from RIS. -/
def feed : Prog WatchdogSig BootWatchdogResult :=
  writeExpect bootWatchdogIcr 0 bootWatchdogRis (· &&& 1 == 0)

def enabled (control : UInt32) : Bool := control &&& wdtEnable == wdtEnable

/-! ## The guard and the quarantine -/

def BootWatchdog.quarantine (w : BootWatchdog) : BootWatchdog :=
  { w with blocked := true, evidence := 0 }

/-- `enter` and `leave` around the body of a public call. -/
def guarded (w : BootWatchdog)
    (body : BootWatchdog → Prog WatchdogSig WatchdogReply) :
    Prog WatchdogSig WatchdogReply :=
  if w.entered then pure (.busy, w) else do
    let (result, w) ← body { w with entered := true }
    pure (result, { w with entered := false })

def quarantineHeld (w : BootWatchdog) (result : BootWatchdogResult) :
    WatchdogReply := (result, w.quarantine)

/-- After an attempted unlock the lock is closed again, best effort. -/
def faultHeld (w : BootWatchdog) (result : BootWatchdogResult) :
    Prog WatchdogSig WatchdogReply := do
  let _ ← lock 0 1
  pure (quarantineHeld w result)

def ready (w : BootWatchdog) (owner : BootWatchdogOwner) (epoch : UInt32) :
    BootWatchdogResult :=
  if w.blocked then .blocked
  else if !w.configured ∨ owner ≠ w.owner ∨ epoch ≠ w.epoch then .state
  else .ok

/-! ## Configuration -/

/-- The counter is loaded, a stale interrupt is cleared, and then the
protection is switched on and the registers are locked. -/
def protect (control reload : UInt32) : Prog WatchdogSig BootWatchdogResult :=
  andThen (lock wdtUnlock 0)
    (andThen (writeExpect bootWatchdogLoad reload bootWatchdogLoad (· == reload))
      (andThen feed
        (andThen (writeExpect bootWatchdogCtl (control ||| wdtEnable)
            bootWatchdogCtl enabled)
          (lock 0 1))))

/-- The part of `boot_watchdog_configure` inside the guard. -/
def configureHeld (reload : UInt32) (w : BootWatchdog) :
    Prog WatchdogSig WatchdogReply :=
  if w.blocked then pure (.blocked, w)
  else if w.configured then pure (.state, w)
  else do
    let result ← expect bootWatchdogRcgc0 (· &&& wdtClock != 0)
    if result ≠ .ok then pure (quarantineHeld w result) else do
    match ← Prog.ask (S := WatchdogSig) (.readRegister bootWatchdogCtl) with
    | none => pure (quarantineHeld w .io)
    | some control =>
        if control &&& 1 ≠ 0 then pure (quarantineHeld w .state)
        else do
          let result ← protect control reload
          if result ≠ .ok then faultHeld w result
          else pure (.ok, { w with reload := reload, configured := true })

def bootWatchdogConfigure (w : BootWatchdog) (hz reload : UInt32) :
    Prog WatchdogSig WatchdogReply :=
  if hz = 0 ∨ hz.toNat * 5 ≠ reload.toNat then pure (.argument, w)
  else guarded w (configureHeld reload)

/-! ## Service and transfer -/

/-- The protection is still what was configured. -/
def checkProtection (reload : UInt32) : Prog WatchdogSig BootWatchdogResult :=
  andThen (expect bootWatchdogRcgc0 (· &&& wdtClock != 0))
    (andThen (expect bootWatchdogCtl enabled)
      (expect bootWatchdogLoad (· == reload)))

def feedUnlocked : Prog WatchdogSig BootWatchdogResult :=
  andThen (lock wdtUnlock 0) (andThen feed (lock 0 1))

def bootWatchdogServiceHeld (w : BootWatchdog) (owner : BootWatchdogOwner)
    (epoch : UInt32) : Prog WatchdogSig WatchdogReply :=
  let result := ready w owner epoch
  if result ≠ .ok then pure (result, w)
  else if w.evidence ≠ owner.required then pure (.progress, w)
  else if w.epoch = uint32Max then pure (quarantineHeld w .state)
  else do
    -- evidence is spent before the first register access
    let w := { w with evidence := 0 }
    let result ← checkProtection w.reload
    if result ≠ .ok then pure (quarantineHeld w result) else do
    let result ← feedUnlocked
    if result ≠ .ok then faultHeld w result
    else pure (.ok, { w with epoch := w.epoch + 1 })

def bootWatchdogService (w : BootWatchdog) (owner : BootWatchdogOwner)
    (epoch : UInt32) : Prog WatchdogSig WatchdogReply :=
  guarded w fun w => bootWatchdogServiceHeld w owner epoch

def bootWatchdogTransferHeld (w : BootWatchdog) (epoch : UInt32) : WatchdogReply :=
  let result := ready w .boot epoch
  if result ≠ .ok then (result, w)
  else if w.epoch = uint32Max then quarantineHeld w .state
  else (.ok, { w with owner := .application, evidence := 0, epoch := w.epoch + 1 })

def bootWatchdogTransfer (w : BootWatchdog) (epoch : UInt32) :
    Prog WatchdogSig WatchdogReply :=
  guarded w fun w => pure (bootWatchdogTransferHeld w epoch)

/-! ## Reports -/

/-- A report of the verifier as `boot_watchdog_boot_report` takes it. -/
structure BootReport where
  epoch : UInt32
  verification : UInt32
  phase : BootVerifyPhase
  completed : UInt32
  total : UInt32
  deriving DecidableEq

/-- What a verification may begin with. -/
def beginOk (w : BootWatchdog) (r : BootReport) : Bool :=
  r.verification ≠ 0 && w.verification < r.verification && r.completed = 0 &&
    bootPayloadMin ≤ r.total && r.total ≤ bootPayloadMax && r.total % 4 = 0

/-- Exactly the verifier's next chunk. -/
def chunkOk (w : BootWatchdog) (r : BootReport) : Bool :=
  let remaining := r.total - w.completed
  let chunk := if remaining < bootVerifyChunkBytes then remaining
    else bootVerifyChunkBytes
  w.phase = 2 && remaining ≠ 0 && w.completed < r.completed &&
    r.completed ≤ r.total && r.completed - w.completed = chunk

def bootWatchdogReportHeld (w : BootWatchdog) (r : BootReport) : WatchdogReply :=
  let result := ready w .boot r.epoch
  if result ≠ .ok then (result, w)
  else if r.phase = .manifestBegin then
    if !beginOk w r then (.progress, w)
    else
      (.ok, { w with
        verification := r.verification
        total := r.total
        completed := 0
        evidence := 0
        phase := 1 })
  else if r.verification ≠ w.verification ∨ r.total ≠ w.total ∨ w.phase = 0 then
    (.progress, w)
  else if r.phase = .manifestAuthenticated then
    if w.phase ≠ 1 ∨ r.completed ≠ 0 then (.progress, w)
    else (.ok, { w with phase := 2, evidence := 1 })
  else
    if !chunkOk w r then (.progress, w)
    else (.ok, { w with completed := r.completed, evidence := 1 })

def bootWatchdogBootReport (w : BootWatchdog) (r : BootReport) :
    Prog WatchdogSig WatchdogReply :=
  guarded w fun w => pure (bootWatchdogReportHeld w r)

/-- The part of `boot_watchdog_application_report` inside the guard. -/
def applicationReportHeld (w : BootWatchdog) (epoch predicate complete : UInt32) :
    WatchdogReply :=
  let result := ready w .application epoch
  if result ≠ .ok then (result, w)
  else if complete ≠ 1 ∨ (predicate ≠ bootWatchdogEthernet ∧
      predicate ≠ bootWatchdogTimers ∧ predicate ≠ bootWatchdogFtp) ∨
      w.evidence &&& predicate ≠ 0 then (.progress, w)
  else (.ok, { w with evidence := w.evidence ||| predicate })

def bootWatchdogApplicationReport (w : BootWatchdog)
    (epoch predicate complete : UInt32) : Prog WatchdogSig WatchdogReply :=
  guarded w fun w => pure (applicationReportHeld w epoch predicate complete)

/-! ## Calls -/

/-- The calls that can be made after the initialization, with what the code
that holds the guard may call besides. -/
inductive WatchdogCall where
  | configure (hz reload : UInt32)
  | service (owner : BootWatchdogOwner) (epoch : UInt32)
  | serviceHeld (owner : BootWatchdogOwner) (epoch : UInt32)
  | transfer (epoch : UInt32)
  | transferHeld (epoch : UInt32)
  | bootReport (report : BootReport)
  | bootReportHeld (report : BootReport)
  | applicationReport (epoch predicate complete : UInt32)
  deriving DecidableEq

def WatchdogCall.run (w : BootWatchdog) : WatchdogCall → Prog WatchdogSig WatchdogReply
  | .configure hz reload => bootWatchdogConfigure w hz reload
  | .service owner epoch => bootWatchdogService w owner epoch
  | .serviceHeld owner epoch => bootWatchdogServiceHeld w owner epoch
  | .transfer epoch => bootWatchdogTransfer w epoch
  | .transferHeld epoch => pure (bootWatchdogTransferHeld w epoch)
  | .bootReport report => bootWatchdogBootReport w report
  | .bootReportHeld report => pure (bootWatchdogReportHeld w report)
  | .applicationReport epoch predicate complete =>
      bootWatchdogApplicationReport w epoch predicate complete

end EkBareMetal.Boot

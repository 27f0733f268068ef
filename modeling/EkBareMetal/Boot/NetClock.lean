import EkBareMetal.Boot.HandoffTarget

/-!
# The application's clock

`net_clock.c` in the build whose foreground owns the watchdog. The switch to
SysTick is made once, with interrupts masked, and ends in a sample of the timer
that has been running since the boot loader claimed it: what has passed since
the entry is the offset that every later deadline is counted from.

Registers are memory, so an access has no result but the value. The capsule is
the one of `boot_startup.c`, and its clock the reader that the boot loader left
there, a function pointer into the boot image.
-/

namespace EkBareMetal.Boot

open Interact

@[simp] abbrev ticksPerSecond : UInt32 := 1000
@[simp] abbrev systickMaxPeriod : UInt32 := 0x01000000
@[simp] abbrev systickBaseAddress : UInt32 := 0xe000e010
@[simp] abbrev icsr : UInt32 := 0xe000ed04
@[simp] abbrev shcsr : UInt32 := 0xe000ed24
@[simp] abbrev icsrPending : UInt32 := (1 : UInt32) <<< 31 ||| (1 : UInt32) <<< 28
@[simp] abbrev icsrClearPendSv : UInt32 := (1 : UInt32) <<< 27
@[simp] abbrev icsrClearSystick : UInt32 := (1 : UInt32) <<< 25

/-- The statics of the file. -/
structure NetClock where
  milliseconds : UInt32
  startupElapsedMs : UInt32
  initialized : Bool
  deriving DecidableEq

def NetClock.start : NetClock := ⟨0, 0, false⟩

structure NetObjects where
  clock : NetClock
  continuity : TargetContinuity

inductive NetOp where
  | readRegister (address : UInt32)
  | writeRegister (address value : UInt32)
  | maskedThread
  | barrier
  | unmask
  /-- The reader of the capsule's clock. -/
  | sample
  deriving DecidableEq

abbrev NetSig : Sig where
  Op := NetOp
  Ans
    | .readRegister _ => UInt32
    | .writeRegister _ _ => Unit
    | .maskedThread => Bool
    | .barrier => Unit
    | .unmask => Unit
    | .sample => Option BootStartupSample

abbrev NetProg (α : Type) := Prog (ObjSig NetObjects NetSig) α

def netAsk (op : NetOp) : NetProg (NetSig.Ans op) :=
  Prog.ask (S := ObjSig NetObjects NetSig) (.outside op)

/-- An operation of the capsule among these objects. -/
def onCapsule : (op : StartupSig.Op) → NetProg (StartupSig.Ans op)
  | .load => do
      let s ← Prog.loadObj
      pure s.continuity.capsule
  | .store c => Prog.modifyObj fun s => { s with continuity := { s.continuity with capsule := c } }
  | .outside .read => netAsk .sample

/-- No configurable fault is enabled or pending, and no NMI. -/
def faultsQuiet : NetProg Bool := do
  let handlers : UInt32 ← netAsk (.readRegister shcsr)
  if handlers &&& 0x0007f000 ≠ 0 then pure false
  else do
    let control : UInt32 ← netAsk (.readRegister icsr)
    pure (control &&& icsrPending == 0)

/-- Every external interrupt is masked and none is left pending. -/
def maskBank (bank : UInt32) : NetProg Unit := do
  netAsk (.writeRegister (0xe000e180 + bank * 4) uint32Max)
  netAsk (.writeRegister (0xe000e280 + bank * 4) uint32Max)

def interruptsPrepare : NetProg Bool := do
  let masked ← netAsk .maskedThread
  if !masked then pure false
  else do
    maskBank 0
    maskBank 1
    netAsk (.writeRegister icsr (icsrClearPendSv ||| icsrClearSystick))
    netAsk .barrier
    faultsQuiet

def bankQuiet (bank : UInt32) : NetProg Bool := do
  let enables ← netAsk (.readRegister (0xe000e100 + bank * 4))
  if enables ≠ 0 then pure false
  else do
    let pending ← netAsk (.readRegister (0xe000e200 + bank * 4))
    pure (pending == 0)

def interruptsSafe : NetProg Bool := do
  let masked ← netAsk .maskedThread
  if !masked then pure false
  else Prog.every [bankQuiet 0, bankQuiet 1, faultsQuiet]

/-- SysTick off, its stale interrupt cleared, and on again with the period. -/
def systickStart (period : UInt32) : NetProg Unit := do
  netAsk (.writeRegister systickBaseAddress 0)
  netAsk (.writeRegister icsr icsrClearSystick)
  Prog.modifyObj fun s => { s with clock := { s.clock with milliseconds := 0 } }
  netAsk (.writeRegister (systickBaseAddress + 4) (period - 1))
  netAsk (.writeRegister (systickBaseAddress + 8) 0)
  netAsk (.writeRegister systickBaseAddress 7)
  netAsk .barrier

/-- What the switch commits from the final sample on. The offset is a ceiling and one more
microsecond, for the two samples that were rounded down. -/
def netClockCommit (us : UInt64) : NetProg Bool := do
  let s ← Prog.loadObj
  let entryUs := s.continuity.capsule.entryUs
  if us < entryUs then pure false
  else
    let offset := (us - entryUs) / 1000 + 1
    if offset > uint32Max.toUInt64 then pure false
    else do
      Prog.modifyObj fun s =>
        { s with clock := { s.clock with startupElapsedMs := offset.toUInt32 } }
      let safe ← interruptsSafe
      if !safe then pure false
      else do
        Prog.modifyObj fun s => { s with clock := { s.clock with initialized := true } }
        netAsk .unmask
        pure true

def netClockInitialize (cpuClockHz : UInt32) : NetProg Bool := do
  let period := cpuClockHz / ticksPerSecond
  if cpuClockHz % ticksPerSecond ≠ 0 || period = 0 || period > systickMaxPeriod then pure false
  else do
    let s ← Prog.loadObj
    let c := s.continuity.capsule
    if s.clock.initialized || c.state ≠ .cReady || cpuClockHz ≠ c.hz ||
        !bootStartupGptmSupported s.continuity then pure false
    else do
      let prepared ← interruptsPrepare
      if !prepared then pure false
      else do
        systickStart period
        match ← (bootStartupTime true).inline onCapsule with
        | none => pure false
        | some us => netClockCommit us

end EkBareMetal.Boot

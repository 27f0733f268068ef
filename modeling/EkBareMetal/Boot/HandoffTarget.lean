import EkBareMetal.Boot.Handoff
import EkBareMetal.Boot.Startup

/-!
# The handoff on the processor

`boot_handoff_target.c`, the callbacks behind `boot_handoff.c`, and the timer
of `boot_startup_gptm.c` that its clock check samples. Registers, the core
observation and the barriers are callbacks, and each of them may come back into
the adapter before it answers. What a callback leaves in its output is part of
its answer, also where it fails.

The adapter and the startup capsule it looks at are one object here. The rest
of the boot may change the capsule at any time, the adapter only reads it.
-/

namespace EkBareMetal.Boot

open Interact

@[simp] abbrev nvicStctrl : UInt32 := 0xe000e010
@[simp] abbrev nvicDis0 : UInt32 := 0xe000e180
@[simp] abbrev nvicUnpend0 : UInt32 := 0xe000e280
@[simp] abbrev nvicActive0 : UInt32 := 0xe000e300
@[simp] abbrev nvicIcsr : UInt32 := 0xe000ed04
@[simp] abbrev nvicVtor : UInt32 := 0xe000ed08
@[simp] abbrev bank1Mask : UInt32 := 0xfff
@[simp] abbrev corePending : UInt32 := 0x94000000
@[simp] abbrev coreClear : UInt32 := 0x0a000000
@[simp] abbrev sysRcgc0 : UInt32 := 0x400fe100
@[simp] abbrev sysRcgc1 : UInt32 := 0x400fe104
@[simp] abbrev sysRcgc2 : UInt32 := 0x400fe108
@[simp] abbrev sysRcc : UInt32 := 0x400fe060
@[simp] abbrev sysRcc2 : UInt32 := 0x400fe070
@[simp] abbrev hibIm : UInt32 := 0x400fc014
@[simp] abbrev hibMis : UInt32 := 0x400fc01c
@[simp] abbrev sysImc : UInt32 := 0x400fe054
@[simp] abbrev flashFcim : UInt32 := 0x400fd010
@[simp] abbrev flashFmc : UInt32 := 0x400fd008
/-- The bit of the live watchdog among the pending interrupts of bank 0. -/
@[simp] abbrev wdtPending : UInt32 := 0x40000
@[simp] abbrev wdtCtl : UInt32 := 0x40000008
@[simp] abbrev wdtRis : UInt32 := 0x40000010
@[simp] abbrev timer2 : UInt32 := 0x40032000

/-! ## The objects -/

@[simp] abbrev gptmClaimed : UInt32 := 0x47505431
@[simp] abbrev gptmClaiming : UInt32 := 0x47505433
@[simp] abbrev gptmReading : UInt32 := 0x47505434
@[simp] abbrev gptmReleasing : UInt32 := 0x47505435
@[simp] abbrev gptmFailed : UInt32 := 0x47505436
@[simp] abbrev bootStartupGptmSource : UInt32 := 0x4750544d

/-- `registers` is false where a register callback is NULL. -/
structure BootStartupGptm where
  registers : Bool
  hz : UInt32
  timer : UInt32
  state : UInt32
  rcc : UInt32
  rcc2 : UInt32
  deriving DecidableEq

/-- The capsule with the timer in its context. `bound` says that its clock is
the claimed reader, which is not NULL, on that context. -/
structure TargetContinuity where
  capsule : BootStartup
  gptm : BootStartupGptm
  bound : Bool

structure BootHandoffTarget where
  original : BootHandoffContext
  enables : UInt32 × UInt32
  pending : UInt32 × UInt32
  active : UInt32 × UInt32
  icsr : UInt32
  systick : UInt32
  next : UInt32
  initialized : Bool
  busy : Bool
  failed : Bool
  recorded : Bool
  vtor : UInt32
  epoch : UInt32
  intent : BootHandoffIntent
  deriving DecidableEq

/-- The adapter after `boot_handoff_target_init`. -/
def bootHandoffTargetInit : BootHandoffTarget where
  original := ⟨0, 0, 0, 0, 0⟩
  enables := (0, 0)
  pending := (0, 0)
  active := (0, 0)
  icsr := 0
  systick := 0
  next := 0
  initialized := true
  busy := false
  failed := false
  recorded := false
  vtor := 0
  epoch := 0
  intent := ⟨0, 0, 0, 0, 0, 0, 0, 0⟩

structure TargetObjects where
  target : BootHandoffTarget
  continuity : TargetContinuity

namespace TargetObjects

def onTarget (f : BootHandoffTarget → BootHandoffTarget) (s : TargetObjects) : TargetObjects :=
  { s with target := f s.target }

def onGptm (state : UInt32) (s : TargetObjects) : TargetObjects :=
  { s with continuity := { s.continuity with gptm := { s.continuity.gptm with state := state } } }

def poison (s : TargetObjects) : TargetObjects := s.onTarget fun t => { t with failed := true }

end TargetObjects

inductive TargetBarrier where
  | exclude
  | sync
  deriving DecidableEq

inductive TargetOp where
  | readRegister (address : UInt32)
  | writeRegister (address value : UInt32)
  | observe
  | barrier (kind : TargetBarrier)
  /-- A register as the timer's own callback reads it. -/
  | gptmRead (address : UInt32)
  deriving DecidableEq

/-- Whether the callback returned zero, and what it left in its output. -/
abbrev TargetSig : Sig where
  Op := TargetOp
  Ans
    | .readRegister _ => Bool × UInt32
    | .writeRegister _ _ => Bool
    | .observe => Bool × BootHandoffContext
    | .barrier _ => Bool
    | .gptmRead _ => Bool × UInt32

abbrev TargetProg (α : Type) := Prog (ObjSig TargetObjects TargetSig) α

/-! ## The timer -/

namespace BootStartupGptm

def busy (g : BootStartupGptm) : Bool :=
  g.state = gptmClaiming || g.state = gptmReading || g.state = gptmReleasing

def base (g : BootStartupGptm) : UInt32 := 0x40030000 + g.timer * 0x1000

def gate (g : BootStartupGptm) : UInt32 := 1 <<< (16 + g.timer)

end BootStartupGptm

def gptmReadReg (address : UInt32) : TargetProg (Option UInt32) := do
  let s ← Prog.loadObj
  let held := s.continuity.gptm.state
  if !s.continuity.gptm.busy then pure none
  else do
    let answer ← Prog.ask (S := ObjSig TargetObjects TargetSig) (.outside (.gptmRead address))
    let s ← Prog.loadObj
    if !answer.1 || s.continuity.gptm.state ≠ held then do
      Prog.modifyObj fun s => s.onGptm gptmFailed
      pure none
    else pure (some answer.2)

/-- The value is the timer's at the time of the comparison. -/
def gptmEqual (address : UInt32) (value : BootStartupGptm → UInt32) : TargetProg Bool := do
  let s ← Prog.loadObj
  let v ← gptmReadReg address
  pure (decide (v = some (value s.continuity.gptm)))

def gptmMatched (held : UInt32) : TargetProg Bool := do
  let s ← Prog.loadObj
  let g := s.continuity.gptm
  if g.state ≠ held || !g.busy || g.timer > 3 || g.hz = 0 || g.hz > uint32Max / 5 ||
      !g.registers then pure false
  else do
    let gate ← gptmReadReg sysRcgc1
    let s ← Prog.loadObj
    let b := s.continuity.gptm.base
    if gate.all fun v => v &&& s.continuity.gptm.gate = 0 then pure false
    else
      Prog.every [
        gptmEqual b fun _ => 0,
        gptmEqual (b + 4) fun _ => 2,
        gptmEqual (b + 12) fun _ => 1,
        gptmEqual (b + 24) fun _ => 0,
        gptmEqual (b + 40) fun _ => uint32Max,
        gptmEqual sysRcc (·.rcc),
        gptmEqual sysRcc2 (·.rcc2)]

/-- The counter, with the raw interrupt status checked on both sides and the
configuration before and after. -/
def gptmSample : TargetProg (Option UInt32) := do
  let first ← gptmMatched gptmReading
  let s ← Prog.loadObj
  let b := s.continuity.gptm.base
  if !first then pure none
  else do
    let before ← gptmReadReg (b + 28)
    if before ≠ some 0 then pure none
    else do
      let counter ← gptmReadReg (b + 72)
      if counter = none then pure none
      else do
        let after ← gptmReadReg (b + 28)
        if after ≠ some 0 then pure none
        else do
          let again ← gptmMatched gptmReading
          pure (if again then counter else none)

def bootStartupGptmRead : TargetProg (Option BootStartupSample) := do
  let s ← Prog.loadObj
  if s.continuity.gptm.busy then do
    Prog.modifyObj fun s => s.onGptm gptmFailed
    pure none
  else if s.continuity.gptm.state ≠ gptmClaimed then pure none
  else do
    Prog.modifyObj fun s => s.onGptm gptmReading
    match ← gptmSample with
    | none => do
        Prog.modifyObj fun s => s.onGptm gptmFailed
        pure none
    | some counter => do
        let s ← Prog.loadObj
        let g := s.continuity.gptm
        Prog.modifyObj fun s => s.onGptm gptmClaimed
        pure (some {
          us := (uint32Max - counter).toUInt64 * 1000000 / g.hz.toUInt64
          rcc := g.rcc
          rcc2 := g.rcc2
          hz := g.hz
          source := bootStartupGptmSource })

def bootStartupGptmSupported (c : TargetContinuity) : Bool :=
  c.capsule.clock.source = bootStartupGptmSource && c.bound &&
    c.gptm.state = gptmClaimed && c.capsule.hz = c.gptm.hz

/-! ## Callbacks of the adapter -/

def coreValid (o : BootHandoffContext) : Bool :=
  o.ipsr = 0 && o.control &&& ~~~2 = 0 && o.primask = 1 && o.basepri &&& ~~~0xe0 = 0 &&
    o.faultmask ≤ 1

/-- `read_reg`, the value being also written to where `place` says. -/
def readInto (address : UInt32)
    (place : UInt32 → BootHandoffTarget → BootHandoffTarget) : TargetProg (Option UInt32) := do
  let s ← Prog.loadObj
  if s.target.failed then pure none
  else do
    let answer ← Prog.ask (S := ObjSig TargetObjects TargetSig)
      (.outside (.readRegister address))
    Prog.modifyObj fun s => s.onTarget (place answer.2)
    if !answer.1 then do
      Prog.modifyObj TargetObjects.poison
      pure none
    else do
      let s ← Prog.loadObj
      pure (if s.target.failed then none else some answer.2)

def readReg (address : UInt32) : TargetProg (Option UInt32) := readInto address fun _ t => t

def writeReg (address value : UInt32) : TargetProg Bool := do
  let s ← Prog.loadObj
  if s.target.failed then pure false
  else do
    let ok ← Prog.ask (S := ObjSig TargetObjects TargetSig)
      (.outside (.writeRegister address value))
    if !ok then do
      Prog.modifyObj TargetObjects.poison
      pure false
    else do
      let s ← Prog.loadObj
      pure !s.target.failed

/-- A read with a condition on the value. -/
def readIs (address : UInt32) (good : UInt32 → Bool) : TargetProg Bool := do
  let v ← readReg address
  pure (v.any good)

def matchesReg (address mask expected : UInt32) : TargetProg Bool :=
  readIs address fun v => v &&& mask = expected

def observeInto (place : BootHandoffContext → BootHandoffTarget → BootHandoffTarget) :
    TargetProg (Option BootHandoffContext) := do
  let s ← Prog.loadObj
  if s.target.failed then pure none
  else do
    let answer ← Prog.ask (S := ObjSig TargetObjects TargetSig) (.outside .observe)
    Prog.modifyObj fun s => s.onTarget (place answer.2)
    if !answer.1 then do
      Prog.modifyObj TargetObjects.poison
      pure none
    else do
      let s ← Prog.loadObj
      pure (if !s.target.failed && coreValid answer.2 then some answer.2 else none)

def synchronize (kind : TargetBarrier) : TargetProg Bool := do
  let s ← Prog.loadObj
  if s.target.failed then pure false
  else do
    let ok ← Prog.ask (S := ObjSig TargetObjects TargetSig) (.outside (.barrier kind))
    if !ok then do
      Prog.modifyObj TargetObjects.poison
      pure false
    else do
      let s ← Prog.loadObj
      pure !s.target.failed

def coreUnchanged : TargetProg Bool := do
  let o ← observeInto fun _ t => t
  let s ← Prog.loadObj
  pure (o.any fun o => o.control = s.target.original.control &&
    o.basepri = s.target.original.basepri && o.faultmask = s.target.original.faultmask)

/-! ## Checks -/

def banksIdle : TargetProg Bool :=
  Prog.every [
    matchesReg nvicDis0 uint32Max 0,
    matchesReg nvicUnpend0 uint32Max 0,
    matchesReg nvicActive0 uint32Max 0,
    matchesReg (nvicDis0 + 4) bank1Mask 0,
    matchesReg (nvicUnpend0 + 4) bank1Mask 0,
    matchesReg (nvicActive0 + 4) bank1Mask 0,
    matchesReg nvicIcsr corePending 0]

/-- Before the pending interrupts are cleared the live watchdog may be one. -/
def banksIdlePre : TargetProg Bool :=
  Prog.every [
    readIs nvicDis0 fun v => v &&& uint32Max = 0,
    readIs nvicUnpend0 fun v => v &&& uint32Max &&& ~~~wdtPending = 0,
    readIs nvicActive0 fun v => v &&& uint32Max = 0,
    readIs (nvicDis0 + 4) fun v => v &&& bank1Mask = 0,
    readIs (nvicUnpend0 + 4) fun v => v &&& bank1Mask &&& ~~~0 = 0,
    readIs (nvicActive0 + 4) fun v => v &&& bank1Mask = 0,
    matchesReg nvicIcsr corePending 0]

def capsuleIdle (c : TargetContinuity) : Bool :=
  c.capsule.magic = bootStartupMagic && c.capsule.abi = bootStartupAbi &&
    c.capsule.state = .empty && !c.capsule.active && bootStartupGptmSupported c &&
    c.gptm.timer = 2 && c.capsule.clock.rccMask = uint32Max &&
    c.capsule.clock.rcc2Mask = uint32Max && c.capsule.clock.rcc = c.gptm.rcc &&
    c.capsule.clock.rcc2 = c.gptm.rcc2

/-- The expected value is the capsule's at the time of the read. -/
def matchesClock (address : UInt32) (expected : BootStartupClock → UInt32) :
    TargetProg Bool := do
  let s ← Prog.loadObj
  matchesReg address uint32Max (expected s.continuity.capsule.clock)

def clockMatches : TargetProg Bool := do
  let sample ← bootStartupGptmRead
  let s ← Prog.loadObj
  let c := s.continuity.capsule
  pure (sample.any fun sample => !s.target.failed && sample.rcc = c.clock.rcc &&
    sample.rcc2 = c.clock.rcc2 && sample.hz = c.hz && sample.source = bootStartupGptmSource)

def sourcesIdle : TargetProg Bool := do
  let s ← Prog.loadObj
  if !capsuleIdle s.continuity then pure false
  else
    Prog.every [
      matchesReg sysRcgc0 0x00110348 0x48,
      matchesReg sysRcgc1 0x030f5317 0x40000,
      matchesReg sysRcgc2 0x5000007f 0,
      matchesReg hibIm 15 0,
      matchesReg hibMis 15 0,
      matchesReg sysImc 0x42 0,
      matchesReg flashFcim 3 0,
      matchesReg flashFmc 15 0,
      matchesReg wdtCtl 3 3,
      matchesReg wdtRis 1 0,
      matchesReg timer2 uint32Max 0,
      matchesReg (timer2 + 4) uint32Max 2,
      matchesReg (timer2 + 12) uint32Max 1,
      matchesReg (timer2 + 24) uint32Max 0,
      matchesReg (timer2 + 28) uint32Max 0,
      matchesReg (timer2 + 40) uint32Max uint32Max,
      matchesClock sysRcc (·.rcc),
      matchesClock sysRcc2 (·.rcc2),
      clockMatches,
      matchesReg wdtRis 1 0]

/-! ## The operations -/

/-- The reads of a capture, each into its own place. -/
def captureReads : TargetProg Bool :=
  let reads (address : UInt32) (place : UInt32 → BootHandoffTarget → BootHandoffTarget) :
      TargetProg Bool := do
    let v ← readInto address place
    pure v.isSome
  Prog.every [
    reads nvicDis0 fun v t => { t with enables := (v, t.enables.2) },
    reads nvicUnpend0 fun v t => { t with pending := (v, t.pending.2) },
    reads nvicActive0 fun v t => { t with active := (v, t.active.2) },
    reads (nvicDis0 + 4) fun v t => { t with enables := (t.enables.1, v) },
    reads (nvicUnpend0 + 4) fun v t => { t with pending := (t.pending.1, v) },
    reads (nvicActive0 + 4) fun v t => { t with active := (t.active.1, v) },
    reads nvicIcsr fun v t => { t with icsr := v },
    reads nvicStctrl fun v t => { t with systick := v }]

def BootHandoffTarget.capturedIdle (t : BootHandoffTarget) : Bool :=
  t.enables.1 = 0 && t.pending.1 &&& ~~~wdtPending = 0 && t.active.1 = 0 &&
    (t.enables.2 ||| t.pending.2 ||| t.active.2) &&& bank1Mask = 0 &&
    t.icsr &&& corePending = 0 && t.systick &&& 3 = 0

/-- A watchdog that boot still owns, with an epoch to hand over. -/
def BootWatchdog.capturable (w : BootWatchdog) : Bool :=
  w.configured && !w.blocked && w.owner = .boot && w.epoch ≠ 0 && w.epoch ≠ uint32Max

/-- The part of a capture that looks at what was read. -/
def captureEpoch : TargetProg Bool := do
  let s ← Prog.loadObj
  if !s.target.capturedIdle then pure false
  else do
    let idle ← sourcesIdle
    let s ← Prog.loadObj
    let w := s.continuity.capsule.watchdog
    if !idle || !w.capturable then pure false
    else do
      Prog.modifyObj fun s => s.onTarget fun t => { t with epoch := w.epoch + 1 }
      Prog.every [synchronize .exclude, coreUnchanged]

/-- `capture`. -/
def captureTarget : TargetProg Bool := do
  let o ← observeInto fun o t => { t with original := o }
  if o = none then pure false
  else do
    let read ← captureReads
    if !read then pure false else captureEpoch

/-- The number of the enumeration. -/
def BootHandoffOperation.code : BootHandoffOperation → UInt32
  | .exclude => 0
  | .stopSystick => 1
  | .disableBank0 => 2
  | .disableBank1 => 3
  | .quiesceSources => 4
  | .clearCorePending => 5
  | .clearBank0Pending => 6
  | .clearBank1Pending => 7
  | .barrierBeforeVtor => 8
  | .setVtor => 9
  | .barrierAfterVtor => 10

def operationOf (code : UInt32) : Option BootHandoffOperation :=
  handoffOrder.find? fun op => op.code = code

def validValue (op : BootHandoffOperation) (value : UInt32) : Bool :=
  match op with
  | .setVtor => value = bootSlotABase || value = bootSlotBBase
  | _ => value = 0

/-- Both barriers. `vtor` is checked after the second one only. -/
def settled (after : Bool) : TargetProg Bool := do
  let ok ← Prog.every [synchronize .sync, coreUnchanged, sourcesIdle, banksIdle]
  if !ok then pure false
  else if !after then pure true
  else do
    let s ← Prog.loadObj
    matchesReg nvicVtor uint32Max s.target.vtor

def applyTarget (op : BootHandoffOperation) (value : UInt32) : TargetProg Bool :=
  match op with
  | .exclude => captureTarget
  | .stopSystick => do
      match ← readReg nvicStctrl with
      | none => pure false
      | some v => Prog.every [writeReg nvicStctrl (v &&& ~~~3), matchesReg nvicStctrl 3 0]
  | .disableBank0 =>
      Prog.every [banksIdlePre, writeReg nvicDis0 uint32Max, matchesReg nvicDis0 uint32Max 0,
        banksIdlePre]
  | .disableBank1 =>
      Prog.every [banksIdlePre, writeReg (nvicDis0 + 4) bank1Mask,
        matchesReg (nvicDis0 + 4) bank1Mask 0, banksIdlePre]
  | .clearBank0Pending =>
      Prog.every [banksIdlePre, writeReg nvicUnpend0 uint32Max,
        matchesReg nvicUnpend0 uint32Max 0, banksIdle]
  | .clearBank1Pending =>
      Prog.every [banksIdle, writeReg (nvicUnpend0 + 4) bank1Mask,
        matchesReg (nvicUnpend0 + 4) bank1Mask 0, banksIdle]
  | .quiesceSources => Prog.every [sourcesIdle, banksIdlePre]
  | .clearCorePending =>
      Prog.every [banksIdlePre, writeReg nvicIcsr coreClear, matchesReg nvicIcsr corePending 0]
  | .barrierBeforeVtor => settled false
  | .barrierAfterVtor => settled true
  | .setVtor => do
      let ok ← Prog.every [writeReg nvicVtor value, matchesReg nvicVtor uint32Max value]
      if !ok then pure false
      else do
        Prog.modifyObj fun s => s.onTarget fun t => { t with vtor := value }
        pure true

/-! ## Entries -/

def targetEnter : TargetProg Bool := do
  let s ← Prog.loadObj
  if !s.target.initialized || s.target.busy || s.target.failed || s.target.recorded then do
    Prog.modifyObj TargetObjects.poison
    pure false
  else do
    Prog.modifyObj fun s => s.onTarget fun t => { t with busy := true }
    pure true

/-- `leave`. What it returns is whether the call returns zero. -/
def targetLeave (ok : Bool) : TargetProg Bool := do
  Prog.modifyObj fun s =>
    s.onTarget fun t => { t with failed := t.failed || !ok, busy := false }
  let s ← Prog.loadObj
  pure !s.target.failed

/-- The exclusion itself is what captures the core. -/
def coreKept (op : BootHandoffOperation) : TargetProg Bool :=
  if op = .exclude then pure true else coreUnchanged

def bootHandoffTargetOperation (code value : UInt32) : TargetProg Bool := do
  let entered ← targetEnter
  if !entered then pure false
  else do
    let s ← Prog.loadObj
    match operationOf code with
    | none => targetLeave false
    | some op =>
        if code ≠ s.target.next || !validValue op value then targetLeave false
        else do
          let core ← coreKept op
          if !core then targetLeave false
          else do
            let done ← applyTarget op value
            let s ← Prog.loadObj
            if !done || s.target.failed then targetLeave false
            else do
              Prog.modifyObj fun s => s.onTarget fun t => { t with next := t.next + 1 }
              targetLeave true

/-- The clauses of the terminal intent on the intent, the adapter and the
watchdog. -/
def intentGood (t : BootHandoffTarget) (w : BootWatchdog) (i : BootHandoffIntent) : Bool :=
  let pc := i.resetVector &&& ~~~1
  i.vtor = t.vtor && i.msp = bootInitialMsp && i.resetVector &&& 1 ≠ 0 && pc ≥ i.vtor &&
    pc - i.vtor < bootPayloadMax && i.control = 0 && i.primask = 0 && i.basepri = 0 &&
    i.faultmask = 0 && i.applicationEpoch = t.epoch && w.configured && !w.blocked &&
    w.owner = .application && w.epoch = t.epoch

def bootHandoffTargetTerminalIntent (intent : Option BootHandoffIntent) : TargetProg Bool := do
  let entered ← targetEnter
  if !entered then pure false
  else do
    let s ← Prog.loadObj
    match intent with
    | none => targetLeave false
    | some i =>
        if s.target.next ≠ 11 then targetLeave false
        else if !intentGood s.target s.continuity.capsule.watchdog i then targetLeave false
        else do
          let idle ← Prog.every [coreUnchanged, sourcesIdle, banksIdle,
            matchesReg nvicStctrl 3 0, matchesReg nvicVtor uint32Max i.vtor]
          if !idle then targetLeave false
          else do
            Prog.modifyObj fun s =>
              s.onTarget fun t => { t with intent := i, recorded := true }
            targetLeave true

inductive TargetCall where
  | operation (code value : UInt32)
  | terminalIntent (intent : Option BootHandoffIntent)
  /-- The rest of the boot changes the capsule. -/
  | others (c : TargetContinuity)

def targetCall : TargetCall → TargetProg Bool
  | .operation code value => bootHandoffTargetOperation code value
  | .terminalIntent intent => bootHandoffTargetTerminalIntent intent
  | .others c => do
      Prog.modifyObj fun s => { s with continuity := c }
      pure true

end EkBareMetal.Boot

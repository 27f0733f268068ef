import EkBareMetal.Boot.Diag
import EkBareMetal.Boot.Handoff
import EkBareMetal.Boot.RuntimeWatchdog
import EkBareMetal.Lib.Reentry

/-!
# The startup capsule

`boot_startup.c`: the object that boot and application hand to each other
across the jump. Every operation of it samples a clock, which is a callback,
and the callback may call any operation in turn.

A call says what the source asks of the world around it: whether its pointers
are there and lie apart, and whether interrupts are excluded. The pointers
`ownership` looks at are one flag of the capsule, the words of the diagnostic
block are part of it, and the time is the one that the clock answers. The
publication has no callbacks: the reset clears them and nobody sets any.
-/

namespace EkBareMetal.Boot

open Interact

/-! ## What a prepared startup asks of its image -/

/-- The clauses of `prepare` on the image and its intent; those on the capsule
are the flag `idle`. The bounds are written out in this source, slot by slot. -/
def prepareAdmits (idle : Bool) (epoch : UInt32) (image : BootVerifiedImage)
    (intent : BootHandoffIntent) : Bool :=
  let m := image.manifest
  !(!idle || m.slot > 1 ||
    m.executionBase != (if m.slot = 0 then 0x8800 else 0x24000) ||
    m.payloadLength < 236 || m.payloadLength > 111616 ||
    m.payloadLength &&& 3 != 0 || image.resetVector &&& ~~~1 < m.executionBase ||
    (image.resetVector &&& ~~~1) - m.executionBase ≥ m.payloadLength ||
    intent.vtor != m.executionBase || intent.msp != 0x20010000 ||
    intent.msp != image.initialMsp || intent.resetVector != image.resetVector ||
    intent.resetVector &&& 1 == 0 || intent.applicationEpoch != epoch ||
    intent.control != 0 || intent.primask != 0 || intent.basepri != 0 ||
    intent.faultmask != 0)

/-! ## The capsule -/

@[simp] abbrev bootStartupMagic : UInt32 := 0x31534342
@[simp] abbrev bootStartupAbi : UInt32 := 0x4d330001
@[simp] abbrev bootStartupBytes : UInt32 := 1024

/-- A state word that is none of these is refused by every operation. -/
inductive BootStartupState where
  | empty
  | prepared
  | dispatching
  | entered
  | cReady
  | failed
  deriving DecidableEq, Repr

structure BootStartupSample where
  us : UInt64
  rcc : UInt32
  rcc2 : UInt32
  hz : UInt32
  source : UInt32
  deriving DecidableEq

structure BootStartupClock where
  rcc : UInt32
  rcc2 : UInt32
  rccMask : UInt32
  rcc2Mask : UInt32
  hz : UInt32
  source : UInt32
  deriving DecidableEq

/-- What the entry stub captures. -/
structure BootStartupObservations where
  msp : UInt32
  control : UInt32
  ipsr : UInt32
  primask : UInt32
  basepri : UInt32
  faultmask : UInt32
  lr : UInt32
  vtor : UInt32
  pc : UInt32
  stub : UInt32
  initialized : UInt32
  deriving DecidableEq

structure BootStartup where
  magic : UInt32
  version : UInt32
  bytes : UInt32
  abi : UInt32
  state : BootStartupState
  base : UInt32
  resetVector : UInt32
  entryEpoch : UInt32
  hz : UInt32
  reload : UInt32
  dispatchUs : UInt64
  entryUs : UInt64
  active : Bool
  watchdog : BootWatchdog
  publication : BootDiagPublication
  image : BootVerifiedImage
  intent : BootHandoffIntent
  clock : BootStartupClock
  observed : BootStartupObservations
  /-- The pointers of the descriptors are where they belong. -/
  placed : Bool
  /-- The words behind `publication.words`. -/
  block : DiagWords

namespace BootStartup

/-- The capsule after `memset`, the words not being part of it. -/
def zeroed (block : DiagWords) : BootStartup where
  magic := 0
  version := 0
  bytes := 0
  abi := 0
  state := .empty
  base := 0
  resetVector := 0
  entryEpoch := 0
  hz := 0
  reload := 0
  dispatchUs := 0
  entryUs := 0
  active := false
  watchdog := { bootWatchdogInit with epoch := 0 }
  publication := bootDiagPublicationZero
  image := ⟨⟨0, 0, 0, 0, ⟨List.replicate 32 0, length_zeroHash⟩,
    ⟨List.replicate 64 0, length_zeroSignature⟩⟩, 0, 0⟩
  intent := ⟨0, 0, 0, 0, 0, 0, 0, 0⟩
  clock := ⟨0, 0, 0, 0, 0, 0⟩
  observed := ⟨0, 0, 0, 0, 0, 0, 0, 0, 0, 0, 0⟩
  placed := false
  block := block

/-- `fail`. -/
def fail (c : BootStartup) : BootStartup := { c with active := false, state := .failed }

/-- `abi`. -/
def abiOk (c : BootStartup) : Bool :=
  c.magic = bootStartupMagic && c.version = 1 && c.bytes = bootStartupBytes &&
    c.abi = bootStartupAbi

def ownership (c : BootStartup) : Bool :=
  c.placed && c.publication.associated && !c.publication.busy

def controller (c : BootStartup) (entry : Bool) : Bool :=
  c.watchdog.configured && !c.watchdog.blocked && c.watchdog.owner = .application &&
    (!entry || (c.watchdog.epoch = c.entryEpoch && c.watchdog.evidence = 0))

def inImage (c : BootStartup) (pc : UInt32) : Bool :=
  pc ≥ c.base && pc - c.base < c.image.manifest.payloadLength

end BootStartup

/-! ## The operations -/

inductive ClockOp where
  | read
  deriving DecidableEq

/-- The sample, where `read` returned zero. -/
abbrev ClockSig : Sig where
  Op := ClockOp
  Ans _ := Option BootStartupSample

abbrev StartupSig : Sig := ObjSig BootStartup ClockSig

abbrev StartupProg (α : Type) := Prog StartupSig α

namespace BootStartup

/-- `return fail(c)`. -/
def failing {α : Type} (a : α) : StartupProg α := do
  Prog.modifyObj fail
  pure a

def claim (expected : BootStartupState) : StartupProg Bool := do
  let c ← Prog.loadObj
  if !c.abiOk || c.active || c.state ≠ expected then failing false
  else do
    Prog.modifyObj fun c => { c with active := true }
    pure true

def complete (before after : BootStartupState) : StartupProg Bool := do
  let c ← Prog.loadObj
  if !c.active || c.state ≠ before then failing false
  else do
    Prog.modifyObj fun c => { c with active := false, state := after }
    pure true

/-- What `clock_read` asks of the capsule before it samples. -/
def clockReady (c : BootStartup) : Bool :=
  c.ownership && c.clock.hz ≠ 0 && c.clock.hz ≤ uint32Max / 5 && c.clock.rccMask ≠ 0 &&
    c.clock.rcc2Mask ≠ 0 && c.clock.source ≠ 0 && c.hz = c.clock.hz &&
    c.reload = c.hz * 5 && c.watchdog.reload = c.reload

/-- And of the sample, in the capsule as the callback left it. -/
def sampleGood (c : BootStartup) (sample : BootStartupSample) : Bool :=
  sample.source = c.clock.source && sample.hz = c.hz &&
    (sample.rcc ^^^ c.clock.rcc) &&& c.clock.rccMask = 0 &&
    (sample.rcc2 ^^^ c.clock.rcc2) &&& c.clock.rcc2Mask = 0

def clockRead : StartupProg (Option UInt64) := do
  let c ← Prog.loadObj
  if !c.clockReady then pure none
  else do
    let answer ← Prog.ask (S := StartupSig) (.outside .read)
    match answer with
    | none => pure none
    | some sample => do
        let c ← Prog.loadObj
        pure (if c.sampleGood sample then some sample.us else none)

end BootStartup

/-- A device that holds the words of the block. -/
def diagMemory : (op : DiagOp) → DiagWords → DiagSig.Ans op × DiagWords
  | .read i, block => (some (block i), block)
  | .write i value, block => (true, fun j => if j = i then value else block j)
  | .barrier, block => ((), block)
  | .capture _ _, block => (true, block)

/-- `complete` is false where a pointer is NULL or two objects overlap,
`registers` where a register callback is NULL. -/
structure StartupReset where
  complete : Bool
  caller : DiagCaller
  flags : UInt32
  registers : Bool
  clock : BootStartupClock
  placed : Bool

/-- The body of `boot_startup_reset`, which calls nothing back. -/
def startupReset (a : StartupReset) (c : BootStartup) : Bool × BootStartup :=
  if !a.complete then (false, c)
  else
    let booted := (bootDiagPublicationBoot bootDiagPublicationZero a.caller a.flags).run
      diagMemory c.block
    let c := { BootStartup.zeroed booted.2 with publication := booted.1.object }
    if booted.1.result ≠ .ok || !a.registers then (false, c.fail)
    else
      let c := { c with
        watchdog := bootWatchdogInit
        clock := a.clock
        magic := bootStartupMagic
        version := 1
        bytes := bootStartupBytes
        abi := bootStartupAbi
        placed := a.placed }
      if c.ownership then (true, c) else (false, c.fail)

/-- `pointers` are those of `prepare` itself, `excluded` the core's masks. -/
structure StartupPrepare where
  pointers : Bool
  excluded : Bool
  image : BootVerifiedImage
  intent : BootHandoffIntent

def startupPrepare (a : StartupPrepare) : StartupProg Bool := do
  let claimed ← BootStartup.claim .empty
  if !claimed then pure false
  else do
    let c ← Prog.loadObj
    let idle := a.pointers && c.state = .empty && a.excluded && c.ownership &&
      c.controller false && c.watchdog.evidence = 0
    if !prepareAdmits idle c.watchdog.epoch a.image a.intent then BootStartup.failing false
    else do
      Prog.modifyObj fun c => { c with
        image := a.image
        intent := a.intent
        base := a.intent.vtor
        resetVector := a.intent.resetVector
        entryEpoch := a.intent.applicationEpoch
        hz := c.clock.hz
        reload := c.watchdog.reload }
      match ← BootStartup.clockRead with
      | none => BootStartup.failing false
      | some _ => BootStartup.complete .empty .prepared

/-- The result of the protected run, as far as it is looked at. -/
structure StartupRunResult where
  status : BootRuntimeWatchdogStatus
  valid : UInt32
  handoff : BootHandoffResult
  deriving DecidableEq

/-- `pointers` are those in front of `prepare`. -/
def bootStartupPrepare (pointers : Bool) (r : StartupRunResult) (a : StartupPrepare) :
    StartupProg Bool :=
  if !pointers || r.status ≠ .ok || r.valid &&& bootRuntimeWatchdogHandoff = 0 ||
      r.handoff ≠ .ok then BootStartup.failing false
  else startupPrepare a

def bootStartupPrepareHandoff (pointers : Bool) (h : BootHandoff) (r : BootHandoffResult)
    (a : StartupPrepare) : StartupProg Bool :=
  if !pointers || r ≠ .ok || !h.finished || h.blocked then BootStartup.failing false
  else startupPrepare a

def bootStartupBeginDispatch (excluded : Bool) : StartupProg Bool := do
  let claimed ← BootStartup.claim .prepared
  if !claimed then pure false
  else do
    let c ← Prog.loadObj
    if !excluded || !c.controller true then BootStartup.failing false
    else match ← BootStartup.clockRead with
    | none => BootStartup.failing false
    | some us => do
        Prog.modifyObj fun c => { c with dispatchUs := us }
        BootStartup.complete .prepared .dispatching

/-- What the capture of the entry stub must show. -/
def BootStartup.entryGood (c : BootStartup) (stub witness : UInt32) : Bool :=
  c.resetVector = stub && c.image.resetVector = stub &&
    c.image.manifest.executionBase = c.base && c.observed.stub = stub &&
    c.observed.pc = witness && c.inImage (stub &&& ~~~1) && c.inImage witness &&
    c.observed.vtor = c.base && c.observed.msp = 0x20010000 && c.observed.control = 0 &&
    c.observed.ipsr = 0 && c.observed.primask = 0 && c.observed.basepri = 0 &&
    c.observed.faultmask = 0

def bootStartupEarly (excluded : Bool) (stub witness : UInt32) : StartupProg Bool := do
  let claimed ← BootStartup.claim .dispatching
  if !claimed then pure false
  else do
    let c ← Prog.loadObj
    if !excluded || !c.controller true || !c.entryGood stub witness then
      BootStartup.failing false
    else match ← BootStartup.clockRead with
    | none => BootStartup.failing false
    | some us => do
        let c ← Prog.loadObj
        if us < c.dispatchUs then BootStartup.failing false
        else do
          Prog.modifyObj fun c => { c with entryUs := us }
          BootStartup.complete .dispatching .entered

@[simp] abbrev bootDiagStageStartup : UInt32 := 3
@[simp] abbrev bootDiagHealthApp : UInt32 := 1

/-- `boot_diag_publication_progress` on the capsule's own publication, which
has no callbacks. -/
def BootStartup.progress (c : BootStartup) (caller : DiagCaller) :
    BootDiagPublicationResult × BootStartup :=
  let done := (bootDiagPublicationProgress c.publication caller bootDiagStageStartup
    bootDiagHealthApp).run diagMemory c.block
  (done.1.result, { c with publication := done.1.object, block := done.2 })

def bootStartupCReady (excluded : Bool) (caller : DiagCaller) : StartupProg Bool := do
  let claimed ← BootStartup.claim .entered
  if !claimed then pure false
  else do
    let c ← Prog.loadObj
    if !excluded || !c.controller false then BootStartup.failing false
    else match ← BootStartup.clockRead with
    | none => BootStartup.failing false
    | some us => do
        let c ← Prog.loadObj
        if us < c.entryUs || c.state ≠ .entered || !c.active then BootStartup.failing false
        else do
          Prog.modifyObj fun c => (c.progress caller).2
          if (c.progress caller).1 ≠ .ok then BootStartup.failing false
          else do
            Prog.modifyObj fun c =>
              { c with observed := { c.observed with initialized := 1 } }
            BootStartup.complete .entered .cReady

/-- The time written through `us`, which `pointers` says is there and apart. -/
def bootStartupTime (pointers : Bool) : StartupProg (Option UInt64) := do
  let c ← Prog.loadObj
  if !c.abiOk || !pointers || c.active || (c.state ≠ .entered && c.state ≠ .cReady) then
    BootStartup.failing none
  else do
    let before := c.state
    Prog.modifyObj fun c => { c with active := true }
    let c ← Prog.loadObj
    if !c.controller false then BootStartup.failing none
    else match ← BootStartup.clockRead with
    | none => BootStartup.failing none
    | some sample => do
        let c ← Prog.loadObj
        if sample < c.entryUs || !c.active || c.state ≠ before then BootStartup.failing none
        else do
          Prog.modifyObj fun c => { c with active := false }
          pure (some sample)

def bootStartupRunningAt (pointers : Bool) (pc vtor : UInt32) :
    StartupProg (Option BootVerifiedImage) := do
  let c ← Prog.loadObj
  if !c.abiOk || !pointers || (c.state ≠ .entered && c.state ≠ .cReady) ||
      !c.controller false || !c.inImage (pc &&& ~~~1) || vtor ≠ c.base || c.active then
    pure none
  else pure (some c.image)

/-! ## Calls -/

/-- What others store in the capsule: its watchdog, its publication with the
block, the clock's expectations, the pointers, and the capture of the stub. -/
structure StartupOthers where
  hz : UInt32
  reload : UInt32
  watchdog : BootWatchdog
  publication : BootDiagPublication
  clock : BootStartupClock
  observed : BootStartupObservations
  placed : Bool
  block : DiagWords

def BootStartup.others (c : BootStartup) (o : StartupOthers) : BootStartup :=
  { c with
    hz := o.hz
    reload := o.reload
    watchdog := o.watchdog
    publication := o.publication
    clock := o.clock
    observed := o.observed
    placed := o.placed
    block := o.block }

inductive StartupCall where
  | reset (a : StartupReset)
  | prepare (pointers : Bool) (r : StartupRunResult) (a : StartupPrepare)
  | prepareHandoff (pointers : Bool) (h : BootHandoff) (r : BootHandoffResult)
      (a : StartupPrepare)
  | beginDispatch (excluded : Bool)
  | early (excluded : Bool) (stub witness : UInt32)
  | cReady (excluded : Bool) (caller : DiagCaller)
  | time (pointers : Bool)
  | runningAt (pointers : Bool) (pc vtor : UInt32)
  | others (o : StartupOthers)

inductive StartupReply where
  | done (ok : Bool)
  | time (us : Option UInt64)
  | image (found : Option BootVerifiedImage)

def StartupReply.ok : StartupReply → Bool
  | .done ok => ok
  | .time us => us.isSome
  | .image found => found.isSome

def startupCall : StartupCall → StartupProg StartupReply
  | .reset a => do
      let c ← Prog.loadObj
      Prog.modifyObj fun c => (startupReset a c).2
      pure (.done (startupReset a c).1)
  | .prepare pointers r a => do
      let ok ← bootStartupPrepare pointers r a
      pure (.done ok)
  | .prepareHandoff pointers h r a => do
      let ok ← bootStartupPrepareHandoff pointers h r a
      pure (.done ok)
  | .beginDispatch excluded => do
      let ok ← bootStartupBeginDispatch excluded
      pure (.done ok)
  | .early excluded stub witness => do
      let ok ← bootStartupEarly excluded stub witness
      pure (.done ok)
  | .cReady excluded caller => do
      let ok ← bootStartupCReady excluded caller
      pure (.done ok)
  | .time pointers => do
      let us ← bootStartupTime pointers
      pure (.time us)
  | .runningAt pointers pc vtor => do
      let image ← bootStartupRunningAt pointers pc vtor
      pure (.image image)
  | .others o => do
      Prog.modifyObj fun c => c.others o
      pure (.done true)

end EkBareMetal.Boot

import EkBareMetal.Boot.Watchdog

/-!
# The handoff to the application

`boot_handoff.c` over its two callbacks, an operation and the terminal intent.
Admission is pure: it looks at the image, the slot, the observed core registers
and the watchdog's epoch. After it the operations are made in a fixed order,
the watchdog changes its owner, and the intent is recorded. A callback answers
whether it returned zero, and after one that did not nothing more is asked.
-/

namespace EkBareMetal.Boot

open Interact

abbrev bootVectorAlignment : UInt32 := 256

structure BootHandoffContext where
  ipsr : UInt32
  control : UInt32
  primask : UInt32
  basepri : UInt32
  faultmask : UInt32
  deriving DecidableEq

structure BootHandoffRequest where
  image : BootVerifiedImage
  selectedSlot : UInt32
  watchdogEpoch : UInt32
  observed : BootHandoffContext
  deriving DecidableEq

structure BootHandoffIntent where
  vtor : UInt32
  msp : UInt32
  resetVector : UInt32
  control : UInt32
  primask : UInt32
  basepri : UInt32
  faultmask : UInt32
  applicationEpoch : UInt32
  deriving DecidableEq

inductive BootHandoffOperation where
  | exclude
  | stopSystick
  | disableBank0
  | disableBank1
  | quiesceSources
  | clearCorePending
  | clearBank0Pending
  | clearBank1Pending
  | barrierBeforeVtor
  | setVtor
  | barrierAfterVtor
  deriving DecidableEq, Repr

inductive BootHandoffResult where
  | ok
  | argument
  | busy
  | blocked
  | state
  | io
  deriving DecidableEq, Repr

structure BootHandoff where
  entered : Bool
  blocked : Bool
  finished : Bool
  deriving DecidableEq

inductive HandoffOp where
  | operation (op : BootHandoffOperation) (value : UInt32)
  | terminalIntent (intent : BootHandoffIntent)
  deriving DecidableEq

abbrev HandoffSig : Sig where
  Op := HandoffOp
  Ans _ := Bool

/-! ## Admission -/

/-- A core in Thread mode with masks that can be inherited. -/
def observedRefused (o : BootHandoffContext) : Prop :=
  o.ipsr ≠ 0 ∨ o.control &&& ~~~2 ≠ 0 ∨ o.primask > 1 ∨
    o.basepri &&& ~~~0xe0 ≠ 0 ∨ o.faultmask > 1

instance (o : BootHandoffContext) : Decidable (observedRefused o) :=
  inferInstanceAs (Decidable (_ ∨ _))

def bootHandoffAdmit (r : BootHandoffRequest) :
    Except BootHandoffResult BootHandoffIntent :=
  if r.selectedSlot ≠ bootSlotA ∧ r.selectedSlot ≠ bootSlotB then .error .argument
  else
    let base := slotBase r.selectedSlot
    let length := r.image.manifest.payloadLength
    let target := r.image.resetVector &&& ~~~1
    if r.image.manifest.slot ≠ r.selectedSlot ∨
        r.image.manifest.executionBase ≠ base ∨ base % bootVectorAlignment ≠ 0 ∨
        length < bootPayloadMin ∨ length > bootPayloadMax ∨ length % 4 ≠ 0 ∨
        r.image.initialMsp ≠ bootInitialMsp ∨ r.image.resetVector &&& 1 = 0 ∨
        target < base ∨ target - base ≥ length ∨ observedRefused r.observed ∨
        r.watchdogEpoch = 0 ∨ r.watchdogEpoch = uint32Max then .error .argument
    else .ok {
      vtor := base
      msp := r.image.initialMsp
      resetVector := r.image.resetVector
      control := 0
      primask := 0
      basepri := 0
      faultmask := 0
      applicationEpoch := r.watchdogEpoch + 1 }

/-! ## The run -/

/-- `order`. -/
def handoffOrder : List BootHandoffOperation :=
  [.exclude, .stopSystick, .disableBank0, .disableBank1, .quiesceSources,
    .clearCorePending, .clearBank0Pending, .clearBank1Pending,
    .barrierBeforeVtor, .setVtor, .barrierAfterVtor]

/-- The loop over the operations. -/
def handoffOperations (vtor : UInt32) :
    List BootHandoffOperation → Prog HandoffSig Bool
  | [] => pure true
  | op :: rest => do
      let value := if op = .setVtor then vtor else 0
      let done ← Prog.ask (S := HandoffSig) (.operation op value)
      if !done then pure false else handoffOperations vtor rest

/-- The two objects after a run, and the intent where it was written. -/
structure HandoffReply where
  result : BootHandoffResult
  out : Option BootHandoffIntent
  handoff : BootHandoff
  watchdog : BootWatchdog

/-- `boot_watchdog_transfer_held` or `boot_watchdog_transfer`. -/
def handoffTransfer (held : Bool) (w : BootWatchdog) (epoch : UInt32) :
    WatchdogReply :=
  if held then bootWatchdogTransferHeld w epoch
  else if w.entered then (.busy, w)
  else
    let reply := bootWatchdogTransferHeld { w with entered := true } epoch
    (reply.1, { reply.2 with entered := false })

/-- Whether the watchdog is one that may be handed over. -/
def handoffState (w : BootWatchdog) (epoch : UInt32) : BootHandoffResult :=
  if !w.configured ∨ w.blocked ∨ w.owner ≠ .boot ∨ w.epoch ≠ epoch ∨
      w.epoch = uint32Max then .state
  else .ok

/-- From the first operation on every failure is a quarantine. -/
def handoffAdmitted (held : Bool) (h : BootHandoff) (w : BootWatchdog)
    (epoch : UInt32) (intent : BootHandoffIntent) : Prog HandoffSig HandoffReply := do
  let fault := { h with blocked := true }
  let done ← handoffOperations intent.vtor handoffOrder
  if !done then pure ⟨.io, none, fault, w⟩
  else
    let (result, w) := handoffTransfer held w epoch
    if result ≠ .ok then pure ⟨.io, none, fault, w⟩ else do
    let done ← Prog.ask (S := HandoffSig) (.terminalIntent intent)
    if !done then pure ⟨.io, none, fault, w⟩
    else pure ⟨.ok, some intent, { h with finished := true }, w⟩

def handoffRun (held : Bool) (h : BootHandoff) (w : BootWatchdog)
    (request : BootHandoffRequest) : Prog HandoffSig HandoffReply :=
  if h.blocked then pure ⟨.blocked, none, h, w⟩
  else if h.finished then pure ⟨.state, none, h, w⟩
  else match bootHandoffAdmit request with
    | .error e => pure ⟨e, none, h, w⟩
    | .ok intent =>
        if !held && w.entered then pure ⟨.busy, none, h, w⟩
        else if handoffState w request.watchdogEpoch ≠ .ok then
          pure ⟨.state, none, h, w⟩
        else handoffAdmitted held h w request.watchdogEpoch intent

def bootHandoffRunHeld (h : BootHandoff) (w : BootWatchdog)
    (request : BootHandoffRequest) : Prog HandoffSig HandoffReply :=
  handoffRun true h w request

end EkBareMetal.Boot

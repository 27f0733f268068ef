import EkBareMetal.Boot.Runtime
import EkBareMetal.Boot.RuntimeWatchdog
import EkBareMetal.Boot.Handoff

/-!
# The protected launch

`run` of `boot_runtime_watchdog.c` and its two entries. Under the guards of the
bridge, the watchdog and the handoff the runtime makes its one pass, with every
progress event of the verifier at the watchdog, and a launch goes on with the
handoff of what was selected. From the admission on a failure is a quarantine.

An argument is known by where it lies and how large its type is, which is all
that the tests look at, and a callback by whether there is one. The tables and
the prefixes are copied before the first callback, so what they hold is part of
the arguments.
-/

namespace EkBareMetal.Boot

open Words Interact

structure BootRuntimeWatchdog where
  entered : Bool
  consumed : Bool
  runtime : BootRuntime
  deriving DecidableEq

def bootRuntimeWatchdogInit : BootRuntimeWatchdog := ⟨false, false, bootRuntimeInit⟩

abbrev bootRuntimeWatchdogDiagnostic : UInt32 := 1
abbrev bootRuntimeWatchdogRuntime : UInt32 := 2
abbrev bootRuntimeWatchdogCallback : UInt32 := 4

/-- The result; a part whose flag in `valid` is unset is absent. -/
structure BootRuntimeWatchdogResult where
  status : BootRuntimeWatchdogStatus
  valid : UInt32 := 0
  runtime : Option BootRuntimeResult := none
  handoff : Option BootHandoffResult := none
  watchdog : BootWatchdogResult := .ok
  progress : Option BootProgressRecord := none
  deriving DecidableEq

/-- What the call may change. -/
structure LaunchObjects where
  bridge : BootRuntimeWatchdog
  watchdog : BootWatchdog
  handoff : BootHandoff
  deriving DecidableEq

/-- What is written through `out`, a decision by one entry and all of
`boot_runtime_watchdog_launch_t` by the other. -/
inductive ProtectedOutput where
  | decision (decision : BootLaunchDecision)
  | launch (decision : BootLaunchDecision) (intent : BootHandoffIntent)
  deriving DecidableEq

structure ProtectedReply where
  result : BootRuntimeWatchdogResult
  out : Option ProtectedOutput
  objects : LaunchObjects
  deriving DecidableEq

/-! ## Arguments -/

/-- Where an object lies, with the size of its type. -/
structure Span where
  address : Nat
  size : Nat
  deriving DecidableEq

def Span.isNull (a : Span) : Bool := a.address = 0

def Span.overlaps (a b : Span) : Bool :=
  if a.address ≤ b.address then b.address - a.address < a.size
  else a.address - b.address < b.size

/-- The callbacks that are not NULL. -/
structure LaunchCallbacks where
  registersRead : Bool
  registersWrite : Bool
  storeRead : Bool
  storeErasePage : Bool
  storeProgramWord : Bool
  reader : Bool
  watchdogRead : Bool
  watchdogWrite : Bool
  handoffOperation : Bool
  handoffTerminalIntent : Bool
  deriving DecidableEq

structure LaunchArguments where
  bridge : Span
  watchdog : Span
  handoff : Span
  observed : Span
  registers : Span
  store : Span
  images : Span
  out : Span
  callbacks : LaunchCallbacks
  observation : BootHandoffContext
  prefixes : BootSelectImages

namespace LaunchArguments

/-- The objects and the output, and the inputs, of one of the two entries. -/
def inputs (a : LaunchArguments) (launch : Bool) : List Span :=
  [a.registers, a.store, a.images] ++ if launch then [a.observed] else []

def missing (a : LaunchArguments) : Bool :=
  let c := a.callbacks
  a.watchdog.isNull || a.registers.isNull || a.store.isNull || a.images.isNull ||
    !c.reader || a.out.isNull || !c.registersRead || !c.registersWrite ||
    !c.storeRead || !c.storeErasePage || !c.storeProgramWord

/-- The test of the arguments behind the guard of the bridge. -/
def sound (a : LaunchArguments) (launch : Bool) : Bool :=
  if a.missing then false
  else if a.bridge.overlaps a.watchdog || a.out.overlaps a.bridge ||
      a.out.overlaps a.watchdog then false
  else if launch && (a.handoff.isNull || a.observed.isNull ||
      a.handoff.overlaps a.bridge || a.handoff.overlaps a.watchdog ||
      a.handoff.overlaps a.out) then false
  else !(a.inputs launch).any fun input =>
    a.bridge.overlaps input || a.watchdog.overlaps input || a.out.overlaps input ||
      (launch && a.handoff.overlaps input)

/-- No reset, flash, configuration or feed on invalid protection. -/
def watchdogPreflight (a : LaunchArguments) (w : BootWatchdog) : BootWatchdogResult :=
  if w.blocked then .blocked
  else if !w.configured || w.owner != .boot || w.reload == 0 || w.epoch == 0 ||
      !a.callbacks.watchdogRead || !a.callbacks.watchdogWrite then .state
  else .ok

def handoffPreflight (a : LaunchArguments) (h : BootHandoff) : BootHandoffResult :=
  if h.blocked then .blocked
  else if h.finished then .state
  else if !a.callbacks.handoffOperation || !a.callbacks.handoffTerminalIntent ||
      observedRefused a.observation then .argument
  else .ok

end LaunchArguments

/-! ## Callbacks -/

inductive LaunchOp where
  | register (op : RegisterOp)
  | store (op : StoreOp)
  | read (address : UInt32) (requested : Nat)
  | library
  | watchdog (op : WatchdogOp)
  | handoff (op : HandoffOp)
  deriving DecidableEq

abbrev LaunchSig : Sig where
  Op := LaunchOp
  Ans
    | .register op => RegisterSig.Ans op
    | .store op => StoreSig.Ans op
    | .read _ requested => Option (Bytes requested)
    | .library => Bool
    | .watchdog op => WatchdogSig.Ans op
    | .handoff _ => Bool

abbrev askWatchdog (op : WatchdogOp) : Prog LaunchSig (WatchdogSig.Ans op) :=
  Prog.ask (S := LaunchSig) (.watchdog op)

abbrev askHandoff (op : HandoffOp) : Prog LaunchSig (HandoffSig.Ans op) :=
  Prog.ask (S := LaunchSig) (.handoff op)

/-- The watchdog, and what the progress callback has last recorded. -/
abbrev ProgressState := BootWatchdog × Option BootProgressRecord

/-- What serves each request of the runtime: the caller's callbacks, and
`progress` for the events of the verifier. -/
def serveRuntime : (op : RuntimeSig.Op) → ProgressState →
    Prog LaunchSig (RuntimeSig.Ans op × ProgressState)
  | .inl op, s => do
      let r ← Prog.ask (S := LaunchSig) (.register op)
      pure (r, s)
  | .inr (.inl op), s => do
      let r ← Prog.ask (S := LaunchSig) (.store op)
      pure (r, s)
  | .inr (.inr (.read address requested)), s => do
      let r ← Prog.ask (S := LaunchSig) (.read address requested)
      pure (r, s)
  | .inr (.inr .library), s => do
      let r ← Prog.ask (S := LaunchSig) .library
      pure (r, s)
  | .inr (.inr (.progress phase completed total)), s => do
      let x ← (progress s.1 phase completed total).inline askWatchdog
      pure (x.1.1, (x.2, some x.1.2))

/-! ## The transaction -/

def LaunchObjects.quarantine (launch : Bool) (s : LaunchObjects) : LaunchObjects :=
  { s with
    watchdog := s.watchdog.quarantine
    handoff := if launch then { s.handoff with blocked := true } else s.handoff }

/-- The handoff of what was selected, at the epoch the selection has left. -/
def launchSelected (observation : BootHandoffContext)
    (result : BootRuntimeWatchdogResult) (s : LaunchObjects)
    (decision : BootLaunchDecision) : Prog LaunchSig ProtectedReply := do
  let request : BootHandoffRequest := {
    image := decision.image
    selectedSlot := decision.image.manifest.slot
    watchdogEpoch := s.watchdog.epoch
    observed := observation }
  let reply ← (bootHandoffRunHeld s.handoff s.watchdog request).inline askHandoff
  let s := { s with handoff := reply.handoff, watchdog := reply.watchdog }
  let result := { result with handoff := some reply.result }
  match reply.result, reply.out with
  -- OK comes with an intent
  | .ok, some intent =>
      pure ⟨{ result with status := .ok }, some (.launch decision intent), s⟩
  | _, _ => pure ⟨{ result with status := .handoffFailed }, none, s.quarantine true⟩

/-- From the admission on: evidence of the time before is not a bank for this
transaction, and the bridge is consumed before the first callback. -/
def launchAdmitted (C : Crypto) (launch : Bool) (a : LaunchArguments)
    (result : BootRuntimeWatchdogResult) (s : LaunchObjects) :
    Prog LaunchSig ProtectedReply := do
  let (reply, w, record) ←
    (bootRuntimeRun C true s.bridge.runtime a.prefixes).interp serveRuntime
      ({ s.watchdog with evidence := 0 }, none)
  let s : LaunchObjects := { s with
    bridge := { s.bridge with consumed := true, runtime := reply.runtime }
    watchdog := w }
  let result := { result with
    valid := result.valid ||| bootRuntimeWatchdogRuntime |||
      if record.isSome then bootRuntimeWatchdogCallback else 0
    runtime := some reply.result
    watchdog := record.elim result.watchdog (·.watchdog)
    progress := record }
  match reply.result.status, reply.out with
  -- OK comes with a decision
  | .ok, some decision =>
      if launch then launchSelected a.observation result s decision
      else pure ⟨{ result with status := .ok }, some (.decision decision), s⟩
  | _, _ =>
      pure ⟨{ result with status := .runtimeFailed }, none, s.quarantine launch⟩

/-- Under the guard of the watchdog, and of the handoff for a launch. -/
def launchWatchdogHeld (C : Crypto) (launch : Bool) (a : LaunchArguments)
    (s : LaunchObjects) : Prog LaunchSig ProtectedReply :=
  let result : BootRuntimeWatchdogResult := {
    status := .rejected
    valid := bootRuntimeWatchdogDiagnostic
    watchdog := a.watchdogPreflight s.watchdog }
  if result.watchdog ≠ .ok then pure ⟨result, none, s⟩
  else if !launch then launchAdmitted C launch a result s
  else
    let result := { result with
      valid := result.valid ||| bootRuntimeWatchdogHandoff }
    if s.handoff.entered then pure ⟨{ result with handoff := some .busy }, none, s⟩
    else
      let result := { result with handoff := some (a.handoffPreflight s.handoff) }
      if a.handoffPreflight s.handoff ≠ .ok then pure ⟨result, none, s⟩
      else do
        let reply ← launchAdmitted C launch a result
          { s with handoff := { s.handoff with entered := true } }
        let t := reply.objects
        pure { reply with
          objects := { t with handoff := { t.handoff with entered := false } } }

/-- Under the guard of the bridge. -/
def launchBridgeHeld (C : Crypto) (launch : Bool) (a : LaunchArguments)
    (s : LaunchObjects) : Prog LaunchSig ProtectedReply :=
  if s.bridge.consumed then pure ⟨{ status := .consumed }, none, s⟩
  else if !a.sound launch then pure ⟨{ status := .argument }, none, s⟩
  else if s.watchdog.entered then
    pure ⟨{ status := .rejected
            valid := bootRuntimeWatchdogDiagnostic
            watchdog := .busy }, none, s⟩
  else do
    let reply ← launchWatchdogHeld C launch a
      { s with watchdog := { s.watchdog with entered := true } }
    let t := reply.objects
    pure { reply with
      objects := { t with watchdog := { t.watchdog with entered := false } } }

/-- `run`. -/
def protectedRun (C : Crypto) (launch : Bool) (a : LaunchArguments)
    (s : LaunchObjects) : Prog LaunchSig ProtectedReply :=
  if a.bridge.isNull then pure ⟨{ status := .argument }, none, s⟩
  else if s.bridge.entered then pure ⟨{ status := .busy }, none, s⟩
  else do
    let reply ← launchBridgeHeld C launch a
      { s with bridge := { s.bridge with entered := true } }
    let t := reply.objects
    pure { reply with
      objects := { t with bridge := { t.bridge with entered := false } } }

def bootRuntimeWatchdogLaunch (C : Crypto) (a : LaunchArguments)
    (s : LaunchObjects) : Prog LaunchSig ProtectedReply := protectedRun C true a s

end EkBareMetal.Boot

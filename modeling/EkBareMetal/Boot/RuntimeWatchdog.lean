import EkBareMetal.Boot.Watchdog

/-!
# The verifier's progress at the watchdog

`progress` of `boot_runtime_watchdog.c`: the callback that turns every progress
event of the verifier into a report, and every milestone that is evidence into
a service. The numbers of the verifications are the bridge's own: a begin takes
the number after the last one the watchdog has seen, and there is none after
`UINT32_MAX`. What the callback leaves in the result of the run is a record,
and every call writes all of it.
-/

namespace EkBareMetal.Boot

open Interact

inductive BootRuntimeWatchdogStatus where
  | ok
  | argument
  | busy
  | consumed
  | rejected
  | runtimeFailed
  | handoffFailed
  deriving DecidableEq, Repr

@[simp] abbrev bootRuntimeWatchdogHandoff : UInt32 := 8

inductive BootRuntimeWatchdogOperation where
  | preflight
  | report
  | service
  deriving DecidableEq

/-- The callback's fields of `boot_runtime_watchdog_result_t`. -/
structure BootProgressRecord where
  watchdog : BootWatchdogResult
  operation : BootRuntimeWatchdogOperation
  phase : BootVerifyPhase
  epoch : UInt32
  verification : UInt32
  completed : UInt32
  total : UInt32
  deriving DecidableEq

/-- The record before anything was asked of the watchdog. -/
def BootWatchdog.record (w : BootWatchdog) (phase : BootVerifyPhase)
    (completed total : UInt32) : BootProgressRecord where
  watchdog := .ok
  operation := .report
  phase := phase
  epoch := w.epoch
  verification := w.verification
  completed := completed
  total := total

/-- The report of an event, and the service of a milestone. -/
def progressReport (w : BootWatchdog) (r : BootProgressRecord) :
    Prog WatchdogSig ((Bool × BootProgressRecord) × BootWatchdog) :=
  let reply := bootWatchdogReportHeld w
    ⟨w.epoch, r.verification, r.phase, r.completed, r.total⟩
  let r := { r with watchdog := reply.1 }
  let w := reply.2
  if r.watchdog ≠ .ok then pure ((false, r), w)
  else if r.phase = .manifestBegin then pure ((true, r), w)
  else do
    let (result, w) ← bootWatchdogServiceHeld w .boot w.epoch
    pure ((result == .ok, { r with operation := .service, watchdog := result }), w)

def progress (w : BootWatchdog) (phase : BootVerifyPhase)
    (completed total : UInt32) :
    Prog WatchdogSig ((Bool × BootProgressRecord) × BootWatchdog) :=
  let r := w.record phase completed total
  if phase = .manifestBegin then
    if w.verification = uint32Max then
      pure ((false, { r with watchdog := .state }), w)
    else progressReport w { r with verification := r.verification + 1 }
  else progressReport w r

end EkBareMetal.Boot

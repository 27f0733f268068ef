import EkBareMetal.Boot.Reset
import EkBareMetal.Boot.Select

/-!
# From reset to selection

`boot_runtime.c`: one pass of the reset handler and, on what it has committed,
one selection, once for each object. The callbacks are those of the two stages
together: the reset register, the store, and what the verifier asks.

The test of the arguments, that none is NULL and that the output and the
object lie apart from the inputs, is a parameter of the call: its one caller
in the repository passes copies of its own, for which it holds.
-/

namespace EkBareMetal.Boot

open Interact

structure BootRuntime where
  entered : Bool
  consumed : Bool
  deriving DecidableEq

def bootRuntimeInit : BootRuntime := ⟨false, false⟩

inductive BootRuntimeStatus where
  | ok
  | argument
  | busy
  | consumed
  | resetFailed
  | selectFailed
  | reconcile
  deriving DecidableEq, Repr

abbrev bootRuntimeReportReset : UInt32 := 1
abbrev bootRuntimeReportSelect : UInt32 := 2

/-- The result; a stage whose flag in `valid` is unset has its zeroes. -/
structure BootRuntimeResult where
  status : BootRuntimeStatus
  valid : UInt32 := 0
  resetStatus : BootResetHandlerResult := .ok
  reset : BootResetHandlerReport := {}
  selection : BootSelectResult := ⟨.ok, 0, ⟨.ok, .ok⟩, .change, .ok⟩
  deriving DecidableEq

/-- What a call returns, what it wrote through `out`, and the object after it. -/
structure RuntimeReply where
  result : BootRuntimeResult
  out : Option BootLaunchDecision
  runtime : BootRuntime
  deriving DecidableEq

abbrev RuntimeSig : Sig := RegisterSig.sum (StoreSig.sum VerifySig)

/-- The requests of the reset handler among those of the call. -/
def runtimeReset : (op : (RegisterSig.sum StoreSig).Op) →
    Prog RuntimeSig ((RegisterSig.sum StoreSig).Ans op)
  | .inl op => Prog.ask (S := RuntimeSig) (.inl op)
  | .inr op => Prog.ask (S := RuntimeSig) (.inr (.inl op))

/-- The status of a pass of the reset handler that did not succeed. -/
def resetFailed (report : BootResetHandlerReport) : BootRuntimeStatus :=
  if report.valid &&& bootResetReportStoreResult ≠ 0 ∧
      report.storeResult = .uncertain then .reconcile
  else .resetFailed

/-- The part of `boot_runtime_run` behind the admission. -/
def runtimeStages (C : Crypto) (images : BootSelectImages) :
    Prog RuntimeSig (BootRuntimeResult × Option BootLaunchDecision) := do
  let (resetStatus, reset) ← bootResetHandlerRun.inline runtimeReset
  let result : BootRuntimeResult := {
    status := .argument
    valid := bootRuntimeReportReset
    resetStatus := resetStatus
    reset := reset }
  match resetStatus, reset.snapshot with
  -- OK comes with a snapshot
  | .ok, some snapshot => do
      let (selection, decision) ← (bootSelect C snapshot images).right
      let result := { result with
        valid := result.valid ||| bootRuntimeReportSelect
        selection := selection }
      if selection.status ≠ .ok then
        pure ({ result with
          status := if selection.status = .reconcile then .reconcile
            else .selectFailed }, none)
      else pure ({ result with status := .ok }, decision)
  | _, _ => pure ({ result with status := resetFailed reset }, none)

def bootRuntimeRun (C : Crypto) (arguments : Bool) (runtime : BootRuntime)
    (images : BootSelectImages) : Prog RuntimeSig RuntimeReply :=
  if runtime.entered then pure ⟨{ status := .busy }, none, runtime⟩
  else if runtime.consumed then pure ⟨{ status := .consumed }, none, runtime⟩
  else if !arguments then pure ⟨{ status := .argument }, none, runtime⟩
  else do
    let (result, out) ← runtimeStages C images
    pure ⟨result, out, { runtime with consumed := true }⟩

end EkBareMetal.Boot

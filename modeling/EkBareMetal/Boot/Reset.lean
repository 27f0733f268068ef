import EkBareMetal.Boot.Lifecycle
import EkBareMetal.Boot.Store

/-!
# Reset accounting

`boot_reset_accounting.c` classifies the captured reset flags against the
record, and `boot_reset_handler.c` runs one pass of it at boot: capture,
clear, load, propose, commit. The handler is written over its five calls, and
`bootResetHandlerRun` is that program with the store calls substituted, so
that its transcripts are those of the five callbacks.

Fields that hold zero or one in the source are booleans here.
-/

namespace EkBareMetal.Boot

open Words Interact

abbrev bootResetSw : UInt32 := 0x10
abbrev bootResetWatchdog : UInt32 := 0x08
abbrev bootResetBrownout : UInt32 := 0x04
abbrev bootResetExternal : UInt32 := 0x01
abbrev bootResetSupported : UInt32 := 0x1f

structure BootResetDecision where
  supportedFlags : UInt32
  trialApplicable : Bool
  counted : Bool
  reason : UInt32
  consumeIntent : Bool
  deriving DecidableEq

/-- `{ ++categories; d.reason = reason; }` when `present`. -/
def countCategory (present : Bool) (reason : UInt32) (acc : UInt32 × UInt32) :
    UInt32 × UInt32 :=
  if present then (acc.1 + 1, reason) else acc

/-- The number of categories present in the flags, and the last one's reason. -/
def resetCategories (flags : UInt32) (matching : Bool) : UInt32 × UInt32 :=
  countCategory (flags &&& bootResetSw != 0 && matching) bootReasonDeadline <|
  countCategory (flags &&& bootResetBrownout != 0) bootReasonBrownout <|
  countCategory (flags &&& bootResetExternal != 0) bootReasonExternal <|
  countCategory (flags &&& bootResetWatchdog != 0) bootReasonWatchdog
    (0, bootReasonUnused)

/-- The candidate is an unconfirmed trial. -/
def trialApplicable (record : BootMetadata) : Bool :=
  let slot := record.candidateSlot
  slot ≤ bootSlotB && !record.confirmed slot &&
    record.state slot == bootStateTrial

/-- The intent is a deadline of exactly the candidate's acceptance. -/
def intentMatches (record : BootMetadata) : Bool :=
  record.intentKind == bootIntentDeadline &&
    record.intentSlot == record.candidateSlot &&
    record.intentTrialId == (record.image record.candidateSlot).trialId

/-- The failure `boot_reset_propose` charges to the candidate. -/
def resetFailure (record : BootMetadata) (reason : UInt32) (consume : Bool) :
    BootCountedFailure :=
  let entry := record.image record.candidateSlot
  { identity := {
      slot := record.candidateSlot
      payloadHash := entry.payloadHash
      release := entry.release
      payloadLength := entry.payloadLength
      trialId := entry.trialId }
    reason := reason
    consumeIntent := if consume then 1 else 0 }

def bootResetPropose (record : BootMetadata) (capturedFlags : UInt32) :
    BootLifecycleResult × Option (BootMetadata × BootResetDecision) :=
  if bootMetadataValidate record ≠ .ok then (.errorRecord, none)
  else
    let d : BootResetDecision := {
      supportedFlags := capturedFlags &&& bootResetSupported
      trialApplicable := trialApplicable record
      counted := false
      reason := bootReasonUnused
      consumeIntent := false }
    if d.trialApplicable then
      let categories := resetCategories d.supportedFlags (intentMatches record)
      if categories.1 ≠ 0 then
        let d := { d with
          counted := true
          reason := if categories.1 > 1 then bootReasonCombined else categories.2
          consumeIntent := intentMatches record }
        match bootLifecycleApplyCountedFailure record
            (resetFailure record d.reason d.consumeIntent) with
        | (.change, some proposal) => (.change, some (proposal, d))
        | (result, _) => (result, none)
      else (.noChange, some (record, d))
    else (.noChange, some (record, d))

/-! ## The handler -/

inductive BootResetHandlerResult where
  | ok
  | argument
  | captureFailed
  | clearReadFailed
  | clearWriteFailed
  | recovery
  | storeFailed
  | classifyFailed
  deriving DecidableEq, Repr

abbrev bootResetReportCapture : UInt32 := 1
abbrev bootResetReportClear : UInt32 := 2
abbrev bootResetReportDecision : UInt32 := 4
abbrev bootResetReportSnapshot : UInt32 := 8
abbrev bootResetReportStoreResult : UInt32 := 16
abbrev bootResetReportLifecycleResult : UInt32 := 32

/-- The report; a field whose flag in `valid` is unset is absent. -/
structure BootResetHandlerReport where
  valid : UInt32 := 0
  capturedFlags : UInt32 := 0
  decision : Option BootResetDecision := none
  snapshot : Option BootStoreSnapshot := none
  storeResult : BootStoreResult := .ok
  lifecycleResult : BootLifecycleResult := .change
  deriving DecidableEq

/-- The two register callbacks. -/
inductive RegisterOp where
  | read
  | write (flags : UInt32)
  deriving DecidableEq

abbrev RegisterSig : Sig where
  Op := RegisterOp
  Ans
    | .read => Option UInt32
    | .write _ => Bool

inductive ResetCall where
  | readRegister
  | writeRegister (flags : UInt32)
  | load
  | replace (expected : BootStoreSnapshot) (desired : BootMetadata)

abbrev ResetSig : Sig where
  Op := ResetCall
  Ans
    | .readRegister => Option UInt32
    | .writeRegister _ => Bool
    | .load => Except BootStoreResult BootStoreSnapshot
    | .replace _ _ => Except BootStoreResult BootStoreSnapshot

namespace ResetCall

abbrev askReadRegister : Prog ResetSig (Option UInt32) :=
  Prog.ask (S := ResetSig) .readRegister

abbrev askWriteRegister (flags : UInt32) : Prog ResetSig Bool :=
  Prog.ask (S := ResetSig) (.writeRegister flags)

abbrev askLoad : Prog ResetSig (Except BootStoreResult BootStoreSnapshot) :=
  Prog.ask (S := ResetSig) .load

abbrev askReplace (expected : BootStoreSnapshot) (desired : BootMetadata) :
    Prog ResetSig (Except BootStoreResult BootStoreSnapshot) :=
  Prog.ask (S := ResetSig) (.replace expected desired)

end ResetCall

abbrev HandlerReply := BootResetHandlerResult × BootResetHandlerReport

/-- The end of the pass: classify what was captured, commit the proposal. -/
def handlerClassify (p : BootResetHandlerReport) (loaded : BootStoreSnapshot) :
    Prog ResetSig HandlerReply :=
  match bootResetPropose loaded.record p.capturedFlags with
  | (.change, some (desired, d)) => do
      let p := { p with
        lifecycleResult := .change
        decision := some d
        valid := p.valid ||| bootResetReportLifecycleResult |||
          bootResetReportDecision }
      match ← ResetCall.askReplace loaded desired with
      | .error e => pure (.storeFailed, { p with storeResult := e })
      | .ok committed =>
          pure (.ok, { p with
            storeResult := .ok
            snapshot := some committed
            valid := p.valid ||| bootResetReportSnapshot })
  | (.noChange, some (_, d)) =>
      pure (.ok, { p with
        lifecycleResult := .noChange
        decision := some d
        snapshot := some loaded
        valid := p.valid ||| bootResetReportLifecycleResult |||
          bootResetReportDecision ||| bootResetReportSnapshot })
  | (result, _) =>
      pure (.classifyFailed, { p with
        lifecycleResult := result
        valid := p.valid ||| bootResetReportLifecycleResult })

/-- The pass from the load on. -/
def handlerLoad (p : BootResetHandlerReport) : Prog ResetSig HandlerReply := do
  let p := { p with valid := p.valid ||| bootResetReportClear }
  match ← ResetCall.askLoad with
  | .error e =>
      let p := { p with
        storeResult := e
        valid := p.valid ||| bootResetReportStoreResult }
      if e = .noRecord ∨ e = .conflict ∨ e = .invalidRecord then
        pure (.recovery, p)
      else pure (.storeFailed, p)
  | .ok loaded =>
      handlerClassify
        { p with
          storeResult := .ok
          valid := p.valid ||| bootResetReportStoreResult }
        loaded

def resetHandlerCalls : Prog ResetSig HandlerReply := do
  match ← ResetCall.askReadRegister with
  | none => pure (.captureFailed, {})
  | some captured =>
      let p : BootResetHandlerReport := {
        capturedFlags := captured
        valid := bootResetReportCapture }
      if captured &&& bootResetSupported ≠ 0 then do
        match ← ResetCall.askReadRegister with
        | none => pure (.clearReadFailed, p)
        | some fresh =>
            let cleared ← ResetCall.askWriteRegister
              (fresh &&& ~~~(captured &&& bootResetSupported))
            if !cleared then pure (.clearWriteFailed, p) else handlerLoad p
      else handlerLoad p

/-- What serves each call of the handler. -/
def serveReset : (op : ResetCall) →
    Prog (RegisterSig.sum StoreSig) (ResetSig.Ans op)
  | .readRegister => Prog.left (Prog.ask (S := RegisterSig) .read)
  | .writeRegister flags => Prog.left (Prog.ask (S := RegisterSig) (.write flags))
  | .load => Prog.right bootStoreLoad
  | .replace expected desired => Prog.right (bootStoreReplace expected desired)

def bootResetHandlerRun : Prog (RegisterSig.sum StoreSig) HandlerReply :=
  resetHandlerCalls.inline serveReset

end EkBareMetal.Boot

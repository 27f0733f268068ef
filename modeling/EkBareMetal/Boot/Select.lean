import EkBareMetal.Boot.Launch

/-!
# Boot selection

`boot_select.c`: the candidate if there is one, the confirmed current image if
the candidate is invalid or absent, the previous one if the current is invalid
too. `bootSelectCalls` is the function over the calls of `SelectCall`, and
`bootSelect` the same with the store and the verifier substituted, so that its
transcripts are those of the reader, progress and store callbacks.
-/

namespace EkBareMetal.Boot

open Words Interact

/-- The manifest prefix of one slot: a buffer, and how much of it there is. -/
structure BootSelectImage where
  wire : Bytes 160
  size : Nat

structure BootSelectImages where
  a : BootSelectImage
  b : BootSelectImage

/-- `wire[slot]` and `size[slot]`, the size cut to a manifest's. -/
def BootSelectImages.stored (images : BootSelectImages) (slot : UInt32) :
    List UInt8 :=
  let image := if slot = bootSlotA then images.a else images.b
  image.wire.val.take (min image.size bootManifestBytes)

inductive BootSelectStatus where
  | ok
  | argument
  | recovery
  | verifyFailed
  | identityFailed
  | lifecycleFailed
  | storeFailed
  | reconcile
  deriving DecidableEq, Repr

structure BootVerifyResults where
  a : BootVerifyResult
  b : BootVerifyResult
  deriving DecidableEq

def BootVerifyResults.set (v : BootVerifyResults) (slot : UInt32)
    (r : BootVerifyResult) : BootVerifyResults :=
  if slot = bootSlotA then { v with a := r } else { v with b := r }

structure BootSelectResult where
  status : BootSelectStatus
  evidenceMask : UInt32
  verifyResult : BootVerifyResults
  lifecycleResult : BootLifecycleResult
  storeResult : BootStoreResult
  deriving DecidableEq

abbrev SelectReply := BootSelectResult × Option BootLaunchDecision

namespace BootSelectResult

/-- The record of a verification of `slot` that ended with `v`. -/
def evidence (result : BootSelectResult) (slot : UInt32) (v : BootVerifyResult) :
    BootSelectResult :=
  { result with
    evidenceMask := result.evidenceMask ||| (1 <<< slot)
    verifyResult := result.verifyResult.set slot v }

end BootSelectResult

def confirmed (r : BootMetadata) (slot : UInt32) : Bool :=
  slot ≤ bootSlotB && r.confirmed slot

def storeStatus (r : BootStoreResult) : BootSelectStatus :=
  if r = .uncertain then .reconcile
  else if r = .noRecord ∨ r = .conflict then .recovery
  else .storeFailed

/-- The `store_failed` exit. -/
def selectStoreFailed (result : BootSelectResult) (e : BootStoreResult) :
    SelectReply :=
  ({ result with storeResult := e, status := storeStatus e }, none)

/-- The exits that end the call with one status. -/
def selectFailed (result : BootSelectResult) (status : BootSelectStatus) :
    SelectReply :=
  ({ result with status := status }, none)

/-- What `boot_lifecycle_promote_previous` is told about the current image. -/
def invalidCurrent (r : BootMetadata) (failure : BootVerifyResult) :
    BootInvalidCurrent :=
  let entry := r.image r.currentSlot
  { identity := {
      slot := r.currentSlot
      payloadHash := entry.payloadHash
      release := entry.release
      payloadLength := entry.payloadLength
      trialId := entry.trialId }
    failure := failure }

/-- The current image is invalid: verify the previous one, and commit its
promotion. -/
def selectPrevious (images : BootSelectImages) (current : BootStoreSnapshot)
    (failure : BootVerifyResult) (result : BootSelectResult) :
    Prog SelectSig SelectReply :=
  let slot := current.record.currentSlot
  let previous := current.record.previousSlot
  if !confirmed current.record previous || previous == slot ||
      previous == current.record.candidateSlot then
    pure (selectFailed result .recovery)
  else do
    let v ← SelectCall.askVerify (images.stored previous) previous
    let result := result.evidence previous (verifyCode v)
    match v with
    | .error e =>
        if invalidImageFailure e then pure (selectFailed result .recovery)
        else pure (selectFailed result .verifyFailed)
    | .ok image =>
        if bootMetadataImageMatches current.record image.manifest ≠ .ok then
          pure (selectFailed result .identityFailed)
        else
        let invalid := invalidCurrent current.record failure
        match bootLifecyclePromotePrevious current.record invalid image with
        | (.change, some proposal) => do
            let result := { result with lifecycleResult := .change }
            match ← SelectCall.askReplace current proposal with
            | .error e => pure (selectStoreFailed result e)
            | .ok snapshot =>
                pure ({ result with storeResult := .ok, status := .ok },
                  some ⟨image, snapshot⟩)
        | (e, _) =>
            pure (selectFailed { result with lifecycleResult := e }
              .lifecycleFailed)

/-- No candidate, or an invalid one: verify the confirmed current image. -/
def selectCurrent (images : BootSelectImages) (current : BootStoreSnapshot)
    (result : BootSelectResult) : Prog SelectSig SelectReply :=
  let slot := current.record.currentSlot
  if !confirmed current.record slot then pure (selectFailed result .recovery)
  else do
    let v ← SelectCall.askVerify (images.stored slot) slot
    let result := result.evidence slot (verifyCode v)
    match v with
    | .ok image =>
        if bootMetadataImageMatches current.record image.manifest ≠ .ok then
          pure (selectFailed result .identityFailed)
        else do
          match ← SelectCall.askLoad with
          | .error e => pure (selectStoreFailed result e)
          | .ok snapshot =>
              if !sameSnapshot current snapshot then
                pure (selectStoreFailed result .stale)
              else
                pure ({ result with storeResult := .ok, status := .ok },
                  some ⟨image, snapshot⟩)
    | .error e =>
        if !invalidImageFailure e then pure (selectFailed result .verifyFailed)
        else selectPrevious images current e result

/-- The candidate statuses that say the verifier was reached. -/
def launchEvidence (status : BootLaunchStatus) : Bool :=
  status == .ok || status == .imageInvalid || status == .verifyFailed ||
    status == .lifecycleFailed

def bootSelectCalls (expected : BootStoreSnapshot) (images : BootSelectImages) :
    Prog SelectSig SelectReply :=
  let result : BootSelectResult := ⟨.argument, 0, ⟨.ok, .ok⟩, .noChange, .ok⟩
  if expected.page > 1 ∨ bootMetadataValidate expected.record ≠ .ok then
    pure (selectStoreFailed result .invalidRecord)
  else do
    match ← SelectCall.askLoad with
    | .error e => pure (selectStoreFailed result e)
    | .ok current =>
        if !sameSnapshot expected current then
          pure (selectStoreFailed result .stale)
        else
          let slot := current.record.candidateSlot
          if slot ≤ bootSlotB then do
            let (candidate, written) ←
              bootLaunchCandidate current (images.stored slot)
            let result : BootSelectResult := { result with
              verifyResult :=
                result.verifyResult.set slot candidate.verifyResult
              lifecycleResult := candidate.lifecycleResult
              storeResult := candidate.storeResult
              evidenceMask := if launchEvidence candidate.status then
                result.evidenceMask ||| (1 <<< slot) else result.evidenceMask }
            match candidate.status with
            | .ok => pure ({ result with status := .ok }, written)
            | .storeFailed | .reconcile =>
                pure (selectStoreFailed result candidate.storeResult)
            | .imageInvalid => selectCurrent images current result
            | .verifyFailed => pure (selectFailed result .verifyFailed)
            | _ => pure (selectFailed result .lifecycleFailed)
          else selectCurrent images current result

/-- What serves each call. -/
def serveSelect (C : Crypto) : (op : SelectCall) →
    Prog (StoreSig.sum VerifySig) (SelectSig.Ans op)
  | .load => Prog.left bootStoreLoad
  | .replace expected desired => Prog.left (bootStoreReplace expected desired)
  | .verify wire slot => Prog.right (bootVerifyStored C wire slot)

def bootSelect (C : Crypto) (expected : BootStoreSnapshot)
    (images : BootSelectImages) : Prog (StoreSig.sum VerifySig) SelectReply :=
  (bootSelectCalls expected images).inline (serveSelect C)

end EkBareMetal.Boot

import EkBareMetal.Boot.Lifecycle
import EkBareMetal.Boot.Store

/-!
# Launching the candidate

`boot_launch.c`, and the calls it and `boot_select.c` are written over: a load
and a replacement of the store, and a verification of the image stored in a
slot. A reply is the result and what was written through `out`.

The two sources each keep their own `same_snapshot` and `image_invalid`, with
the same bodies; there is one of each here. `image_invalid` is also the test
of `boot_lifecycle_promote_previous`, `invalidImageFailure`.
-/

namespace EkBareMetal.Boot

open Words Interact

inductive SelectCall where
  | load
  | replace (expected : BootStoreSnapshot) (desired : BootMetadata)
  | verify (wire : List UInt8) (slot : UInt32)
  deriving DecidableEq

abbrev SelectSig : Sig where
  Op := SelectCall
  Ans
    | .load => Except BootStoreResult BootStoreSnapshot
    | .replace _ _ => Except BootStoreResult BootStoreSnapshot
    | .verify _ _ => Except BootVerifyResult BootVerifiedImage

namespace SelectCall

abbrev askLoad : Prog SelectSig (Except BootStoreResult BootStoreSnapshot) :=
  Prog.ask (S := SelectSig) .load

abbrev askReplace (expected : BootStoreSnapshot) (desired : BootMetadata) :
    Prog SelectSig (Except BootStoreResult BootStoreSnapshot) :=
  Prog.ask (S := SelectSig) (.replace expected desired)

abbrev askVerify (wire : List UInt8) (slot : UInt32) :
    Prog SelectSig (Except BootVerifyResult BootVerifiedImage) :=
  Prog.ask (S := SelectSig) (.verify wire slot)

end SelectCall

/-- Same page and same canonical bytes. -/
def sameSnapshot (a b : BootStoreSnapshot) : Bool :=
  a.page == b.page &&
  match bootMetadataEncode a.record bootCommitValid bootMetadataBytes,
      bootMetadataEncode b.record bootCommitValid bootMetadataBytes with
  | .ok aw, .ok bw => aw == bw
  | _, _ => false

inductive BootLaunchStatus where
  | ok
  | argument
  | ineligible
  | imageInvalid
  | verifyFailed
  | lifecycleFailed
  | storeFailed
  | reconcile
  deriving DecidableEq, Repr

structure BootLaunchResult where
  status : BootLaunchStatus
  verifyResult : BootVerifyResult
  lifecycleResult : BootLifecycleResult
  storeResult : BootStoreResult
  deriving DecidableEq

structure BootLaunchDecision where
  image : BootVerifiedImage
  snapshot : BootStoreSnapshot
  deriving DecidableEq

abbrev LaunchReply := BootLaunchResult × Option BootLaunchDecision

/-- The `store_failed` exit. -/
def launchStoreFailed (result : BootLaunchResult) (e : BootStoreResult) :
    LaunchReply :=
  ({ result with
      storeResult := e
      status := if e = .uncertain then .reconcile else .storeFailed }, none)

/-- The launch of a verified candidate: commit the trial if it is not one yet,
or check that the authority is still what it was. -/
def launchVerified (result : BootLaunchResult) (current : BootStoreSnapshot)
    (image : BootVerifiedImage) : Prog SelectSig LaunchReply :=
  match bootLifecycleBeginTrial current.record image with
  | (.change, some proposal) => do
      let result := { result with lifecycleResult := .change }
      match ← SelectCall.askReplace current proposal with
      | .error e => pure (launchStoreFailed result e)
      | .ok snapshot =>
          pure ({ result with storeResult := .ok, status := .ok },
            some ⟨image, snapshot⟩)
  | (.noChange, _) => do
      let result := { result with lifecycleResult := .noChange }
      match ← SelectCall.askLoad with
      | .error e => pure (launchStoreFailed result e)
      | .ok snapshot =>
          if !sameSnapshot current snapshot then
            pure (launchStoreFailed result .stale)
          else
            pure ({ result with storeResult := .ok, status := .ok },
              some ⟨image, snapshot⟩)
  | (e, _) =>
      pure ({ result with lifecycleResult := e, status := .lifecycleFailed }, none)

def bootLaunchCandidate (expected : BootStoreSnapshot) (wire : List UInt8) :
    Prog SelectSig LaunchReply :=
  let result : BootLaunchResult := ⟨.argument, .ok, .noChange, .ok⟩
  if expected.page > 1 ∨ bootMetadataValidate expected.record ≠ .ok then
    pure ({ result with
      status := .storeFailed
      storeResult := .invalidRecord }, none)
  else do
    match ← SelectCall.askLoad with
    | .error e => pure (launchStoreFailed result e)
    | .ok current =>
        if !sameSnapshot expected current then
          pure (launchStoreFailed result .stale)
        else
          let slot := current.record.candidateSlot
          if slot > bootSlotB then
            pure ({ result with status := .ineligible }, none)
          else if current.record.state slot ≠ bootStateReady ∧
              current.record.state slot ≠ bootStateTrial then
            pure ({ result with status := .ineligible }, none)
          else do
            match ← SelectCall.askVerify wire slot with
            | .error e =>
                pure ({ result with
                  verifyResult := e
                  status := if invalidImageFailure e then .imageInvalid
                    else .verifyFailed }, none)
            | .ok image => launchVerified result current image

end EkBareMetal.Boot

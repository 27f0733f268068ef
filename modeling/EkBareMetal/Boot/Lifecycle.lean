import EkBareMetal.Boot.Verify

/-!
# Lifecycle proposals

`boot_lifecycle.c`: seven pure functions, each of which proposes the next
record or refuses. A reply is the result code and what was written through
`out`, so a refusal that leaves `out` alone is a reply without a record. The
refusals of NULL and overlapping pointers have no counterpart.

`BootMetadata.setImage` and the accounting update of `applyCountedFailure` are
written as the source writes them, shift and mask, even where the validity of
the record makes part of the work unnecessary.
-/

namespace EkBareMetal.Boot

open Words

inductive BootLifecycleResult where
  | change
  | errorArgument
  | errorRecord
  | errorAdmission
  | errorIdentity
  | errorImage
  | errorExhausted
  | noChange
  | errorHealth
  deriving DecidableEq, Repr

/-- The result code, and the record written through `out`. -/
abbrev LifecycleReply := BootLifecycleResult × Option BootMetadata

/-- `if (result != BOOT_LIFECYCLE_CHANGE) return result;` and then the rest. -/
def BootLifecycleResult.passing (result : BootLifecycleResult)
    (rest : LifecycleReply) : LifecycleReply :=
  if result ≠ .change then (result, none) else rest

structure BootUploadEvidence where
  incoming : BootManifest
  running : BootVerifiedImage
  permittedSlot : UInt32
  deriving DecidableEq

structure BootConfirmRequest where
  slot : UInt32
  payloadHash : Bytes 32
  trialId : UInt32

abbrev bootHealthRequired : UInt32 := 7

structure BootDeadlineRequest where
  slot : UInt32
  trialId : UInt32
  reason : UInt32

structure BootResidentIdentity where
  slot : UInt32
  payloadHash : Bytes 32
  release : UInt32
  payloadLength : UInt32
  trialId : UInt32

structure BootCountedFailure where
  identity : BootResidentIdentity
  reason : UInt32
  consumeIntent : UInt32

structure BootInvalidCurrent where
  identity : BootResidentIdentity
  failure : BootVerifyResult

/-- The 48 zero bytes an invalidated destination is left with. -/
def BootImageEntry.empty : BootImageEntry where
  payloadHash := ⟨List.replicate 32 0, length_zeroHash⟩
  release := 0
  payloadLength := 0
  accounting := 0
  trialId := 0

namespace BootMetadata

/-- The record with `images[slot]` replaced. -/
def setImage (m : BootMetadata) (slot : UInt32) (e : BootImageEntry) :
    BootMetadata :=
  { m with images := m.images.set slot e }

/-- The record with `images[slot].accounting` replaced. -/
def setAccounting (m : BootMetadata) (slot accounting : UInt32) : BootMetadata :=
  m.setImage slot { m.image slot with accounting := accounting }

end BootMetadata

def imageAdmissible (image : BootVerifiedImage) : Bool :=
  bootManifestValidate image.manifest == .ok &&
  match bootImageSpan image.manifest.slot image.manifest.executionBase
      image.manifest.payloadLength with
  | .error _ => false
  | .ok last =>
      image.initialMsp == bootInitialMsp && image.resetVector &&& 1 != 0 &&
        image.manifest.executionBase ≤ image.resetVector &&& ~~~1 &&
        image.resetVector &&& ~~~1 < last

def admission (r : BootMetadata) (e : BootUploadEvidence) : BootLifecycleResult :=
  if bootMetadataValidate r ≠ .ok then .errorRecord
  else if bootManifestValidate e.incoming ≠ .ok ∨ !imageAdmissible e.running then
    .errorImage
  else if e.permittedSlot > bootSlotB ∨ e.incoming.slot ≠ e.permittedSlot ∨
      r.currentSlot ≠ e.running.manifest.slot ∨
      e.permittedSlot = r.currentSlot ∨ r.candidateSlot ≠ bootSlotNone ∨
      ¬ r.confirmed e.running.manifest.slot then .errorAdmission
  else if bootMetadataImageMatches r e.running.manifest ≠ .ok then .errorIdentity
  else .change

def finish (r proposal : BootMetadata) : LifecycleReply :=
  match bootMetadataNextSequence r with
  | .error .errorExhausted => (.errorExhausted, none)
  | .error _ => (.errorRecord, none)
  | .ok sequence =>
      let proposal := { proposal with sequence := sequence }
      if bootMetadataValidate proposal ≠ .ok then (.errorRecord, none)
      else (.change, some proposal)

def bootLifecycleInvalidate (record : BootMetadata)
    (evidence : BootUploadEvidence) : LifecycleReply :=
  (admission record evidence).passing <|
    let slot := evidence.permittedSlot
    let proposal := record.setImage slot .empty
    finish record { proposal with
      previousSlot := if proposal.previousSlot = slot then bootSlotNone
        else proposal.previousSlot
      currentSlot := if proposal.currentSlot = slot then bootSlotNone
        else proposal.currentSlot
      candidateSlot := if proposal.candidateSlot = slot then bootSlotNone
        else proposal.candidateSlot
      confirmedMask := proposal.confirmedMask &&& ~~~(1 <<< slot) }

def bootLifecycleAcceptReady (record : BootMetadata)
    (evidence : BootUploadEvidence) (stored : BootVerifiedImage) :
    LifecycleReply :=
  (admission record evidence).passing <|
    let slot := evidence.permittedSlot
    if (record.image slot).payloadLength ≠ 0 then (.errorAdmission, none)
    else if !imageAdmissible stored then (.errorImage, none)
    else if stored.manifest ≠ evidence.incoming then (.errorIdentity, none)
    else match bootMetadataNextSequence record with
    | .error .errorExhausted => (.errorExhausted, none)
    | .error _ => (.errorRecord, none)
    | .ok next =>
        finish record { record.setImage slot {
            payloadHash := stored.manifest.payloadHash
            release := stored.manifest.release
            payloadLength := stored.manifest.payloadLength
            accounting := bootStateReady
            trialId := next } with
          candidateSlot := slot }

def execution (r : BootMetadata) (image : BootVerifiedImage) :
    BootLifecycleResult :=
  if bootMetadataValidate r ≠ .ok then .errorRecord
  else if !imageAdmissible image then .errorImage
  else if bootMetadataImageMatches r image.manifest ≠ .ok then .errorIdentity
  else .change

def unchanged (r : BootMetadata) : LifecycleReply := (.noChange, some r)

def bootLifecycleBeginTrial (record : BootMetadata)
    (candidate : BootVerifiedImage) : LifecycleReply :=
  (execution record candidate).passing <|
    let slot := candidate.manifest.slot
    if record.candidateSlot ≠ slot then (.errorAdmission, none)
    else if record.state slot = bootStateTrial then unchanged record
    else finish record (record.setAccounting slot
      ((record.image slot).accounting &&& ~~~bootAccountStateMask |||
        bootStateTrial))

def clearIntent (r : BootMetadata) : BootMetadata :=
  { r with
    intentKind := bootIntentNone
    intentSlot := bootSlotNone
    intentTrialId := 0 }

def bootLifecycleConfirm (record : BootMetadata) (request : BootConfirmRequest)
    (running : BootVerifiedImage) (health : UInt32) : LifecycleReply :=
  (execution record running).passing <|
    let slot := running.manifest.slot
    if request.slot ≠ slot ∨ request.trialId ≠ (record.image slot).trialId ∨
        request.payloadHash ≠ running.manifest.payloadHash then
      (.errorIdentity, none)
    else if record.confirmed slot then unchanged record
    else if record.candidateSlot ≠ slot ∨ record.state slot ≠ bootStateTrial then
      (.errorAdmission, none)
    else if health ≠ bootHealthRequired then (.errorHealth, none)
    else finish record (clearIntent { record.setAccounting slot
        ((record.image slot).accounting &&& ~~~bootAccountStateMask) with
      previousSlot := record.currentSlot
      currentSlot := slot
      candidateSlot := bootSlotNone
      confirmedMask := record.confirmedMask ||| (1 <<< slot) })

def residentMatches (r : BootMetadata) (id : BootResidentIdentity) : Bool :=
  id.slot ≤ bootSlotB &&
    let entry := r.image id.slot
    entry.payloadLength != 0 && entry.payloadLength == id.payloadLength &&
      entry.release == id.release && entry.trialId == id.trialId &&
      entry.payloadHash == id.payloadHash

/-- `accounting` with its count raised from `count` by one and `reason` put in
the field of that failure. -/
def appendReason (accounting count reason : UInt32) : UInt32 :=
  (accounting &&& ~~~(3 <<< bootAccountCountShift)) |||
    ((count + 1) <<< bootAccountCountShift) |||
    (reason <<< (bootAccountReason1Shift + 3 * count))

def bootLifecycleApplyCountedFailure (record : BootMetadata)
    (failure : BootCountedFailure) : LifecycleReply :=
  if bootMetadataValidate record ≠ .ok then (.errorRecord, none)
  else if failure.reason < bootReasonWatchdog ∨
      failure.reason > bootReasonCombined ∨ failure.consumeIntent > 1 then
    (.errorArgument, none)
  else if !residentMatches record failure.identity then (.errorIdentity, none)
  else
    let slot := failure.identity.slot
    let accounting := (record.image slot).accounting
    if record.candidateSlot ≠ slot ∨ record.confirmed slot ∨
        accountState accounting ≠ bootStateTrial then (.errorAdmission, none)
    else if record.sequence = uint32Max then (.errorExhausted, none)
    else
      let count := accountCount accounting
      let accounting := appendReason accounting count failure.reason
      if count = 2 then
        finish record (clearIntent { record.setAccounting slot
            (accounting &&& ~~~bootAccountStateMask ||| bootStateRejected |||
              bootAccountRollback) with
          candidateSlot := bootSlotNone })
      else if failure.consumeIntent ≠ 0 then
        finish record (clearIntent (record.setAccounting slot accounting))
      else finish record (record.setAccounting slot accounting)

/-- The seven results that speak about the image and not about the attempt to
check it. -/
def invalidImageFailure (failure : BootVerifyResult) : Bool :=
  match failure with
  | .errorFormat | .errorTarget | .errorSignature | .errorHash | .errorMsp
  | .errorThumb | .errorVectorRange => true
  | _ => false

def bootLifecyclePromotePrevious (record : BootMetadata)
    (invalid : BootInvalidCurrent) (previous : BootVerifiedImage) :
    LifecycleReply :=
  (execution record previous).passing <|
    if !invalidImageFailure invalid.failure then (.errorImage, none)
    else if !residentMatches record invalid.identity ∨
        record.currentSlot ≠ invalid.identity.slot then (.errorIdentity, none)
    else if record.previousSlot ≠ previous.manifest.slot ∨
        record.candidateSlot ≠ bootSlotNone then (.errorAdmission, none)
    else if record.sequence = uint32Max then (.errorExhausted, none)
    else finish record { record with
      currentSlot := record.previousSlot
      previousSlot := bootSlotNone
      confirmedMask :=
        record.confirmedMask &&& ~~~(1 <<< invalid.identity.slot) }

def bootLifecycleDeadlineIntent (record : BootMetadata)
    (request : BootDeadlineRequest) (running : BootVerifiedImage) :
    LifecycleReply :=
  (execution record running).passing <|
    let slot := running.manifest.slot
    if request.slot ≠ slot ∨ request.trialId ≠ (record.image slot).trialId ∨
        request.reason ≠ bootReasonDeadline then (.errorIdentity, none)
    else if record.candidateSlot ≠ slot ∨ record.state slot ≠ bootStateTrial then
      (.errorAdmission, none)
    else if record.intentKind = bootIntentDeadline ∧ record.intentSlot = slot ∧
        record.intentTrialId = request.trialId then unchanged record
    else finish record { record with
      intentKind := bootIntentDeadline
      intentSlot := slot
      intentTrialId := request.trialId }

/-! ## The seven operations as one step -/

/-- A lifecycle call with the evidence it was given. -/
inductive LifecycleOp where
  | invalidate (evidence : BootUploadEvidence)
  | acceptReady (evidence : BootUploadEvidence) (stored : BootVerifiedImage)
  | beginTrial (candidate : BootVerifiedImage)
  | confirm (request : BootConfirmRequest) (running : BootVerifiedImage)
      (health : UInt32)
  | deadlineIntent (request : BootDeadlineRequest) (running : BootVerifiedImage)
  | applyCountedFailure (failure : BootCountedFailure)
  | promotePrevious (invalid : BootInvalidCurrent) (previous : BootVerifiedImage)

def LifecycleOp.apply : LifecycleOp → BootMetadata → LifecycleReply
  | .invalidate e, r => bootLifecycleInvalidate r e
  | .acceptReady e s, r => bootLifecycleAcceptReady r e s
  | .beginTrial c, r => bootLifecycleBeginTrial r c
  | .confirm q i h, r => bootLifecycleConfirm r q i h
  | .deadlineIntent q i, r => bootLifecycleDeadlineIntent r q i
  | .applyCountedFailure f, r => bootLifecycleApplyCountedFailure r f
  | .promotePrevious i p, r => bootLifecyclePromotePrevious r i p

/-- The proposal of a call was committed as the next record. -/
def Committed (r : BootMetadata) (op : LifecycleOp) (r' : BootMetadata) : Prop :=
  op.apply r = (.change, some r')

end EkBareMetal.Boot

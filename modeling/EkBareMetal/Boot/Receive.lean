import EkBareMetal.Boot.Flash
import EkBareMetal.Boot.Lifecycle

/-!
# The firmware receiver

`boot_receive.c`. The receiver is written over the calls it makes: the flash
controller's read, erase and program, a look at whether the controller is
blocked, and the verifier's own callbacks. `serveReceive` puts the controller
driver behind the first three, and `ReceiveCall.perform` is one call of the
receiver's interface on a running station.

The configured `running` callback may do nothing to the device but read it
through the controller, so it is itself a program whose only request is such a
read. The guard against re-entry and the pointer checks have no counterpart:
a caller that finishes one call before the next never sees the guard set.

`manifest` and `word` are the filled parts of the two buffers, so that
`manifest_used` and `word_used` are their lengths.
-/

namespace EkBareMetal.Boot

open Words Interact

inductive BootReceiveResult where
  | ok
  | wait
  | accepted
  | argument
  | busy
  | consumed
  | authority
  | running
  | exhausted
  | admission
  | manifest
  | store
  | reconcile
  | flash
  | length
  | stored
  | aborted
  deriving DecidableEq, Repr

inductive BootReceivePhase where
  | new
  | header
  | authenticate
  | invalidate
  | erase
  | payload
  | writeManifest
  | verify
  | ready
  | terminal
  deriving DecidableEq, Repr

/-- The number the enumeration gives to a phase. -/
def BootReceivePhase.code : BootReceivePhase → Nat
  | .new => 0
  | .header => 1
  | .authenticate => 2
  | .invalidate => 3
  | .erase => 4
  | .payload => 5
  | .writeManifest => 6
  | .verify => 7
  | .ready => 8
  | .terminal => 9

/-! ## The calls of the receiver -/

inductive HostOp where
  | progress (phase : BootVerifyPhase) (completed total : UInt32)
  | library
  deriving DecidableEq

abbrev HostSig : Sig where
  Op := HostOp
  Ans _ := Bool

inductive ReceiveOp where
  | flashRead (address : UInt32) (size : Nat)
  | flashErase (address : UInt32)
  | flashProgram (address word : UInt32)
  | flashBlocked
  | host (op : HostOp)
  deriving DecidableEq

abbrev ReceiveSig : Sig where
  Op := ReceiveOp
  Ans
    | .flashRead _ size => Except BootFlashResult (Bytes size)
    | .flashErase _ => BootFlashResult
    | .flashProgram _ _ => BootFlashResult
    | .flashBlocked => Option BootFlashResult
    | .host _ => Bool

namespace ReceiveOp

abbrev askRead (address : UInt32) (size : Nat) :
    Prog ReceiveSig (Except BootFlashResult (Bytes size)) :=
  Prog.ask (S := ReceiveSig) (.flashRead address size)

abbrev askErase (address : UInt32) : Prog ReceiveSig BootFlashResult :=
  Prog.ask (S := ReceiveSig) (.flashErase address)

abbrev askProgram (address word : UInt32) : Prog ReceiveSig BootFlashResult :=
  Prog.ask (S := ReceiveSig) (.flashProgram address word)

/-- The cause of a blocked controller, none when it is not blocked. -/
abbrev askBlocked : Prog ReceiveSig (Option BootFlashResult) :=
  Prog.ask (S := ReceiveSig) .flashBlocked

abbrev askHost (op : HostOp) : Prog ReceiveSig Bool :=
  Prog.ask (S := ReceiveSig) (.host op)

end ReceiveOp

/-- What the running callback may ask for. -/
structure RunningOp where
  address : UInt32
  size : Nat
  deriving DecidableEq

abbrev RunningSig : Sig where
  Op := RunningOp
  Ans op := Except BootFlashResult (Bytes op.size)

def serveRunning (op : RunningOp) : Prog ReceiveSig (RunningSig.Ans op) :=
  ReceiveOp.askRead op.address op.size

/-- The parts of the configuration that are not pointers: the running callback
answers none where the source's returns nonzero. -/
structure BootReceiveConfig where
  permittedSlot : UInt32
  running : Prog RunningSig (Option BootVerifiedImage)

structure BootReceiveAcceptance where
  snapshot : BootStoreSnapshot
  image : BootVerifiedImage
  resetRequested : Bool
  deriving DecidableEq

structure BootReceive where
  phase : BootReceivePhase
  failedPhase : BootReceivePhase
  failure : BootReceiveResult
  storeResult : BootStoreResult
  flashResult : BootFlashResult
  verifyResult : BootVerifyResult
  lifecycleResult : BootLifecycleResult
  permittedSlot : UInt32
  authority : BootStoreSnapshot
  evidence : BootUploadEvidence
  proposal : BootMetadata
  erase : BootFlashErasePlan
  stored : BootVerifiedImage
  manifest : List UInt8
  word : List UInt8
  received : UInt32
  programmed : UInt32
  manifestProgrammed : UInt32
  eof : Bool
  deriving DecidableEq

/-! `BOOT_RECEIVE_INIT`: every field zero. -/

def BootManifest.zero : BootManifest where
  slot := 0
  executionBase := 0
  payloadLength := 0
  release := 0
  payloadHash := ⟨List.replicate 32 0, length_zeroHash⟩
  signature := ⟨List.replicate 64 0, length_zeroSignature⟩

def BootVerifiedImage.zero : BootVerifiedImage := ⟨.zero, 0, 0⟩

def BootMetadata.zero : BootMetadata where
  sequence := 0
  currentSlot := 0
  candidateSlot := 0
  previousSlot := 0
  confirmedMask := 0
  images := ⟨.empty, .empty⟩
  intentKind := 0
  intentSlot := 0
  intentTrialId := 0

def bootReceiveInit : BootReceive where
  phase := .new
  failedPhase := .new
  failure := .ok
  storeResult := .ok
  flashResult := .ok
  verifyResult := .ok
  lifecycleResult := .change
  permittedSlot := 0
  authority := ⟨.zero, 0⟩
  evidence := ⟨.zero, .zero, 0⟩
  proposal := .zero
  erase := ⟨0, 0, false⟩
  stored := .zero
  manifest := []
  word := []
  received := 0
  programmed := 0
  manifestProgrammed := 0
  eof := false

/-- What a call returns and writes: the result, the receiver, the number of
bytes a feed accepted, and the acceptance of the step that ends in one. -/
structure ReceiveReply where
  result : BootReceiveResult
  receiver : BootReceive
  accepted : Nat := 0
  acceptance : Option BootReceiveAcceptance := none
  deriving DecidableEq

def stop (r : BootReceive) (result : BootReceiveResult) : ReceiveReply where
  result := result
  receiver := { r with
    failedPhase := r.phase
    failure := result
    phase := .terminal }

/-- A call that leaves the receiver as it is. -/
def refuse (r : BootReceive) (result : BootReceiveResult) : ReceiveReply where
  result := result
  receiver := r

/-- A step that goes on in the phase of `r`. -/
def proceed (r : BootReceive) : ReceiveReply where
  result := .ok
  receiver := r

/-- Stop with RECONCILE when the controller is blocked, else with `result`. -/
def stopUnlessBlocked (r : BootReceive) (result : BootReceiveResult) :
    Prog ReceiveSig ReceiveReply := do
  let blocked ← ReceiveOp.askBlocked
  pure (stop r (if blocked.isSome then .reconcile else result))

def storeFailure (r : BootReceive) : Prog ReceiveSig ReceiveReply :=
  if r.storeResult = .uncertain then pure (stop r .reconcile)
  else stopUnlessBlocked r .store

def flashFailure (r : BootReceive) : Prog ReceiveSig ReceiveReply :=
  stopUnlessBlocked r .flash

/-- The code of a flash read. -/
def flashCode {α : Type} : Except BootFlashResult α → BootFlashResult
  | .ok _ => .ok
  | .error e => e

/-- `metadata_result`: the first physical failure is kept. -/
def metadataResult (kept result : BootFlashResult) : BootFlashResult :=
  if kept = .ok then result else kept

/-- The three store callbacks of the receiver, over its `flash_result`. -/
def metadataCalls : (op : StoreOp) → BootFlashResult →
    Prog ReceiveSig (StoreSig.Ans op × BootFlashResult)
  | .read address size, kept => do
      let r ← ReceiveOp.askRead address size
      pure (r.toOption, metadataResult kept (flashCode r))
  | .erasePage address, kept => do
      let r ← ReceiveOp.askErase address
      pure (r == .ok, metadataResult kept r)
  | .programWord address word, kept => do
      let r ← ReceiveOp.askProgram address word
      pure (r == .ok, metadataResult kept r)

/-- The callbacks of the verifier: `read_payload`, and the caller's progress
observer. -/
def payloadCalls : (op : VerifyOp) → BootFlashResult →
    Prog ReceiveSig (VerifySig.Ans op × BootFlashResult)
  | .read address size, _ => do
      let r ← ReceiveOp.askRead address size
      pure (r.toOption, flashCode r)
  | .progress phase completed total, kept => do
      let go ← ReceiveOp.askHost (.progress phase completed total)
      pure (go, kept)
  | .library, kept => do
      let available ← ReceiveOp.askHost .library
      pure (available, kept)

def storeCode {α : Type} : Except BootStoreResult α → BootStoreResult
  | .ok _ => .ok
  | .error e => e

/-! ## The interface -/

/-- From the loaded authority on. -/
def beginRunning (config : BootReceiveConfig) (r : BootReceive) :
    Prog ReceiveSig ReceiveReply := do
  if r.authority.record.sequence > uint32Max - 2 then pure (stop r .exhausted)
  else do
    match ← config.running.inline serveRunning with
    | none => do
        match ← ReceiveOp.askBlocked with
        | some cause => pure (stop { r with flashResult := cause } .reconcile)
        | none => pure (stop r .running)
    | some image =>
        pure (proceed { r with
          evidence := { r.evidence with
            running := image
            permittedSlot := config.permittedSlot } })

def bootReceiveBegin (config : BootReceiveConfig) (r : BootReceive) :
    Prog ReceiveSig ReceiveReply :=
  if r.phase ≠ .new then
    pure (refuse r (if r.phase = .terminal then .consumed else .busy))
  else if config.permittedSlot > bootSlotB then pure (refuse r .argument)
  else do
    let (loaded, flashResult) ← bootStoreLoad.interp metadataCalls .ok
    -- consumed before any callback
    let r := { r with
      permittedSlot := config.permittedSlot
      phase := .header
      flashResult := flashResult
      storeResult := storeCode loaded }
    match loaded with
    | .error _ => stopUnlessBlocked r .authority
    | .ok snapshot => beginRunning config { r with authority := snapshot }

/-- How many bytes of `p` fill a buffer of `size` that holds `used`. -/
def fill (size used : Nat) (p : List UInt8) : Nat := min (size - used) p.length

def bootReceiveFeed (r : BootReceive) (p : List UInt8) : ReceiveReply :=
  if r.phase = .terminal then refuse r .consumed
  else if r.phase = .new then refuse r .argument
  else if p.length = 0 then refuse r .ok
  else if r.eof ∨ (r.phase.code ≥ BootReceivePhase.payload.code ∧
      p.length > (r.evidence.incoming.payloadLength - r.received).toNat) then
    stop r .length
  else if r.phase = .header then
    let count := fill bootManifestBytes r.manifest.length p
    let manifest := r.manifest ++ p.take count
    { result := .ok
      accepted := count
      receiver := { r with
        manifest := manifest
        phase := if manifest.length = bootManifestBytes then .authenticate
          else r.phase } }
  else if r.phase = .payload then
    let count := fill 4 r.word.length p
    if count = 0 then refuse r .wait
    else
      { result := .ok
        accepted := count
        receiver := { r with
          word := r.word ++ p.take count
          received := r.received + UInt32.ofNat count } }
  else refuse r .wait

def bootReceiveEof (r : BootReceive) : ReceiveReply :=
  if r.phase = .terminal then refuse r .consumed
  else if r.phase = .new then refuse r .argument
  else if r.manifest.length ≠ bootManifestBytes ∨
      r.phase.code < BootReceivePhase.payload.code ∨
      r.received ≠ r.evidence.incoming.payloadLength then stop r .length
  else proceed { r with eof := true }

def bootReceiveAbort (r : BootReceive) : ReceiveReply :=
  if r.phase = .terminal then refuse r .consumed
  else if r.phase = .new then refuse r .argument
  else stop r .aborted

/-! ### The steps -/

def stepAuthenticate (C : Crypto) (r : BootReceive) :
    Prog ReceiveSig ReceiveReply := do
  let (verified, flashResult) ←
    (bootVerifyManifest C r.manifest r.permittedSlot).interp payloadCalls
      r.flashResult
  let r := { r with
    flashResult := flashResult
    verifyResult := verifyCode verified }
  match verified with
  | .error _ => pure (stop r .manifest)
  | .ok incoming =>
      let r := { r with evidence := { r.evidence with incoming := incoming } }
      match bootLifecycleInvalidate r.authority.record r.evidence with
      | (.change, some proposal) =>
          pure (proceed { r with
            lifecycleResult := .change
            proposal := proposal
            phase := .invalidate })
      | (e, _) => pure (stop { r with lifecycleResult := e } .admission)

def stepInvalidate (r : BootReceive) : Prog ReceiveSig ReceiveReply := do
  let (replaced, flashResult) ←
    (bootStoreReplace r.authority r.proposal).interp metadataCalls .ok
  let r := { r with flashResult := flashResult, storeResult := storeCode replaced }
  match replaced with
  | .error _ => storeFailure r
  | .ok committed =>
      let r := { r with authority := committed }
      match bootFlashEraseBegin committed r.evidence.running.manifest.slot
          r.permittedSlot with
      | .error e => flashFailure { r with flashResult := e }
      | .ok plan =>
          pure (proceed { r with
            flashResult := .ok
            erase := plan
            phase := .erase })

def stepErase (r : BootReceive) : Prog ReceiveSig ReceiveReply := do
  let (erased, plan) ← bootFlashEraseStep ReceiveOp.askErase r.erase
  let r := { r with flashResult := erased, erase := plan }
  if erased = .done then pure (proceed { r with phase := .payload })
  else if erased ≠ .ok then flashFailure r
  else pure (proceed r)

/-- The end of a payload step: on to the manifest once the end of the stream
is known and everything is programmed. -/
def payloadEnd (r : BootReceive) (result : BootReceiveResult) : ReceiveReply :=
  if r.eof ∧ r.programmed = r.evidence.incoming.payloadLength then
    proceed { r with phase := .writeManifest }
  else refuse r result

def stepPayload (r : BootReceive) : Prog ReceiveSig ReceiveReply :=
  if r.word.length = 4 then do
    let programmed ← ReceiveOp.askProgram
      (r.evidence.incoming.executionBase + r.programmed) (get32 r.word)
    let r := { r with flashResult := programmed }
    if programmed ≠ .ok then flashFailure r
    else pure (payloadEnd { r with programmed := r.programmed + 4, word := [] } .ok)
  else pure (payloadEnd r .wait)

def stepWriteManifest (r : BootReceive) : Prog ReceiveSig ReceiveReply := do
  let programmed ← ReceiveOp.askProgram
    (slotManifest r.permittedSlot + r.manifestProgrammed)
    (get32 (slice r.manifest r.manifestProgrammed.toNat 4))
  let r := { r with flashResult := programmed }
  if programmed ≠ .ok then flashFailure r
  else
    let r := { r with manifestProgrammed := r.manifestProgrammed + 4 }
    pure (proceed { r with
      phase := if r.manifestProgrammed = UInt32.ofNat bootManifestBytes then
        .verify else r.phase })

/-- Verification of the manifest that was read back, and the proposal. -/
def stepVerifyWire (C : Crypto) (wire : List UInt8) (r : BootReceive) :
    Prog ReceiveSig ReceiveReply := do
  let (verified, flashResult) ←
    (bootVerifyStored C wire r.permittedSlot).interp payloadCalls .ok
  let r := { r with
    flashResult := flashResult
    verifyResult := verifyCode verified }
  match verified with
  | .error _ => stopUnlessBlocked r .stored
  | .ok image =>
      let r := { r with stored := image }
      match bootLifecycleAcceptReady r.authority.record r.evidence image with
      | (.change, some proposal) =>
          pure (proceed { r with
            lifecycleResult := .change
            proposal := proposal
            phase := .ready })
      | (e, _) => pure (stop { r with lifecycleResult := e } .admission)

def stepVerify (C : Crypto) (r : BootReceive) : Prog ReceiveSig ReceiveReply := do
  match ← ReceiveOp.askRead (slotManifest r.permittedSlot) bootManifestBytes with
  | .error e => flashFailure { r with flashResult := e }
  | .ok wire =>
      let r := { r with flashResult := .ok }
      -- Exact readback first, then independent stored verification.
      if wire.val ≠ r.manifest then pure (stop r .stored)
      else stepVerifyWire C wire.val r

def stepReady (r : BootReceive) : Prog ReceiveSig ReceiveReply := do
  let (replaced, flashResult) ←
    (bootStoreReplace r.authority r.proposal).interp metadataCalls .ok
  let r := { r with flashResult := flashResult, storeResult := storeCode replaced }
  match replaced with
  | .error _ => storeFailure r
  | .ok committed =>
      pure {
        result := .accepted
        receiver := { r with authority := committed, phase := .terminal }
        acceptance := some ⟨committed, r.stored, true⟩ }

def bootReceiveStep (C : Crypto) (r : BootReceive) : Prog ReceiveSig ReceiveReply :=
  match r.phase with
  | .terminal => pure (refuse r .consumed)
  | .new => pure (refuse r .argument)
  | .header => pure (refuse r .wait)
  | .authenticate => stepAuthenticate C r
  | .invalidate => stepInvalidate r
  | .erase => stepErase r
  | .payload => stepPayload r
  | .writeManifest => stepWriteManifest r
  | .verify => stepVerify C r
  | .ready => stepReady r

/-! ## The receiver on a controller -/

/-- What serves each call of the receiver, over the state of the controller
driver. -/
def serveReceive : (op : ReceiveOp) → BootFlash →
    Prog (FlashSig.sum HostSig) (ReceiveSig.Ans op × BootFlash)
  | .flashRead address size, f => (bootFlashRead f address size).left
  | .flashErase address, f => (bootFlashErase f address).left
  | .flashProgram address word, f => (bootFlashProgram f address word).left
  | .flashBlocked, f =>
      pure (if f.blocked then some f.blockedResult else none, f)
  | .host op, f => do
      let answer ← Prog.right (Prog.ask (S := HostSig) op)
      pure (answer, f)

/-- One call of the receiver's interface. -/
inductive ReceiveCall where
  | begin (config : BootReceiveConfig)
  | feed (bytes : List UInt8)
  | step
  | eof
  | abort

/-- The call on the receiver `r`, by what it asks of the controller. -/
def ReceiveCall.calls (C : Crypto) (r : BootReceive) :
    ReceiveCall → Prog ReceiveSig ReceiveReply
  | .begin config => bootReceiveBegin config r
  | .feed bytes => pure (bootReceiveFeed r bytes)
  | .step => bootReceiveStep C r
  | .eof => pure (bootReceiveEof r)
  | .abort => pure (bootReceiveAbort r)

/-- The same by what it asks of the device and the host. -/
def ReceiveCall.perform (C : Crypto) (r : BootReceive) (f : BootFlash)
    (call : ReceiveCall) :
    Prog (FlashSig.sum HostSig) (ReceiveReply × BootFlash) :=
  (call.calls C r).interp serveReceive f

end EkBareMetal.Boot

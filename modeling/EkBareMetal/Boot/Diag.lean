import EkBareMetal.Lib.Interact
import EkBareMetal.Boot.Format

/-!
# The diagnostic record and its retained block

`boot_diag.c` and `boot_diag_publication.c`. The record is sixteen words in a
block of SRAM that survives a reset, and there is no checksum over it: what
tells a record from leftovers is the fourth word, which is cleared before any
other word is touched and set after all the others are in place.

The publisher reaches the block word by word. A result other than OK from a
word access is an absent or a false answer, and an access that fails may still
have happened. Which evidence the record carries is not in the block; the
publisher keeps it beside, with whether the block is its own.
-/

namespace EkBareMetal.Boot

open Words Interact

/-! ## The codec -/

abbrev bootDiagMagic : UInt32 := 0x31444241
abbrev bootDiagVersion : UInt32 := 1
@[simp] abbrev bootDiagBytes : Nat := 64
abbrev bootDiagHealthMask : UInt32 := 7
abbrev bootDiagStageReset : UInt32 := 0
abbrev bootDiagFaultNone : UInt32 := 0
abbrev bootDiagDetailNone : UInt32 := 0

inductive BootDiagResult where
  | ok
  | errorArgument
  | errorSize
  | errorMagic
  | errorVersion
  | errorLength
  | errorValidity
  | errorReserved
  | errorStage
  | errorFault
  | errorDetail
  | errorSlot
  | errorCount
  | errorHealth
  deriving DecidableEq, Repr

inductive BootDiagValidity where
  | staging
  | published
  deriving DecidableEq

def BootDiagValidity.word : BootDiagValidity → UInt32
  | .staging => 0
  | .published => 1

structure BootDiag where
  stage : UInt32
  fault : UInt32
  detail : UInt32
  resetFlags : UInt32
  runningSlot : UInt32
  selectedSlot : UInt32
  sequence : UInt32
  trialId : UInt32
  failures : UInt32
  health : UInt32
  failedSlot : UInt32
  deriving DecidableEq

/-- Which evidence the record carries; never serialized. -/
structure BootDiagContext where
  sequenceKnown : Bool
  trialIdKnown : Bool
  failuresKnown : Bool
  stageKnown : Bool
  resetFlagsKnown : Bool
  healthKnown : Bool
  deriving DecidableEq

def bootDiagValidate (record : BootDiag) : BootDiagResult :=
  if record.stage > 5 then .errorStage
  else if record.fault > 5 then .errorFault
  else if record.detail > 20 then .errorDetail
  else if !roleValid record.runningSlot || !roleValid record.selectedSlot ||
      !roleValid record.failedSlot then .errorSlot
  else if record.failures > 3 then .errorCount
  else if record.health &&& ~~~bootDiagHealthMask ≠ 0 then .errorHealth
  else .ok

/-- The sixteen words of a record, in their order. -/
def diagFields (record : BootDiag) (validity : BootDiagValidity) : List UInt32 :=
  [bootDiagMagic, bootDiagVersion, UInt32.ofNat bootDiagBytes, validity.word,
    record.stage, record.fault, record.detail, record.resetFlags,
    record.runningSlot, record.selectedSlot, record.sequence, record.trialId,
    record.failures, record.health, record.failedSlot, 0]

def bootDiagEncode (record : BootDiag) (validity : BootDiagValidity)
    (capacity : Nat) : Except BootDiagResult (List UInt8) :=
  if capacity < bootDiagBytes then .error .errorSize
  else match bootDiagValidate record with
    | .ok => .ok ((diagFields record validity).flatMap put32)
    | e => .error e

def bootDiagDecode (wire : List UInt8) (required : BootDiagValidity) :
    Except BootDiagResult BootDiag :=
  if wire.length < bootDiagBytes then .error .errorSize
  else if get32 (slice wire 0 4) ≠ bootDiagMagic then .error .errorMagic
  else if get32 (slice wire 4 4) ≠ bootDiagVersion then .error .errorVersion
  else if get32 (slice wire 8 4) ≠ UInt32.ofNat bootDiagBytes then
    .error .errorLength
  else if get32 (slice wire 12 4) ≠ required.word then .error .errorValidity
  else if get32 (slice wire 60 4) ≠ 0 then .error .errorReserved
  else
    let record : BootDiag := {
      stage := get32 (slice wire 16 4)
      fault := get32 (slice wire 20 4)
      detail := get32 (slice wire 24 4)
      resetFlags := get32 (slice wire 28 4)
      runningSlot := get32 (slice wire 32 4)
      selectedSlot := get32 (slice wire 36 4)
      sequence := get32 (slice wire 40 4)
      trialId := get32 (slice wire 44 4)
      failures := get32 (slice wire 48 4)
      health := get32 (slice wire 52 4)
      failedSlot := get32 (slice wire 56 4) }
    match bootDiagValidate record with
    | .ok => .ok record
    | e => .error e

def bootDiagInit (capturedFlags : UInt32) : BootDiag × BootDiagContext :=
  ({ stage := bootDiagStageReset
     fault := bootDiagFaultNone
     detail := bootDiagDetailNone
     resetFlags := capturedFlags
     runningSlot := bootSlotNone
     selectedSlot := bootSlotNone
     sequence := 0
     trialId := 0
     failures := 0
     health := 0
     failedSlot := bootSlotNone },
   ⟨false, false, false, true, true, true⟩)

/-! ## The publisher -/

inductive BootDiagPublicationResult where
  | ok
  | argument
  | isr
  | busy
  | invalid
  | unassociated
  | read
  | uncertain
  | capture
  deriving DecidableEq, Repr

inductive DiagOp where
  | read (i : Fin 16)
  | write (i : Fin 16) (value : UInt32)
  | barrier
  | capture (record : BootDiag) (context : BootDiagContext)
  deriving DecidableEq

abbrev DiagSig : Sig where
  Op := DiagOp
  Ans
    | .read _ => Option UInt32
    | .write _ _ => Bool
    | .barrier => Unit
    | .capture _ _ => Bool

structure BootDiagPublication where
  context : BootDiagContext
  busy : Bool
  associated : Bool
  deriving DecidableEq

/-- The owner is zero-initialized. -/
def bootDiagPublicationZero : BootDiagPublication where
  context := ⟨false, false, false, false, false, false⟩
  busy := false
  associated := false

/-- Where a call comes from: whether its pointers pass `argument`, and whether
the processor is in the foreground. -/
structure DiagCaller where
  argument : Bool
  foreground : Bool
  deriving DecidableEq

/-- What a call returns, the owner it leaves, and what it wrote through the
output pointers of a snapshot. -/
structure DiagReply where
  result : BootDiagPublicationResult
  object : BootDiagPublication
  out : Option (BootDiag × BootDiagContext)

/-- `lock` and `unlock` around the body of a call. -/
def locked (p : BootDiagPublication) (caller : DiagCaller)
    (body : BootDiagPublication → Prog DiagSig DiagReply) :
    Prog DiagSig DiagReply :=
  if !caller.foreground then pure ⟨.isr, p, none⟩
  else if p.busy then pure ⟨.busy, p, none⟩
  else do
    let reply ← body { p with busy := true }
    pure { reply with object := { reply.object with busy := false } }

abbrev DiagWords := Fin 16 → UInt32

/-- The bytes of the words at the places `is`, read one after another. -/
def readWords : List (Fin 16) → Prog DiagSig (Option (List UInt8))
  | [] => pure (some [])
  | i :: rest => do
      match ← Prog.ask (S := DiagSig) (.read i) with
      | none => pure none
      | some value => do
          let bytes ← readWords rest
          pure (bytes.map (put32 value ++ ·))

def readRecord : Prog DiagSig (Except BootDiagPublicationResult BootDiag) := do
  match ← readWords (List.finRange 16) with
  | none => pure (.error .read)
  | some wire =>
      match bootDiagDecode wire .published with
      | .ok record => pure (.ok record)
      | .error _ => pure (.error .invalid)

def writeWords (candidate : DiagWords) : List (Fin 16) → Prog DiagSig Bool
  | [] => pure true
  | i :: rest => do
      let done ← Prog.ask (S := DiagSig) (.write i (candidate i))
      if !done then pure false else writeWords candidate rest

/-- The word that tells a record from leftovers. -/
abbrev validityWord : Fin 16 := 3

/-- The fields a block spells, valid or not. -/
def spelled (b : DiagWords) : BootDiag where
  stage := b 4
  fault := b 5
  detail := b 6
  resetFlags := b 7
  runningSlot := b 8
  selectedSlot := b 9
  sequence := b 10
  trialId := b 11
  failures := b 12
  health := b 13
  failedSlot := b 14

/-- `candidate[i]`, of the encoded bytes. -/
def candidateWords (wire : List UInt8) : DiagWords := fun i =>
  get32 (slice wire (4 * i) 4)

/-- The block without its validity word, in the order of the loop. -/
def otherWords : List (Fin 16) := (List.finRange 16).filter (· ≠ validityWord)

/-- The stores of a record that has passed its codec. -/
def publishWords (p : BootDiagPublication) (candidate : DiagWords)
    (c : BootDiagContext) :
    Prog DiagSig (BootDiagPublicationResult × BootDiagPublication) := do
  let done ← Prog.ask (S := DiagSig) (.write validityWord 0)
  let p := { p with associated := false }
  if !done then pure (.uncertain, p) else do
  let _ ← Prog.ask (S := DiagSig) .barrier
  let done ← writeWords candidate otherWords
  if !done then pure (.uncertain, p) else do
  let p := { p with context := c }
  let _ ← Prog.ask (S := DiagSig) .barrier
  let done ← Prog.ask (S := DiagSig) (.write validityWord 1)
  if !done then pure (.uncertain, p)
  else pure (.ok, { p with associated := true })

/-- Complete codec validation and staging before even validity is touched. -/
def publish (p : BootDiagPublication) (r : BootDiag) (c : BootDiagContext) :
    Prog DiagSig (BootDiagPublicationResult × BootDiagPublication) :=
  match bootDiagEncode r .published bootDiagBytes with
  | .error _ => pure (.invalid, p)
  | .ok wire => publishWords p (candidateWords wire) c

def bootDiagPublicationBoot (p : BootDiagPublication) (caller : DiagCaller)
    (flags : UInt32) : Prog DiagSig DiagReply :=
  if !caller.argument then pure ⟨.argument, p, none⟩
  else locked p caller fun p => do
    let (r, c) := bootDiagInit flags
    let (result, p) ← publish p r c
    pure ⟨result, p, none⟩

def bootDiagPublicationAdopt (p : BootDiagPublication) (caller : DiagCaller)
    (c : BootDiagContext) (trusted : Bool) : Prog DiagSig DiagReply :=
  if !caller.argument then pure ⟨.argument, p, none⟩
  else if !trusted then pure ⟨.unassociated, p, none⟩
  else locked p caller fun p => do
    match ← readRecord with
    | .error e => pure ⟨e, p, none⟩
    | .ok _ => pure ⟨.ok, { p with context := c, associated := true }, none⟩

def bootDiagPublicationProgress (p : BootDiagPublication) (caller : DiagCaller)
    (stage health : UInt32) : Prog DiagSig DiagReply :=
  if !caller.argument then pure ⟨.argument, p, none⟩
  else if stage > 5 ∨ health &&& ~~~bootDiagHealthMask ≠ 0 then
    pure ⟨.invalid, p, none⟩
  else locked p caller fun p => do
    if !p.associated then pure ⟨.unassociated, p, none⟩ else do
    match ← readRecord with
    | .error e => pure ⟨e, p, none⟩
    | .ok r => do
        -- existing availability remains unchanged, including unknowns
        let (result, p) ← publish p { r with stage := stage, health := health } p.context
        pure ⟨result, p, none⟩

def bootDiagPublicationSnapshot (p : BootDiagPublication) (caller : DiagCaller) :
    Prog DiagSig DiagReply :=
  if !caller.argument then pure ⟨.argument, p, none⟩
  else locked p caller fun p => do
    if !p.associated then pure ⟨.unassociated, p, none⟩ else do
    match ← readRecord with
    | .error e => pure ⟨e, p, none⟩
    | .ok r => pure ⟨.ok, p, some (r, p.context)⟩

def bootDiagPublicationCapture (p : BootDiagPublication) (caller : DiagCaller) :
    Prog DiagSig DiagReply :=
  if !caller.argument then pure ⟨.argument, p, none⟩
  else locked p caller fun p => do
    if !p.associated then pure ⟨.unassociated, p, none⟩ else do
    match ← readRecord with
    | .error e => pure ⟨e, p, none⟩
    | .ok r => do
        let done ← Prog.ask (S := DiagSig) (.capture r p.context)
        pure ⟨if done then .ok else .capture, p, none⟩

/-! ## Calls -/

inductive DiagCall where
  | boot (flags : UInt32)
  | adopt (context : BootDiagContext) (trusted : Bool)
  | progress (stage health : UInt32)
  | snapshot
  | capture
  deriving DecidableEq

def DiagCall.run (p : BootDiagPublication) (caller : DiagCaller) :
    DiagCall → Prog DiagSig DiagReply
  | .boot flags => bootDiagPublicationBoot p caller flags
  | .adopt context trusted => bootDiagPublicationAdopt p caller context trusted
  | .progress stage health => bootDiagPublicationProgress p caller stage health
  | .snapshot => bootDiagPublicationSnapshot p caller
  | .capture => bootDiagPublicationCapture p caller

end EkBareMetal.Boot

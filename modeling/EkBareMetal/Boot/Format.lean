import EkBareMetal.Lib.Words

/-!
# The boot byte contracts

The manifest in front of an image and the metadata record that says what each
slot holds, as `boot_format.c` reads, writes and checks them. A wire is a byte
string, its length standing for the `size` argument; a decoder that publishes
its output only on success returns it only on success. Pointer arguments are
values here, so the NULL refusals have no counterpart.

Slots, roles and states are the source's 32-bit words. Nothing restricts them
before validation does, because a decoder may find any word in a page.
-/

namespace EkBareMetal.Boot

open Words

abbrev bootMetadataPage0 : UInt32 := 0x08000
abbrev bootMetadataPage1 : UInt32 := 0x08400
abbrev bootMetadataEnd : UInt32 := 0x08800
abbrev bootSlotABase : UInt32 := 0x08800
abbrev bootSlotAManifest : UInt32 := 0x23c00
abbrev bootSlotBBase : UInt32 := 0x24000
abbrev bootSlotBManifest : UInt32 := 0x3f400
abbrev bootSlotBEnd : UInt32 := 0x3f800
@[simp] abbrev bootEraseBytes : Nat := 1024
@[simp] abbrev bootProgramBytes : Nat := 4
@[simp] abbrev bootSlotBytes : Nat := 112640
abbrev bootPayloadMin : UInt32 := 236
abbrev bootPayloadMax : UInt32 := 111616
abbrev bootInitialMsp : UInt32 := 0x20010000

abbrev bootFormatVersion : UInt32 := 1
abbrev bootProductId : UInt32 := 1
@[simp] abbrev bootManifestBytes : Nat := 160
@[simp] abbrev bootManifestSignedBytes : Nat := 96
@[simp] abbrev bootMetadataBytes : Nat := 168
@[simp] abbrev bootMetadataCrcBytes : Nat := 160
abbrev bootMetadataMagic : UInt32 := 0x314d4241
abbrev bootCommitErased : UInt32 := 0xffffffff
abbrev bootCommitValid : UInt32 := 0
abbrev bootSlotA : UInt32 := 0
abbrev bootSlotB : UInt32 := 1
abbrev bootSlotNone : UInt32 := 0xffffffff
abbrev bootIntentNone : UInt32 := 0
abbrev bootIntentDeadline : UInt32 := 1
abbrev bootStateNone : UInt32 := 0
abbrev bootStateReady : UInt32 := 1
abbrev bootStateTrial : UInt32 := 2
abbrev bootStateRejected : UInt32 := 3
abbrev bootReasonUnused : UInt32 := 0
abbrev bootReasonWatchdog : UInt32 := 1
abbrev bootReasonExternal : UInt32 := 2
abbrev bootReasonBrownout : UInt32 := 3
abbrev bootReasonDeadline : UInt32 := 4
abbrev bootReasonCombined : UInt32 := 5
abbrev bootAccountStateMask : UInt32 := 3
abbrev bootAccountCountShift : UInt32 := 2
abbrev bootAccountRollback : UInt32 := 0x10
abbrev bootAccountReason1Shift : UInt32 := 5
abbrev bootAccountReservedMask : UInt32 := 0xffffc000
abbrev uint32Max : UInt32 := 0xffffffff

inductive BootResult where
  | ok
  | errorArgument
  | errorSize
  | errorDomain
  | errorVersion
  | errorLength
  | errorProduct
  | errorSlot
  | errorBase
  | errorBounds
  | errorReserved
  | errorMagic
  | errorCommit
  | errorCrc
  | errorAccounting
  | errorEmpty
  | errorRole
  | errorIntent
  | errorIdentity
  | errorMsp
  | errorThumb
  | errorVectorRange
  | errorNoRecord
  | errorConflict
  | errorExhausted
  deriving DecidableEq, Repr

/-- The first failure of two checks made one after the other. -/
def BootResult.andThen (a b : BootResult) : BootResult :=
  match a with
  | .ok => b
  | e => e

/-! Bytes that are all zero, or erased. -/

theorem length_zeroHash : (List.replicate 32 (0 : UInt8)).length = 32 := List.length_replicate

theorem length_zeroSignature : (List.replicate 64 (0 : UInt8)).length = 64 := List.length_replicate

theorem length_erased (size : Nat) : (List.replicate size (0xff : UInt8)).length = size :=
  List.length_replicate

structure BootManifest where
  slot : UInt32
  executionBase : UInt32
  payloadLength : UInt32
  release : UInt32
  payloadHash : Bytes 32
  signature : Bytes 64
  deriving DecidableEq

structure BootImageEntry where
  payloadHash : Bytes 32
  release : UInt32
  payloadLength : UInt32
  accounting : UInt32
  trialId : UInt32
  deriving DecidableEq

/-- The two-element array of image entries. -/
structure BootImages where
  a : BootImageEntry
  b : BootImageEntry
  deriving DecidableEq

/-- `images[slot]`, for a slot index already known to be A or B. -/
def BootImages.get (i : BootImages) (slot : UInt32) : BootImageEntry :=
  if slot = bootSlotA then i.a else i.b

def BootImages.set (i : BootImages) (slot : UInt32) (e : BootImageEntry) :
    BootImages :=
  if slot = bootSlotA then { i with a := e } else { i with b := e }

structure BootMetadata where
  sequence : UInt32
  currentSlot : UInt32
  candidateSlot : UInt32
  previousSlot : UInt32
  confirmedMask : UInt32
  images : BootImages
  intentKind : UInt32
  intentSlot : UInt32
  intentTrialId : UInt32
  deriving DecidableEq

def get32 (p : List UInt8) : UInt32 := le32 p

def put32 (value : UInt32) : List UInt8 := bytes32 value

def zeroBytes (p : List UInt8) : Bool := p.all fun b => b == 0

def slotValid (slot : UInt32) : Bool := slot == bootSlotA || slot == bootSlotB

def roleValid (slot : UInt32) : Bool := slotValid slot || slot == bootSlotNone

/-! ## Manifests -/

/-- `LM3S6965-FW-V1`, padded with zeros. -/
def manifestDomain : List UInt8 :=
  [0x4c, 0x4d, 0x33, 0x53, 0x36, 0x39, 0x36, 0x35,
   0x2d, 0x46, 0x57, 0x2d, 0x56, 0x31, 0x00, 0x00]

def slotBase (slot : UInt32) : UInt32 :=
  if slot = bootSlotA then bootSlotABase else bootSlotBBase

def slotManifest (slot : UInt32) : UInt32 :=
  if slot = bootSlotA then bootSlotAManifest else bootSlotBManifest

def bootImageSpan (slot base length : UInt32) : Except BootResult UInt32 :=
  let expected := slotBase slot
  let limit := slotManifest slot
  if !slotValid slot then .error .errorSlot
  else if base ≠ expected then .error .errorBase
  -- The subtraction comes first, so no length can wrap the sum.
  else if length < bootPayloadMin ∨ length > limit - base ∨ length &&& 3 ≠ 0 then
    .error .errorBounds
  else .ok (base + length)

def bootManifestValidate (manifest : BootManifest) : BootResult :=
  match bootImageSpan manifest.slot manifest.executionBase
      manifest.payloadLength with
  | .ok _ => .ok
  | .error e => e

def bootManifestDecode (wire : List UInt8) : Except BootResult BootManifest :=
  if h : wire.length < bootManifestBytes then .error .errorSize
  else if slice wire 0 16 ≠ manifestDomain then .error .errorDomain
  else if get32 (slice wire 16 4) ≠ bootFormatVersion then .error .errorVersion
  else if get32 (slice wire 20 4) ≠ UInt32.ofNat bootManifestBytes then
    .error .errorLength
  else if get32 (slice wire 24 4) ≠ bootProductId then .error .errorProduct
  else if get32 (slice wire 44 4) ≠ 0 ∨ !zeroBytes (slice wire 80 16) then
    .error .errorReserved
  else
    let value : BootManifest := {
      slot := get32 (slice wire 28 4)
      executionBase := get32 (slice wire 32 4)
      payloadLength := get32 (slice wire 36 4)
      release := get32 (slice wire 40 4)
      payloadHash := ⟨slice wire 48 32, length_slice (by simp at h; omega)⟩
      signature := ⟨slice wire 96 64, length_slice (by simp at h; omega)⟩ }
    match bootManifestValidate value with
    | .ok => .ok value
    | e => .error e

/-- Whether the first two words of a payload start an image that fits its manifest. -/
def bootVectorsValidate (manifest : BootManifest) (payload : List UInt8) : BootResult :=
  match bootImageSpan manifest.slot manifest.executionBase
      manifest.payloadLength with
  | .error e => e
  | .ok last =>
      if payload.length < manifest.payloadLength.toNat then .errorSize
      else if get32 (slice payload 0 4) ≠ bootInitialMsp then .errorMsp
      else
        let reset := get32 (slice payload 4 4)
        if reset &&& 1 = 0 then .errorThumb
        else
          let reset := reset &&& ~~~1
          if reset < manifest.executionBase ∨ reset ≥ last then .errorVectorRange
          else .ok

/-! ## Metadata -/

def crcBit (crc : UInt32) : UInt32 :=
  (crc >>> 1) ^^^ (if crc &&& 1 ≠ 0 then 0xedb88320 else 0)

def crcByte (crc : UInt32) (byte : UInt8) : UInt32 :=
  crcBit (crcBit (crcBit (crcBit (crcBit (crcBit (crcBit (crcBit
    (crc ^^^ byte.toUInt32))))))))

def bootCrc32 (bytes : List UInt8) : UInt32 :=
  bytes.foldl crcByte uint32Max ^^^ uint32Max

def accountState (accounting : UInt32) : UInt32 :=
  accounting &&& bootAccountStateMask

def accountCount (accounting : UInt32) : UInt32 :=
  (accounting >>> bootAccountCountShift) &&& 3

def accountReason (accounting i : UInt32) : UInt32 :=
  (accounting >>> (5 + 3 * i)) &&& 7

/-- One turn of the loop over the three reason fields: true when it refuses. -/
def reasonBad (accounting i : UInt32) : Bool :=
  let count := accountCount accounting
  let reason := accountReason accounting i
  (i < count && (reason == 0 || reason > bootReasonCombined)) ||
    (i ≥ count && reason != 0)

/-- The accounting word of a nonempty entry. -/
def accountValidate (accounting : UInt32) : BootResult :=
  let state := accountState accounting
  let count := accountCount accounting
  if accounting &&& bootAccountReservedMask ≠ 0 then .errorReserved
  else if reasonBad accounting 0 || reasonBad accounting 1 ||
      reasonBad accounting 2 then .errorAccounting
  else if (state = bootStateReady ∧ accounting ≠ bootStateReady) ∨
      (state ≠ bootStateRejected ∧
        (count = 3 ∨ accounting &&& bootAccountRollback ≠ 0)) ∨
      (state = bootStateRejected ∧
        (count ≠ 3 ∨ accounting &&& bootAccountRollback = 0)) then
    .errorAccounting
  else .ok

def entryValidate (entry : BootImageEntry) : BootResult :=
  if entry.payloadLength = 0 then
    if !zeroBytes entry.payloadHash ∨ entry.release ≠ 0 ∨
        entry.accounting ≠ 0 ∨ entry.trialId ≠ 0 then .errorEmpty
    else .ok
  else if entry.payloadLength < bootPayloadMin ∨
      entry.payloadLength > bootPayloadMax ∨ entry.payloadLength &&& 3 ≠ 0 then
    .errorBounds
  else accountValidate entry.accounting

namespace BootMetadata

/-- `images[slot]`. -/
def image (m : BootMetadata) (slot : UInt32) : BootImageEntry := m.images.get slot

/-- The state bits of `images[slot].accounting`. -/
def state (m : BootMetadata) (slot : UInt32) : UInt32 :=
  accountState (m.image slot).accounting

/-- The bit of `slot` in the confirmation mask. -/
def confirmed (m : BootMetadata) (slot : UInt32) : Bool :=
  m.confirmedMask &&& (1 <<< slot) != 0

end BootMetadata

/-- One turn of the loop over the two image entries. -/
def imageValidate (m : BootMetadata) (i : UInt32) : BootResult :=
  let entry := m.image i
  (entryValidate entry).andThen <|
    -- IDs are acceptance sequences retained in later records.
    if entry.trialId > m.sequence then .errorAccounting
    else if entry.payloadLength = 0 ∧
        (m.confirmed i ∨ m.currentSlot = i ∨ m.previousSlot = i ∨
          m.candidateSlot = i) then .errorRole
    else if m.confirmed i ∧ m.state i ≠ bootStateNone then .errorRole
    else if (m.state i = bootStateReady ∨ m.state i = bootStateTrial) ∧
        m.candidateSlot ≠ i then .errorRole
    else .ok

def rolesValidate (m : BootMetadata) : BootResult :=
  if m.currentSlot ≠ bootSlotNone ∧ ¬ m.confirmed m.currentSlot then .errorRole
  else if m.previousSlot ≠ bootSlotNone ∧
      (¬ m.confirmed m.previousSlot ∨ m.previousSlot = m.currentSlot) then
    .errorRole
  else if m.candidateSlot ≠ bootSlotNone ∧
      (m.confirmed m.candidateSlot ∨ m.candidateSlot = m.currentSlot ∨
        m.candidateSlot = m.previousSlot ∨
        (m.state m.candidateSlot ≠ bootStateReady ∧
          m.state m.candidateSlot ≠ bootStateTrial)) then .errorRole
  else .ok

def intentValidate (m : BootMetadata) : BootResult :=
  if m.intentKind = bootIntentNone then
    if m.intentSlot ≠ bootSlotNone ∨ m.intentTrialId ≠ 0 then .errorIntent
    else .ok
  else if m.intentKind = bootIntentDeadline then
    if !slotValid m.intentSlot ∨ m.intentSlot ≠ m.candidateSlot ∨
        m.state m.intentSlot ≠ bootStateTrial ∨
        (m.image m.intentSlot).trialId ≠ m.intentTrialId then .errorIntent
    else .ok
  else .errorIntent

def bootMetadataValidate (m : BootMetadata) : BootResult :=
  if !roleValid m.currentSlot || !roleValid m.candidateSlot ||
      !roleValid m.previousSlot then .errorSlot
  else if m.confirmedMask &&& ~~~3 ≠ 0 then .errorReserved
  else (imageValidate m bootSlotA).andThen <| (imageValidate m bootSlotB).andThen <|
    (rolesValidate m).andThen (intentValidate m)

/-- One image entry of a wire, at offset `p`. -/
def entryAt (wire : List UInt8) (p : Nat) (h : p + 48 ≤ wire.length) :
    BootImageEntry where
  payloadHash := ⟨slice wire p 32, length_slice (by omega)⟩
  release := get32 (slice wire (p + 32) 4)
  payloadLength := get32 (slice wire (p + 36) 4)
  accounting := get32 (slice wire (p + 40) 4)
  trialId := get32 (slice wire (p + 44) 4)

/-- The record a wire of sufficient length spells, valid or not. -/
def metadataAt (wire : List UInt8) (h : bootMetadataBytes ≤ wire.length) :
    BootMetadata where
  sequence := get32 (slice wire 12 4)
  currentSlot := get32 (slice wire 16 4)
  candidateSlot := get32 (slice wire 20 4)
  previousSlot := get32 (slice wire 24 4)
  confirmedMask := get32 (slice wire 28 4)
  images := ⟨entryAt wire 32 (by simp at h; omega),
    entryAt wire 80 (by simp at h; omega)⟩
  intentKind := get32 (slice wire 128 4)
  intentSlot := get32 (slice wire 132 4)
  intentTrialId := get32 (slice wire 136 4)

def bootMetadataDecode (wire : List UInt8) : Except BootResult BootMetadata :=
  if h : wire.length < bootMetadataBytes then .error .errorSize
  else if get32 (slice wire 0 4) ≠ bootMetadataMagic then .error .errorMagic
  else if get32 (slice wire 4 4) ≠ bootFormatVersion then .error .errorVersion
  else if get32 (slice wire 8 4) ≠ UInt32.ofNat bootMetadataBytes then
    .error .errorLength
  else if get32 (slice wire 164 4) ≠ bootCommitValid then .error .errorCommit
  else if get32 (slice wire 160 4) ≠
      bootCrc32 (slice wire 0 bootMetadataCrcBytes) then .error .errorCrc
  else if get32 (slice wire 140 4) ≠ 0 ∨ !zeroBytes (slice wire 144 16) then
    .error .errorReserved
  else
    let value := metadataAt wire (by omega)
    match bootMetadataValidate value with
    | .ok => .ok value
    | e => .error e

def entryBytes (entry : BootImageEntry) : List UInt8 :=
  entry.payloadHash.val ++ (put32 entry.release ++ (put32 entry.payloadLength ++
    (put32 entry.accounting ++ put32 entry.trialId)))

/-- The first 160 bytes of a record, the part its checksum covers. The buffer
is zeroed first, which is what leaves the 20 reserved bytes at the end. -/
def metadataBody (m : BootMetadata) : List UInt8 :=
  put32 bootMetadataMagic ++ (put32 bootFormatVersion ++
  (put32 (UInt32.ofNat bootMetadataBytes) ++ (put32 m.sequence ++
  (put32 m.currentSlot ++ (put32 m.candidateSlot ++ (put32 m.previousSlot ++
  (put32 m.confirmedMask ++ (entryBytes m.images.a ++ (entryBytes m.images.b ++
  (put32 m.intentKind ++ (put32 m.intentSlot ++ (put32 m.intentTrialId ++
  List.replicate 20 0))))))))))))

def metadataWire (m : BootMetadata) (commit : UInt32) : List UInt8 :=
  metadataBody m ++ (put32 (bootCrc32 (metadataBody m)) ++ put32 commit)

def bootMetadataEncode (m : BootMetadata) (commit : UInt32) (capacity : Nat) :
    Except BootResult (List UInt8) :=
  if capacity < bootMetadataBytes then .error .errorSize
  else if commit ≠ bootCommitErased ∧ commit ≠ bootCommitValid then
    .error .errorCommit
  else match bootMetadataValidate m with
    | .ok => .ok (metadataWire m commit)
    | e => .error e

/-- Each page is decoded on its own; the greater sequence wins, and equal
sequences must be the same bytes. -/
def bootMetadataSelect (page0 page1 : List UInt8) :
    Except BootResult (BootMetadata × UInt32) :=
  match bootMetadataDecode page0, bootMetadataDecode page1 with
  | .error _, .error _ => .error .errorNoRecord
  | .ok v0, .ok v1 =>
      if v0.sequence = v1.sequence ∧
          page0.take bootMetadataBytes ≠ page1.take bootMetadataBytes then
        .error .errorConflict
      else if v1.sequence > v0.sequence then .ok (v1, 1)
      else .ok (v0, 0)
  | .ok v0, .error _ => .ok (v0, 0)
  | .error _, .ok v1 => .ok (v1, 1)

def bootMetadataNextSequence (m : BootMetadata) : Except BootResult UInt32 :=
  match bootMetadataValidate m with
  | .ok =>
      if m.sequence = uint32Max then .error .errorExhausted
      else .ok (m.sequence + 1)
  | e => .error e

def bootMetadataImageMatches (m : BootMetadata) (manifest : BootManifest) :
    BootResult :=
  (bootMetadataValidate m).andThen <| (bootManifestValidate manifest).andThen <|
    let entry := m.image manifest.slot
    if entry.payloadLength ≠ manifest.payloadLength ∨
        entry.release ≠ manifest.release ∨
        entry.payloadHash ≠ manifest.payloadHash then .errorIdentity
    else .ok

end EkBareMetal.Boot

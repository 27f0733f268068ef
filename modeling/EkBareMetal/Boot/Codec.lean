import EkBareMetal.Boot.Format

/-!
# The codecs over their caller's buffers

`boot_metadata_encode` and `boot_metadata_decode` as their callers see them: a
result, and the buffer the call was given, written or not. The encoder clears
the record's bytes and then stores field by field; the checksum is taken of the
buffer after the fields in front of it are in place.
-/

namespace EkBareMetal.Boot

open Words

def putEntry (wire : List UInt8) (p : Nat) (entry : BootImageEntry) :
    List UInt8 :=
  let wire := patch wire p entry.payloadHash.val
  let wire := patch wire (p + 32) (put32 entry.release)
  let wire := patch wire (p + 36) (put32 entry.payloadLength)
  let wire := patch wire (p + 40) (put32 entry.accounting)
  patch wire (p + 44) (put32 entry.trialId)

/-- The cleared buffer with the fields in front of the checksum. -/
def putFields (m : BootMetadata) (wire : List UInt8) : List UInt8 :=
  let wire := patch wire 0 (List.replicate bootMetadataBytes 0)
  let wire := patch wire 0 (put32 bootMetadataMagic)
  let wire := patch wire 4 (put32 bootFormatVersion)
  let wire := patch wire 8 (put32 (UInt32.ofNat bootMetadataBytes))
  let wire := patch wire 12 (put32 m.sequence)
  let wire := patch wire 16 (put32 m.currentSlot)
  let wire := patch wire 20 (put32 m.candidateSlot)
  let wire := patch wire 24 (put32 m.previousSlot)
  let wire := patch wire 28 (put32 m.confirmedMask)
  let wire := putEntry wire 32 m.images.a
  let wire := putEntry wire 80 m.images.b
  let wire := patch wire 128 (put32 m.intentKind)
  let wire := patch wire 132 (put32 m.intentSlot)
  patch wire 136 (put32 m.intentTrialId)

def putMetadata (m : BootMetadata) (commit : UInt32) (wire : List UInt8) :
    List UInt8 :=
  let wire := putFields m wire
  let wire := patch wire 160 (put32 (bootCrc32 (slice wire 0 bootMetadataCrcBytes)))
  patch wire 164 (put32 commit)

/-- The length of `wire` is the capacity. -/
def bootMetadataEncodeInto (m : BootMetadata) (commit : UInt32)
    (wire : List UInt8) : BootResult × List UInt8 :=
  if wire.length < bootMetadataBytes then (.errorSize, wire)
  else if commit ≠ bootCommitErased ∧ commit ≠ bootCommitValid then
    (.errorCommit, wire)
  else match bootMetadataValidate m with
    | .ok => (.ok, putMetadata m commit wire)
    | e => (e, wire)

def bootMetadataDecodeInto (wire : List UInt8) (out : BootMetadata) :
    BootResult × BootMetadata :=
  match bootMetadataDecode wire with
  | .ok value => (.ok, value)
  | .error e => (e, out)

/-- The two outputs of `boot_metadata_select`, the record and its page. -/
def bootMetadataSelectInto (page0 page1 : List UInt8) (out : BootMetadata) (page : UInt32) :
    BootResult × BootMetadata × UInt32 :=
  match bootMetadataSelect page0 page1 with
  | .ok (value, selected) => (.ok, value, selected)
  | .error e => (e, out, page)

/-! ## Manifests -/

/-- The 160 bytes in front of an image. -/
def manifestWire (m : BootManifest) : List UInt8 :=
  manifestDomain ++ (put32 bootFormatVersion ++
    (put32 (UInt32.ofNat bootManifestBytes) ++ (put32 bootProductId ++
      (put32 m.slot ++ (put32 m.executionBase ++ (put32 m.payloadLength ++
        (put32 m.release ++ (List.replicate 4 0 ++ (m.payloadHash.val ++
          (List.replicate 16 0 ++ m.signature.val))))))))))

def putManifest (m : BootManifest) (wire : List UInt8) : List UInt8 :=
  let wire := patch wire 0 (List.replicate bootManifestBytes 0)
  let wire := patch wire 0 manifestDomain
  let wire := patch wire 16 (put32 bootFormatVersion)
  let wire := patch wire 20 (put32 (UInt32.ofNat bootManifestBytes))
  let wire := patch wire 24 (put32 bootProductId)
  let wire := patch wire 28 (put32 m.slot)
  let wire := patch wire 32 (put32 m.executionBase)
  let wire := patch wire 36 (put32 m.payloadLength)
  let wire := patch wire 40 (put32 m.release)
  let wire := patch wire 48 m.payloadHash.val
  patch wire 96 m.signature.val

/-- The length of `wire` is the capacity. -/
def bootManifestEncodeInto (m : BootManifest) (wire : List UInt8) : BootResult × List UInt8 :=
  if wire.length < bootManifestBytes then (.errorSize, wire)
  else match bootManifestValidate m with
    | .ok => (.ok, putManifest m wire)
    | e => (e, wire)

def bootManifestDecodeInto (wire : List UInt8) (out : BootManifest) :
    BootResult × BootManifest :=
  match bootManifestDecode wire with
  | .ok value => (.ok, value)
  | .error e => (e, out)

end EkBareMetal.Boot

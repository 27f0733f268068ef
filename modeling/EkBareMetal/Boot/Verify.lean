import EkBareMetal.Boot.Format
import EkBareMetal.Lib.Interact

/-!
# Signed-image verification

`boot_verify.c`. The cryptographic library is not part of the repository's
own code: `Crypto` holds the two functions it computes, SHA-256 and the P-256
signature check under the one public key a build contains. That a library
call can also run out of resources is a request of its own, `library`, whose
false answer is the CRYPTO result. Reading the stored payload and notifying
progress are the two callbacks; a reader that returns anything but the number
of bytes asked for answers `none`. A missing progress callback behaves as one
that always says go on.

The running hash context is the list of bytes it has been fed.
-/

namespace EkBareMetal.Boot

open Words Interact

abbrev bootVerifyChunkBytes : UInt32 := 256

inductive BootVerifyResult where
  | ok
  | errorArgument
  | errorFormat
  | errorTarget
  | errorSignature
  | errorCrypto
  | errorRead
  | errorAborted
  | errorHash
  | errorMsp
  | errorThumb
  | errorVectorRange
  deriving DecidableEq, Repr

inductive BootVerifyPhase where
  | manifestBegin
  | manifestAuthenticated
  | payloadProgress
  deriving DecidableEq

structure Crypto where
  sha256 : List UInt8 → Bytes 32
  ecdsaVerify : Bytes 32 → Bytes 64 → Bool

inductive VerifyOp where
  | read (address : UInt32) (requested : Nat)
  | progress (phase : BootVerifyPhase) (completed total : UInt32)
  | library
  deriving DecidableEq

abbrev VerifySig : Sig where
  Op := VerifyOp
  Ans
    | .read _ requested => Option (Bytes requested)
    | .progress _ _ _ => Bool
    | .library => Bool

structure BootVerifiedImage where
  manifest : BootManifest
  initialMsp : UInt32
  resetVector : UInt32
  deriving DecidableEq

/-- The code the C enumeration gives to a verification that returned. -/
def verifyCode {α : Type} : Except BootVerifyResult α → BootVerifyResult
  | .ok _ => .ok
  | .error e => e

abbrev notify (phase : BootVerifyPhase) (completed total : UInt32) :
    Prog VerifySig Bool := Prog.ask (S := VerifySig) (.progress phase completed total)

abbrev reader (address : UInt32) (requested : Nat) :
    Prog VerifySig (Option (Bytes requested)) :=
  Prog.ask (S := VerifySig) (.read address requested)

/-- Whether the library calls made next return without a failure of their
own. -/
abbrev library : Prog VerifySig Bool := Prog.ask (S := VerifySig) .library

/-- The signature check of a decoded manifest. -/
def authentic (C : Crypto) (wire : List UInt8) (manifest : BootManifest) : Bool :=
  C.ecdsaVerify (C.sha256 (slice wire 0 bootManifestSignedBytes))
    manifest.signature

def bootVerifyManifest (C : Crypto) (wire : List UInt8) (expectedSlot : UInt32) :
    Prog VerifySig (Except BootVerifyResult BootManifest) :=
  if !slotValid expectedSlot then pure (.error .errorArgument)
  else match bootManifestDecode wire with
  | .error _ => pure (.error .errorFormat)
  | .ok manifest =>
      if manifest.slot ≠ expectedSlot then pure (.error .errorTarget)
      else do
        let go ← notify .manifestBegin 0 manifest.payloadLength
        if !go then pure (.error .errorAborted) else do
        let available ← library
        if !available then pure (.error .errorCrypto)
        else if !authentic C wire manifest then pure (.error .errorSignature)
        else do
          let go ← notify .manifestAuthenticated 0 manifest.payloadLength
          if !go then pure (.error .errorAborted) else pure (.ok manifest)

theorem chunk_decreases {completed total : UInt32} (h : completed < total) :
    (total - (completed + (if total - completed > bootVerifyChunkBytes then
      bootVerifyChunkBytes else total - completed))).toNat <
      (total - completed).toNat := by
  rw [← UInt32.lt_iff_toNat_lt]
  grind

/-- The loop over the payload: `sha` is what the hash context has been fed,
`vectors` the first eight bytes of the first chunk. -/
def hashPayload (m : BootManifest) (completed : UInt32)
    (sha vectors : List UInt8) :
    Prog VerifySig (Except BootVerifyResult (List UInt8 × List UInt8)) :=
  if _h : completed < m.payloadLength then
    let remaining := m.payloadLength - completed
    let requested := if remaining > bootVerifyChunkBytes then
      bootVerifyChunkBytes else remaining
    (reader (m.executionBase + completed) requested.toNat).bind fun
    | none => .ret (.error .errorRead)
    | some buffer =>
        let vectors := if completed = 0 then slice buffer.val 0 8 else vectors
        library.bind fun available =>
        if !available then .ret (.error .errorCrypto)
        else
          (notify .payloadProgress (completed + requested) m.payloadLength).bind
            fun go =>
          if !go then .ret (.error .errorAborted)
          else hashPayload m (completed + requested) (sha ++ buffer.val) vectors
  else pure (.ok (sha, vectors))
termination_by (m.payloadLength - completed).toNat
decreasing_by exact chunk_decreases ‹_›

/-- The last checks, on the two vectors of a payload whose hash is right. -/
def vectorResult (m : BootManifest) (initialMsp resetVector : UInt32) :
    BootVerifyResult :=
  if initialMsp ≠ bootInitialMsp then .errorMsp
  else if resetVector &&& 1 = 0 then .errorThumb
  else
    let target := resetVector &&& ~~~1
    if target < m.executionBase ∨ target ≥ m.executionBase + m.payloadLength then
      .errorVectorRange
    else .ok

/-- From the digest on, nothing is called any more. -/
def imageResult (C : Crypto) (m : BootManifest) (sha vectors : List UInt8) :
    Except BootVerifyResult BootVerifiedImage :=
  if C.sha256 sha ≠ m.payloadHash then .error .errorHash
  else
    let image : BootVerifiedImage :=
      ⟨m, get32 vectors, get32 (vectors.drop 4)⟩
    match vectorResult m image.initialMsp image.resetVector with
    | .ok => .ok image
    | e => .error e

def bootVerifyStored (C : Crypto) (wire : List UInt8) (expectedSlot : UInt32) :
    Prog VerifySig (Except BootVerifyResult BootVerifiedImage) := do
  match ← bootVerifyManifest C wire expectedSlot with
  | .error e => pure (.error e)
  | .ok m =>
      -- starting the hash context
      let available ← library
      if !available then pure (.error .errorCrypto) else do
      match ← hashPayload m 0 [] [] with
      | .error e => pure (.error e)
      | .ok (sha, vectors) =>
          -- finishing it
          let available ← library
          if !available then pure (.error .errorCrypto)
          else pure (imageResult C m sha vectors)

end EkBareMetal.Boot

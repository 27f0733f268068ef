import EkBareMetal.Tools.Workflow

/-!
# The packager

`package.py`, as far as it decides what a package is: the checks of a payload,
the manifest in front of it and the conversion of a signature. The ELF parser,
SHA-256 and OpenSSL are functions it is given. `PackageError` is a
`ValueError`, and `struct.pack` raises an exception of its own for a number
that is no 32-bit word.
-/

namespace EkBareMetal.Tools

open Words Text

/-- The keys of `BASES`, and the choices of `--slot`. -/
inductive Slot where
  | A
  | B
  deriving DecidableEq

def Slot.name : Slot → List UInt8
  | .A => ascii "A"
  | .B => ascii "B"

def BASES : Slot → Nat
  | .A => 0x8800
  | .B => 0x24000

abbrev MIN_PAYLOAD : Nat := 236
abbrev MAX_PAYLOAD : Nat := 111616

/-- The order of the group of P-256. -/
abbrev ORDER : Nat := 0xffffffff00000000ffffffffffffffffbce6faada7179e84f3b9cac2fc632551

inductive InputFormat where
  | elf
  | bin
  deriving DecidableEq

def packageError {α : Type} (message : String) : Except PyError α :=
  .error (.valueError (ascii message))

/-- `payload += b"\xff" * (-len(payload) % 4)`. -/
def padded (payload : List UInt8) : List UInt8 :=
  payload ++ List.replicate ((4 - payload.length % 4) % 4) 0xff

/-- From the payload on, whatever it was taken from. -/
def checkPayload (base : Nat) (payload : List UInt8) : Except PyError (List UInt8) :=
  if ¬ (MIN_PAYLOAD ≤ payload.length ∧ payload.length ≤ MAX_PAYLOAD) then
    packageError "payload length outside slot limits"
  else
    let payload := padded payload
    if ¬ payload.length ≤ MAX_PAYLOAD then packageError "padded payload outside slot"
    else
      let msp := (wordAt payload 0).toNat
      let reset := (wordAt payload 4).toNat
      if ¬ msp = 0x20010000 then packageError "initial MSP must equal 0x20010000"
      else if reset % 2 = 0 then packageError "reset vector must be Thumb"
      else if ¬ (base ≤ reset - reset % 2 ∧ reset - reset % 2 < base + payload.length) then
        packageError "reset target outside authenticated payload"
      else .ok payload

def canonicalPayload (elfPayload : List UInt8 → Nat → Except PyError (List UInt8))
    (data : List UInt8) (slot : Slot) (format : InputFormat) : Except PyError (List UInt8) :=
  match (if format = .elf then elfPayload data (BASES slot) else .ok data) with
  | .error e => .error e
  | .ok payload => checkPayload (BASES slot) payload

/-! ## Signatures -/

/-- `int.from_bytes(bytes, "big")`. -/
def fromBigEndian (bytes : List UInt8) : Nat := bytes.foldl (fun n b => n * 256 + b.toNat) 0

/-- `value.to_bytes(width, "big")`. -/
def toBigEndian : Nat → Nat → List UInt8
  | 0, _ => []
  | width + 1, value => toBigEndian width (value / 256) ++ [UInt8.ofNat value]

theorem length_toBigEndian (width value : Nat) : (toBigEndian width value).length = width := by
  induction width generalizing value with
  | zero => rfl
  | succ width ih => simp [toBigEndian, ih]

/-- One turn of the loop: the scalar at `pos`, and where the next one starts. -/
def derInteger (der : List UInt8) (pos : Nat) : Except PyError (Nat × Nat) :=
  if ¬ (pos + 2 ≤ der.length ∧ der.getD pos 0 = 2) then
    packageError "invalid DER integer tag"
  else
    let size := (der.getD (pos + 1) 0).toNat
    let encoded := slice der (pos + 2) size
    let first := encoded.getD 0 0
    if ¬ (1 ≤ size ∧ size ≤ 33 ∧ encoded.length = size ∧ first &&& 0x80 = 0) then
      packageError "invalid DER integer length/sign"
    else if ¬ (size = 1 ∨ first ≠ 0 ∨ encoded.getD 1 0 &&& 0x80 ≠ 0) then
      packageError "nonminimal DER integer"
    else
      let value := fromBigEndian encoded
      if ¬ (1 ≤ value ∧ value < ORDER) then
        packageError "signature scalar outside P-256 range"
      else .ok (value, pos + 2 + size)

def derToRaw (der : List UInt8) : Except PyError (Bytes 64) :=
  if ¬ (8 ≤ der.length ∧ der.length ≤ 72 ∧ der.getD 0 0 = 0x30 ∧
      (der.getD 1 0).toNat = der.length - 2) then
    packageError "invalid DER signature sequence"
  else match derInteger der 2 with
  | .error e => .error e
  | .ok (r, pos) =>
      match derInteger der pos with
      | .error e => .error e
      | .ok (s, pos) =>
          if pos ≠ der.length then packageError "trailing DER signature bytes"
          else .ok ⟨toBigEndian 32 r ++ toBigEndian 32 s, by simp [length_toBigEndian]⟩

/-! ## Packages -/

/-- `struct.pack("<8I", ...)`, of numbers that are words. -/
def packWords (words : List Nat) : List UInt8 := words.flatMap fun n => bytes32 (UInt32.ofNat n)

/-- The bytes that are signed. -/
def packagePrefix (sha256 : List UInt8 → List UInt8) (payload : List UInt8) (slot : Slot)
    (release : Nat) : List UInt8 :=
  packageDomain ++
    packWords [1, 160, 1, if slot = .A then 0 else 1, BASES slot, payload.length, release, 0] ++
    sha256 payload ++ List.replicate 16 0

def buildPackage (sha256 : List UInt8 → List UInt8)
    (sign : List UInt8 → Except PyError (Bytes 64)) (payload : List UInt8) (slot : Slot)
    (release : Int) : Except PyError (List UInt8) :=
  if ¬ (0 ≤ release ∧ release ≤ 0xffffffff) then packageError "release must be uint32"
  else if 2 ^ 32 ≤ payload.length then .error .other
  else
    let signed := packagePrefix sha256 payload slot release.toNat
    match sign (sha256 signed) with
    | .error e => .error e
    | .ok signature => .ok (signed ++ signature.val ++ payload)

end EkBareMetal.Tools

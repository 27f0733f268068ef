import EkBareMetal.Lib.Interact
import EkBareMetal.Lib.Text
import EkBareMetal.Lib.Words

/-!
# The restricted-bench workflow

`workflow.py`, the PC's side of an update: the parser of the device's status,
the check of a package's shape, and the workflow that uploads once and then
resolves by status. A Python string is the list of its bytes, all the text
here being ASCII, and a dictionary is its list of items. The transport is
injected in the source, so its methods are requests here, and an answer is
what the method returns or the kind of exception it raises.
-/

namespace EkBareMetal.Tools

open Words Text Interact

/-- `ValueError` with its message, `UnicodeDecodeError`, which is one too, and
what a transport raises: an `OSError`, which may be a `ProtocolError`, or
anything else. -/
inductive PyError where
  | valueError (message : List UInt8)
  | unicodeError
  | osError (protocol : Bool)
  | other
  deriving DecidableEq

def KEYS : List (List UInt8) :=
  [ascii "format", ascii "sequence", ascii "running_slot", ascii "hash",
    ascii "release", ascii "confirmed_slot", ascii "candidate_slot",
    ascii "permitted_slot", ascii "trial_id", ascii "trial_state",
    ascii "slot_a_failures", ascii "slot_a_reasons", ascii "slot_a_rollback",
    ascii "slot_b_failures", ascii "slot_b_reasons", ascii "slot_b_rollback",
    ascii "health", ascii "stage", ascii "fault", ascii "detail",
    ascii "reset_flags"]

def REASONS : List (List UInt8) :=
  [ascii "watchdog", ascii "external", ascii "brownout",
    ascii "network_deadline", ascii "combined"]

abbrev StatusValues := List (List UInt8 × List UInt8)

/-- `key.endswith(suffix)`. -/
def endsWith (key suffix : List UInt8) : Bool := suffix.isSuffixOf key

/-- The greatest number a key may have. -/
def numberLimit (key : List UInt8) : Nat :=
  if endsWith key (ascii "failures") then 3
  else if endsWith key (ascii "rollback") then 1
  else if key = ascii "stage" ∨ key = ascii "fault" then 5
  else if key = ascii "detail" then 20
  else 0xffffffff

/-- `valid` of one turn of the loop, for a value other than `none`. -/
def valueValid (key value : List UInt8) : Bool :=
  if endsWith key (ascii "slot") then value = ascii "A" || value = ascii "B"
  else if key = ascii "hash" then value.length = 64 && value.all isHex
  else if key = ascii "health" ∨ key = ascii "reset_flags" then
    (value.length = 8 && value.all isHex) &&
      (key ≠ ascii "health" || number 16 value ≤ 7)
  else if key = ascii "trial_state" then
    value = ascii "ready" || value = ascii "trial" || value = ascii "rejected"
  else if endsWith key (ascii "reasons") then
    let parts := value.splitOn 0x2c
    parts.length ≤ 3 && parts.all fun part => REASONS.contains part
  else
    (value ≠ [] && value.all isDigit) && value.length ≤ 1024 &&
      number 10 value ≤ numberLimit key

/-- The loop over `KEYS[1:]`. -/
def checkValues (values : StatusValues) : List (List UInt8) → Except PyError Unit
  | [] => .ok ()
  | key :: keys =>
      let value := (values.lookup key).getD []
      if value = ascii "none" ∨ valueValid key value then checkValues values keys
      else .error (.valueError (ascii "status value: " ++ key))

/-- A line with exactly one equals sign, as the pair around it. -/
def keyValue (line : List UInt8) : Option (List UInt8 × List UInt8) :=
  match line.splitOn 0x3d with
  | [key, value] => some (key, value)
  | _ => none

/-- Reject malformed status. Keep known zero distinct from unavailable. -/
def status (body : List UInt8) : Except PyError StatusValues :=
  if body.length > 1024 ∨ body.getLast? ≠ some lineFeed then
    .error (.valueError (ascii "status framing"))
  else if body.any (· ≥ 0x80) then .error .unicodeError
  else match (body.dropLast.splitOn lineFeed).mapM keyValue with
  | none => .error (.valueError (ascii "status keys"))
  | some values =>
      if values.map (·.1) ≠ KEYS then .error (.valueError (ascii "status keys"))
      else if (values.lookup (ascii "format")).getD [] ≠ ascii "1" then
        .error (.valueError (ascii "status format"))
      else (checkValues values KEYS.tail).map fun _ => values

/-! ## Packages -/

structure Artifact where
  slot : List UInt8
  digest : List UInt8
  release : List UInt8
  body : List UInt8
  deriving DecidableEq

/-- `LM3S6965-FW-V1` and two zeros. -/
def packageDomain : List UInt8 := ascii "LM3S6965-FW-V1" ++ [0, 0]

/-- `bytes.hex()`. -/
def hexText (bytes : List UInt8) : List UInt8 := bytes.flatMap fun b => hex 2 b.toNat

/-- Check package shape and identity, not ECDSA authenticity. -/
def Artifact.fromBytes (sha256 : List UInt8 → List UInt8) (body : List UInt8) :
    Except PyError Artifact :=
  let word (i : Nat) := (wordAt body (16 + 4 * i)).toNat
  let slot := word 3
  let base := word 4
  let length := word 5
  if body.length < 160 ∨ body.take 16 ≠ packageDomain then
    .error (.valueError (ascii "manifest domain"))
  else if (word 0, word 1, word 2, word 7) ≠ (1, 160, 1, 0) ∨ ¬ (slot = 0 ∨ slot = 1) then
    .error (.valueError (ascii "manifest header"))
  else if base ≠ (if slot = 0 then 0x8800 else 0x24000) ∨
      ¬ (236 ≤ length ∧ length ≤ 111616) ∨ length % 4 ≠ 0 then
    .error (.valueError (ascii "manifest bounds"))
  else if body.length ≠ 160 + length ∨ slice body 80 16 ≠ List.replicate 16 0 then
    .error (.valueError (ascii "package framing"))
  else if sha256 (body.drop 160) ≠ slice body 48 32 then
    .error (.valueError (ascii "package hash"))
  else
    let msp := (wordAt body 160).toNat
    let reset := (wordAt body 164).toNat
    if msp ≠ 0x20010000 ∨ reset % 2 = 0 ∨
        ¬ (base ≤ reset - reset % 2 ∧ reset - reset % 2 < base + length) then
      .error (.valueError (ascii "package vectors"))
    else .ok {
      slot := if slot = 0 then ascii "A" else ascii "B"
      digest := hexText (slice body 48 32)
      release := decimal (word 6)
      body := body }

/-! ## The workflow -/

inductive TransportOp where
  | connect
  | binary
  | retr (name : List UInt8)
  | stor (name body : List UInt8)
  deriving DecidableEq

abbrev TransportSig : Sig where
  Op := TransportOp
  Ans
    | .connect => Except PyError Unit
    | .binary => Except PyError Unit
    | .retr _ => Except PyError (List UInt8)
    | .stor _ _ => Except PyError Unit

structure Workflow where
  artifact : Option Artifact
  trialId : Option Nat
  uploadAttempted : Bool
  beforeUpload : Option StatusValues
  confirmAttempted : Bool
  deriving DecidableEq

def Workflow.new : Workflow := ⟨none, none, false, none, false⟩

/-- The answers a workflow gives. -/
inductive Verdict where
  | unknown
  | mismatch
  | unhealthy
  | trial
  | confirmed
  deriving DecidableEq

/-- `values[key]` of a parsed status, which has every key. -/
def StatusValues.get (values : StatusValues) (key : String) : List UInt8 :=
  (values.lookup (ascii key)).getD []

/-- `int(value)` of a parsed number. -/
def intOf (value : List UInt8) : Nat := number 10 value

namespace Workflow

abbrev Reply (α : Type) := Except PyError α

def read : Prog TransportSig (Reply StatusValues) := do
  match ← Prog.ask (S := TransportSig) .connect with
  | .error e => pure (.error e)
  | .ok _ =>
      match ← Prog.ask (S := TransportSig) .binary with
      | .error e => pure (.error e)
      | .ok _ =>
          match ← Prog.ask (S := TransportSig) (.retr (ascii "boot-status")) with
          | .error e => pure (.error e)
          | .ok body => pure (status body)

/-- Whether the status read admits no upload to `destination`. -/
def notAdmitted (current : StatusValues) (destination : List UInt8) : Bool :=
  (destination ≠ ascii "A" && destination ≠ ascii "B") ||
    current.get "candidate_slot" ≠ ascii "none" ||
    (current.get "running_slot" ≠ ascii "A" && current.get "running_slot" ≠ ascii "B") ||
    current.get "running_slot" ≠ current.get "confirmed_slot" ||
    current.get "running_slot" = destination

/-- `artifacts` has a package for `A` and one for `B`. A raised exception
leaves the object as it was at that point. -/
def upload (sha256 : List UInt8 → List UInt8) (w : Workflow)
    (artifacts : List UInt8 → List UInt8) :
    Prog TransportSig (Reply Verdict × Workflow) := do
  if w.uploadAttempted then
    pure (.error (.valueError
      (ascii "upload already attempted; resolve by status")), w)
  else match ← read with
  | .error e => pure (.error e, w)
  | .ok current =>
      let destination := current.get "permitted_slot"
      if notAdmitted current destination then
        pure (.error (.valueError (ascii "upload not admitted")), w)
      else match Artifact.fromBytes sha256 (artifacts destination) with
      | .error e => pure (.error e, w)
      | .ok artifact =>
          if artifact.slot ≠ destination then
            pure (.error (.valueError (ascii "artifact target")), w)
          else
            let w := { w with
              artifact := some artifact
              beforeUpload := some current
              -- A lost reply does not permit another upload.
              uploadAttempted := true }
            match ← Prog.ask (S := TransportSig)
                (.stor (ascii "firmware") artifact.body) with
            | .error (.osError _) => pure (.ok .unknown, w)
            | .error e => pure (.error e, w)
            | .ok _ => pure (.ok .unknown, w)

/-- Whether `observed` still shows the metadata in front of the reset. -/
def beforeReset (w : Workflow) (a : Artifact) (observed : StatusValues) : Bool :=
  match w.beforeUpload with
  | none => false
  | some before =>
      w.trialId.isNone &&
      ["running_slot", "hash", "confirmed_slot"].all
        (fun key => observed.get key = before.get key) &&
      before.get "release" ≠ ascii "none" &&
      intOf (observed.get "release") = intOf (before.get "release") &&
      ((observed.get "candidate_slot" = ascii "none" &&
          observed.get "trial_state" = ascii "none" &&
          observed.get "permitted_slot" = a.slot) ||
        (observed.get "candidate_slot" = a.slot &&
          observed.get "trial_state" = ascii "ready" &&
          observed.get "permitted_slot" = ascii "none"))

def classify (w : Workflow) (observed : StatusValues) : Reply Verdict × Workflow :=
  match w.artifact with
  | none => (.error (.valueError (ascii "no selected artifact")), w)
  | some a =>
      let trial := observed.get "trial_id"
      if ["running_slot", "hash", "release"].any
          (fun key => observed.get key = ascii "none") then (.ok .unknown, w)
      else if observed.get "running_slot" ≠ a.slot ∨ observed.get "hash" ≠ a.digest ∨
          observed.get "release" = ascii "none" ∨
          intOf (observed.get "release") ≠ intOf a.release then
        (.ok (if beforeReset w a observed then .unknown else .mismatch), w)
      else if trial = ascii "none" then (.ok .unknown, w)
      else if w.trialId.any (· ≠ intOf trial) then (.ok .mismatch, w)
      else if (w.beforeUpload.elim true fun before =>
          before.get "sequence" = ascii "none" ||
          observed.get "sequence" = ascii "none" ||
          !(intOf (before.get "sequence") < intOf trial &&
            intOf trial ≤ intOf (observed.get "sequence"))) then (.ok .unknown, w)
      else if observed.get "confirmed_slot" = a.slot ∧
          observed.get "candidate_slot" = ascii "none" ∧
          observed.get "trial_state" = ascii "none" then
        (.ok .confirmed, { w with trialId := some (intOf trial) })
      else if observed.get "candidate_slot" ≠ a.slot ∨
          observed.get "trial_state" ≠ ascii "trial" ∨
          observed.get "permitted_slot" ≠ ascii "none" then (.ok .unknown, w)
      else
        (.ok (if observed.get "health" = ascii "00000007" then .trial else .unhealthy),
          { w with trialId := some (intOf trial) })

/-- The body of the confirmation request. -/
def confirmBody (a : Artifact) (trialId : Nat) : List UInt8 :=
  ascii "format=1\nslot=" ++ a.slot ++ ascii "\nhash=" ++ a.digest ++
    ascii "\ntrial_id=" ++ decimal trialId ++ ascii "\n"

/-- The exceptions a strict caller is to see. -/
def permanent : PyError → Bool
  | .valueError _ | .unicodeError | .osError true => true
  | .osError false | .other => false

/-- `validate` is the optional guard, with the exception it raises. -/
def confirm (w : Workflow) (strict : Bool)
    (validate : StatusValues → Option PyError) :
    Prog TransportSig (Reply Verdict × Workflow) := do
  let w := { w with confirmAttempted := false }
  match ← read with
  | .error .other => pure (.error .other, w)
  | .error e =>
      if strict && permanent e then pure (.error e, w)
      else pure (.ok .unknown, w)
  | .ok observed =>
      match validate observed with
      | some e => pure (.error e, w)
      | none =>
          match classify w observed with
          | (.error e, w) => pure (.error e, w)
          | (.ok .confirmed, w) => pure (.ok .confirmed, w)
          | (.ok .trial, w) =>
              match w.artifact, w.trialId with
              | some a, some trialId =>
                  let w := { w with confirmAttempted := true }
                  match ← Prog.ask (S := TransportSig)
                      (.stor (ascii "confirm") (confirmBody a trialId)) with
                  | .error (.osError protocol) =>
                      if strict && protocol then pure (.error (.osError protocol), w)
                      else pure (.ok .unknown, w)
                  | .error e => pure (.error e, w)
                  | .ok _ => pure (.ok .unknown, w)
              -- A classified trial has both.
              | _, _ => pure (.error .other, w)
          | (.ok _, w) =>
              pure (.error (.valueError
                (ascii "healthy matching trial required")), w)

end Workflow

end EkBareMetal.Tools

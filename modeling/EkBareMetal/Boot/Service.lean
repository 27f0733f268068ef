import EkBareMetal.Lib.Reentry
import EkBareMetal.Lib.Text
import EkBareMetal.Boot.Snapshot

/-!
# The application service

`boot_service.c`: the status text the device shows, the confirmation it is
sent, and the commit of a confirmation. A C string is the list of its bytes in
front of the NUL; a buffer of `n` bytes that `snprintf` fills keeps the first
`n - 1` of what is printed.
-/

namespace EkBareMetal.Boot

open Words Text Interact

@[simp] abbrev bootStatusCapacity : Nat := 1024
@[simp] abbrev bootConfirmCapacity : Nat := 128

/-! ## The confirmation request -/

def decimalLoop (n : UInt32) : List UInt8 → Option UInt32
  | [] => some n
  | b :: s =>
      if b < 0x30 ∨ b > 0x39 then none
      else
        let d := (b - 0x30).toUInt32
        if n > (uint32Max - d) / 10 then none else decimalLoop (n * 10 + d) s

def decimal (s : List UInt8) : Option UInt32 :=
  if s = [] then none else decimalLoop 0 s

def nibble (c : UInt8) : Option UInt8 :=
  if 0x30 ≤ c ∧ c ≤ 0x39 then some (c - 0x30)
  else if 0x61 ≤ c ∧ c ≤ 0x66 then some (c - 0x61 + 10)
  else none

structure BootConfirmParser where
  /-- The first `used` bytes of the array. -/
  bytes : List UInt8
  failed : Bool
  finished : Bool
  deriving DecidableEq

def BootConfirmParser.zeroed : BootConfirmParser := ⟨[], false, false⟩

def bootConfirmFeed (p : BootConfirmParser) (bytes : List UInt8) :
    Bool × BootConfirmParser :=
  if p.failed || p.finished then (false, p)
  else if p.bytes.length > bootConfirmCapacity ||
      bytes.length > bootConfirmCapacity - p.bytes.length then
    (false, { p with failed := true })
  else if bytes.any fun b => b != 0x0a && (b < 32 || b > 126) then
    (false, { p with failed := true })
  else (true, { p with bytes := p.bytes ++ bytes })

/-- `strchr`: what is in front of the first `c`, and what is behind it. -/
def cutAt (c : UInt8) : List UInt8 → Option (List UInt8 × List UInt8)
  | [] => none
  | b :: s =>
      if b = c then some ([], s)
      else (cutAt c s).map fun (front, rest) => (b :: front, rest)

/-- The digits of a hash, two to a byte. -/
def hashLoop : List UInt8 → Option (List UInt8)
  | a :: b :: s =>
      match nibble a, nibble b with
      | some a, some b => (hashLoop s).map fun rest => (a * 16 + b) :: rest
      | _, _ => none
  | _ => some []

/-- One `key=value`: the bit of the key, and the request with the value in it. -/
def confirmField (r : BootConfirmRequest) (key value : List UInt8) :
    Option (UInt32 × BootConfirmRequest) :=
  if key = ascii "format" then
    (decimal value).bind fun format => if format ≠ 1 then none else some (1, r)
  else if key = ascii "slot" then
    if value = ascii "A" then some (2, { r with slot := bootSlotA })
    else if value = ascii "B" then some (2, { r with slot := bootSlotB })
    else none
  else if key = ascii "hash" then
    if value.length ≠ 64 then none
    else (hashLoop value).bind fun hash =>
      if h : hash.length = 32 then some (4, { r with payloadHash := ⟨hash, h⟩ })
      else none
  else if key = ascii "trial_id" then
    (decimal value).map fun trialId => (8, { r with trialId := trialId })
  else none

/-- One line, without its line feed. -/
def confirmLine (line : List UInt8) (seen : UInt32) (r : BootConfirmRequest) :
    Option (UInt32 × BootConfirmRequest) :=
  (cutAt 0x3d line).bind fun (key, value) =>
    (confirmField r key value).bind fun (bit, r) =>
      if seen &&& bit ≠ 0 then none else some (seen ||| bit, r)

theorem length_cutAt {c : UInt8} {s front rest : List UInt8}
    (h : cutAt c s = some (front, rest)) : rest.length < s.length := by
  induction s generalizing front with
  | nil => cases h
  | cons b s ih =>
      rw [cutAt] at h
      split at h
      · cases h
        exact Nat.lt_succ_self _
      · obtain ⟨⟨front', rest'⟩, h', he⟩ := Option.map_eq_some_iff.mp h
        cases he
        exact Nat.lt_succ_of_lt (ih h')

/-- The lines up to the end of the string. -/
def confirmLoop (text : List UInt8) (seen : UInt32) (r : BootConfirmRequest) :
    Option (UInt32 × BootConfirmRequest) :=
  if text = [] then some (seen, r)
  else match _hcut : cutAt 0x0a text with
  | none => none
  | some (line, rest) =>
      match confirmLine line seen r with
      | none => none
      | some (seen, r) => confirmLoop rest seen r
termination_by text.length
decreasing_by exact length_cutAt ‹_›

def BootConfirmRequest.zeroed : BootConfirmRequest where
  slot := 0
  payloadHash := ⟨List.replicate 32 0, length_zeroHash⟩
  trialId := 0

/-- What is written through `out`, if anything, and the parser. -/
def bootConfirmFinish (p : BootConfirmParser) :
    Option BootConfirmRequest × BootConfirmParser :=
  if p.failed || p.finished then (none, p)
  else
    let finished := { p with finished := true }
    if p.bytes = [] ∨ p.bytes.length > bootConfirmCapacity ∨
        p.bytes.getLast? ≠ some 0x0a then (none, finished)
    else match confirmLoop (p.bytes.takeWhile (· ≠ 0)) 0 .zeroed with
    | none => (none, finished)
    | some (seen, r) => (if seen ≠ 15 then none else some r, finished)

/-! ## The status -/

def slotName (s : UInt32) : List UInt8 :=
  if s = bootSlotA then ascii "A" else if s = bootSlotB then ascii "B"
  else ascii "none"

/-- Printed into eleven bytes. -/
def printNumber (n : UInt32) : List UInt8 := (Text.decimal n.toNat).take 10

/-- Printed into nine bytes. -/
def printWord (n : UInt32) : List UInt8 := (Text.hex 8 n.toNat).take 8

/-- The names of the reasons. The table ends at 5, and a valid record holds no
reason above. -/
def reasonNames : List (List UInt8) :=
  [ascii "none", ascii "watchdog", ascii "external", ascii "brownout",
    ascii "network_deadline", ascii "combined"]

def reasonName (reason : UInt32) : List UInt8 := reasonNames.getD reason.toNat []

/-- The names of the counted failures with commas between them. -/
def reasons (e : BootImageEntry) : List UInt8 :=
  let count := accountCount e.accounting
  if count = 0 then ascii "none"
  else (ascii ",").intercalate ((List.range count.toNat).map fun i =>
    reasonName (accountReason e.accounting (UInt32.ofNat i)))

def stateNames : List (List UInt8) :=
  [ascii "none", ascii "ready", ascii "trial", ascii "rejected"]

/-- `failures[i]`, `why[i]` and `rollback[i]`. -/
def entryFailures (e : BootImageEntry) : List UInt8 :=
  if e.payloadLength = 0 then ascii "none" else printNumber (accountCount e.accounting)

def entryReasons (e : BootImageEntry) : List UInt8 :=
  if e.payloadLength = 0 then ascii "none" else reasons e

def entryRollback (e : BootImageEntry) : List UInt8 :=
  if e.payloadLength = 0 then ascii "none"
  else printNumber (if e.accounting &&& bootAccountRollback ≠ 0 then 1 else 0)

/-- The image whose trial is shown. -/
def statusSource (m : BootMetadata) (running : BootManifest) : UInt32 :=
  if m.candidateSlot ≠ bootSlotNone then m.candidateSlot else running.slot

/-- The slot an upload may go to. -/
def statusPermitted (m : BootMetadata) (running : BootManifest) : UInt32 :=
  if m.candidateSlot = bootSlotNone ∧ m.currentSlot = running.slot ∧
      m.confirmed running.slot then running.slot ^^^ 1
  else bootSlotNone

/-- The conversions of the format string, each with the key in front of it. -/
def statusFields (s : BootSnapshot) : List (List UInt8 × List UInt8) :=
  let m := s.metadata.record
  let running := s.running.manifest
  let source := statusSource m running
  let known (flag : Bool) (text : List UInt8) := if flag then text else ascii "none"
  [(ascii "format", ascii "1"),
    (ascii "sequence", printNumber m.sequence),
    (ascii "running_slot", slotName running.slot),
    (ascii "hash", running.payloadHash.val.flatMap fun b => (Text.hex 2 b.toNat).take 2),
    (ascii "release", printNumber running.release),
    (ascii "confirmed_slot", slotName m.currentSlot),
    (ascii "candidate_slot", slotName m.candidateSlot),
    (ascii "permitted_slot", slotName (statusPermitted m running)),
    (ascii "trial_id", printNumber (m.image source).trialId),
    (ascii "trial_state", stateNames.getD (m.state source).toNat []),
    (ascii "slot_a_failures", entryFailures (m.image bootSlotA)),
    (ascii "slot_a_reasons", entryReasons (m.image bootSlotA)),
    (ascii "slot_a_rollback", entryRollback (m.image bootSlotA)),
    (ascii "slot_b_failures", entryFailures (m.image bootSlotB)),
    (ascii "slot_b_reasons", entryReasons (m.image bootSlotB)),
    (ascii "slot_b_rollback", entryRollback (m.image bootSlotB)),
    (ascii "health", known s.diagnosticContext.healthKnown (printWord s.diagnostic.health)),
    (ascii "stage", known s.diagnosticContext.stageKnown (printNumber s.diagnostic.stage)),
    (ascii "fault", Text.decimal s.diagnostic.fault.toNat),
    (ascii "detail", Text.decimal s.diagnostic.detail.toNat),
    (ascii "reset_flags",
      known s.diagnosticContext.resetFlagsKnown (printWord s.diagnostic.resetFlags))]

def statusLine (field : List UInt8 × List UInt8) : List UInt8 :=
  field.1 ++ ascii "=" ++ field.2

def statusBody (s : BootSnapshot) : List UInt8 :=
  unlines ((statusFields s).map statusLine)

/-- The text written through `out`, its length being the size. -/
def bootStatusRender (s : BootSnapshot) (capacity : Nat) : Option (List UInt8) :=
  if bootMetadataValidate s.metadata.record ≠ .ok ∨
      bootDiagValidate s.diagnostic ≠ .ok ∨
      bootManifestValidate s.running.manifest ≠ .ok ∨
      bootMetadataImageMatches s.metadata.record s.running.manifest ≠ .ok then none
  else
    let body := statusBody s
    if body.length ≥ bootStatusCapacity ∨ body.length > capacity then none
    else some body

/-! ## The commit of a confirmation -/

structure BootConfirmService where
  busy : Bool
  reconcile : Bool
  deriving DecidableEq

inductive BootConfirmResult where
  | ok
  | argument
  | busy
  | snapshot
  | rejected
  | store
  | reconcile
  deriving DecidableEq, Repr

/-- The arguments of a call: `complete` is false where a pointer or a write
callback is NULL, and `arguments` is that of the capture. -/
structure ConfirmCall where
  owner : BootDiagPublication
  caller : DiagCaller
  complete : Bool
  arguments : Bool
  request : BootConfirmRequest

/-- The result, the snapshot written through `out`, and the diagnostic owner
as the call leaves it. -/
structure ConfirmReply where
  result : BootConfirmResult
  out : Option BootStoreSnapshot
  owner : BootDiagPublication
  deriving DecidableEq

/-- What the call does under its guard. -/
def confirmCommit (c : ConfirmCall) : Prog SnapshotSig ConfirmReply := do
  let (captured, owner) ← bootSnapshotCapture c.owner c.caller c.arguments
  match captured with
  | .error _ => pure ⟨.snapshot, none, owner⟩
  | .ok snapshot =>
      let health := if snapshot.diagnosticContext.healthKnown then
        snapshot.diagnostic.health else 0
      match bootLifecycleConfirm snapshot.metadata.record c.request snapshot.running
          health with
      | (.noChange, _) => pure ⟨.ok, some snapshot.metadata, owner⟩
      | (.change, some desired) => do
          match ← (bootStoreReplace snapshot.metadata desired).inline askStore with
          | .error .uncertain => pure ⟨.reconcile, none, owner⟩
          | .error _ => pure ⟨.store, none, owner⟩
          | .ok committed => pure ⟨.ok, some committed, owner⟩
      | _ => pure ⟨.rejected, none, owner⟩

def bootConfirmApply (c : ConfirmCall) :
    Prog (ObjSig BootConfirmService SnapshotSig) ConfirmReply :=
  if !c.complete then pure ⟨.argument, none, c.owner⟩
  else do
    let service ← Prog.loadObj
    if service.busy then pure ⟨.busy, none, c.owner⟩
    else if service.reconcile then pure ⟨.reconcile, none, c.owner⟩
    else do
      Prog.modifyObj fun service => { service with busy := true }
      let reply ← (confirmCommit c).outside
      -- only an uncertain store answers RECONCILE here
      Prog.modifyObj fun service =>
        { service with reconcile := service.reconcile || reply.result == .reconcile }
      Prog.modifyObj fun service => { service with busy := false }
      pure reply

end EkBareMetal.Boot

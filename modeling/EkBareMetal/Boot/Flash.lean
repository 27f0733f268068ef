import EkBareMetal.Boot.Store

/-!
# The flash controller driver

`boot_flash.c` over its three callbacks: a register read, a register write and
a read of the flash array. An erase or a program is one keyed command, started
by the write of FMC, polled for its end and then compared with the array word
for word. From that write on the controller is blocked until the comparison
has succeeded, so an operation whose end was not seen is never followed by
another.

Every call takes the driver's state and gives it back. The `entered` flag of
the source refuses calls from inside a callback; a caller that finishes one
call before the next never sees it set, and it has no counterpart here.
-/

namespace EkBareMetal.Boot

open Words Interact

abbrev bootFlashFma : UInt32 := 0x400fd000
abbrev bootFlashFmd : UInt32 := 0x400fd004
abbrev bootFlashFmc : UInt32 := 0x400fd008
abbrev bootFlashFcris : UInt32 := 0x400fd00c
abbrev bootFlashFcmisc : UInt32 := 0x400fd014
abbrev bootFlashUsecrl : UInt32 := 0x400fe140

abbrev flashKey : UInt32 := 0xa4420000
abbrev flashWrite : UInt32 := 1
abbrev flashErase : UInt32 := 2
abbrev flashCommands : UInt32 := 15
abbrev flashStatus : UInt32 := 3

inductive BootFlashResult where
  | ok
  | argument
  | busy
  | blocked
  | io
  | clock
  | timeout
  | status
  | writeProtected
  | verify
  | bits
  | done
  deriving DecidableEq, Repr

inductive FlashOp where
  | readRegister (address : UInt32)
  | writeRegister (address value : UInt32)
  | readFlash (address : UInt32) (size : Nat)
  deriving DecidableEq

abbrev FlashSig : Sig where
  Op := FlashOp
  Ans
    | .readRegister _ => Option UInt32
    | .writeRegister _ _ => Bool
    | .readFlash _ size => Option (Bytes size)

namespace FlashOp

abbrev askRead (address : UInt32) : Prog FlashSig (Option UInt32) :=
  Prog.ask (S := FlashSig) (.readRegister address)

abbrev askWrite (address value : UInt32) : Prog FlashSig Bool :=
  Prog.ask (S := FlashSig) (.writeRegister address value)

abbrev askFlash (address : UInt32) (size : Nat) :
    Prog FlashSig (Option (Bytes size)) :=
  Prog.ask (S := FlashSig) (.readFlash address size)

end FlashOp

/-- The driver's state: the clock its caller stated, the bound on its polls,
and whether it is blocked and by what. -/
structure BootFlash where
  mhz : UInt32
  polls : UInt32
  blocked : Bool
  blockedResult : BootFlashResult
  deriving DecidableEq

abbrev FlashReply := BootFlashResult × BootFlash

def range (address : UInt32) (size : Nat) (first last : UInt32) : Bool :=
  first ≤ address && address < last && size != 0 &&
    size ≤ (last - address).toNat

/-- The state a call returns with: a blocked driver keeps its first cause. -/
def leave (f : BootFlash) (result : BootFlashResult) : BootFlash :=
  if f.blocked && f.blockedResult == .ok && result != .ok then
    { f with blockedResult := result }
  else f

/-- Poll FMC until no command bit is set. -/
def idle : Nat → Prog FlashSig BootFlashResult
  | 0 => pure .timeout
  | polls + 1 => do
      match ← FlashOp.askRead bootFlashFmc with
      | none => pure .io
      | some value =>
          if value &&& flashCommands = 0 then pure .ok else idle polls

/-- Clear both stale sources by writing ones, and look that they are gone. -/
def clearStatus : Prog FlashSig BootFlashResult := do
  let done ← FlashOp.askWrite bootFlashFcmisc flashStatus
  if !done then pure .io else do
  match ← FlashOp.askRead bootFlashFcris with
  | none => pure .io
  | some value => pure (if value &&& flashStatus = 0 then .ok else .status)

def bootFlashInit (mhz polls : UInt32) : Except BootFlashResult BootFlash :=
  if mhz = 0 ∨ mhz > 50 ∨ polls = 0 then .error .argument
  else .ok ⟨mhz, polls, false, .ok⟩

def bootFlashRecover (f : BootFlash) : Prog FlashSig FlashReply := do
  let f := { f with blocked := true }
  let result ← idle f.polls.toNat
  if result ≠ .ok then pure (result, leave f result) else do
  let result ← clearStatus
  if result ≠ .ok then pure (result, leave f result)
  else pure (.ok, { f with blocked := false, blockedResult := .ok })

def bootFlashRead (f : BootFlash) (address : UInt32) (size : Nat) :
    Prog FlashSig (Except BootFlashResult (Bytes size) × BootFlash) :=
  if !range address size bootMetadataPage0 bootSlotBEnd then
    pure (.error .argument, f)
  else if f.blocked then pure (.error .blocked, leave f .blocked)
  else do
    let result ← idle 1
    if result ≠ .ok then
      pure (.error result, leave { f with blocked := true } result)
    else do
      match ← FlashOp.askFlash address size with
      | none => pure (.error .io, leave f .io)
      | some bytes => pure (.ok bytes, f)

/-- The size of what a command works on. -/
def commandBytes (command : UInt32) : Nat :=
  if command = flashWrite then bootProgramBytes else bootEraseBytes

/-- A program may clear bits and not set them. -/
def checkBits (address word command : UInt32) : Prog FlashSig BootFlashResult :=
  if command = flashWrite then do
    match ← FlashOp.askFlash address bootProgramBytes with
    | none => pure .io
    | some bytes => pure (if get32 bytes.val &&& word ≠ word then .bits else .ok)
  else pure .ok

/-- Data, then address. -/
def latch (address word command : UInt32) : Prog FlashSig Bool :=
  if command = flashWrite then do
    let done ← FlashOp.askWrite bootFlashFmd word
    if !done then pure false else FlashOp.askWrite bootFlashFma address
  else FlashOp.askWrite bootFlashFma address

/-- The bytes a completed command leaves. -/
def commanded (word command : UInt32) : List UInt8 :=
  if command = flashWrite then put32 word
  else List.replicate bootEraseBytes 0xff

/-- The command, from the keyed write to the comparison with the array. -/
def launch (polls address word command : UInt32) :
    Prog FlashSig BootFlashResult := do
  let done ← FlashOp.askWrite bootFlashFmc (flashKey ||| command)
  if !done then pure .io else do
  let result ← idle polls.toNat
  if result ≠ .ok then pure result else do
  match ← FlashOp.askRead bootFlashFcris with
  | none => pure .io
  | some value =>
      if value &&& 1 ≠ 0 then pure .writeProtected
      else if value &&& 2 = 0 then pure .status
      else do
        match ← FlashOp.askFlash address (commandBytes command) with
        | none => pure .io
        | some bytes =>
            pure (if bytes.val ≠ commanded word command then .verify else .ok)

/-- `modify`, on a controller that is idle and clocked as stated. -/
def modifyIdle (f : BootFlash) (address word command : UInt32) :
    Prog FlashSig FlashReply := do
  let result ← checkBits address word command
  if result ≠ .ok then pure (result, leave f result) else do
  let result ← clearStatus
  if result ≠ .ok then pure (result, leave f result) else do
  let latched ← latch address word command
  if !latched then pure (.io, leave f .io) else do
  let result ← launch f.polls address word command
  -- Even a failed command callback may have launched an operation.
  if result ≠ .ok then pure (result, leave { f with blocked := true } result)
  else pure (.ok, { f with blocked := false })

def modify (f : BootFlash) (address word command : UInt32) :
    Prog FlashSig FlashReply :=
  let size := commandBytes command
  if !range address size bootMetadataPage0 bootSlotBEnd ∨
      address.toNat % size ≠ 0 then pure (.argument, f)
  else if f.blocked then pure (.blocked, leave f .blocked)
  else do
    let result ← idle 1
    if result ≠ .ok then pure (result, leave { f with blocked := true } result)
    else do
      match ← FlashOp.askRead bootFlashUsecrl with
      | none => pure (.io, leave f .io)
      | some value =>
          if value &&& 255 ≠ f.mhz - 1 then pure (.clock, leave f .clock)
          else modifyIdle f address word command

def bootFlashProgram (f : BootFlash) (address word : UInt32) :
    Prog FlashSig FlashReply := modify f address word flashWrite

def bootFlashErase (f : BootFlash) (address : UInt32) :
    Prog FlashSig FlashReply := modify f address 0 flashErase

/-! ## The erase plan -/

structure BootFlashErasePlan where
  destination : UInt32
  page : Nat
  failed : Bool
  deriving DecidableEq

abbrev slotPages : Nat := bootSlotBytes / bootEraseBytes

def bootFlashEraseBegin (invalidated : BootStoreSnapshot)
    (running destination : UInt32) : Except BootFlashResult BootFlashErasePlan :=
  let record := invalidated.record
  if invalidated.page > 1 ∨ running > bootSlotB ∨ destination > bootSlotB ∨
      running = destination then .error .argument
  else match bootMetadataEncode record bootCommitValid bootMetadataBytes with
  | .error _ => .error .argument
  | .ok encoded =>
      if record.currentSlot ≠ running ∨ record.candidateSlot ≠ bootSlotNone ∨
          record.previousSlot = destination ∨ record.intentSlot = destination ∨
          !record.confirmed running ∨ record.confirmed destination ∨
          slice encoded (32 + 48 * destination.toNat) 48 ≠
            List.replicate 48 0 then .error .argument
      else .ok ⟨destination, 0, false⟩

/-- The page the plan erases next: the old manifest first, then the payload
pages in ascending order. -/
def BootFlashErasePlan.address (plan : BootFlashErasePlan) : UInt32 :=
  if plan.page = 0 then slotManifest plan.destination
  else slotBase plan.destination + UInt32.ofNat (plan.page - 1) * 1024

def eraseFailed (plan : BootFlashErasePlan) : BootFlashErasePlan :=
  { plan with failed := true }

/-- One page of the plan, through whatever erases a page. -/
def bootFlashEraseStep {S : Sig} (erase : UInt32 → Prog S BootFlashResult)
    (plan : BootFlashErasePlan) :
    Prog S (BootFlashResult × BootFlashErasePlan) :=
  if plan.failed then pure (.blocked, eraseFailed plan)
  else if plan.destination > bootSlotB ∨ plan.page > slotPages then
    pure (.argument, eraseFailed plan)
  else if plan.page = slotPages then pure (.done, plan)
  else do
    let result ← erase plan.address
    if result = .ok then pure (.ok, { plan with page := plan.page + 1 })
    else if result = .done then pure (.done, plan)
    else pure (result, eraseFailed plan)

/-- The one request of a step, answered by the driver. -/
abbrev EraseSig : Sig where
  Op := UInt32
  Ans _ := BootFlashResult

/-- `boot_flash_erase_step`, on the driver. -/
def bootFlashEraseStepOn (f : BootFlash) (plan : BootFlashErasePlan) :
    Prog FlashSig ((BootFlashResult × BootFlashErasePlan) × BootFlash) :=
  (bootFlashEraseStep (Prog.ask (S := EraseSig)) plan).interp
    (fun address f => bootFlashErase f address) f

end EkBareMetal.Boot

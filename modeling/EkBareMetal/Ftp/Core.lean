import EkBareMetal.Ftp.RamFile
import EkBareMetal.Lib.Ring

/-!
# The FTP session core

`ftp_core.c` with its statics as one state: the storage and operation pointers,
and the `core` record. Every call into a binding names the pointer it goes
through. The diagnostics are empty inline functions in this configuration and
have no counterpart, and the pointer arguments of the interface are values, so
its NULL refusals have none either.

Besides the calls a transcript holds points. They are no calls: they mark where
a reply text is copied into a slot, and where either of the two branches is
taken that find every slot in use.
-/

namespace EkBareMetal.Ftp

open Interact

abbrev ftpControlCapacity : Nat := 256
abbrev ftpReplySlots : Nat := 8
abbrev ftpReplyCapacity : Nat := 128

inductive FtpDirection where
  | idle
  | upload
  | download
  deriving DecidableEq

inductive FtpInput where
  | ok
  | partly
  | backpressure
  | rejected
  deriving DecidableEq

abbrev ftpOpenPassive : UInt32 := 1
abbrev ftpClosePassive : UInt32 := 2
abbrev ftpAbortData : UInt32 := 4
abbrev ftpCloseData : UInt32 := 8
abbrev ftpCloseControl : UInt32 := 16
abbrev ftpAbortControl : UInt32 := 32

inductive FtpOperationResult where
  | ok
  | wait
  | accepted
  | error
  deriving DecidableEq

inductive OperationOp where
  | matchesName (name : List UInt8) (upload : Bool)
  | begin (name : List UInt8) (upload : Bool)
  | feed (bytes : List UInt8)
  | eof
  | step
  | finish
  deriving DecidableEq

/-- A begin that returned true answers the view it left. `finish` is `end`. -/
abbrev OperationSig : Sig where
  Op := OperationOp
  Ans
    | .matchesName _ _ => Bool
    | .begin _ _ => Option FtpStorageView
    | .feed _ => FtpOperationResult × Nat
    | .eof => Bool
    | .step => FtpOperationResult
    | .finish => Unit

/-- A storage binding: which one it is, whether its context and callbacks are
all there, and its capacity. -/
structure FtpStorage where
  context : Nat
  complete : Bool
  capacity : Nat
  deriving DecidableEq

structure FtpOperation where
  context : Nat
  complete : Bool
  deriving DecidableEq

inductive FtpPoint where
  | queued (text : List UInt8)
  | replyFull
  | closeFull
  deriving DecidableEq

inductive FtpOp where
  | storage (through : Option FtpStorage) (op : StorageOp)
  | operation (through : Option FtpOperation) (op : OperationOp)
  | point (p : FtpPoint)
  deriving DecidableEq

abbrev FtpSig : Sig where
  Op := FtpOp
  Ans
    | .storage _ op => StorageSig.Ans op
    | .operation _ op => OperationSig.Ans op
    | .point _ => Unit

structure Reply where
  text : List UInt8
  offset : Nat
  start : Bool
  deriving DecidableEq

def Reply.length (r : Reply) : Nat := r.text.length

/-- The text of the parser is its first `length` characters. -/
structure Parser where
  text : List UInt8
  bad : Bool
  cr : Bool
  active : Bool
  since : UInt32
  deriving DecidableEq

def Parser.zero : Parser := ⟨[], false, false, false, 0⟩

structure FtpCore where
  download : FtpStorageView
  enqueued : Nat
  acked : Nat
  session : Bool
  quitting : Bool
  user : Bool
  login : Bool
  binary : Bool
  opening : Bool
  passive : Bool
  epsv : Bool
  connected : Bool
  ready : Bool
  eof : Bool
  closing : Bool
  direction : FtpDirection
  operation : Bool
  accepted : Bool
  parser : Parser
  replies : RingBuffer ftpReplySlots Reply
  actions : UInt32
  controlTime : UInt32
  outputTime : UInt32
  dataOutputTime : UInt32
  passiveTime : UInt32
  startTime : UInt32
  progressTime : UInt32
  closeTime : UInt32
  deriving DecidableEq

def FtpCore.zero : FtpCore where
  download := .none
  enqueued := 0
  acked := 0
  session := false
  quitting := false
  user := false
  login := false
  binary := false
  opening := false
  passive := false
  epsv := false
  connected := false
  ready := false
  eof := false
  closing := false
  direction := .idle
  operation := false
  accepted := false
  parser := .zero
  replies := .empty (by decide) ⟨[], 0, false⟩
  actions := 0
  controlTime := 0
  outputTime := 0
  dataOutputTime := 0
  passiveTime := 0
  startTime := 0
  progressTime := 0
  closeTime := 0

structure FtpState where
  storage : Option FtpStorage
  operation : Option FtpOperation
  core : FtpCore
  deriving DecidableEq

abbrev FtpProg (α : Type) := Prog FtpSig α

namespace FtpState

def callStorage (s : FtpState) (op : StorageOp) : FtpProg (StorageSig.Ans op) :=
  Prog.ask (S := FtpSig) (.storage s.storage op)

def callOperation (s : FtpState) (op : OperationOp) : FtpProg (OperationSig.Ans op) :=
  Prog.ask (S := FtpSig) (.operation s.operation op)

def mark (p : FtpPoint) : FtpProg Unit := Prog.ask (S := FtpSig) (.point p)

end FtpState

def elapsed (now since limit : UInt32) : Bool := now - since ≥ limit

/-! ## Teardown and replies -/

/-- What a teardown makes of the record. -/
def FtpCore.torn (c : FtpCore) : FtpCore :=
  let actions := if c.opening || c.passive then c.actions ||| ftpClosePassive
    else c.actions
  let actions := if c.connected || c.direction != .idle || c.closing then
    actions ||| ftpAbortData else actions
  { c with
    actions := actions &&& ~~~(ftpOpenPassive ||| ftpCloseData)
    replies := c.replies.map fun r => { r with start := false }
    opening := false
    passive := false
    connected := false
    ready := false
    eof := false
    closing := false
    direction := .idle
    operation := false
    accepted := false
    enqueued := 0
    acked := 0
    download := .none }

/-- The end of an active operation. -/
def endOperation (s : FtpState) : FtpProg Unit :=
  if s.core.operation then s.callOperation .finish else pure ()

def teardown (s : FtpState) : FtpProg FtpState := do
  endOperation s
  if s.storage = none then pure { s with core := s.core.torn }
  else do
    s.callStorage .abort
    pure { s with core := s.core.torn }

/-- What the loss of the session makes of the record, after the teardown. -/
def FtpCore.left (c : FtpCore) : FtpCore :=
  { c with
    session := false
    quitting := false
    user := false
    login := false
    binary := false
    parser := .zero
    replies := c.replies.clear
    actions := c.actions &&& ~~~ftpCloseControl ||| ftpAbortControl }

def lost (s : FtpState) : FtpProg FtpState :=
  if s.storage = none then pure s
  else do
    let s ← teardown s
    pure { s with core := s.core.left }

def FtpCore.queue (c : FtpCore) (text : List UInt8) (start : Bool) (now : UInt32)
    (h : c.replies.count < ftpReplySlots) : FtpCore :=
  { c with
    outputTime := if c.replies.count = 0 then now else c.outputTime
    replies := c.replies.push ⟨text, 0, start⟩ h }

def reply (s : FtpState) (text : List UInt8) (start : Bool) (now : UInt32) :
    FtpProg (Bool × FtpState) :=
  if h : s.core.replies.count = ftpReplySlots then do
    FtpState.mark .replyFull
    let s ← lost s
    pure (false, s)
  else do
    FtpState.mark (.queued text)
    let room := Nat.lt_of_le_of_ne s.core.replies.count_le h
    pure (true, { s with core := s.core.queue text start now room })

/-- A reply whose result is not looked at. -/
def answer (s : FtpState) (text : List UInt8) (now : UInt32) : FtpProg FtpState := do
  let (_, s) ← reply s text false now
  pure s

def failure (s : FtpState) (text : List UInt8) (now : UInt32) : FtpProg FtpState := do
  let s ← teardown s
  answer s text now

/-! ## Commands -/

/-- The decimal digits of `value`, most significant first. -/
def decimal (value : Nat) : List UInt8 :=
  if value < 10 then [UInt8.ofNat (0x30 + value)]
  else decimal (value / 10) ++ [UInt8.ofNat (0x30 + value % 10)]
termination_by value

def name (s : FtpState) (arg : List UInt8) : FtpProg Bool :=
  s.callStorage (.matchesName arg)

def upperByte (b : UInt8) : UInt8 :=
  if 0x61 ≤ b ∧ b ≤ 0x7a then b - 0x61 + 0x41 else b

/-- The line in front of its first blank, in upper case. -/
def verbOf (line : List UInt8) : List UInt8 :=
  (line.takeWhile fun b => b != 0x20).map upperByte

/-- The line behind its first blank. -/
def argOf (line : List UInt8) : List UInt8 :=
  (line.dropWhile fun b => b != 0x20).drop 1

/-- The record of a transfer whose begin has succeeded. -/
def FtpCore.started (c : FtpCore) (upload : Bool) (view : FtpStorageView)
    (now : UInt32) : FtpCore :=
  { c with
    direction := if upload then .upload else .download
    download := if upload then c.download else view
    enqueued := 0
    acked := 0
    startTime := now
    progressTime := now }

def openTransfer (s : FtpState) (upload : Bool) (view : FtpStorageView)
    (now : UInt32) : FtpProg FtpState := do
  let (_, s) ← reply { s with core := s.core.started upload view now }
    (ascii "150 Opening binary data connection.\r\n") true now
  pure s

/-- `STOR` and `RETR`, once everything about them is checked. -/
def startTransfer (s : FtpState) (arg : List UInt8) (upload special : Bool)
    (view : FtpStorageView) (now : UInt32) : FtpProg FtpState :=
  if special then do
    match ← s.callOperation (.begin arg upload) with
    | none => failure s (ascii "451 Operation unavailable.\r\n") now
    | some view =>
        openTransfer { s with core := { s.core with operation := true } } upload
          view now
  else if upload then do
    let result ← s.callStorage .begin
    if result ≠ .ok then failure s (ascii "451 Storage operation failed.\r\n") now
    else openTransfer s upload view now
  else openTransfer s upload view now

def operationMatches (s : FtpState) (arg : List UInt8) (upload : Bool) :
    FtpProg Bool :=
  if s.operation = none then pure false
  else s.callOperation (.matchesName arg upload)

def viewUnless (s : FtpState) (special : Bool) : FtpProg FtpStorageView :=
  if special then pure .none else s.callStorage .inspect

def unavailable (s : FtpState) (arg : List UInt8) (upload special : Bool)
    (view : FtpStorageView) : FtpProg Bool :=
  if special then pure false
  else do
    let served ← name s arg
    pure (!served || (!upload && !view.present))

def commandTransfer (s : FtpState) (arg : List UInt8) (upload : Bool)
    (now : UInt32) : FtpProg FtpState := do
  let special ← operationMatches s arg upload
  let view ← viewUnless s special
  let refused ← unavailable s arg upload special view
  if refused then answer s (ascii "550 File unavailable.\r\n") now
  else if !s.core.binary then answer s (ascii "504 Select TYPE I.\r\n") now
  else if !s.core.passive then
    answer s (ascii "425 Use EPSV or PASV first.\r\n") now
  else startTransfer s arg upload special view now

/-- The commands of a session that has logged in. -/
def commandLoggedIn (s : FtpState) (verb arg : List UInt8) (now : UInt32) :
    FtpProg FtpState := do
  if (verb = ascii "PWD" ∨ verb = ascii "XPWD") ∧ arg = [] then
    answer s (ascii "257 \"/\"\r\n") now
  else if verb = ascii "CWD" then
    answer s (if arg = ascii "/" then ascii "250 Root directory.\r\n"
      else ascii "550 Root only.\r\n") now
  else if verb = ascii "CDUP" ∧ arg = [] then
    answer s (ascii "250 Root directory.\r\n") now
  else if verb = ascii "TYPE" then
    if arg = ascii "I" then
      answer { s with core := { s.core with binary := true } }
        (ascii "200 Binary mode.\r\n") now
    else
      answer { s with core := { s.core with binary := false } }
        (ascii "504 Binary mode only.\r\n") now
  else if (verb = ascii "EPSV" ∨ verb = ascii "PASV") ∧ arg = [] then
    let s ← teardown s
    -- The port reply waits for the listener.
    pure { s with core := { s.core with
      opening := true
      epsv := verb = ascii "EPSV"
      passiveTime := now
      actions := s.core.actions ||| ftpOpenPassive } }
  else if verb = ascii "SIZE" then
    let view ← s.callStorage .inspect
    let served ← name s arg
    if !served ∨ !view.present then answer s (ascii "550 File unavailable.\r\n") now
    else answer s (ascii "213 " ++ decimal (view.length % 2 ^ 32) ++ ascii "\r\n") now
  else if verb = ascii "STOR" ∨ verb = ascii "RETR" then
    commandTransfer s arg (verb = ascii "STOR") now
  else answer s (ascii "502 Command not supported.\r\n") now

def command (s : FtpState) (line : List UInt8) (now : UInt32) : FtpProg FtpState := do
  let verb := verbOf line
  let arg := argOf line
  if verb = ascii "QUIT" ∧ arg = [] then
    let s ← teardown s
    answer { s with core := { s.core with quitting := true } }
      (ascii "221 Goodbye.\r\n") now
  else if verb = ascii "ABOR" ∧ arg = [] then
    let active := s.core.direction != .idle
    let accepted := s.core.operation && s.core.accepted
    let s ← teardown s
    answer s (if accepted then ascii "225 Operation already accepted.\r\n"
      else if active then
        ascii "426 Transfer aborted.\r\n225 Abort complete.\r\n"
      else ascii "225 No transfer.\r\n") now
  else if verb = ascii "NOOP" ∧ arg = [] then answer s (ascii "200 OK.\r\n") now
  else if verb = ascii "SYST" ∧ arg = [] then
    answer s (ascii "215 UNIX Type: L8\r\n") now
  else if verb = ascii "FEAT" ∧ arg = [] then
    answer s (ascii "211-Features\r\n EPSV\r\n PASV\r\n SIZE\r\n211 End\r\n") now
  else if s.core.direction ≠ .idle ∨ s.core.opening then
    answer s (ascii "503 Operation in progress.\r\n") now
  else if verb = ascii "USER" then
    let s ← teardown s
    let user : Bool := arg = ascii "anonymous"
    answer { s with core := { s.core with
      user := user
      login := false
      binary := false } }
      (if user then ascii "331 Send password.\r\n"
        else ascii "530 Anonymous only.\r\n") now
  else if verb = ascii "PASS" then
    if s.core.user then
      answer { s with core := { s.core with login := true } }
        (ascii "230 Logged in.\r\n") now
    else answer s (ascii "503 Send USER anonymous first.\r\n") now
  else if !s.core.login then answer s (ascii "530 Log in first.\r\n") now
  else commandLoggedIn s verb arg now

/-! ## Binding and sessions -/

/-- The part of the quiescence check that the two bindings share. -/
def FtpCore.quiescent (c : FtpCore) : Bool :=
  !(c.session || c.quitting || c.replies.count != 0 || c.actions != 0 ||
    c.opening || c.passive || c.connected || c.closing || c.direction != .idle)

def ftpCoreInit (s : FtpState) (binding : FtpStorage) : Bool × FtpState :=
  if binding.capacity = 0 ∨ binding.capacity > 0xffffffff ∨ !binding.complete ∨
      !s.core.quiescent then (false, s)
  else (true, { s with storage := some binding, core := .zero })

def ftpCoreBindOperation (s : FtpState) (binding : Option FtpOperation) :
    Bool × FtpState :=
  if !s.core.quiescent ∨ binding.any fun b => !b.complete then (false, s)
  else (true, { s with operation := binding })

def ftpCoreReset (s : FtpState) : FtpProg FtpState := do
  endOperation s
  if s.storage = none then pure { s with core := .zero }
  else do
    s.callStorage .clear
    pure { s with core := .zero }

def ftpCoreSessionOpen (s : FtpState) (now : UInt32) : FtpProg (Bool × FtpState) :=
  if s.storage = none ∨ s.core.session ∨ s.core.quitting ∨ s.core.actions ≠ 0 then
    pure (false, s)
  else
    reply { s with core := { s.core with session := true, controlTime := now } }
      (ascii "220 RAM FTP ready.\r\n") false now

def ftpCoreSessionLost (s : FtpState) : FtpProg FtpState := lost s

def ftpCoreControlClosed (s : FtpState) : FtpProg FtpState := do
  let s ← lost s
  -- The control connection is closed already, so no abort is requested.
  pure { s with core := { s.core with
    actions := s.core.actions &&& ~~~ftpAbortControl } }

def ftpCoreTakeActions (s : FtpState) : UInt32 × FtpState :=
  (s.core.actions, { s with core := { s.core with actions := 0 } })

/-! ## Replies going out -/

def ftpCoreReplyPeek (s : FtpState) : List UInt8 :=
  if s.core.replies.count = 0 then []
  else s.core.replies.front.text.drop s.core.replies.front.offset

/-- The record after `r` has been consumed up to its new offset. -/
def FtpCore.consumed (c : FtpCore) (r : Reply) (now : UInt32) : FtpCore :=
  let c := { c with replies := c.replies.setFront r, outputTime := now }
  if r.offset = r.length then
    let c := { c with replies := c.replies.pop }
    if r.start && c.direction != .idle then
      { c with ready := true, dataOutputTime := now }
    else c
  else c

/-- A session that quits closes once every reply is out. -/
def FtpCore.drained (c : FtpCore) (now : UInt32) : FtpCore :=
  if c.quitting && c.replies.count == 0 then
    { c with actions := c.actions ||| ftpCloseControl, closeTime := now }
  else c

def ftpCoreReplyConsume (s : FtpState) (length : Nat) (now : UInt32) :
    Bool × FtpState :=
  let r := s.core.replies.front
  if s.core.replies.count = 0 ∨ length = 0 ∨ length > r.length - r.offset then
    (false, s)
  else
    let c := s.core.consumed { r with offset := r.offset + length } now
    (true, { s with core := c.drained now })

/-! ## Control input -/

/-- True at the end of a complete line, malformed or not. -/
def parseByte (p : Parser) (byte : UInt8) (now : UInt32) : Bool × Parser :=
  let p := if p.active then p else { p with active := true, since := now }
  if p.cr && byte == 0x0a then
    (true, { p with bad := p.bad || p.text.length > ftpControlCapacity - 2 })
  else
    let p := { p with bad := p.bad || p.cr, cr := byte == 0x0d }
    if byte = 0x0d then (false, p)
    else
      let p := { p with bad := p.bad || byte < 32 || byte > 126 }
      if p.text.length < ftpControlCapacity - 1 then
        (false, { p with text := p.text ++ [byte] })
      else (false, { p with bad := true })

/-- The complete lines in `bytes`, when `p` has been read in front of them. -/
def countLines (p : Parser) (now : UInt32) : List UInt8 → Nat
  | [] => 0
  | byte :: bytes =>
      let (line, p) := parseByte p byte now
      if line then countLines .zero now bytes + 1 else countLines p now bytes

/-- One complete line. -/
def executeLine (s : FtpState) (p : Parser) (now : UInt32) : FtpProg FtpState :=
  if p.bad then answer s (ascii "500 Malformed command line.\r\n") now
  else command s p.text now

/-- The loop over a span: how much of it is accepted, in front of which
`accepted` bytes have been. -/
def controlLoop (s : FtpState) (now : UInt32) (accepted : Nat) :
    List UInt8 → FtpProg (Nat × FtpState)
  | [] => pure (accepted, s)
  | byte :: bytes => do
      let (line, p) := parseByte s.core.parser byte now
      let s := { s with core := { s.core with parser := p } }
      if line then
        let s ← executeLine s p now
        let s := { s with core := { s.core with parser := .zero } }
        -- What follows QUIT belongs to the closing session.
        if s.core.quitting then pure (accepted + 1 + bytes.length, s)
        else if s.core.opening then pure (accepted + 1, s)
        else controlLoop s now (accepted + 1) bytes
      else controlLoop s now (accepted + 1) bytes

def ftpCoreControlSpan (s : FtpState) (bytes : List UInt8) (now : UInt32) :
    FtpProg ((FtpInput × Nat) × FtpState) :=
  if !s.core.session ∨ s.core.quitting ∨ bytes.length > ftpControlCapacity then
    pure ((.rejected, 0), s)
  else if s.core.opening then pure ((.backpressure, 0), s)
  else
    let lines := countLines s.core.parser now bytes
    -- One slot is reserved for an asynchronous passive or transfer result.
    if lines ≠ 0 ∧ (s.core.replies.count ≥ ftpReplySlots - 1 ∨
        lines > ftpReplySlots - 1 - s.core.replies.count) then
      pure ((.backpressure, 0), s)
    else do
      let (accepted, s) ← controlLoop s now 0 bytes
      let s := if accepted ≠ 0 then
          { s with core := { s.core with controlTime := now } }
        else s
      pure ((if accepted = bytes.length then .ok else .partly, accepted), s)

/-! ## The data connection -/

def passiveText (epsv : Bool) (address : Fin 4 → UInt8) (port : UInt16) :
    List UInt8 :=
  let octet (i : Fin 4) := decimal (address i).toNat ++ ascii ","
  if epsv then
    ascii "229 Entering Extended Passive Mode (|||" ++ decimal port.toNat ++
      ascii "|).\r\n"
  else
    ascii "227 Entering Passive Mode (" ++ octet 0 ++ octet 1 ++ octet 2 ++
      octet 3 ++ decimal (port.toNat / 256) ++ ascii "," ++
      decimal (port.toNat % 256) ++ ascii ").\r\n"

/-- `address` is none where the source's is NULL. -/
def ftpCorePassiveResult (s : FtpState) (success : Bool)
    (address : Option (Fin 4 → UInt8)) (port : UInt16) (now : UInt32) :
    FtpProg (Bool × FtpState) :=
  if !s.core.session ∨ !s.core.opening then pure (false, s)
  else
    let s := { s with core := { s.core with
      actions := s.core.actions &&& ~~~ftpOpenPassive } }
    if !success ∨ port = 0 ∨ (!s.core.epsv ∧ address = none) then do
      let s ← failure s (ascii "425 Cannot open passive listener.\r\n") now
      pure (true, s)
    else
      reply { s with core := { s.core with opening := false, passive := true } }
        (passiveText s.core.epsv (address.getD fun _ => 0) port) false now

def ftpCoreDataConnected (s : FtpState) (now : UInt32) : Bool × FtpState :=
  if !s.core.session ∨ !s.core.passive ∨ s.core.connected ∨ s.core.closing then
    (false, s)
  else
    (true, { s with core := { s.core with
      connected := true
      progressTime := now
      dataOutputTime := now
      actions := s.core.actions ||| ftpClosePassive } })

def FtpCore.transferReady (c : FtpCore) : Bool :=
  c.direction != .idle && c.connected && c.ready && !c.closing

/-- The record after progress, if there was any. -/
def FtpCore.progressed (c : FtpCore) (length : Nat) (now : UInt32) : FtpCore :=
  if length ≠ 0 then { c with progressTime := now } else c

def FtpCore.closeData (c : FtpCore) (now : UInt32) : FtpCore :=
  { c with closing := true, closeTime := now, actions := c.actions ||| ftpCloseData }

/-- The span of an upload that an operation takes. -/
def feedOperation (s : FtpState) (bytes : List UInt8) (now : UInt32) :
    FtpProg ((FtpInput × Nat) × FtpState) := do
  let (r, accepted) ← s.callOperation (.feed bytes)
  let r := if accepted > bytes.length then .error else r
  let accepted := if accepted > bytes.length then 0 else accepted
  let s := { s with core := s.core.progressed accepted now }
  if r = .error ∨ r = .accepted then
    let s ← failure s (ascii "451 Operation failed.\r\n") now
    pure ((.rejected, accepted), s)
  else
    pure ((if accepted = bytes.length then .ok
      else if accepted ≠ 0 then .partly else .backpressure, accepted), s)

def appendStorage (s : FtpState) (bytes : List UInt8) (now : UInt32) :
    FtpProg ((FtpInput × Nat) × FtpState) := do
  let result ← s.callStorage (.append bytes)
  if result ≠ .ok then
    let s ← failure s (if result = .capacity then
        ascii "552 File exceeds storage capacity.\r\n"
      else ascii "451 Storage operation failed.\r\n") now
    pure ((.rejected, 0), s)
  else
    let s := { s with core := s.core.progressed bytes.length now }
    pure ((.ok, bytes.length), s)

def ftpCoreUploadSpan (s : FtpState) (bytes : List UInt8) (now : UInt32) :
    FtpProg ((FtpInput × Nat) × FtpState) :=
  if !s.core.transferReady ∨ s.core.direction ≠ .upload ∨ s.core.eof then
    pure ((.rejected, 0), s)
  else if s.core.operation then feedOperation s bytes now
  else appendStorage s bytes now

def ftpCoreUploadChunk (s : FtpState) (bytes : List UInt8) (now : UInt32) :
    FtpProg (Bool × FtpState) :=
  -- A caller of this call could not be told of a prefix.
  if s.core.operation then pure (false, s)
  else do
    let ((result, _), s) ← ftpCoreUploadSpan s bytes now
    pure (result = .ok, s)

def ftpCoreUploadEof (s : FtpState) (now : UInt32) : FtpProg (Bool × FtpState) :=
  if !s.core.transferReady ∨ s.core.direction ≠ .upload ∨ s.core.eof then
    pure (false, s)
  else
    let s := { s with core := { s.core with eof := true } }
    if s.core.operation then do
      let done ← s.callOperation .eof
      if !done then
        let s ← failure s (ascii "451 Operation failed.\r\n") now
        pure (false, s)
      else pure (true, s)
    else pure (true, { s with core := s.core.closeData now })

def ftpCoreForeground (s : FtpState) (now : UInt32) : FtpProg FtpState :=
  if !s.core.operation ∨ s.core.direction ≠ .upload ∨ s.core.accepted then pure s
  else do
    let r ← s.callOperation .step
    if r = .accepted then
      if !s.core.eof then failure s (ascii "451 Premature acceptance.\r\n") now
      else
        let c := { s.core with accepted := true }
        pure { s with core := c.closeData now }
    else if r = .error then failure s (ascii "451 Operation failed.\r\n") now
    else pure s

def ftpCoreDownloadSpan (s : FtpState) : List UInt8 :=
  if !s.core.transferReady ∨ s.core.direction ≠ .download then []
  else s.core.download.data.drop s.core.enqueued

/-- The close of a download whose bytes are all enqueued and acknowledged. -/
def FtpCore.downloaded (c : FtpCore) (now : UInt32) : FtpCore :=
  if c.enqueued = c.download.length ∧ c.acked = c.download.length then
    c.closeData now
  else c

def ftpCoreDownloadEnqueued (s : FtpState) (length : Nat) (now : UInt32) :
    Bool × FtpState :=
  if !s.core.transferReady ∨ s.core.direction ≠ .download ∨
      length > s.core.download.length - s.core.enqueued then (false, s)
  else
    let c := { s.core with enqueued := s.core.enqueued + length }
    let c := if length ≠ 0 then { c with progressTime := now, dataOutputTime := now }
      else c
    (true, { s with core := c.downloaded now })

def ftpCoreDownloadAcked (s : FtpState) (length : Nat) (now : UInt32) :
    Bool × FtpState :=
  if !s.core.transferReady ∨ s.core.direction ≠ .download ∨
      length > s.core.enqueued - s.core.acked then (false, s)
  else
    let c := { s.core with acked := s.core.acked + length }
    (true, { s with core := (c.progressed length now).downloaded now })

/-- The reply to a transfer that has succeeded. -/
def completeText : List UInt8 := ascii "226 Transfer complete.\r\n"

/-- Whether the transfer that closes is a success; a RAM upload is committed
here. -/
def commitUpload (s : FtpState) : FtpProg Bool := do
  if s.core.direction ≠ .upload then pure true
  else if !s.core.eof then pure false
  else if s.core.operation then pure s.core.accepted
  else
    let result ← s.callStorage .commit
    pure (result = .ok)

def ftpCoreDataCloseResult (s : FtpState) (accepted : Bool) (now : UInt32) :
    FtpProg (Bool × FtpState) :=
  if !s.core.session ∨ !s.core.closing then pure (false, s)
  -- The close is retried until its deadline.
  else if !accepted then pure (true, s)
  else if s.core.replies.count = ftpReplySlots then do
    FtpState.mark .closeFull
    let s ← lost s
    pure (false, s)
  else do
    let committed ← commitUpload s
    let s ← teardown { s with core := { s.core with
      connected := false
      closing := false } }
    let s := { s with core := { s.core with
      actions := s.core.actions &&& ~~~(ftpAbortData ||| ftpCloseData) } }
    let (queued, s) ← reply s (if committed then completeText
      else ascii "451 Storage operation failed.\r\n") false now
    pure (committed && queued, s)

def ftpCoreDataError (s : FtpState) (now : UInt32) : FtpProg FtpState :=
  if s.core.direction ≠ .idle then
    failure s (ascii "426 Data connection failed.\r\n") now
  else if s.core.passive ∨ s.core.opening then
    failure s (ascii "425 Data connection failed.\r\n") now
  else pure s

def ftpCoreFile (s : FtpState) : FtpProg FtpStorageView :=
  if s.storage = none then pure .none else s.callStorage .inspect

/-! ## Deadlines -/

/-- The deadlines of the control connection. -/
def FtpCore.expired (c : FtpCore) (now : UInt32) : Bool :=
  elapsed now c.controlTime 60000 ||
    (c.parser.active && elapsed now c.parser.since 10000) ||
    (c.replies.count != 0 && elapsed now c.outputTime 5000) ||
    (c.quitting && c.replies.count == 0 && elapsed now c.closeTime 5000)

def ftpCoreTick (s : FtpState) (now : UInt32) : FtpProg FtpState :=
  let c := s.core
  if !c.session then pure s
  else if c.expired now then lost s
  else if c.closing ∧ elapsed now c.closeTime 5000 then
    failure s (ascii "426 Data close timed out.\r\n") now
  else if c.direction = .download ∧ c.connected ∧ c.ready ∧ !c.closing ∧
      c.enqueued < c.download.length ∧ elapsed now c.dataOutputTime 5000 then
    failure s (ascii "426 Data output timed out.\r\n") now
  else if c.direction ≠ .idle ∧ elapsed now c.startTime 60000 then
    failure s (ascii "426 Transfer timed out.\r\n") now
  else if c.direction ≠ .idle ∧ elapsed now c.progressTime 15000 then
    failure s (ascii "426 Transfer timed out.\r\n") now
  else if (c.opening ∨ (c.passive ∧ c.direction = .idle) ∨
      (c.passive ∧ !c.connected)) ∧ elapsed now c.passiveTime 15000 then
    failure s (ascii "425 Passive connection timed out.\r\n") now
  else pure s

/-! ## The interface -/

/-- A call that may change the state or the bindings. The remaining functions
of the interface return one flag each. -/
inductive FtpCall where
  | init (binding : FtpStorage)
  | bindOperation (binding : Option FtpOperation)
  | reset
  | sessionOpen (now : UInt32)
  | sessionLost
  | controlClosed
  | takeActions
  | replyPeek
  | replyConsume (length : Nat) (now : UInt32)
  | controlSpan (bytes : List UInt8) (now : UInt32)
  | passiveResult (success : Bool) (address : Option (Fin 4 → UInt8))
      (port : UInt16) (now : UInt32)
  | dataConnected (now : UInt32)
  | uploadChunk (bytes : List UInt8) (now : UInt32)
  | uploadSpan (bytes : List UInt8) (now : UInt32)
  | uploadEof (now : UInt32)
  | foreground (now : UInt32)
  | downloadSpan
  | downloadEnqueued (length : Nat) (now : UInt32)
  | downloadAcked (length : Nat) (now : UInt32)
  | dataCloseResult (accepted : Bool) (now : UInt32)
  | dataError (now : UInt32)
  | file
  | tick (now : UInt32)

inductive FtpReturn where
  | unit
  | bool (b : Bool)
  | actions (a : UInt32)
  | bytes (p : List UInt8)
  | input (r : FtpInput) (accepted : Nat)
  | view (v : FtpStorageView)
  deriving DecidableEq

def returnUnit (p : FtpProg FtpState) : FtpProg (FtpReturn × FtpState) := do
  let s ← p
  pure (.unit, s)

def returnBool (p : FtpProg (Bool × FtpState)) : FtpProg (FtpReturn × FtpState) := do
  let (b, s) ← p
  pure (.bool b, s)

def returnInput (p : FtpProg ((FtpInput × Nat) × FtpState)) :
    FtpProg (FtpReturn × FtpState) := do
  let ((r, accepted), s) ← p
  pure (.input r accepted, s)

def FtpCall.perform (s : FtpState) : FtpCall → FtpProg (FtpReturn × FtpState)
  | .init binding => returnBool (pure (ftpCoreInit s binding))
  | .bindOperation binding => returnBool (pure (ftpCoreBindOperation s binding))
  | .reset => returnUnit (ftpCoreReset s)
  | .sessionOpen now => returnBool (ftpCoreSessionOpen s now)
  | .sessionLost => returnUnit (ftpCoreSessionLost s)
  | .controlClosed => returnUnit (ftpCoreControlClosed s)
  | .takeActions => pure (.actions (ftpCoreTakeActions s).1, (ftpCoreTakeActions s).2)
  | .replyPeek => pure (.bytes (ftpCoreReplyPeek s), s)
  | .replyConsume n now => returnBool (pure (ftpCoreReplyConsume s n now))
  | .controlSpan bytes now => returnInput (ftpCoreControlSpan s bytes now)
  | .passiveResult success address port now =>
      returnBool (ftpCorePassiveResult s success address port now)
  | .dataConnected now => returnBool (pure (ftpCoreDataConnected s now))
  | .uploadChunk bytes now => returnBool (ftpCoreUploadChunk s bytes now)
  | .uploadSpan bytes now => returnInput (ftpCoreUploadSpan s bytes now)
  | .uploadEof now => returnBool (ftpCoreUploadEof s now)
  | .foreground now => returnUnit (ftpCoreForeground s now)
  | .downloadSpan => pure (.bytes (ftpCoreDownloadSpan s), s)
  | .downloadEnqueued n now => returnBool (pure (ftpCoreDownloadEnqueued s n now))
  | .downloadAcked n now => returnBool (pure (ftpCoreDownloadAcked s n now))
  | .dataCloseResult accepted now =>
      returnBool (ftpCoreDataCloseResult s accepted now)
  | .dataError now => returnUnit (ftpCoreDataError s now)
  | .file => do
      let view ← ftpCoreFile s
      pure (.view view, s)
  | .tick now => returnUnit (ftpCoreTick s now)

end EkBareMetal.Ftp

import EkBareMetal.Boot.Receive
import EkBareMetal.Boot.Service
import EkBareMetal.Ftp.Core

/-!
# The boot services behind the operation interface

`ftp_boot.c`: one object that offers a status, a report, a firmware upload and
a confirmation as operations of the FTP core. Its callbacks are programs on
the object (`ObjSig`), because the services behind them invoke callbacks of
their own, which may call back. What they call is `ServiceSig`: the interface
of the receiver, the capture of a snapshot, the commit of a confirmation, and
one flag of the flash controller. The receiver is an object of its own, so it
is no part of this one, and `Receives` says which answers are a receiver's.

The diagnostics are empty inline functions in this configuration.
-/

namespace EkBareMetal.Ftp

open Words Interact Boot

inductive FtpBootKind where
  | none
  | status
  | firmware
  | confirm
  | report
  deriving DecidableEq

abbrev ftpBootReportIdMax : Nat := 32
abbrev ftpBootReportDescriptionMax : Nat := 128
abbrev ftpBootReportPrefixCapacity : Nat :=
  55 + 2 * ftpBootReportIdMax + ftpBootReportDescriptionMax
abbrev ftpBootReportCapacity : Nat := ftpBootReportPrefixCapacity + bootStatusCapacity

structure FtpBootReportDescriptor where
  id : List UInt8
  description : List UInt8
  deriving DecidableEq

/-- The parts of the configuration that are not pointers. -/
structure FtpBootConfig where
  receive : BootReceiveConfig
  report : Option FtpBootReportDescriptor

/-- `acceptance` is what the last accepted step wrote, and `status` the first
`status_length` bytes of the buffer. -/
structure FtpBoot where
  config : FtpBootConfig
  active : FtpBootKind
  entered : Bool
  quarantine : Bool
  firmwareUsed : Bool
  accepted : Bool
  eof : Bool
  resetRequested : Bool
  acceptance : Option BootReceiveAcceptance
  parser : BootConfirmParser
  status : List UInt8

/-! ## The services -/

inductive ServiceOp where
  | receive (call : ReceiveCall)
  | capture
  | confirm (request : BootConfirmRequest)
  | blocked

abbrev ServiceSig : Sig where
  Op := ServiceOp
  Ans
    | .receive _ => ReceiveReply
    | .capture => Except BootSnapshotResult BootSnapshot
    | .confirm _ => BootConfirmResult
    | .blocked => Bool

abbrev BindingProg (α : Type) := Prog (ObjSig FtpBoot ServiceSig) α

abbrev callService (op : ServiceOp) : BindingProg (ServiceSig.Ans op) :=
  Prog.ask (S := ObjSig FtpBoot ServiceSig) (.outside op)

/-- The answers of the transcript that are a receiver's are those of the
receiver `r`, which they leave at `r'`. -/
inductive Receives (C : Crypto) :
    BootReceive → List (Event ServiceSig) → BootReceive → Prop where
  | nil (r : BootReceive) : Receives C r [] r
  | other {r r' : BootReceive} {e : Event ServiceSig} {tr : List (Event ServiceSig)}
      (he : ∀ call, e.op ≠ .receive call) (h : Receives C r tr r') :
      Receives C r (e :: tr) r'
  | call {r r' : BootReceive} {call : ReceiveCall} {reply : ReceiveReply}
      {sub : List (Event ReceiveSig)} {tr : List (Event ServiceSig)}
      (hc : Runs (call.calls C r) sub reply) (h : Receives C reply.receiver tr r') :
      Receives C r (⟨.receive call, reply⟩ :: tr) r'

/-! ## The report -/

/-- Printable, not empty, and no longer than `max`. -/
def asciiText (s : List UInt8) (max : Nat) : Bool :=
  s != [] && s.length ≤ max && s.all fun c => 32 ≤ c && c ≤ 126

def slotApplication (slot : UInt32) : List UInt8 :=
  if slot = bootSlotA then ascii "slot-a-breathing" else ascii "slot-b-blink"

def descriptorValid (d : Option FtpBootReportDescriptor) : Bool :=
  d.all fun d => asciiText d.id ftpBootReportIdMax &&
    asciiText d.description ftpBootReportDescriptionMax &&
    (d.id == ascii "slot-a-breathing" || d.id == ascii "slot-b-blink")

def reportPrefix (d : FtpBootReportDescriptor) : List UInt8 :=
  ascii "format=1\napplication=" ++ d.id ++ ascii "\nmessage=" ++ d.id ++
    ascii " booted successfully. " ++ d.description ++ ascii "\n\n"

/-- The text of a report, if the running image is the one described and well. -/
def reportRender (d : Option FtpBootReportDescriptor) (s : BootSnapshot) :
    Option (List UInt8) :=
  d.bind fun d =>
    if !s.diagnosticContext.healthKnown ∨ s.diagnostic.health ≠ bootHealthRequired ∨
        s.diagnostic.fault ≠ bootDiagFaultNone ∨
        d.id ≠ slotApplication s.running.manifest.slot then none
    else if (reportPrefix d).length ≥ ftpBootReportPrefixCapacity then none
    else
      (bootStatusRender s (ftpBootReportCapacity - (reportPrefix d).length)).map
        fun body => reportPrefix d ++ body

/-! ## The callbacks -/

def kind (path : List UInt8) (upload : Bool) : FtpBootKind :=
  let p := if path.head? = some 0x2f then path.drop 1 else path
  if !upload ∧ p = ascii "boot-status" then .status
  else if !upload ∧ p = ascii "boot-report" then .report
  else if upload ∧ p = ascii "firmware" then .firmware
  else if upload ∧ p = ascii "confirm" then .confirm
  else .none

namespace Binding

open Prog

def matchesName (path : List UInt8) (upload : Bool) : BindingProg Bool :=
  pure (kind path upload ≠ .none)

/-- A status or a report: the view of the text. -/
def beginText (k : FtpBootKind) : BindingProg (Option FtpStorageView) := do
  let b ← loadObj
  if k = .report ∧ b.config.report = none then pure none
  else do
    match ← callService .capture with
    | .error _ => pure none
    | .ok snapshot =>
        match if k = .report then reportRender b.config.report snapshot
            else bootStatusRender snapshot ftpBootReportCapacity with
        | none => pure none
        | some text => do
            modifyObj fun b => { b with status := text }
            pure (some ⟨text, true⟩)

def beginFirmware : BindingProg (Option FtpStorageView) := do
  modifyObj fun b => { b with firmwareUsed := true }
  let b ← loadObj
  let reply ← callService (.receive (.begin b.config.receive))
  modifyObj fun b => { b with quarantine := b.quarantine || reply.result == .reconcile }
  pure (if reply.result = .ok then some .none else none)

def beginConfirm : BindingProg (Option FtpStorageView) := do
  modifyObj fun b => { b with parser := .zeroed }
  pure (some .none)

/-- What a begin does under its guard. -/
def beginKind : FtpBootKind → BindingProg (Option FtpStorageView)
  | .firmware => beginFirmware
  | .confirm => beginConfirm
  | k => beginText k

/-- A begin that succeeds answers the view, which is that of a download. -/
def begin (path : List UInt8) (upload : Bool) : BindingProg (Option FtpStorageView) := do
  let b ← loadObj
  if b.entered ∨ b.active ≠ .none ∨ b.quarantine then pure none
  else if kind path upload = .none ∨ (kind path upload = .firmware ∧ b.firmwareUsed) then
    pure none
  else do
    modifyObj fun b => { b with entered := true }
    -- Ownership is claimed in front of the callbacks.
    modifyObj fun b => { b with active := kind path upload, accepted := false, eof := false }
    let view ← beginKind (kind path upload)
    let blocked ← callService .blocked
    modifyObj fun b => { b with quarantine := b.quarantine || blocked }
    modifyObj fun b => { b with active := if view = none then .none else b.active }
    modifyObj fun b => { b with entered := false }
    pure view

def receiveResult (r : BootReceiveResult) : BindingProg FtpOperationResult := do
  modifyObj fun b => { b with quarantine := b.quarantine || r == .reconcile }
  pure (if r = .ok then .ok else if r = .wait then .wait else .error)

/-- What a feed does under its guard. -/
def feedActive (bytes : List UInt8) : BindingProg (FtpOperationResult × Nat) := do
  let b ← loadObj
  if b.active = .firmware then do
    let reply ← callService (.receive (.feed bytes))
    let r ← receiveResult reply.result
    pure (r, reply.accepted)
  else if b.active = .confirm then do
    modifyObj fun b => { b with parser := (bootConfirmFeed b.parser bytes).2 }
    pure (if (bootConfirmFeed b.parser bytes).1 then (.ok, bytes.length) else (.error, 0))
  else pure (.error, 0)

def feed (bytes : List UInt8) : BindingProg (FtpOperationResult × Nat) := do
  let b ← loadObj
  if b.entered ∨ b.eof ∨ b.accepted then pure (.error, 0)
  else do
    modifyObj fun b => { b with entered := true }
    let r ← feedActive bytes
    modifyObj fun b => { b with entered := false }
    pure r

/-- What an end of file does under its guard. -/
def eofActive : BindingProg Bool := do
  let b ← loadObj
  if b.active = .firmware then do
    let reply ← callService (.receive .eof)
    let r ← receiveResult reply.result
    pure (r = .ok)
  else pure (b.active = .confirm)

def eof : BindingProg Bool := do
  let b ← loadObj
  if b.entered ∨ b.eof ∨ b.active = .none then pure false
  else do
    modifyObj fun b => { b with entered := true }
    modifyObj fun b => { b with eof := true }
    let done ← eofActive
    modifyObj fun b => { b with entered := false }
    pure done

def stepFirmware : BindingProg FtpOperationResult := do
  let reply ← callService (.receive .step)
  modifyObj fun b => { b with acceptance := reply.acceptance.or b.acceptance }
  if reply.result = .accepted then do
    modifyObj fun b => { b with
      accepted := true
      resetRequested := b.acceptance.any (·.resetRequested) }
    pure .accepted
  else receiveResult reply.result

def stepConfirm : BindingProg FtpOperationResult := do
  let b ← loadObj
  modifyObj fun b => { b with parser := (bootConfirmFinish b.parser).2 }
  match (bootConfirmFinish b.parser).1 with
  | none => pure .error
  | some request => do
      let result ← callService (.confirm request)
      let blocked ← callService .blocked
      modifyObj fun b => { b with
        quarantine := b.quarantine || result == .reconcile || blocked }
      if result = .ok then do
        modifyObj fun b => { b with accepted := true }
        pure .accepted
      else pure .error

/-- What a step does under its guard. -/
def stepActive : BindingProg FtpOperationResult := do
  let b ← loadObj
  if b.active = .firmware then stepFirmware
  else if b.active = .confirm ∧ b.eof then stepConfirm
  else pure .wait

def step : BindingProg FtpOperationResult := do
  let b ← loadObj
  if b.entered ∨ b.quarantine ∨ b.active = .none then pure .error
  else if b.accepted then pure .accepted
  else do
    modifyObj fun b => { b with entered := true }
    let r ← stepActive
    modifyObj fun b => { b with entered := false }
    pure r

/-- What an end does under its guard. -/
def finishActive : BindingProg Unit := do
  let b ← loadObj
  if b.active = .firmware ∧ !b.accepted then do
    let _ ← callService (.receive .abort)
    pure ()
  else pure ()

/-- `end`: the acceptance, the reset request, the quarantine and the one-shot
history stay. -/
def finish : BindingProg Unit := do
  let b ← loadObj
  if b.entered ∨ b.active = .none then pure ()
  else do
    modifyObj fun b => { b with entered := true }
    finishActive
    modifyObj fun b => { b with active := .none }
    modifyObj fun b => { b with entered := false }

end Binding

/-- The table of the callbacks. -/
def FtpBoot.ops : (op : OperationOp) → BindingProg (OperationSig.Ans op)
  | .matchesName path upload => Binding.matchesName path upload
  | .begin path upload => Binding.begin path upload
  | .feed bytes => Binding.feed bytes
  | .eof => Binding.eof
  | .step => Binding.step
  | .finish => Binding.finish

/-- A call together with what it returns. -/
def FtpBoot.api (op : OperationOp) : BindingProg (Event OperationSig) := do
  let r ← FtpBoot.ops op
  pure ⟨op, r⟩

/-- The object that is zero but for its configuration. -/
def FtpBoot.zeroed (config : FtpBootConfig) : FtpBoot where
  config := config
  active := .none
  entered := false
  quarantine := false
  firmwareUsed := false
  accepted := false
  eof := false
  resetRequested := false
  acceptance := none
  parser := .zeroed
  status := []

def ftpBootInit (config : FtpBootConfig) (receiver : BootReceive) : Option FtpBoot :=
  if receiver.phase ≠ .new ∨ !descriptorValid config.report then none
  else some (.zeroed config)

end EkBareMetal.Ftp

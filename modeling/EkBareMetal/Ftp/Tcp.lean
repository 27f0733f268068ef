import EkBareMetal.Ftp.Core

/-!
# The TCP adapter of the FTP core

`ftp_tcp.c` with its statics as one state, the core's among them. lwIP is the
other party: what it is called for is a request, and what it calls back is an
event. It calls back from within two of its calls as well: `tcp_new` may abort a
connection to make room, and `tcp_process_refused_data` hands a refused chain
over again. Both answer with the callbacks they made, which are run in turn.

The points are no calls. They mark the offer of a chain and what lwIP is told,
a new connection, and what becomes of the bytes of a chain.
-/

namespace EkBareMetal.Ftp

open Interact

/-! ## lwIP -/

inductive Err where
  | ok
  | mem
  | abrt
  | arg
  | val
  | other (code : Int8)
  deriving DecidableEq

/-- A connection or a listener. No two have one name, even where their blocks in
the pool are the same. -/
abbrev Pcb : Type := Nat

/-- A pbuf chain, and the bytes in it. -/
structure Pbuf where
  id : Nat
  bytes : List UInt8
  fits : bytes.length < 2 ^ 16
  deriving DecidableEq

def Pbuf.totLen (b : Pbuf) : UInt16 := UInt16.ofNat b.bytes.length

/-- The two channels. -/
inductive Side where
  | control
  | data
  deriving DecidableEq

inductive Callback where
  | receive (c : Side) (p : Pcb) (b : Option Pbuf) (e : Err)
  | sent (c : Side) (p : Pcb) (n : UInt16)
  | error (c : Option Side) (e : Err)
  deriving DecidableEq

inductive TcpPoint where
  | opened (p : Pcb)
  | offers (p : Pcb) (b : Option Pbuf)
  | returns (p : Pcb) (b : Option Pbuf) (e : Err)
  | accepted (p : Pcb) (bytes : List UInt8)
  | dropped (p : Pcb) (bytes : List UInt8) (quitting : Bool)
  | lost (p : Pcb) (bytes : List UInt8)
  deriving DecidableEq

/-- `again` is no call of lwIP: it asks whether a callback of the core has called
the service again. -/
inductive TcpOp where
  | arg (p : Pcb) (c : Option Side)
  | recv (p : Pcb) (attach : Bool)
  | sent (p : Pcb) (attach : Bool)
  | err (p : Pcb) (attach : Bool)
  | accept (p : Pcb) (c : Option Side)
  | new
  | bind (p : Pcb) (address : Fin 4 → UInt8) (port : UInt16)
  | listen (p : Pcb)
  | abort (p : Pcb)
  | abandon (p : Pcb)
  | close (p : Pcb)
  | shutdown (p : Pcb)
  | closePending (p : Pcb)
  | clearClosePending (p : Pcb)
  | recved (p : Option Pcb) (n : UInt16)
  | free (b : Pbuf)
  | copyPartial (b : Pbuf) (n offset : UInt16)
  | sndbuf (p : Pcb)
  | write (p : Pcb) (bytes : List UInt8)
  | output (p : Pcb)
  | refused (p : Pcb)
  | processRefused (p : Pcb)
  | remoteIp (p : Pcb)
  | localPort (p : Pcb)
  | activePcbs
  | timeWaitPcbs
  | boundPcbs
  | sysNow
  | again
  | point (p : TcpPoint)

/-- `copyPartial` answers the bytes it has copied, and the three lists of
connections the ones that are in them. -/
abbrev TcpSig : Sig where
  Op := TcpOp
  Ans
    | .new => Option Pcb × List Callback
    | .bind _ _ _ => Err
    | .listen _ => Option Pcb × Err
    | .shutdown _ => Err
    | .closePending _ => Bool
    | .copyPartial _ _ _ => List UInt8
    | .sndbuf _ => UInt16
    | .write _ _ => Err
    | .output _ => Err
    | .refused _ => Bool
    | .processRefused _ => List Callback
    | .remoteIp _ => UInt32
    | .localPort _ => UInt16
    | .activePcbs => List Pcb
    | .timeWaitPcbs => List Pcb
    | .boundPcbs => List Pcb
    | .sysNow => UInt32
    | .again => Bool
    | _ => Unit

abbrev TcpProg (α : Type) := Prog (TcpSig.sum FtpSig) α

def callTcp (op : TcpOp) : TcpProg (TcpSig.Ans op) :=
  Prog.ask (S := TcpSig.sum FtpSig) (.inl op)

/-! ## The statics -/

structure Channel where
  pcb : Option Pcb
  rx : Option Pbuf
  offset : UInt16
  fin : Bool
  failed : Bool
  output : Bool
  closing : Bool
  outputSince : UInt32
  deriving DecidableEq

def Channel.zero : Channel := ⟨none, none, 0, false, false, false, false, 0⟩

structure FtpTcp where
  control : Channel
  data : Channel
  listener : Option Pcb
  passive : Option Pcb
  localAddress : Fin 4 → UInt8
  now : UInt32
  servicing : Bool
  serviceFailed : Bool
  core : FtpState

namespace FtpTcp

def channel (s : FtpTcp) : Side → Channel
  | .control => s.control
  | .data => s.data

def put (s : FtpTcp) (c : Channel) : Side → FtpTcp
  | .control => { s with control := c }
  | .data => { s with data := c }

end FtpTcp

/-- A call of the core from within the service, whose callbacks may call the
service again: that is refused, and remembered. -/
def callCore {α : Type} (s : FtpTcp) (p : FtpState → FtpProg (α × FtpState)) :
    TcpProg (α × FtpTcp) := do
  let r ← (p s.core).right
  let again ← callTcp .again
  pure (r.1, { s with core := r.2, serviceFailed := s.serviceFailed || again })

def runCore (s : FtpTcp) (p : FtpState → FtpProg FtpState) : TcpProg FtpTcp := do
  let r ← callCore s fun core => do
    let core ← p core
    pure ((), core)
  pure r.2

/-! ## Channels -/

def callbacks (p : Pcb) (c : Side) (attach : Bool) : TcpProg Unit := do
  callTcp (.arg p (if attach then some c else none))
  callTcp (.recv p attach)
  callTcp (.sent p attach)
  callTcp (.err p attach)

def releaseRx (c : Channel) : TcpProg Channel :=
  match c.rx with
  | none => pure { c with rx := none, offset := 0 }
  | some b => do
      callTcp (.free b)
      pure { c with rx := none, offset := 0 }

/-- What is done with a connection, where there is one. -/
def withPcb (p : Option Pcb) (f : Pcb → TcpProg Unit) : TcpProg Unit :=
  match p with
  | none => pure ()
  | some p => f p

/-- What is left of the chain that is read, behind its offset. -/
def Channel.rest (c : Channel) : List UInt8 :=
  match c.rx with
  | none => []
  | some b => b.bytes.drop c.offset.toNat

def discard (c : Channel) (side : Side) (offline : Bool) : TcpProg Channel := do
  withPcb c.pcb fun p => do
    callbacks p side false
    callTcp (.point (.lost p c.rest))
  let released ← releaseRx { c with pcb := none }
  withPcb c.pcb fun p => if offline then callTcp (.abandon p) else callTcp (.abort p)
  pure { released with fin := false, failed := false, output := false, closing := false }

/-- The slot is cleared by whoever calls. -/
def closeListener (slot : Option Pcb) : TcpProg Unit :=
  withPcb slot fun p => do
    callTcp (.arg p none)
    callTcp (.accept p none)
    callTcp (.close p)

def discardControl (s : FtpTcp) (offline : Bool) : TcpProg FtpTcp := do
  let control ← discard s.control .control offline
  pure { s with control := control }

def discardData (s : FtpTcp) (offline : Bool) : TcpProg FtpTcp := do
  let data ← discard s.data .data offline
  pure { s with data := data }

def closePassive (s : FtpTcp) : TcpProg FtpTcp := do
  closeListener s.passive
  pure { s with passive := none }

/-! ## Callbacks -/

def receive (s : FtpTcp) (side : Side) (p : Pcb) (b : Option Pbuf) (e : Err) :
    TcpProg (Err × FtpTcp) :=
  let c := s.channel side
  let failed := c.failed || e != .ok
  if c.pcb ≠ some p then pure (.mem, s)
  else match b with
    | none => pure (.ok, s.put { c with fin := true, failed := failed } side)
    | some b =>
        if side = .control ∧ s.core.core.quitting then do
          callTcp (.point (.dropped p b.bytes s.core.core.quitting))
          callTcp (.recved (some p) b.totLen)
          callTcp (.free b)
          pure (.ok, s)
        else if c.rx ≠ none then pure (.mem, s)
        else pure (.ok, s.put { c with rx := some b, failed := failed } side)

def sent (s : FtpTcp) (side : Side) (p : Pcb) (n : UInt16) : TcpProg FtpTcp :=
  if (s.channel side).pcb = some p ∧ side = .data then do
    let now ← callTcp .sysNow
    let r := ftpCoreDownloadAcked s.core n.toNat now
    pure { s with
      core := r.2
      data := { s.data with failed := s.data.failed || !r.1 } }
  else pure s

def error (s : FtpTcp) (side : Option Side) : TcpProg FtpTcp :=
  match side with
  | none => pure s
  | some side =>
      let c := s.channel side
      match c.pcb with
      | none => pure s
      | some p => do
          callTcp (.point (.lost p c.rest))
          let c ← releaseRx { c with pcb := none }
          pure (s.put { c with
            output := false
            closing := false
            fin := false
            failed := true } side)

/-- A callback, as lwIP makes it. -/
def upcall (s : FtpTcp) : Callback → TcpProg FtpTcp
  | .receive side p b e => do
      callTcp (.point (.offers p b))
      let r ← receive s side p b e
      callTcp (.point (.returns p b r.1))
      pure r.2
  | .sent side p n => sent s side p n
  | .error side _ => error s side

def upcalls (s : FtpTcp) : List Callback → TcpProg FtpTcp
  | [] => pure s
  | callback :: callbacks => do
      let s ← upcall s callback
      upcalls s callbacks

def refuse (s : FtpTcp) (p : Pcb) : TcpProg (Err × FtpTcp) := do
  callTcp (.abort p)
  pure (.abrt, s)

def acceptControl (s : FtpTcp) (p : Pcb) (e : Err) : TcpProg (Err × FtpTcp) :=
  if e ≠ .ok ∨ s.control.pcb ≠ none ∨ s.control.failed then refuse s p
  else do
    let now ← callTcp .sysNow
    let r ← (ftpCoreSessionOpen s.core now).right
    if !r.1 then refuse { s with core := r.2 } p
    else do
      callbacks p .control true
      pure (.ok, { s with
        core := r.2
        control := { Channel.zero with pcb := some p } })

/-- Whether the other end of the data connection is the one of the control
connection. -/
def samePeer (s : FtpTcp) (p : Pcb) : TcpProg Bool :=
  match s.control.pcb with
  | none => pure false
  | some control => do
      let ip ← callTcp (.remoteIp p)
      let controlIp ← callTcp (.remoteIp control)
      pure (ip == controlIp)

def acceptData (s : FtpTcp) (p : Pcb) (e : Err) : TcpProg (Err × FtpTcp) :=
  if e ≠ .ok ∨ s.control.pcb = none ∨ s.data.pcb ≠ none ∨ s.data.failed then
    refuse s p
  else do
    let same ← samePeer s p
    if !same then refuse s p
    else do
      let now ← callTcp .sysNow
      let r := ftpCoreDataConnected s.core now
      if !r.1 then refuse { s with core := r.2 } p
      else do
        callbacks p .data true
        let s ← closePassive { s with
          core := r.2
          data := { Channel.zero with pcb := some p } }
        pure (.ok, s)

/-! ## Start and link down -/

/-- The error, and the listener where there is one. -/
def makeListener (s : FtpTcp) (port : UInt16) (accept : Side) :
    TcpProg ((Err × Option Pcb) × FtpTcp) := do
  let made ← callTcp .new
  let s ← upcalls s made.2
  match made.1 with
  | none => pure ((.mem, none), s)
  | some p => do
      let e ← callTcp (.bind p s.localAddress port)
      if e ≠ .ok then do
        callTcp (.abort p)
        pure ((e, none), s)
      else do
        let listening ← callTcp (.listen p)
        match listening.1 with
        | none => do
            callTcp (.abort p)
            pure ((listening.2, none), s)
        | some l => do
            callTcp (.arg l none)
            callTcp (.accept l (some accept))
            pure ((.ok, some l), s)

def ftpTcpStart (s : FtpTcp) (address : Option (Fin 4 → UInt8)) :
    TcpProg (Err × FtpTcp) :=
  match address with
  | none => pure (.arg, s)
  | some address =>
      if s.core.storage = none then pure (.val, s)
      else if s.listener ≠ none then pure (.ok, s)
      else do
        let r ← makeListener { s with localAddress := address } 21 .control
        pure (r.1.1, { r.2 with listener := r.1.2 })

/-- The loop that abandons the head of a list of lwIP until it is empty. -/
def abandonAll : List Pcb → TcpProg Unit
  | [] => pure ()
  | p :: rest => do
      callTcp (.abandon p)
      abandonAll rest

def ftpTcpLinkDown (s : FtpTcp) : TcpProg FtpTcp := do
  let s ← closePassive s
  closeListener s.listener
  let s ← discardData { s with listener := none } true
  let s ← discardControl s true
  let active ← callTcp .activePcbs
  abandonAll active
  let timeWait ← callTcp .timeWaitPcbs
  abandonAll timeWait
  let bound ← callTcp .boundPcbs
  abandonAll bound
  let core ← (ftpCoreSessionLost s.core).right
  pure { s with core := (ftpCoreTakeActions core).2 }

/-! ## Actions -/

def credit (c : Channel) (n : UInt16) : TcpProg Channel := do
  callTcp (.recved c.pcb n)
  if c.rx.map Pbuf.totLen = some (c.offset + n) then
    releaseRx { c with offset := c.offset + n }
  else pure { c with offset := c.offset + n }

/-- The credit of a rest that nobody reads any more. -/
def creditRest (s : FtpTcp) : TcpProg FtpTcp :=
  match s.control.pcb, s.control.rx with
  | some p, some b => do
      callTcp (.point (.dropped p s.control.rest s.core.core.quitting))
      let control ← credit s.control (b.totLen - s.control.offset)
      pure { s with control := control }
  | _, _ => pure s

/-- The port of the passive listener, if there is to be one. -/
def passivePort (s : FtpTcp) (ok : Bool) : TcpProg UInt16 :=
  match s.passive with
  | some p => if ok then callTcp (.localPort p) else pure 0
  | none => pure 0

def openPassive (s : FtpTcp) : TcpProg FtpTcp := do
  let made ← makeListener s 0 .data
  let ok := made.1.1 == .ok
  let s := if made.1.2 = none then made.2 else { made.2 with passive := made.1.2 }
  let port ← passivePort s ok
  let r ← callCore s fun core =>
    ftpCorePassiveResult core ok (some s.localAddress) port s.now
  if !r.1 then closePassive r.2 else pure r.2

/-- An action, if it is among the requested ones. -/
def whenAsked (a bit : UInt32) (s : FtpTcp) (f : FtpTcp → TcpProg FtpTcp) :
    TcpProg FtpTcp :=
  if a &&& bit ≠ 0 then f s else pure s

def closeControl (s : FtpTcp) : TcpProg FtpTcp :=
  creditRest { s with control := { s.control with closing := true } }

def actions (s : FtpTcp) : TcpProg FtpTcp := do
  let a := (ftpCoreTakeActions s.core).1
  let s := { s with core := (ftpCoreTakeActions s.core).2 }
  let s ← whenAsked a ftpClosePassive s closePassive
  let s ← whenAsked a ftpAbortData s fun s => discardData s false
  let s ← whenAsked a ftpAbortControl s fun s => discardControl s false
  let s ← whenAsked a ftpCloseData s fun s =>
    pure { s with data := { s.data with closing := true } }
  let s ← whenAsked a ftpCloseControl s closeControl
  whenAsked a ftpOpenPassive s openPassive

/-! ## Input -/

/-- A refused chain is offered again. -/
def reoffer (s : FtpTcp) (p : Pcb) : TcpProg FtpTcp := do
  let refused ← callTcp (.refused p)
  if refused then do
    let made ← callTcp (.processRefused p)
    upcalls s made
  else pure s

def inputControlLoop (s : FtpTcp) : Nat → TcpProg FtpTcp
  | 0 => pure s
  | budget + 1 =>
      match s.control.pcb, s.control.rx with
      | some p, some b =>
          if s.core.core.quitting then creditRest s
          else do
            let bytes ← callTcp (.copyPartial b 1 s.control.offset)
            if bytes.length ≠ 1 then
              pure { s with control := { s.control with failed := true } }
            else do
              let r ← callCore s fun core => ftpCoreControlSpan core bytes s.now
              callTcp (.point (.accepted p (bytes.take r.1.2)))
              if r.1.1 ≠ .ok then pure r.2
              else do
                let control ← credit r.2.control 1
                let s ← actions { r.2 with control := control }
                inputControlLoop s budget
      | _, _ => pure s

def inputControl (s : FtpTcp) : TcpProg FtpTcp := do
  let s ← inputControlLoop s ftpControlCapacity
  match s.control.pcb with
  | none => pure s
  | some p => if s.core.core.quitting then reoffer s p else pure s

/-- The rest of a chain, or as much of it as the buffer on the stack holds. -/
def dataSpan (c : Channel) (b : Pbuf) : UInt16 :=
  if b.totLen - c.offset > 256 then 256 else b.totLen - c.offset

/-- The chain that is read, when a transfer is ready for it. -/
def inputChain (s : FtpTcp) (p : Pcb) (b : Pbuf) : TcpProg FtpTcp :=
  if s.core.core.direction ≠ .upload then
    pure { s with data := { s.data with failed := true } }
  else do
    let bytes ← callTcp (.copyPartial b (dataSpan s.data b) s.data.offset)
    if bytes.length ≠ (dataSpan s.data b).toNat then
      pure { s with data := { s.data with failed := true } }
    else do
      let r ← callCore s fun core => ftpCoreUploadSpan core bytes s.now
      callTcp (.point (.accepted p (bytes.take r.1.2)))
      if r.1.2 ≠ 0 then do
        let data ← credit r.2.data (UInt16.ofNat r.1.2)
        actions { r.2 with data := data }
      else actions r.2

def reofferData (s : FtpTcp) : TcpProg FtpTcp :=
  match s.data.pcb, s.data.rx with
  | some p, none => reoffer s p
  | _, _ => pure s

/-- The end of the input, once there is nothing in front of it. -/
def inputFin (s : FtpTcp) : TcpProg FtpTcp :=
  match s.data.pcb with
  | none => pure s
  | some p =>
      if !s.data.fin ∨ s.data.rx ≠ none then pure s
      else do
        let refused ← callTcp (.refused p)
        if refused ∨ s.data.closing ∨ s.core.core.eof then pure s
        else if s.core.core.direction = .upload then do
          let r ← callCore s fun core => ftpCoreUploadEof core s.now
          actions r.2
        else pure { s with data := { s.data with fin := false } }

def inputHeld (s : FtpTcp) : TcpProg FtpTcp :=
  match s.data.pcb, s.data.rx with
  | some p, some b => inputChain s p b
  | _, _ => pure s

def inputData (s : FtpTcp) : TcpProg FtpTcp :=
  if s.data.pcb = none ∨ s.control.output ∨ !s.core.core.transferReady then pure s
  else do
    -- A chain that fails is still held, and then nothing is done below.
    let s ← inputHeld s
    let s ← reofferData s
    inputFin s

/-! ## Output -/

def writeReply (s : FtpTcp) (p : Pcb) (b : List UInt8) : TcpProg FtpTcp := do
  let room ← callTcp (.sndbuf p)
  let bytes := b.take room.toNat
  if bytes = [] then pure s
  else do
    let e ← callTcp (.write p bytes)
    if e ≠ .ok then pure s
    else
      let r := ftpCoreReplyConsume s.core bytes.length s.now
      pure { s with
        core := r.2
        control := { s.control with
          outputSince := if s.control.output then s.control.outputSince else s.now
          output := true } }

def writeControl (s : FtpTcp) : TcpProg FtpTcp :=
  match s.control.pcb with
  | none => pure s
  | some p =>
      if s.control.failed then pure s
      else do
        let s ← writeReply s p (ftpCoreReplyPeek s.core)
        actions s

def writeDownload (s : FtpTcp) (p : Pcb) (b : List UInt8) : TcpProg FtpTcp :=
  if b = [] then pure { s with core := (ftpCoreDownloadEnqueued s.core 0 s.now).2 }
  else do
    let room ← callTcp (.sndbuf p)
    let bytes := b.take room.toNat
    if bytes = [] then pure s
    else do
      let e ← callTcp (.write p bytes)
      if e ≠ .ok then pure s
      else
        let r := ftpCoreDownloadEnqueued s.core bytes.length s.now
        pure { s with
          core := r.2
          data := { s.data with
            outputSince := if s.data.output then s.data.outputSince else s.now
            output := true } }

def writeData (s : FtpTcp) : TcpProg FtpTcp :=
  match s.data.pcb with
  | none => pure s
  | some p =>
      if s.data.failed ∨ s.control.output ∨ s.core.core.direction ≠ .download ∨
          !s.core.core.transferReady ∨ s.data.closing then pure s
      else do
        let s ← writeDownload s p (ftpCoreDownloadSpan s.core)
        actions s

/-- True when what was written is submitted. -/
def flushOutput (c : Channel) (p : Pcb) : TcpProg Bool :=
  if c.output then do
    let e ← callTcp (.output p)
    pure (e == .ok)
  else pure true

/-- The shutdown masks a want of memory, and leaves a flag that it did. -/
def shutdownOnce (p : Pcb) : TcpProg Err := do
  let e ← callTcp (.shutdown p)
  let pending ← callTcp (.closePending p)
  if e = .ok ∧ pending then do
    callTcp (.clearClosePending p)
    pure .mem
  else pure e

def closed (s : FtpTcp) (side : Side) : TcpProg FtpTcp :=
  match side with
  | .data => do
      let r ← callCore s fun core => ftpCoreDataCloseResult core true s.now
      pure r.2
  | .control => runCore s ftpCoreControlClosed

def closeChannel (s : FtpTcp) (side : Side) (p : Pcb) : TcpProg FtpTcp := do
  let c := s.channel side
  let refused ← callTcp (.refused p)
  if c.rx ≠ none ∨ refused then pure s
  else do
    let e ← shutdownOnce p
    if e = .ok then do
      callbacks p side false
      callTcp (.close p)
      closed (s.put { c with pcb := none, fin := false, closing := false } side) side
    else pure (s.put { c with failed := c.failed || e != .mem } side)

def flushClose (s : FtpTcp) (side : Side) : TcpProg FtpTcp :=
  let c := s.channel side
  match c.pcb with
  | none => pure s
  | some p =>
      if c.failed then pure s
      else do
        let submitted ← flushOutput c p
        if !submitted then pure s
        else
          let s := s.put { c with output := false } side
          if !c.closing then pure s else closeChannel s side p

/-! ## The service -/

/-- Output that lwIP has not submitted for five seconds fails its channel. -/
def Channel.expire (c : Channel) (now : UInt32) : Channel :=
  if c.output ∧ now - c.outputSince ≥ 5000 then { c with failed := true } else c

def loseFailed (s : FtpTcp) : TcpProg FtpTcp :=
  if s.control.failed ∨ (s.control.pcb ≠ none ∧ s.control.fin) then do
    let s ← runCore s ftpCoreSessionLost
    let s ← discardControl s false
    let s ← discardData s false
    closePassive s
  else if s.data.failed then do
    let s ← discardData s false
    runCore s fun core => ftpCoreDataError core s.now
  else pure s

def foreground (s : FtpTcp) : TcpProg FtpTcp :=
  if s.serviceFailed then pure s
  else runCore s fun core => ftpCoreForeground core s.now

def ftpTcpService (s : FtpTcp) (time : UInt32) : TcpProg (Bool × FtpTcp) :=
  if s.servicing ∨ s.serviceFailed ∨ s.core.storage = none then
    pure (false, { s with serviceFailed := true })
  else do
    let s ← loseFailed { s with
      servicing := true
      now := time
      control := s.control.expire time
      data := s.data.expire time }
    let s ← runCore s fun core => ftpCoreTick core s.now
    let s ← actions s
    let s ← inputControl s
    let s ← writeControl s
    -- The 150 is submitted before any work on the data connection.
    let s ← flushClose s .control
    let s ← inputData s
    let s ← foreground s
    let s ← actions s
    let s ← writeData s
    let s ← flushClose s .data
    let s ← actions s
    pure (!s.serviceFailed, { s with servicing := false })

/-! ## What is called from outside -/

/-- The callback of the listener that made the connection. -/
def accepting (s : FtpTcp) (c : Side) (p : Pcb) (e : Err) : TcpProg (Err × FtpTcp) :=
  match c with
  | .control => acceptControl s p e
  | .data => acceptData s p e

inductive TcpCall where
  | start (address : Option (Fin 4 → UInt8))
  | linkDown
  | service (time : UInt32)
  | accept (c : Side) (p : Pcb) (e : Err)
  | callback (c : Callback)

def TcpCall.perform (s : FtpTcp) : TcpCall → TcpProg FtpTcp
  | .start address => do
      let r ← ftpTcpStart s address
      pure r.2
  | .linkDown => ftpTcpLinkDown s
  | .service time => do
      let r ← ftpTcpService s time
      pure r.2
  | .accept c p e => do
      callTcp (.point (.opened p))
      let r ← accepting s c p e
      pure r.2
  | .callback c => upcall s c

end EkBareMetal.Ftp

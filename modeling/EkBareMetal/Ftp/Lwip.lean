import EkBareMetal.Ftp.Tcp
import Mathlib.Logic.Function.Basic

/-!
# lwIP as the adapter sees it

A connection is the chains that have arrived on it, in order, and how many of
them the adapter has taken. The chain that is offered is the first that has not
been taken: so chains come in order, and one that was refused comes again. Of
`pbuf_copy_partial` it is known what it copies. Whatever else lwIP answers may be
anything.

Beside that the books are kept: the credit that was given, what has become of
the bytes, and which chains were taken over and freed.
-/

namespace EkBareMetal.Ftp

open Interact

/-- `discarded` is what was dropped from a session that quits, `dropped` what was
dropped from any other, and `lost` what was unread when the connection ended. -/
structure Conn where
  received : List Pbuf
  taken : Nat
  credit : Nat
  accepted : List UInt8
  discarded : List UInt8
  dropped : List UInt8
  lost : List UInt8
  deriving DecidableEq

def Conn.zero : Conn := ⟨[], 0, 0, [], [], [], []⟩

/-- The bytes that have arrived. -/
def Conn.stream (c : Conn) : List UInt8 := c.received.flatMap Pbuf.bytes

/-- The bytes of the chains that were taken over. -/
def Conn.took (c : Conn) : List UInt8 := (c.received.take c.taken).flatMap Pbuf.bytes

/-- `owned` are the chains that were taken over, of any connection. -/
structure Wire where
  conn : Pcb → Conn
  opened : List Pcb
  owned : List Pbuf
  freed : List Pbuf

namespace Wire

def start : Wire := ⟨fun _ => .zero, [], [], []⟩

def setConn (w : Wire) (p : Pcb) (c : Conn) : Wire :=
  { w with conn := Function.update w.conn p c }

def arrives (w : Wire) (p : Pcb) (b : Pbuf) : Wire :=
  w.setConn p { w.conn p with received := (w.conn p).received ++ [b] }

def opens (w : Wire) (p : Pcb) : Wire := { w with opened := p :: w.opened }

/-- The chain that is offered is the one that is due. -/
def Offers (w : Wire) (p : Pcb) (b : Pbuf) : Prop :=
  (w.conn p).received[(w.conn p).taken]? = some b

def takes (w : Wire) (p : Pcb) (b : Pbuf) : Wire :=
  { w.setConn p { w.conn p with taken := (w.conn p).taken + 1 } with owned := w.owned ++ [b] }

/-- What a callback has returned: a chain that is not refused is taken over. -/
def returns (w : Wire) (p : Pcb) (b : Option Pbuf) (e : Err) : Wire :=
  match b with
  | some b => if e = .ok then w.takes p b else w
  | none => w

def credits (w : Wire) (p : Pcb) (n : Nat) : Wire :=
  w.setConn p { w.conn p with credit := (w.conn p).credit + n }

def accepts (w : Wire) (p : Pcb) (bytes : List UInt8) : Wire :=
  w.setConn p { w.conn p with accepted := (w.conn p).accepted ++ bytes }

def drops (w : Wire) (p : Pcb) (bytes : List UInt8) (quitting : Bool) : Wire :=
  if quitting then
    w.setConn p { w.conn p with discarded := (w.conn p).discarded ++ bytes }
  else w.setConn p { w.conn p with dropped := (w.conn p).dropped ++ bytes }

def loses (w : Wire) (p : Pcb) (bytes : List UInt8) : Wire :=
  w.setConn p { w.conn p with lost := (w.conn p).lost ++ bytes }

def frees (w : Wire) (b : List Pbuf) : Wire := { w with freed := w.freed ++ b }

def after (w : Wire) : TcpOp → Wire
  | .recved (some p) n => w.credits p n.toNat
  | .free b => w.frees [b]
  | .point (.opened p) => w.opens p
  | .point (.returns p b e) => w.returns p b e
  | .point (.accepted p bytes) => w.accepts p bytes
  | .point (.dropped p bytes quitting) => w.drops p bytes quitting
  | .point (.lost p bytes) => w.loses p bytes
  | _ => w

/-- What lwIP may answer, and where it may call back. -/
def Answers (w : Wire) : (op : TcpOp) → TcpSig.Ans op → Prop
  | .copyPartial b n offset, bytes => bytes = (b.bytes.drop offset.toNat).take n.toNat
  | .point (.opened p), _ => p ∉ w.opened
  | .point (.offers p b), _ => ∀ x, b = some x → w.Offers p x
  | _, _ => True

end Wire

def lwip : Handler TcpSig Wire where
  step op w r w' := w.Answers op r ∧ w' = w.after op
  cut _ _ _ := False

/-- The adapter meets lwIP, and bindings that may answer anything. -/
abbrev stack : Handler (TcpSig.sum FtpSig) Wire := lwip.sum .any

/-! ## Runs -/

/-- Before the first call, when the core is bound. -/
def FtpTcp.start (storage : Option FtpStorage) (operation : Option FtpOperation) : FtpTcp where
  control := .zero
  data := .zero
  listener := none
  passive := none
  localAddress := fun _ => 0
  now := 0
  servicing := false
  serviceFailed := false
  core := ⟨storage, operation, .zero⟩

/-- What the adapter holds unread of a connection. -/
def FtpTcp.unread (s : FtpTcp) (p : Pcb) : List UInt8 :=
  if s.control.pcb = some p then s.control.rest
  else if s.data.pcb = some p then s.data.rest
  else []

/-- A chain arrives from the other end, or the adapter is called. -/
inductive TcpEvent where
  | arrives (p : Pcb) (b : Pbuf)
  | call (c : TcpCall)

def TcpStep (x : FtpTcp × Wire) : TcpEvent → FtpTcp × Wire → Prop
  | .arrives p b, x' => x' = (x.1, x.2.arrives p b)
  | .call c, x' => Exec stack (c.perform x.1) x.2 (some x'.1) x'.2

end EkBareMetal.Ftp

import EkBareMetal.Lib.Beside
import EkBareMetal.Lib.Memory

/-!
# The Ethernet driver

`ethernet.c` reaches the MAC through its registers and the caller through a
buffer. Both FIFOs are one register, `MAC_DATA`: the read of a word takes it off
the receive FIFO, and the write of a word puts it on the transmit FIFO. A frame
is in them behind the two bytes of its length, so no byte of it is where it is in
the caller's buffer.

The buffers are addresses into one memory. `*length` is not in it: what a call
leaves there is returned beside the result.
-/

namespace EkBareMetal.Net

open Interact

@[simp] abbrev ethernetFrameHeaderBytes : Nat := 14
@[simp] abbrev ethernetFrameMaxBytes : Nat := 1514
@[simp] abbrev ethernetFcsBytes : Nat := 4
@[simp] abbrev ethernetFifoLengthBytes : Nat := 2
@[simp] abbrev ethernetFifoBytes : Nat := 2048
@[simp] abbrev ethernetMinReceivedBytes : Nat := 60

@[simp] abbrev macRxEvent : UInt32 := (1 : UInt32) <<< 0
@[simp] abbrev macTxError : UInt32 := (1 : UInt32) <<< 1
@[simp] abbrev macTxComplete : UInt32 := (1 : UInt32) <<< 2
@[simp] abbrev macRxOverrun : UInt32 := (1 : UInt32) <<< 3
@[simp] abbrev macRxError : UInt32 := (1 : UInt32) <<< 4
@[simp] abbrev macRxEnable : UInt32 := (1 : UInt32) <<< 0
@[simp] abbrev macRxReset : UInt32 := (1 : UInt32) <<< 4
@[simp] abbrev macNewTx : UInt32 := (1 : UInt32) <<< 0

/-- The address no pointer to an object has. -/
abbrev null : Nat := 0

inductive EthernetResult where
  | ok
  | empty
  | busy
  | notReady
  | invalidArgument
  | timeout
  | dropped
  deriving DecidableEq

/-- The registers that are read or written here. -/
inductive EthernetRegister where
  | status
  | receiveControl
  | data
  | packetCount
  | transmitRequest
  deriving DecidableEq

structure EthernetStats where
  txSubmitted : UInt32
  txCompleted : UInt32
  txErrorEvents : UInt32
  rxFrames : UInt32
  rxDropped : UInt32
  rxErrorEvents : UInt32
  rxOverrunEvents : UInt32
  rxFifoResets : UInt32
  deriving DecidableEq

/-- The statics of the file, and the memory that the callers' buffers are in. -/
structure EthernetObjects where
  initialized : Bool
  macReady : Bool
  counters : EthernetStats
  memory : ByteMem

inductive MacOp where
  | read (offset : EthernetRegister)
  | write (offset : EthernetRegister) (value : UInt32)
  deriving DecidableEq

abbrev MacSig : Sig where
  Op := MacOp
  Ans
    | .read _ => UInt32
    | .write _ _ => Unit

abbrev EthernetProg (α : Type) := Prog (ObjSig EthernetObjects MacSig) α

/-! ## Registers -/

def macRead (offset : EthernetRegister) : EthernetProg UInt32 :=
  Prog.ask (S := ObjSig EthernetObjects MacSig) (.outside (.read offset))

def macWrite (offset : EthernetRegister) (value : UInt32) : EthernetProg Unit :=
  Prog.ask (S := ObjSig EthernetObjects MacSig) (.outside (.write offset value))

def macUpdate (offset : EthernetRegister) (mask value : UInt32) : EthernetProg Unit := do
  let current ← macRead offset
  macWrite offset (current &&& ~~~mask ||| value)

def count (f : EthernetStats → EthernetStats) : EthernetProg Unit :=
  Prog.modifyObj fun s => { s with counters := f s.counters }

/-- A bit of the events as a number. -/
def bit (events mask : UInt32) : UInt32 := if events &&& mask ≠ 0 then 1 else 0

def resetReceiveFifo : EthernetProg Unit := do
  macUpdate .receiveControl macRxEnable 0
  macUpdate .receiveControl macRxReset macRxReset
  let _ ← macRead .receiveControl
  let s ← Prog.loadObj
  if s.macReady then macUpdate .receiveControl macRxEnable macRxEnable else pure ()
  count fun c => { c with rxFifoResets := c.rxFifoResets + 1 }

def collectEvents : EthernetProg Unit := do
  let events ← macRead .status
  count fun c => { c with
    txCompleted := c.txCompleted + bit events macTxComplete
    rxErrorEvents := c.rxErrorEvents + bit events macRxError
    rxOverrunEvents := c.rxOverrunEvents + bit events macRxOverrun }
  let acknowledge := events &&& (macTxComplete ||| macRxError ||| macRxOverrun)
  let request ← macRead .transmitRequest
  -- acknowledging a transmit error resets the write pointer, never during a transmission
  if request &&& macNewTx = 0 then do
    count fun c => { c with txErrorEvents := c.txErrorEvents + bit events macTxError }
    macWrite .status (acknowledge ||| events &&& macTxError)
  else macWrite .status acknowledge

/-- The offsets of a loop that goes up to `n` by four. -/
def fifoOffsets (n : Nat) : List Nat := (List.range ((n + 3) / 4)).map (4 * ·)

/-! ## Transmission -/

/-- The byte of the FIFO at a position of the frame's stream. -/
def txByte (memory : ByteMem) (frame length position : Nat) : UInt8 :=
  if position < ethernetFifoLengthBytes then
    UInt8.ofNat ((length - ethernetFrameHeaderBytes) >>> (position * 8))
  else if position - ethernetFifoLengthBytes < length then
    memory (frame + (position - ethernetFifoLengthBytes))
  else 0

def txWord (memory : ByteMem) (frame length fifoOffset : Nat) : UInt32 :=
  (List.range 4).foldl (fun word byte =>
    word ||| (txByte memory frame length (fifoOffset + byte)).toUInt32 <<< UInt32.ofNat (byte * 8)) 0

def sendWords (frame length : Nat) : List Nat → EthernetProg Unit
  | [] => pure ()
  | offset :: offsets => do
      let s ← Prog.loadObj
      macWrite .data (txWord s.memory frame length offset)
      sendWords frame length offsets

def ethernetTryTransmit (frame length : Nat) : EthernetProg EthernetResult := do
  if frame = null ∨ length < ethernetFrameHeaderBytes ∨ length > ethernetFrameMaxBytes then
    pure .invalidArgument
  else do
    let s ← Prog.loadObj
    if !s.initialized || !s.macReady then pure .notReady
    else do
      let request ← macRead .transmitRequest
      if request &&& macNewTx ≠ 0 then pure .busy
      else do
        collectEvents
        sendWords frame length (fifoOffsets (length + ethernetFifoLengthBytes))
        macUpdate .transmitRequest macNewTx macNewTx
        count fun c => { c with txSubmitted := c.txSubmitted + 1 }
        pure .ok

/-! ## Reception -/

/-- One byte of a word, if it is one of the frame. -/
def storeByte (frame frameLength offset : Nat) (word : UInt32) (memory : ByteMem) (byte : Nat) :
    ByteMem :=
  let position := offset + byte
  if ethernetFifoLengthBytes ≤ position ∧ position - ethernetFifoLengthBytes < frameLength then
    memory.write (frame + (position - ethernetFifoLengthBytes))
      [(word >>> UInt32.ofNat (byte * 8)).toUInt8]
  else memory

def storeWord (accept : Bool) (frame frameLength offset : Nat) (word : UInt32)
    (memory : ByteMem) : ByteMem :=
  if accept then (List.range 4).foldl (storeByte frame frameLength offset word) memory
  else memory

/-- The words of a frame, of which the first one has been read. -/
def drainWords (accept : Bool) (frame frameLength : Nat) : List Nat → UInt32 → EthernetProg Unit
  | [], _ => pure ()
  | offset :: offsets, word => do
      let word ← if offset ≠ 0 then macRead .data else pure word
      Prog.modifyObj fun s =>
        { s with memory := storeWord accept frame frameLength offset word s.memory }
      drainWords accept frame frameLength offsets word

/-- What of the frame is behind its first word, and the result of the call. -/
def readBody (frame capacity fifoLength : Nat) (word : UInt32) :
    EthernetProg (EthernetResult × Nat) := do
  let frameLength := fifoLength - ethernetFifoLengthBytes - ethernetFcsBytes
  let accept := decide (frame ≠ null ∧ ethernetMinReceivedBytes ≤ frameLength ∧
    frameLength ≤ ethernetFrameMaxBytes ∧ frameLength ≤ capacity)
  drainWords accept frame frameLength (fifoOffsets fifoLength) word
  macWrite .status macRxEvent
  if !accept then do
    count fun c => { c with rxDropped := c.rxDropped + 1 }
    pure (.dropped, 0)
  else do
    count fun c => { c with rxFrames := c.rxFrames + 1 }
    pure (.ok, frameLength)

/-- With the value of `*length`, unless it is a null pointer. -/
def ethernetReadFrame (frame capacity length : Nat) :
    EthernetProg (EthernetResult × Option Nat) := do
  if length = null then pure (.invalidArgument, none)
  else if frame = null ∧ capacity ≠ 0 then pure (.invalidArgument, some 0)
  else do
    let s ← Prog.loadObj
    if !s.initialized then pure (.notReady, some 0)
    else do
      let packets ← macRead .packetCount
      if packets &&& 0x3f = 0 then pure (.empty, some 0)
      else do
        let word ← macRead .data
        -- the length includes its own two bytes and the FCS
        let fifoLength := (word &&& 0xffff).toNat
        if fifoLength < ethernetFifoLengthBytes + ethernetFcsBytes ∨
            fifoLength > ethernetFifoBytes then do
          resetReceiveFifo
          count fun c => { c with rxDropped := c.rxDropped + 1 }
          pure (.dropped, some 0)
        else do
          let (result, frameLength) ← readBody frame capacity fifoLength word
          pure (result, some frameLength)

end EkBareMetal.Net

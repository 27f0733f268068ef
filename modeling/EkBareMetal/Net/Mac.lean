import EkBareMetal.Net.Ethernet

/-!
# The MAC as the driver sees it

The receive FIFO is the frames that are queued, word by word, behind what is left
of the frame that is being read. The packet count is only trusted between two
frames. Whatever else is read may be anything, and a reset of the receiver may
leave anything in the FIFO.
-/

namespace EkBareMetal.Net

open Words Interact

/-- The two bytes of a length, low byte first. -/
def le16 (n : Nat) : List UInt8 := [UInt8.ofNat n, UInt8.ofNat (n / 256)]

/-- A frame in the receive FIFO: its length, its bytes, the FCS, and what fills the last word. -/
structure QueuedFrame where
  bytes : List UInt8
  fcs : List UInt8
  filler : List UInt8
  words : List UInt32
  stream : words.flatMap bytes32 =
    le16 (ethernetFifoLengthBytes + bytes.length + ethernetFcsBytes) ++ (bytes ++ (fcs ++ filler))
  fcs_length : fcs.length = ethernetFcsBytes
  filler_length : filler.length < 4
  bound : ethernetFifoLengthBytes + bytes.length + ethernetFcsBytes ≤ ethernetFifoBytes

/-- The length in front of the frame. -/
def QueuedFrame.fifoLength (f : QueuedFrame) : Nat :=
  ethernetFifoLengthBytes + f.bytes.length + ethernetFcsBytes

structure Mac where
  /-- What is left of the frame that is being read. -/
  reading : List UInt32
  queue : List QueuedFrame
  /-- How many words have been read. -/
  taken : Nat
  /-- The words that have been written. -/
  written : List UInt32

/-- A read of `MAC_DATA`. Nobody knows what an empty FIFO is read as. -/
def Mac.Popped (m : Mac) (word : UInt32) (m' : Mac) : Prop :=
  match m.reading, m.queue with
  | w :: rest, _ => word = w ∧ m' = { m with reading := rest, taken := m.taken + 1 }
  | [], f :: queue => ∃ rest, f.words = word :: rest ∧
      m' = { m with reading := rest, queue := queue, taken := m.taken + 1 }
  | [], [] => m' = { m with taken := m.taken + 1 }

def macHandler : Handler MacSig Mac where
  step
    | .read .data, m, word, m' => m.Popped word m'
    | .read .packetCount, m, packets, m' =>
        m' = m ∧ (m.reading = [] → (packets &&& 0x3f ≠ 0 ↔ m.queue ≠ []))
    | .read _, m, _, m' => m' = m
    | .write .data word, m, _, m' => m' = { m with written := m.written ++ [word] }
    | .write .receiveControl _, m, _, m' =>
        ∃ reading queue, m' = { m with reading := reading, queue := queue }
    | .write _ _, m, _, m' => m' = m
  cut _ _ _ := False

/-- The driver and the device. -/
abbrev Station : Type := EthernetObjects × Mac

abbrev station : Handler (ObjSig EthernetObjects MacSig) Station :=
  macHandler.beside EthernetObjects

/-- Arguments that `ethernet_read_frame` does not refuse. -/
structure ReadArguments where
  frame : Nat
  capacity : Nat
  length : Nat
  frame_null : frame = null → capacity = 0
  length_null : length ≠ null

/-- A call, with what came of it. -/
structure ReadCall where
  arguments : ReadArguments
  result : EthernetResult
  length : Option Nat

def ReadStep (s : Station) (c : ReadCall) (s' : Station) : Prop :=
  Exec station (ethernetReadFrame c.arguments.frame c.arguments.capacity c.arguments.length) s
    (some (c.result, c.length)) s'

end EkBareMetal.Net

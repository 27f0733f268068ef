import EkBareMetal.Ftp.RamFile
import EkBareMetal.Lib.Memory

/-!
# The RAM file where it lies

A `RamFile` knows the bytes of its banks and not where they are. `ram_file.c`
has pointers: `ram_file_init` takes an object, two buffers and a basename that
the caller owns and checks that none of them lies in another, and an append
looks at where its bytes come from before it copies them. Here both are
addresses into one memory. The object's fields are a record, so what the memory
holds at the object's own addresses is never asked for.

What the C implementation decides is a `Target`: how far addresses and sizes
go, and how large the object is.
-/

namespace EkBareMetal.Ftp

/-- The address no pointer to an object has. -/
abbrev null : Nat := 0

structure Target where
  uintptrMax : Nat
  sizeMax : Nat
  uintMax : Nat
  /-- `sizeof(ram_file_t)` -/
  objectSize : Nat
  objectSize_pos : 0 < objectSize

/-- The addresses from `start` up to, but not including, `stop`. -/
structure RamRange where
  start : Nat
  stop : Nat

def rangeMake (target : Target) (pointer : Nat) (length : Nat) : Option RamRange :=
  if length > target.uintptrMax - pointer then none
  else some ⟨pointer, pointer + length⟩

def rangesOverlap (a b : RamRange) : Bool :=
  decide (a.start < b.stop) && decide (b.start < a.stop)

def nameCharacter (byte : UInt8) : Bool :=
  (decide (0x41 ≤ byte) && decide (byte ≤ 0x5a)) ||
  (decide (0x61 ≤ byte) && decide (byte ≤ 0x7a)) ||
  (decide (0x30 ≤ byte) && decide (byte ≤ 0x39)) ||
  byte == 0x2e || byte == 0x5f || byte == 0x2d

/-- `context` is the address of the object itself. -/
structure RamObject where
  context : Nat
  capacity : Nat
  buffer0 : Nat
  buffer1 : Nat
  basename : Nat
  committedLength : Nat
  stagingLength : Nat
  committed : Bool
  present : Bool
  uploading : Bool

def RamObject.buffer (file : RamObject) (i : Bool) : Nat :=
  if i then file.buffer1 else file.buffer0

structure RamView where
  data : Nat
  length : Nat
  present : Bool
  deriving DecidableEq

/-- The object and the memory it lies in. -/
structure RamWorld where
  object : RamObject
  memory : ByteMem

/-! ## The initializer -/

/-- The scan of the basename from the index `nameLength` on, over at most `n` more bytes:
its length and the range with the terminator. -/
def scanName (target : Target) (memory : ByteMem) (basename : Nat) (nameLength : Nat) :
    Nat → Option (Nat × RamRange)
  | 0 => none
  | n + 1 =>
      match rangeMake target basename (nameLength + 1) with
      | none => none
      | some range =>
          if memory (basename + nameLength) = 0 then some (nameLength, range)
          else if !nameCharacter (memory (basename + nameLength)) then none
          else scanName target memory basename (nameLength + 1) n

def anyOverlap : List RamRange → Bool
  | [] => false
  | range :: ranges => ranges.any (rangesOverlap range) || anyOverlap ranges

/-- A refusal is `none`; it has written nothing. -/
def ramFileInit (target : Target) (memory : ByteMem) (file bufferA bufferB : Nat)
    (capacity : Nat) (basename : Nat) : Option RamObject :=
  if file = null ∨ bufferA = null ∨ bufferB = null ∨ basename = null ∨ capacity = 0 then none
  else if target.sizeMax > target.uintMax ∧ capacity > target.uintMax then none
  else if target.sizeMax > 0xffffffff ∧ capacity > 0xffffffff then none
  else
    match rangeMake target file target.objectSize, rangeMake target bufferA capacity,
      rangeMake target bufferB capacity,
      scanName target memory basename 0 (ftpStorageNameMax + 1) with
    | some object, some a, some b, some (nameLength, name) =>
        if nameLength = 0 ∨ nameLength > ftpStorageNameMax ∨
            (nameLength = 1 ∧ memory basename = 0x2e) ∨
            (nameLength = 2 ∧ memory basename = 0x2e ∧ memory (basename + 1) = 0x2e) then
          none
        else if anyOverlap [object, a, b, name] then none
        else some {
          context := file
          capacity := capacity
          buffer0 := bufferA
          buffer1 := bufferB
          basename := basename
          committedLength := 0
          stagingLength := 0
          committed := false
          present := false
          uploading := false }
    | _, _, _, _ => none

/-! ## The operations -/

/-- The index of the terminator, looked for from `n` on in at most `k` bytes. -/
def basenameLength (memory : ByteMem) (basename : Nat) (n : Nat) : Nat → Nat
  | 0 => n
  | k + 1 =>
      if memory (basename + n) = 0 then n else basenameLength memory basename (n + 1) k

namespace RamWorld

variable (target : Target) (w : RamWorld)

def matchesName (name : Nat) (length : Nat) : Bool :=
  let basename := w.object.basename
  if name = null ∨ length = 0 ∨ length > ftpStorageNameMax + 1 then false
  else
    let (name, length) :=
      if w.memory name = 0x2f then (name + 1, length - 1) else (name, length)
    length == basenameLength w.memory basename 0 ftpStorageNameMax &&
      w.memory.read name length == w.memory.read basename length

def clear : RamWorld :=
  { w with object := { w.object with
      committedLength := 0
      stagingLength := 0
      present := false
      uploading := false } }

def inspect : RamView where
  data := if w.object.present then w.object.buffer w.object.committed else null
  length := w.object.committedLength
  present := w.object.present

def begin : FtpStorageResult × RamWorld :=
  if w.object.uploading then (.invalidState, w)
  else (.ok, { w with object := { w.object with stagingLength := 0, uploading := true } })

/-- The source lies clear of a range that the file owns. -/
def clearOf (source : RamRange) (pointer : Nat) (length : Nat) : Bool :=
  match rangeMake target pointer length with
  | none => false
  | some owned => !rangesOverlap source owned

/-- The checks of an append on where its bytes lie. -/
def sourceFits (bytes : Nat) (length : Nat) : Bool :=
  if bytes = null then false
  else
    match rangeMake target bytes length with
    | none => false
    | some source =>
        clearOf target source w.object.buffer0 w.object.capacity &&
        clearOf target source w.object.buffer1 w.object.capacity &&
        clearOf target source w.object.context target.objectSize

def append (bytes : Nat) (length : Nat) : FtpStorageResult × RamWorld :=
  if !w.object.uploading then (.invalidState, w)
  else if length = 0 then (.ok, w)
  else if !w.sourceFits target bytes length then (.invalidArgument, w)
  else if length > w.object.capacity - w.object.stagingLength then (.capacity, w)
  else (.ok, {
    memory := w.memory.write (w.object.buffer (!w.object.committed) + w.object.stagingLength)
      (w.memory.read bytes length)
    object := { w.object with stagingLength := w.object.stagingLength + length } })

def abortUpload : RamWorld :=
  { w with object := { w.object with stagingLength := 0, uploading := false } }

def commit : FtpStorageResult × RamWorld :=
  if !w.object.uploading then (.invalidState, w)
  else (.ok, { w with object := { w.object with
    committed := !w.object.committed
    committedLength := w.object.stagingLength
    present := true
    stagingLength := 0
    uploading := false } })

end RamWorld

inductive RamCall where
  | matchesName (name : Nat) (length : Nat)
  | clear
  | inspect
  | begin
  | append (bytes : Nat) (length : Nat)
  | abort
  | commit
  deriving DecidableEq

inductive RamAnswer where
  | matched (found : Bool)
  | done
  | view (view : RamView)
  | result (result : FtpStorageResult)
  deriving DecidableEq

def RamWorld.perform (target : Target) (w : RamWorld) : RamCall → RamAnswer × RamWorld
  | .matchesName name length => (.matched (w.matchesName name length), w)
  | .clear => (.done, w.clear)
  | .inspect => (.view w.inspect, w)
  | .begin => (.result w.begin.1, w.begin.2)
  | .append bytes length =>
      (.result (w.append target bytes length).1, (w.append target bytes length).2)
  | .abort => (.done, w.abortUpload)
  | .commit => (.result w.commit.1, w.commit.2)

/-- The bytes that the file owns or borrows: its two banks and its basename with the
terminator. -/
def RamObject.Owns (file : RamObject) (nameLength : Nat) (address : Nat) : Prop :=
  (file.buffer0 ≤ address ∧ address < file.buffer0 + file.capacity) ∨
  (file.buffer1 ≤ address ∧ address < file.buffer1 + file.capacity) ∨
  (file.basename ≤ address ∧ address < file.basename + nameLength + 1)

inductive RamEvent where
  | call (call : RamCall) (answer : RamAnswer)
  | outside

/-- A call, or a write of the rest of the program, which keeps out of what is the file's. -/
inductive RamStep (target : Target) (nameLength : Nat) :
    RamWorld → RamEvent → RamWorld → Prop where
  | call (w : RamWorld) (call : RamCall) :
      RamStep target nameLength w (.call call (w.perform target call).1)
        (w.perform target call).2
  | outside (w : RamWorld) (memory : ByteMem)
      (h : ByteMem.Inside w.memory memory fun x => ¬ w.object.Owns nameLength x) :
      RamStep target nameLength w .outside { w with memory := memory }

end EkBareMetal.Ftp

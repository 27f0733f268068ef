import EkBareMetal.Lib.Interact
import EkBareMetal.Lib.Words

/-!
# One file in RAM

The storage contract of `ftp_storage.h`, a signature of seven calls, and
`ram_file.c` behind it: two banks of `capacity` bytes, one committed and one
that an upload fills. A commit swaps their roles and copies nothing.

A view is the bytes behind its pointer. Whether the bytes a caller appends lie
in the object or its banks cannot be told from the bytes, so the overlap check
is an argument here.
-/

namespace EkBareMetal.Ftp

open Words Interact

/-- The bytes of a string without its terminator. -/
def ascii (s : String) : List UInt8 := s.toList.map fun c => UInt8.ofNat c.toNat

abbrev ftpStorageNameMax : Nat := 63

inductive FtpStorageResult where
  | ok
  | capacity
  | error
  | invalidArgument
  | invalidState
  deriving DecidableEq

structure FtpStorageView where
  data : List UInt8
  present : Bool
  deriving DecidableEq

def FtpStorageView.length (v : FtpStorageView) : Nat := v.data.length

def FtpStorageView.none : FtpStorageView := ⟨[], false⟩

inductive StorageOp where
  | matchesName (name : List UInt8)
  | clear
  | inspect
  | begin
  | append (bytes : List UInt8)
  | abort
  | commit
  deriving DecidableEq

abbrev StorageSig : Sig where
  Op := StorageOp
  Ans
    | .matchesName _ => Bool
    | .clear => Unit
    | .inspect => FtpStorageView
    | .begin => FtpStorageResult
    | .append _ => FtpStorageResult
    | .abort => Unit
    | .commit => FtpStorageResult

/-- The banks are `buffers[0]` and `buffers[1]`; `committed` is the index of
the committed one, and the basename its bytes without the terminator. -/
structure RamFile where
  capacity : Nat
  bank0 : List UInt8
  bank1 : List UInt8
  basename : List UInt8
  committedLength : Nat
  stagingLength : Nat
  committed : Bool
  present : Bool
  uploading : Bool
  deriving DecidableEq

namespace RamFile

def bank (f : RamFile) (i : Bool) : List UInt8 := if i then f.bank1 else f.bank0

def setBank (f : RamFile) (i : Bool) (bytes : List UInt8) : RamFile :=
  if i then { f with bank1 := bytes } else { f with bank0 := bytes }

def init (bank0 bank1 : List UInt8) (capacity : Nat) (basename : List UInt8) :
    RamFile where
  capacity := capacity
  bank0 := bank0
  bank1 := bank1
  basename := basename
  committedLength := 0
  stagingLength := 0
  committed := false
  present := false
  uploading := false

def matchesName (f : RamFile) (name : List UInt8) : Bool :=
  if name.length = 0 ∨ name.length > ftpStorageNameMax + 1 then false
  else (if name.head? = some 0x2f then name.drop 1 else name) == f.basename

def clear (f : RamFile) : RamFile :=
  { f with
    committedLength := 0
    stagingLength := 0
    present := false
    uploading := false }

/-- An absent file has committed length 0, so its view is empty. -/
def inspect (f : RamFile) : FtpStorageView where
  data := if f.present then (f.bank f.committed).take f.committedLength else []
  present := f.present

def begin (f : RamFile) : FtpStorageResult × RamFile :=
  if f.uploading then (.invalidState, f)
  else (.ok, { f with stagingLength := 0, uploading := true })

def append (f : RamFile) (overlaps : Bool) (bytes : List UInt8) :
    FtpStorageResult × RamFile :=
  if !f.uploading then (.invalidState, f)
  else if bytes.length = 0 then (.ok, f)
  -- Even the old committed view is forbidden as a source.
  else if overlaps then (.invalidArgument, f)
  else if bytes.length > f.capacity - f.stagingLength then (.capacity, f)
  else
    let f' := f.setBank (!f.committed)
      (patch (f.bank !f.committed) f.stagingLength bytes)
    (.ok, { f' with stagingLength := f.stagingLength + bytes.length })

def abortUpload (f : RamFile) : RamFile :=
  { f with stagingLength := 0, uploading := false }

def commit (f : RamFile) : FtpStorageResult × RamFile :=
  if !f.uploading then (.invalidState, f)
  else (.ok, { f with
    committed := !f.committed
    committedLength := f.stagingLength
    present := true
    stagingLength := 0
    uploading := false })

end RamFile

/-- The operations of the file, answered as the source does. -/
def ramOps : Handler StorageSig RamFile where
  step
    | .matchesName name, f, answer, f' => answer = f.matchesName name ∧ f' = f
    | .clear, f, _, f' => f' = f.clear
    | .inspect, f, view, f' => view = f.inspect ∧ f' = f
    | .begin, f, result, f' => (result, f') = f.begin
    | .append bytes, f, result, f' => ∃ overlaps, (result, f') = f.append overlaps bytes
    | .abort, f, _, f' => f' = f.abortUpload
    | .commit, f, result, f' => (result, f') = f.commit
  cut _ _ _ := False

end EkBareMetal.Ftp

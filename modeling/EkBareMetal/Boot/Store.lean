import EkBareMetal.Boot.Format
import EkBareMetal.Lib.Interact

/-!
# The metadata store

`boot_store.c`: which of the two pages is authoritative, and how the other one
is replaced so that the authority moves only with the last word. The three
callbacks of the adapter are the requests of `StoreSig`. A read that returned
an error answers `none`, and whatever it left in the buffer is never looked
at; an erase or a program answers whether it returned zero.
-/

namespace EkBareMetal.Boot

open Words Interact

inductive BootStoreResult where
  | ok
  | argument
  | invalidRecord
  | noRecord
  | conflict
  | exhausted
  | sequence
  | stale
  | io
  | verify
  | uncertain
  deriving DecidableEq, Repr

inductive StoreOp where
  | read (address : UInt32) (size : Nat)
  | erasePage (address : UInt32)
  | programWord (address word : UInt32)
  deriving DecidableEq

abbrev StoreSig : Sig where
  Op := StoreOp
  Ans
    | .read _ size => Option (Bytes size)
    | .erasePage _ => Bool
    | .programWord _ _ => Bool

abbrev storeRead (address : UInt32) (size : Nat) :
    Prog StoreSig (Option (Bytes size)) :=
  Prog.ask (S := StoreSig) (.read address size)

abbrev storeErase (address : UInt32) : Prog StoreSig Bool :=
  Prog.ask (S := StoreSig) (.erasePage address)

abbrev storeProgram (address word : UInt32) : Prog StoreSig Bool :=
  Prog.ask (S := StoreSig) (.programWord address word)

structure BootStoreSnapshot where
  record : BootMetadata
  page : UInt32
  deriving DecidableEq

def pageAddress (page : UInt32) : UInt32 :=
  if page = 0 then bootMetadataPage0 else bootMetadataPage1

/-- The selection of `boot_store_load`, after the two reads. -/
def storeSelect (page0 page1 : List UInt8) :
    Except BootStoreResult BootStoreSnapshot :=
  match bootMetadataSelect page0 page1 with
  | .error .errorNoRecord => .error .noRecord
  | .error .errorConflict => .error .conflict
  | .error _ => .error .invalidRecord
  | .ok (record, page) => .ok ⟨record, page⟩

def bootStoreLoad : Prog StoreSig (Except BootStoreResult BootStoreSnapshot) := do
  match ← storeRead bootMetadataPage0 bootMetadataBytes with
  | none => pure (.error .io)
  | some page0 =>
      match ← storeRead bootMetadataPage1 bootMetadataBytes with
      | none => pure (.error .io)
      | some page1 => pure (storeSelect page0.val page1.val)

/-- The staging loop, at byte `i` with `n` words to go. -/
def stageWords (destination : UInt32) (wanted : List UInt8) :
    Nat → Nat → Prog StoreSig Bool
  | 0, _ => pure true
  | n + 1, i => do
      let done ← storeProgram (destination + UInt32.ofNat i)
        (get32 (slice wanted i 4))
      if !done then pure false
      else stageWords destination wanted n (i + bootProgramBytes)

@[simp] abbrev stagedWords : Nat := 41

/-- From the commit word on, a failure no longer says which page is
authoritative. -/
def commitRecord (expected : BootStoreSnapshot) (desired : BootMetadata)
    (destination : UInt32) :
    Prog StoreSig (Except BootStoreResult BootStoreSnapshot) := do
  let done ← storeProgram (destination + 168 - 4) bootCommitValid
  if !done then pure (.error .uncertain) else do
  match ← storeRead destination bootMetadataBytes with
  | none => pure (.error .uncertain)
  | some readback =>
      if metadataWire desired bootCommitValid ≠ readback.val then
        pure (.error .uncertain)
      else do
      match ← bootStoreLoad with
      | .error _ => pure (.error .uncertain)
      | .ok snapshot =>
          if snapshot.page ≠ 1 - expected.page then pure (.error .uncertain)
          else if bootMetadataEncode snapshot.record bootCommitValid
              bootMetadataBytes ≠ .ok (metadataWire desired bootCommitValid) then
            pure (.error .uncertain)
          else pure (.ok snapshot)

/-- Erase the destination, stage everything but the commit word, and look at
what is there. -/
def stageRecord (expected : BootStoreSnapshot) (desired : BootMetadata)
    (destination : UInt32) :
    Prog StoreSig (Except BootStoreResult BootStoreSnapshot) := do
  let erased ← storeErase destination
  if !erased then pure (.error .io) else do
  match ← storeRead destination bootEraseBytes with
  | none => pure (.error .io)
  | some blank =>
      if !blank.val.all (· == 0xff) then pure (.error .verify) else do
      let staged ← stageWords destination
        (metadataWire desired bootCommitErased) stagedWords 0
      if !staged then pure (.error .io) else do
      match ← storeRead destination bootMetadataBytes with
      | none => pure (.error .io)
      | some readback =>
          if metadataWire desired bootCommitErased ≠ readback.val then
            pure (.error .verify)
          else commitRecord expected desired destination

def bootStoreReplace (expected : BootStoreSnapshot) (desired : BootMetadata) :
    Prog StoreSig (Except BootStoreResult BootStoreSnapshot) :=
  if expected.page > 1 then pure (.error .argument)
  else match bootMetadataEncode expected.record bootCommitValid bootMetadataBytes,
      bootMetadataEncode desired bootCommitErased bootMetadataBytes with
  | .error _, _ => pure (.error .invalidRecord)
  | _, .error _ => pure (.error .invalidRecord)
  | .ok old, .ok _ =>
      match bootMetadataNextSequence expected.record with
      | .error _ => pure (.error .exhausted)
      | .ok next =>
          if desired.sequence ≠ next then pure (.error .sequence) else do
          match ← bootStoreLoad with
          | .error e => pure (.error e)
          | .ok snapshot =>
              match bootMetadataEncode snapshot.record bootCommitValid
                  bootMetadataBytes with
              | .error _ => pure (.error .invalidRecord)
              | .ok current =>
                  if snapshot.page ≠ expected.page ∨ old ≠ current then
                    pure (.error .stale)
                  else
                    let destination := pageAddress (1 - snapshot.page)
                    stageRecord expected desired destination

end EkBareMetal.Boot

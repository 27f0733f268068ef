import EkBareMetal.Boot.Diag
import EkBareMetal.Boot.Lifecycle
import EkBareMetal.Boot.Store

/-!
# A coherent snapshot

`boot_snapshot.c`: the diagnostic record, the authoritative metadata and the
image that is running, all taken while the diagnostic owner is held. The
capture is a callback of the publication: `SnapshotSig` has the words of the
diagnostic block, the store's callbacks and the source of the running image,
and the capture request of the publication is served by `capture`.
-/

namespace EkBareMetal.Boot

open Interact

structure BootSnapshot where
  diagnostic : BootDiag
  diagnosticContext : BootDiagContext
  metadata : BootStoreSnapshot
  running : BootVerifiedImage
  deriving DecidableEq

inductive BootSnapshotResult where
  | ok
  | argument
  | publication
  | metadata
  | running
  | identity
  deriving DecidableEq, Repr

/-- The callbacks behind a snapshot. A running source that returns anything
but zero answers `none`. -/
inductive SnapshotOp where
  | readWord (i : Fin 16)
  | writeWord (i : Fin 16) (value : UInt32)
  | barrier
  | store (op : StoreOp)
  | running
  deriving DecidableEq

abbrev SnapshotSig : Sig where
  Op := SnapshotOp
  Ans
    | .readWord _ => Option UInt32
    | .writeWord _ _ => Bool
    | .barrier => Unit
    | .store op => StoreSig.Ans op
    | .running => Option BootVerifiedImage

def askStore (op : StoreOp) : Prog SnapshotSig (StoreSig.Ans op) :=
  Prog.ask (S := SnapshotSig) (.store op)

/-- Structural identity and vectors only. -/
def runningAdmissible (record : BootMetadata) (r : BootVerifiedImage) : Bool :=
  bootMetadataImageMatches record r.manifest == .ok &&
  match bootImageSpan r.manifest.slot r.manifest.executionBase
      r.manifest.payloadLength with
  | .error _ => false
  | .ok last =>
      let reset := r.resetVector &&& ~~~1
      !(r.initialMsp != bootInitialMsp || r.resetVector &&& 1 == 0 ||
        reset < r.manifest.executionBase || reset ≥ last)

/-- What the capture leaves behind: its result, and the value once it is
complete. -/
abbrev Captured := BootSnapshotResult × Option BootSnapshot

/-- The callback of the publication: whether it returned true, and what it
left. -/
def capture (diag : BootDiag) (availability : BootDiagContext) :
    Prog SnapshotSig (Bool × Captured) := do
  match ← bootStoreLoad.inline askStore with
  | .error _ => pure (false, .metadata, none)
  | .ok metadata => do
      match ← Prog.ask (S := SnapshotSig) .running with
      | none => pure (false, .running, none)
      | some r =>
          if !runningAdmissible metadata.record r then
            pure (false, .identity, none)
          else pure (true, .ok, some ⟨diag, availability, metadata, r⟩)

/-- What serves the requests of the publication. -/
def serveCapture : (op : DiagOp) → Captured →
    Prog SnapshotSig (DiagSig.Ans op × Captured)
  | .read i, c => do
      let value ← Prog.ask (S := SnapshotSig) (.readWord i)
      pure (value, c)
  | .write i v, c => do
      let done ← Prog.ask (S := SnapshotSig) (.writeWord i v)
      pure (done, c)
  | .barrier, c => do
      let _ ← Prog.ask (S := SnapshotSig) .barrier
      pure ((), c)
  | .capture diag availability, _ => capture diag availability

/-- `arguments` is false where the source refuses a NULL or an overlap. -/
def bootSnapshotCapture (owner : BootDiagPublication) (caller : DiagCaller)
    (arguments : Bool) :
    Prog SnapshotSig (Except BootSnapshotResult BootSnapshot × BootDiagPublication) :=
  if !arguments then pure (.error .argument, owner)
  else do
    let (reply, c) ← (bootDiagPublicationCapture owner caller).interp serveCapture
      (.publication, none)
    match reply.result, c with
    | .ok, (_, some value) => pure (.ok value, reply.object)
    | .capture, (result, _) => pure (.error result, reply.object)
    | _, _ => pure (.error .publication, reply.object)

end EkBareMetal.Boot

import EkBareMetal.Lib.Checked

/-!
# The heap break

`_sbrk` as `syscalls.c` has it for an application and as
`boot_allocation_support.c` has it for the boot loader. An address is the number
that `uintptr_t` makes of it, and every operation is checked in the type that the
source makes it in: a call that has no result here has overflowed there. What the
C implementation decides about its types is an `Abi`.
-/

namespace EkBareMetal.Bsp

open Checked

/-- The widths of `ptrdiff_t`, `uintptr_t` and `uintmax_t`. -/
structure Abi where
  ptrdiffBits : Nat
  uintptrBits : Nat
  uintmaxBits : Nat
  ptrdiff_pos : 0 < ptrdiffBits
  ptrdiff_le : ptrdiffBits ≤ uintmaxBits
  uintptr_le : uintptrBits ≤ uintmaxBits

namespace Abi

variable (abi : Abi)

def ptrdiff : IntType := .signed abi.ptrdiffBits

def uintptr : IntType := .unsigned abi.uintptrBits

def uintmax : IntType := .unsigned abi.uintmaxBits

end Abi

/-- Of the target: addresses of 32 bits, and a `uintmax_t` of 64. -/
def targetAbi : Abi := ⟨32, 32, 64, by decide, by decide, by decide⟩

/-- The linker symbols `_heap_start`, `_heap_static_end` and `_heap_end`. -/
structure HeapRegion (abi : Abi) where
  start : abi.uintptr.Value
  base : abi.uintptr.Value
  stop : abi.uintptr.Value

/-- The pointer that is returned, and whether `errno` has been set to `ENOMEM`. -/
structure SbrkReply where
  pointer : Int
  enomem : Bool
  deriving DecidableEq

/-- `(void *)-1` -/
def exhausted (abi : Abi) : SbrkReply := ⟨abi.uintptr.max, true⟩

section Sbrk

variable {abi : Abi} (region : HeapRegion abi)

/-! ## Applications -/

structure HeapBreak where
  heapBreak : Int
  heapInitialized : Bool
  deriving DecidableEq

def HeapBreak.zero : HeapBreak := ⟨0, false⟩

/-- The break of an application. -/
def HeapBreak.current (heap : HeapBreak) : Int :=
  if heap.heapInitialized then heap.heapBreak else region.base.val

def sbrk (heap : HeapBreak) (increment : Int) : Option (SbrkReply × HeapBreak) := do
  let start := region.start.val
  let base := region.base.val
  let stop := region.stop.val
  if start > base ∨ base > stop then pure (exhausted abi, heap)
  else do
    let previous := heap.current region
    if previous < base ∨ previous > stop then pure (exhausted abi, heap)
    else if increment ≥ 0 then do
      let amount ← abi.uintmax.fit increment
      let room ← abi.uintptr.sub stop previous
      let room ← abi.uintmax.fit room
      if amount > room then pure (exhausted abi, heap)
      else do
        let amount ← abi.uintptr.fit increment
        let next ← abi.uintptr.add previous amount
        pure (⟨previous, false⟩, ⟨next, true⟩)
    else do
      -- the minimum of the type cannot be negated in it
      let above ← abi.ptrdiff.add increment 1
      let negated ← abi.ptrdiff.neg above
      let negated ← abi.uintmax.fit negated
      let amount ← abi.uintmax.add negated 1
      let used ← abi.uintptr.sub previous base
      let used ← abi.uintmax.fit used
      if amount > used then pure (exhausted abi, heap)
      else do
        let amount ← abi.uintptr.fit amount
        let next ← abi.uintptr.sub previous amount
        pure (⟨previous, false⟩, ⟨next, true⟩)

/-! ## The boot loader -/

/-- The break of the boot loader, whose `heap_break` is zero as long as there is none. -/
def bootCurrent (heapBreak : Int) : Int := if heapBreak ≠ 0 then heapBreak else region.base.val

def bootSbrk (heapBreak : Int) (increment : Int) : Option (SbrkReply × Int) := do
  let start := region.start.val
  let base := region.base.val
  let stop := region.stop.val
  let previous := bootCurrent region heapBreak
  if start > base ∨ base > stop ∨ previous < base ∨ previous > stop then
    pure (exhausted abi, heapBreak)
  else if increment ≥ 0 then do
    let amount ← abi.uintmax.fit increment
    let room ← abi.uintptr.sub stop previous
    let room ← abi.uintmax.fit room
    if amount > room then pure (exhausted abi, heapBreak)
    else do
      let amount ← abi.uintptr.fit increment
      let next ← abi.uintptr.add previous amount
      pure (⟨previous, false⟩, next)
  else do
    let above ← abi.ptrdiff.add increment 1
    let negated ← abi.ptrdiff.neg above
    let negated ← abi.uintmax.fit negated
    let amount ← abi.uintmax.add negated 1
    let used ← abi.uintptr.sub previous base
    let used ← abi.uintmax.fit used
    if amount > used then pure (exhausted abi, heapBreak)
    else do
      let amount ← abi.uintptr.fit amount
      let next ← abi.uintptr.sub previous amount
      pure (⟨previous, false⟩, next)

end Sbrk

/-- Calls one after the other, with their replies. -/
def sbrkCalls {σ : Type} (call : σ → Int → Option (SbrkReply × σ)) :
    σ → List Int → Option (List SbrkReply × σ)
  | s, [] => some ([], s)
  | s, increment :: increments => do
      let (reply, s) ← call s increment
      let (replies, s) ← sbrkCalls call s increments
      pure (reply :: replies, s)

end EkBareMetal.Bsp

import EkBareMetal.Lib.Layout
import EkBareMetal.Tools.Package
import Mathlib.Data.List.Sort

/-!
# The ELF parser of the packager

`elf_payload` of `package.py`: an ELF32 executable in, the bytes of one slot's
flash out. The two tables are walked once each, and everything that is read from
them is checked before it is used; what `struct.unpack_from` and an index do with
a buffer that is too short is an exception other than `PackageError`. Numbers are
the 16 and 32 bits that were unpacked, so sums do not wrap.
-/

namespace EkBareMetal.Tools

open Words Text

/-- `require`. -/
def require (condition : Prop) [Decidable condition] (message : String) :
    Except PyError Unit :=
  if condition then .ok () else packageError message

def span (start size bound : Nat) (label : String) : Except PyError Unit :=
  require (start ≤ bound ∧ size ≤ bound - start) label

/-- `struct.unpack_from`: the fields of a struct of `size` bytes at `offset`. -/
def unpackFrom {α : Type} (data : List UInt8) (offset size : Nat) (fields : α) :
    Except PyError α :=
  if offset + size ≤ data.length then .ok fields else .error .other

def halfAt (data : List UInt8) (offset : Nat) : Nat :=
  (data.getD offset 0).toNat + 256 * (data.getD (offset + 1) 0).toNat

def fieldAt (data : List UInt8) (offset : Nat) : Nat := (wordAt data offset).toNat

structure ElfHeader where
  kind : Nat
  machine : Nat
  version : Nat
  entry : Nat
  phoff : Nat
  shoff : Nat
  flags : Nat
  ehsize : Nat
  phsize : Nat
  phnum : Nat
  shsize : Nat
  shnum : Nat
  shstr : Nat

def elfHeader (data : List UInt8) : ElfHeader where
  kind := halfAt data 16
  machine := halfAt data 18
  version := fieldAt data 20
  entry := fieldAt data 24
  phoff := fieldAt data 28
  shoff := fieldAt data 32
  flags := fieldAt data 36
  ehsize := halfAt data 40
  phsize := halfAt data 42
  phnum := halfAt data 44
  shsize := halfAt data 46
  shnum := halfAt data 48
  shstr := halfAt data 50

structure ProgramHeader where
  typ : Nat
  off : Nat
  vma : Nat
  lma : Nat
  filesz : Nat
  memsz : Nat
  perms : Nat
  align : Nat

def programHeader (data : List UInt8) (h : ElfHeader) (i : Nat) : ProgramHeader where
  typ := fieldAt data (h.phoff + i * 32)
  off := fieldAt data (h.phoff + i * 32 + 4)
  vma := fieldAt data (h.phoff + i * 32 + 8)
  lma := fieldAt data (h.phoff + i * 32 + 12)
  filesz := fieldAt data (h.phoff + i * 32 + 16)
  memsz := fieldAt data (h.phoff + i * 32 + 20)
  perms := fieldAt data (h.phoff + i * 32 + 24)
  align := fieldAt data (h.phoff + i * 32 + 28)

/-- The fields of a section header that are looked at. -/
structure SectionHeader where
  name : Nat
  typ : Nat
  attrs : Nat
  addr : Nat
  off : Nat
  size : Nat
  align : Nat

def sectionHeader (data : List UInt8) (h : ElfHeader) (i : Nat) : SectionHeader where
  name := fieldAt data (h.shoff + i * 40)
  typ := fieldAt data (h.shoff + i * 40 + 4)
  attrs := fieldAt data (h.shoff + i * 40 + 8)
  addr := fieldAt data (h.shoff + i * 40 + 12)
  off := fieldAt data (h.shoff + i * 40 + 16)
  size := fieldAt data (h.shoff + i * 40 + 20)
  align := fieldAt data (h.shoff + i * 40 + 32)

/-! ## The header -/

def checkHeader (data : List UInt8) : Except PyError ElfHeader := do
  require (52 ≤ data.length) "truncated ELF header"
  let ident := slice data 0 16
  require (slice ident 0 7 = [0x7f, 0x45, 0x4c, 0x46, 1, 1, 1] ∧ ident.getD 7 0 = 0 ∧
    ident.drop 8 = List.replicate 8 0) "requires ELF32 little-endian System V version 1"
  let h ← unpackFrom data 16 36 (elfHeader data)
  require (h.kind = 2 ∧ h.machine = 40 ∧ h.version = 1 ∧ h.ehsize = 52)
    "requires ARM executable ELF"
  require (h.flags &&& 0xff000000 = 0x05000000 ∧ h.flags &&& 0xfafffdff = 0)
    "requires ARM EABI5 soft-float (no unsupported flags)"
  require (h.phsize = 32 ∧ 1 ≤ h.phnum ∧ h.phnum ≤ 128) "unsupported program header table"
  require (h.shsize = 40 ∧ 1 ≤ h.shnum ∧ h.shnum ≤ 4096 ∧ 0 < h.shstr ∧ h.shstr < h.shnum)
    "requires ordinary section table (no extended numbering)"
  span h.phoff (h.phnum * h.phsize) data.length "truncated program headers"
  span h.shoff (h.shnum * h.shsize) data.length "truncated section headers"
  require (52 ≤ h.phoff ∧ 52 ≤ h.shoff) "header table overlaps ELF header"
  require (h.phoff + h.phnum * 32 ≤ h.shoff ∨ h.shoff + h.shnum * 40 ≤ h.phoff)
    "overlapping header tables"
  pure h

/-! ## The program headers -/

/-- An entry of `loads`. -/
structure Load where
  vma : Nat
  stop : Nat
  off : Nat
  filesz : Nat
  memsz : Nat
  perms : Nat
  deriving DecidableEq

def loadOf (p : ProgramHeader) : Load :=
  ⟨p.vma, p.vma + p.memsz, p.off, p.filesz, p.memsz, p.perms⟩

/-- An entry of `flash`. -/
def blockOf (data : List UInt8) (p : ProgramHeader) : Block := (p.lma, slice data p.off p.filesz)

def inSram (p : ProgramHeader) : Prop := 0x20000000 ≤ p.vma ∧ p.vma + p.memsz ≤ 0x20010000

def inFlash (base : Nat) (p : ProgramHeader) : Prop :=
  base ≤ p.vma ∧ p.vma + p.memsz ≤ base + MAX_PAYLOAD

instance (p : ProgramHeader) : Decidable (inSram p) := inferInstanceAs (Decidable (_ ∧ _))

instance (base : Nat) (p : ProgramHeader) : Decidable (inFlash base p) :=
  inferInstanceAs (Decidable (_ ∧ _))

/-- The checks of a load on its own header. -/
def checkLoad (base : Nat) (p : ProgramHeader) : Except PyError Unit := do
  require (p.filesz ≤ p.memsz ∧ 0 < p.memsz ∧ p.perms &&& 0xfffffff8 = 0)
    "invalid load sizes/flags"
  span p.vma p.memsz (2 ^ 32) "VMA overflow"
  span p.lma p.memsz (2 ^ 32) "LMA overflow"
  require (p.align = 0 ∨ p.align = 1 ∨
    (p.align &&& (p.align - 1) = 0 ∧ p.vma % p.align = p.off % p.align)) "invalid load alignment"
  require (inSram p ∨ inFlash base p) "load VMA outside selected slot/SRAM"
  if inFlash base p then
    require (p.vma = p.lma ∧ p.filesz = p.memsz) "flash VMA/LMA mismatch or zero-fill flash"
  else pure ()

/-- The flash that a load adds. -/
def checkFlash (data : List UInt8) (h : ElfHeader) (base : Nat) (p : ProgramHeader) :
    Except PyError (List Block) :=
  if p.filesz ≠ 0 then do
    require (base ≤ p.lma ∧ p.lma + p.filesz ≤ base + MAX_PAYLOAD)
      "file-backed load outside selected flash payload"
    require (52 ≤ p.off) "load includes ELF header"
    require (¬ (p.off < h.phoff + h.phnum * 32 ∧ h.phoff < p.off + p.filesz) ∧
      ¬ (p.off < h.shoff + h.shnum * 40 ∧ h.shoff < p.off + p.filesz))
      "load overlaps header table"
    pure [blockOf data p]
  else do
    require (inSram p ∧ ((0x20000000 ≤ p.lma ∧ p.lma ≤ 0x20010000) ∨
      (base ≤ p.lma ∧ p.lma ≤ base + MAX_PAYLOAD))) "unsupported nonloaded segment"
    pure []

/-- A load against one that came before it. -/
def checkApart (p : ProgramHeader) (old : Load) : Except PyError Unit := do
  require (p.vma + p.memsz ≤ old.vma ∨ old.stop ≤ p.vma) "overlapping load VMAs"
  if p.filesz ≠ 0 ∧ old.filesz ≠ 0 then
    require (p.off + p.filesz ≤ old.off ∨ old.off + old.filesz ≤ p.off)
      "overlapping load file spans"
  else pure ()

def segmentTurn (data : List UInt8) (h : ElfHeader) (base : Nat)
    (s : List Load × List Block) (i : Nat) : Except PyError (List Load × List Block) := do
  let p ← unpackFrom data (h.phoff + i * 32) 32 (programHeader data h i)
  require (p.typ ∈ [0, 1, 4, 0x6474e551, 0x70000001]) "unsupported program header type"
  span p.off p.filesz data.length "truncated segment"
  if p.typ ≠ 1 then pure s
  else do
    checkLoad base p
    let block ← checkFlash data h base p
    s.1.forM (checkApart p)
    pure (s.1 ++ [loadOf p], s.2 ++ block)

/-! ## The flash -/

/-- The order of tuples: the address, and then the bytes. -/
def blockLe (a b : Block) : Bool :=
  decide (a.1 < b.1) || (a.1 == b.1 && decide (a.2 ≤ b.2))

/-- A block begins no earlier than the one before it ended. -/
def flashTurn (last : Nat) (b : Block) : Except PyError Nat := do
  require (last ≤ b.1) "overlapping flash LMAs"
  pure b.stop

/-! ## The section headers -/

/-- The NOBITS sections are not in the file. -/
abbrev nobits : Nat := 8

def SectionHeader.allocated (s : SectionHeader) : Prop := s.attrs &&& 2 ≠ 0 ∧ s.size ≠ 0

instance (s : SectionHeader) : Decidable s.allocated := inferInstanceAs (Decidable (_ ∧ _))

def checkSection (data nameTable : List UInt8) (s : SectionHeader) : Except PyError Unit := do
  require (s.name < nameTable.length ∧ 0 ∈ nameTable.drop s.name) "invalid section name reference"
  require (s.attrs &&& 0x800 = 0) "compressed sections unsupported"
  require (s.align = 0 ∨ s.align = 1 ∨
    (s.align &&& (s.align - 1) = 0 ∧ s.addr % s.align = 0)) "invalid section alignment"
  if s.typ ≠ nobits then span s.off s.size data.length "truncated section" else pure ()
  require (s.attrs &&& 0x400 = 0) "TLS sections unsupported"

/-- A section against the load it lies in. -/
def checkMapping (s : SectionHeader) (load : Load) : Except PyError Unit :=
  if s.typ = nobits then
    require (0x20000000 ≤ s.addr ∧ s.addr + s.size ≤ 0x20010000 ∧
      load.filesz ≤ s.addr - load.vma) "NOBITS must be nonloaded SRAM"
  else
    require (s.addr - load.vma + s.size ≤ load.filesz ∧ s.off = load.off + (s.addr - load.vma))
      "section/load file mapping conflict"

def sectionTurn (data : List UInt8) (h : ElfHeader) (nameTable : List UInt8)
    (loads : List Load) (allocated : List (Nat × Nat)) (k : Nat) :
    Except PyError (List (Nat × Nat)) := do
  -- section zero is the sentinel
  let s ← unpackFrom data (h.shoff + (k + 1) * 40) 40 (sectionHeader data h (k + 1))
  checkSection data nameTable s
  if ¬ s.allocated then pure allocated
  else do
    require (s.typ ∈ [1, nobits, 14, 15, 16, 0x70000001]) "unsupported allocated section"
    span s.addr s.size (2 ^ 32) "section address overflow"
    allocated.forM fun a =>
      require (s.addr + s.size ≤ a.1 ∨ a.2 ≤ s.addr) "overlapping allocated sections"
    match loads.filter fun load => load.vma ≤ s.addr ∧ s.addr + s.size ≤ load.stop with
    | [load] => do
        checkMapping s load
        pure (allocated ++ [(s.addr, s.addr + s.size)])
    | _ => packageError "allocated section missing unique load mapping"

/-- The string table of the section names. -/
def checkNames (data : List UInt8) (h : ElfHeader) : Except PyError (List UInt8) := do
  require (slice data h.shoff 40 = List.replicate 40 0)
    "requires canonical SHT_NULL section zero"
  let names ← unpackFrom data (h.shoff + h.shstr * 40) 40 (sectionHeader data h h.shstr)
  require (names.typ = 3 ∧ 0 < names.size) "requires nonempty SHT_STRTAB section names"
  span names.off names.size data.length "truncated section names"
  let nameTable := slice data names.off names.size
  match nameTable.head?, nameTable.getLast? with
  | some first, some last => do
      require (first = 0 ∧ last = 0) "invalid section name string table"
      pure nameTable
  | _, _ => .error .other

/-! ## The payload -/

/-- The blocks of the flash in their order, and where the last one ends. -/
def checkBlocks (base : Nat) (flash : List Block) : Except PyError (List Block × Nat) := do
  match flash.mergeSort blockLe with
  | [] => packageError "ELF has no flash loads"
  | first :: rest => do
      require (first.1 = base) "ELF not linked at selected vector origin"
      let last ← (first :: rest).foldlM flashTurn base
      pure (first :: rest, last)

/-- The loads that the entry point may lie in. -/
def entered (entry : Nat) (load : Load) : Prop :=
  load.vma ≤ entry - entry % 2 ∧ entry - entry % 2 < load.vma + load.filesz ∧
    load.perms % 2 = 1

instance (entry : Nat) (load : Load) : Decidable (entered entry load) :=
  inferInstanceAs (Decidable (_ ∧ _))

/-- Every block is written over the erased slot, at its offset from the base. -/
def placeBlocks (base last : Nat) (flash : List Block) : List UInt8 :=
  layOut (List.replicate (last - base) 0xff) (flash.map fun b => (b.1 - base, b.2))

def elfPayload (data : List UInt8) (base : Nat) : Except PyError (List UInt8) := do
  let h ← checkHeader data
  let (loads, flash) ← (List.range h.phnum).foldlM (segmentTurn data h base) ([], [])
  let (flash, last) ← checkBlocks base flash
  require (∃ load ∈ loads, entered h.entry load) "ELF entry not in executable load"
  let nameTable ← checkNames data h
  let _ ← (List.range (h.shnum - 1)).foldlM (sectionTurn data h nameTable loads) []
  pure (placeBlocks base last flash)

end EkBareMetal.Tools

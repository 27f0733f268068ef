import EkBareMetal.Lib.Yields
import EkBareMetal.Proofs.Signature
import EkBareMetal.Tools.Elf

/-!
# The payload is the flash of the file

`elf_payload` is read once, from its first check to its last: each loop with an
invariant of the headers it has walked, each access with the check that put it
inside the file. What is left at the end is the image, said of the headers of the
file and not of the lists that were built on the way.
-/

namespace EkBareMetal.Tools

open Words Text Interact

/-! ## Checks -/

/-- `PackageError`. -/
def Documented (e : PyError) : Prop := ∃ message : String, e = .valueError (ascii message)

section Checks

variable {α : Type} {Q : Unit → Prop}

theorem yields_require {c : Prop} [Decidable c] {message : String} (h : c → Q ()) :
    Yields Documented (require c message) Q := by
  unfold require
  split
  · next hc => exact h hc
  · exact ⟨message, rfl⟩

theorem yields_span {start size bound : Nat} {label : String}
    (h : start + size ≤ bound → Q ()) : Yields Documented (span start size bound label) Q :=
  yields_require fun ⟨hstart, hsize⟩ => h (by omega)

theorem yields_unpack {data : List UInt8} {offset size : Nat} {fields : α} {P : α → Prop}
    (hfit : offset + size ≤ data.length) (h : P fields) :
    Yields Documented (unpackFrom data offset size fields) P := by
  unfold unpackFrom
  rw [if_pos hfit]
  exact h

end Checks

/-! ## The header -/

/-- The tables lie in the file. -/
structure Tables (data : List UInt8) (h : ElfHeader) : Prop where
  segments : h.phoff + h.phnum * 32 ≤ data.length
  sections : h.shoff + h.shnum * 40 ≤ data.length
  names : h.shstr < h.shnum

theorem yields_checkHeader (data : List UInt8) :
    Yields Documented (checkHeader data) fun h => h = elfHeader data ∧ Tables data h := by
  refine yields_bind (yields_require fun hlen => ?_)
  refine yields_bind (yields_require fun _ => ?_)
  refine yields_bind (yields_unpack hlen ?_)
  refine yields_bind (yields_require fun _ => yields_bind (yields_require fun _ => ?_))
  refine yields_bind (yields_require fun ⟨hphsize, _⟩ => ?_)
  refine yields_bind (yields_require fun ⟨hshsize, _, _, _, hshstr⟩ => ?_)
  refine yields_bind (yields_span fun hsegments => yields_bind (yields_span fun hsections => ?_))
  refine yields_bind (yields_require fun _ => yields_bind (yields_require fun _ => ?_))
  rw [hphsize] at hsegments
  rw [hshsize] at hsections
  exact yields_pure ⟨rfl, hsegments, hsections, hshstr⟩

/-! ## The program headers -/

variable {data : List UInt8} {h : ElfHeader} {base : Nat}

/-- A load that has bytes in the file. -/
def FileBacked (p : ProgramHeader) : Prop := p.typ = 1 ∧ p.filesz ≠ 0

/-- The loads and the flash after the first `i` program headers. -/
structure Walked (data : List UInt8) (h : ElfHeader) (base i : Nat)
    (s : List Load × List Block) : Prop where
  load : ∀ load ∈ s.1, ∃ j < i, (programHeader data h j).typ = 1 ∧
    load = loadOf (programHeader data h j)
  loads : ∀ j < i, (programHeader data h j).typ = 1 → loadOf (programHeader data h j) ∈ s.1
  block : ∀ b ∈ s.2, ∃ j < i, FileBacked (programHeader data h j) ∧
    b = blockOf data (programHeader data h j)
  blocks : ∀ j < i, FileBacked (programHeader data h j) →
    blockOf data (programHeader data h j) ∈ s.2
  fits : ∀ j < i, FileBacked (programHeader data h j) →
    base ≤ (programHeader data h j).lma ∧
    (programHeader data h j).lma + (programHeader data h j).filesz ≤ base + MAX_PAYLOAD ∧
    (programHeader data h j).off + (programHeader data h j).filesz ≤ data.length

theorem walked_start : Walked data h base 0 ([], []) :=
  ⟨nofun, nofun, nofun, nofun, nofun⟩

theorem lt_succ_cases {i j : Nat} (hj : j < i + 1) : j < i ∨ j = i := by omega

/-- A header that is no load. -/
theorem Walked.other {s : List Load × List Block} {i : Nat} (hs : Walked data h base i s)
    (htyp : (programHeader data h i).typ ≠ 1) : Walked data h base (i + 1) s where
  load load hload := by
    obtain ⟨j, hj, hrest⟩ := hs.load load hload
    exact ⟨j, Nat.lt_succ_of_lt hj, hrest⟩
  loads j hj ht := by
    obtain hj | rfl := lt_succ_cases hj
    · exact hs.loads j hj ht
    · exact absurd ht htyp
  block b hb := by
    obtain ⟨j, hj, hrest⟩ := hs.block b hb
    exact ⟨j, Nat.lt_succ_of_lt hj, hrest⟩
  blocks j hj ht := by
    obtain hj | rfl := lt_succ_cases hj
    · exact hs.blocks j hj ht
    · exact absurd ht.1 htyp
  fits j hj ht := by
    obtain hj | rfl := lt_succ_cases hj
    · exact hs.fits j hj ht
    · exact absurd ht.1 htyp

/-- A load, with the blocks that its check has returned. -/
theorem Walked.segment {s : List Load × List Block} {i : Nat} {block : List Block}
    (hs : Walked data h base i s) (htyp : (programHeader data h i).typ = 1)
    (hblock : ∀ b, b ∈ block ↔ (programHeader data h i).filesz ≠ 0 ∧
      b = blockOf data (programHeader data h i))
    (hfits : (programHeader data h i).filesz ≠ 0 → base ≤ (programHeader data h i).lma ∧
      (programHeader data h i).lma + (programHeader data h i).filesz ≤ base + MAX_PAYLOAD)
    (hfile : (programHeader data h i).off + (programHeader data h i).filesz ≤ data.length) :
    Walked data h base (i + 1) (s.1 ++ [loadOf (programHeader data h i)], s.2 ++ block) where
  load load hload := by
    obtain hload | hload := List.mem_append.mp hload
    · obtain ⟨j, hj, hrest⟩ := hs.load load hload
      exact ⟨j, Nat.lt_succ_of_lt hj, hrest⟩
    · exact ⟨i, Nat.lt_succ_self i, htyp, List.mem_singleton.mp hload⟩
  loads j hj ht := by
    obtain hj | rfl := lt_succ_cases hj
    · exact List.mem_append_left _ (hs.loads j hj ht)
    · exact List.mem_append_right _ (List.mem_singleton.mpr rfl)
  block b hb := by
    obtain hb | hb := List.mem_append.mp hb
    · obtain ⟨j, hj, hrest⟩ := hs.block b hb
      exact ⟨j, Nat.lt_succ_of_lt hj, hrest⟩
    · obtain ⟨hsize, heq⟩ := (hblock b).mp hb
      exact ⟨i, Nat.lt_succ_self i, ⟨htyp, hsize⟩, heq⟩
  blocks j hj ht := by
    obtain hj | rfl := lt_succ_cases hj
    · exact List.mem_append_left _ (hs.blocks j hj ht)
    · exact List.mem_append_right _ ((hblock _).mpr ⟨ht.2, rfl⟩)
  fits j hj ht := by
    obtain hj | rfl := lt_succ_cases hj
    · exact hs.fits j hj ht
    · obtain ⟨hlo, hhi⟩ := hfits ht.2
      exact ⟨hlo, hhi, hfile⟩

theorem yields_checkLoad (base : Nat) (p : ProgramHeader) :
    Yields Documented (checkLoad base p) fun _ => True := by
  refine yields_bind (yields_require fun _ => yields_bind (yields_span fun _ => ?_))
  refine yields_bind (yields_span fun _ => yields_bind (yields_require fun _ => ?_))
  refine yields_bind (yields_require fun _ => ?_)
  exact yields_ite (fun _ => yields_require fun _ => trivial) fun _ => yields_pure trivial

theorem yields_checkFlash (data : List UInt8) (h : ElfHeader) (base : Nat) (p : ProgramHeader) :
    Yields Documented (checkFlash data h base p) fun block =>
      (∀ b, b ∈ block ↔ p.filesz ≠ 0 ∧ b = blockOf data p) ∧
      (p.filesz ≠ 0 → base ≤ p.lma ∧ p.lma + p.filesz ≤ base + MAX_PAYLOAD) := by
  refine yields_ite (fun hsize => ?_) fun hsize => ?_
  · refine yields_bind (yields_require fun hfits => ?_)
    refine yields_bind (yields_require fun _ => yields_bind (yields_require fun _ => ?_))
    refine yields_pure ⟨fun b => ?_, fun _ => hfits⟩
    rw [List.mem_singleton]
    exact ⟨fun hb => ⟨hsize, hb⟩, fun hb => hb.2⟩
  · refine yields_bind (yields_require fun _ => ?_)
    refine yields_pure ⟨fun b => ?_, fun hne => absurd hne hsize⟩
    exact iff_of_false List.not_mem_nil fun hb => hsize hb.1

theorem yields_checkApart (p : ProgramHeader) (old : Load) :
    Yields Documented (checkApart p old) fun _ => True := by
  refine yields_bind (yields_require fun _ => ?_)
  exact yields_ite (fun _ => yields_require fun _ => trivial) fun _ => yields_pure trivial

theorem yields_segmentTurn (ht : Tables data h) {s : List Load × List Block} {i : Nat}
    (hi : i < h.phnum) (hs : Walked data h base i s) :
    Yields Documented (segmentTurn data h base s i) (Walked data h base (i + 1)) := by
  have hfit : h.phoff + i * 32 + 32 ≤ data.length := by
    have hsegments := ht.segments
    omega
  refine yields_bind (yields_unpack hfit ?_)
  refine yields_bind (yields_require fun _ => yields_bind (yields_span fun hfile => ?_))
  refine yields_ite (fun htyp => yields_pure (hs.other htyp)) fun htyp => ?_
  rw [Decidable.not_not] at htyp
  refine yields_seq (yields_checkLoad base _) fun _ _ => ?_
  refine yields_seq (yields_checkFlash data h base _) fun block ⟨hblock, hfits⟩ => ?_
  refine yields_seq (yields_forM s.1 fun old _ => yields_checkApart _ old) fun _ _ => ?_
  exact yields_pure (hs.segment htyp hblock hfits hfile)

/-! ## The flash -/

theorem yields_checkBlocks (base : Nat) (flash : List Block) :
    Yields Documented (checkBlocks base flash) fun out =>
      out.1.Perm flash ∧ (∃ b ∈ out.1, b.1 = base) ∧ Ordered base out.1 out.2 := by
  unfold checkBlocks
  have hperm := List.mergeSort_perm flash blockLe
  generalize flash.mergeSort blockLe = sorted at hperm
  cases sorted with
  | nil => exact ⟨_, rfl⟩
  | cons first rest =>
      refine yields_bind (yields_require fun horigin => ?_)
      have hfold := yields_foldlM (E := Documented) (f := flashTurn)
        (I := fun done last => Ordered base done last) (first :: rest)
        (fun done b last hdone =>
          yields_bind (yields_require fun hle => yields_pure (hdone.concat hle))) (.nil base)
      refine yields_seq hfold fun last hlast => ?_
      exact yields_pure ⟨hperm, ⟨first, List.mem_cons_self, horigin⟩, hlast⟩

/-! ## The section headers -/

/-- A load that the section lies in. -/
def Covers (load : Load) (s : SectionHeader) : Prop :=
  load.vma ≤ s.addr ∧ s.addr + s.size ≤ load.stop

instance (load : Load) (s : SectionHeader) : Decidable (Covers load s) :=
  inferInstanceAs (Decidable (_ ∧ _))

/-- The bytes of an allocated section are those of its load. -/
def Mapped (data : List UInt8) (loads : List Load) (s : SectionHeader) : Prop :=
  s.allocated → s.typ ≠ nobits →
    s.off + s.size ≤ data.length ∧
    ∃ load ∈ loads, Covers load s ∧ (∀ other ∈ loads, Covers other s → other = load) ∧
      s.addr - load.vma + s.size ≤ load.filesz ∧ s.off = load.off + (s.addr - load.vma)

theorem yields_checkSection (data nameTable : List UInt8) (s : SectionHeader) :
    Yields Documented (checkSection data nameTable s) fun _ =>
      s.typ ≠ nobits → s.off + s.size ≤ data.length := by
  refine yields_bind (yields_require fun _ => yields_bind (yields_require fun _ => ?_))
  refine yields_bind (yields_require fun _ => ?_)
  refine yields_ite (fun _ => yields_bind (yields_span fun hfile => ?_)) fun htyp => ?_
  · exact yields_require (Q := fun _ => s.typ ≠ nobits → s.off + s.size ≤ data.length)
      fun _ _ => hfile
  · exact yields_require (Q := fun _ => s.typ ≠ nobits → s.off + s.size ≤ data.length)
      fun _ hne => absurd hne htyp

theorem yields_checkMapping (s : SectionHeader) (load : Load) :
    Yields Documented (checkMapping s load) fun _ => s.typ ≠ nobits →
      s.addr - load.vma + s.size ≤ load.filesz ∧ s.off = load.off + (s.addr - load.vma) :=
  yields_ite (fun htyp => yields_require fun _ hne => absurd htyp hne)
    fun _ => yields_require fun hmap _ => hmap

theorem yields_sectionTurn (ht : Tables data h) (nameTable : List UInt8) (loads : List Load)
    {allocated : List (Nat × Nat)} {k : Nat} (hk : k < h.shnum - 1)
    (hs : ∀ j < k, Mapped data loads (sectionHeader data h (j + 1))) :
    Yields Documented (sectionTurn data h nameTable loads allocated k) fun _ =>
      ∀ j < k + 1, Mapped data loads (sectionHeader data h (j + 1)) := by
  have hfit : h.shoff + (k + 1) * 40 + 40 ≤ data.length := by
    have hsections := ht.sections
    omega
  have hnext : Mapped data loads (sectionHeader data h (k + 1)) →
      ∀ j < k + 1, Mapped data loads (sectionHeader data h (j + 1)) := by
    intro hlast j hj
    obtain hj | rfl := lt_succ_cases hj
    · exact hs j hj
    · exact hlast
  refine yields_bind (yields_unpack hfit ?_)
  refine yields_seq (yields_checkSection data nameTable _) fun _ hfile => ?_
  refine yields_ite (fun hnot => yields_pure (hnext fun ha => absurd ha hnot)) fun _ => ?_
  refine yields_bind (yields_require fun _ => yields_bind (yields_span fun _ => ?_))
  refine yields_seq (yields_forM (P := fun _ => True) allocated
    fun a _ => yields_require fun _ => trivial) fun _ _ => ?_
  split
  · next load hfilter =>
      have hload : load ∈ loads.filter fun load => load.vma ≤ (sectionHeader data h (k + 1)).addr ∧
          (sectionHeader data h (k + 1)).addr + (sectionHeader data h (k + 1)).size ≤ load.stop := by
        rw [hfilter]
        exact List.mem_singleton.mpr rfl
      obtain ⟨hmem, hcovers⟩ := List.mem_filter.mp hload
      refine yields_seq (yields_checkMapping _ load) fun _ hmap => yields_pure (hnext ?_)
      intro _ htyp
      refine ⟨hfile htyp, load, hmem, of_decide_eq_true hcovers, fun other hother hc => ?_,
        hmap htyp⟩
      have hin : other ∈ loads.filter fun load =>
          load.vma ≤ (sectionHeader data h (k + 1)).addr ∧
          (sectionHeader data h (k + 1)).addr + (sectionHeader data h (k + 1)).size ≤ load.stop :=
        List.mem_filter.mpr ⟨hother, decide_eq_true hc⟩
      rw [hfilter] at hin
      exact List.mem_singleton.mp hin
  · exact ⟨_, rfl⟩

theorem yields_checkNames (ht : Tables data h) :
    Yields Documented (checkNames data h) fun _ => True := by
  have hfit : h.shoff + h.shstr * 40 + 40 ≤ data.length := by
    have hsections := ht.sections
    have hnames := ht.names
    omega
  refine yields_bind (yields_require fun _ => yields_bind (yields_unpack hfit ?_))
  refine yields_bind (yields_require fun ⟨_, hsize⟩ => yields_bind (yields_span fun hfile => ?_))
  have hlen := length_slice hfile
  generalize slice data (sectionHeader data h h.shstr).off (sectionHeader data h h.shstr).size =
    nameTable at hlen ⊢
  cases nameTable with
  | nil =>
      rw [List.length_nil] at hlen
      omega
  | cons first rest =>
      dsimp only
      rw [List.head?_cons, List.getLast?_cons]
      exact yields_bind (yields_require fun _ => yields_pure trivial)

/-! ## The image -/

/-- The payload as the headers of the file have it. -/
structure Flashed (data : List UInt8) (h : ElfHeader) (base : Nat) (payload : List UInt8) :
    Prop where
  /-- The bytes of a load are at its physical address. -/
  segment : ∀ i < h.phnum, FileBacked (programHeader data h i) →
    ∀ k < (programHeader data h i).filesz,
      (programHeader data h i).off + k < data.length ∧
      payload[(programHeader data h i).lma - base + k]? =
        data[(programHeader data h i).off + k]?
  /-- The bytes of a section are where every load that it lies in puts them, and there is one. -/
  allocated : ∀ i, 1 ≤ i → i < h.shnum → (sectionHeader data h i).allocated →
    (sectionHeader data h i).typ ≠ nobits →
    (∃ j < h.phnum, FileBacked (programHeader data h j) ∧
      Covers (loadOf (programHeader data h j)) (sectionHeader data h i)) ∧
    ∀ j < h.phnum, (programHeader data h j).typ = 1 →
      Covers (loadOf (programHeader data h j)) (sectionHeader data h i) →
      ∀ k < (sectionHeader data h i).size,
        (sectionHeader data h i).off + k < data.length ∧
        payload[(programHeader data h j).lma +
            ((sectionHeader data h i).addr - (programHeader data h j).vma) - base + k]? =
          data[(sectionHeader data h i).off + k]?
  /-- The rest is erased flash. -/
  erased : ∀ k < payload.length,
    (∀ i < h.phnum, FileBacked (programHeader data h i) →
      ¬ ((programHeader data h i).lma ≤ base + k ∧
        base + k < (programHeader data h i).lma + (programHeader data h i).filesz)) →
    payload[k]? = some 0xff
  lower : ∀ i < h.phnum, FileBacked (programHeader data h i) → base ≤ (programHeader data h i).lma
  origin : ∃ i < h.phnum, FileBacked (programHeader data h i) ∧ (programHeader data h i).lma = base
  upper : ∀ i < h.phnum, FileBacked (programHeader data h i) →
    (programHeader data h i).lma + (programHeader data h i).filesz ≤ base + payload.length
  reached : ∃ i < h.phnum, FileBacked (programHeader data h i) ∧
    (programHeader data h i).lma + (programHeader data h i).filesz = base + payload.length
  bound : payload.length ≤ MAX_PAYLOAD

section Image

variable {loads : List Load} {flash blocks : List Block} {last : Nat}

/-- The block of a load ends with the load. -/
theorem stop_blockOf {p : ProgramHeader} (hfile : p.off + p.filesz ≤ data.length) :
    (blockOf data p).stop = p.lma + p.filesz := by
  unfold Block.stop blockOf
  rw [length_slice hfile]

theorem length_placeBlocks (hordered : Ordered base blocks last) :
    (placeBlocks base last blocks).length = last - base := by
  have hshift := hordered.shift (Nat.le_refl base)
  unfold placeBlocks
  rw [length_layOut _ hshift (by rw [List.length_replicate]), List.length_replicate]

theorem placed_block (hordered : Ordered base blocks last) {p : ProgramHeader}
    (hmem : blockOf data p ∈ blocks) (hfile : p.off + p.filesz ≤ data.length) {k : Nat}
    (hk : k < p.filesz) :
    (placeBlocks base last blocks)[p.lma - base + k]? = data[p.off + k]? := by
  have hshift := hordered.shift (Nat.le_refl base)
  have hin : (p.lma - base, slice data p.off p.filesz) ∈
      blocks.map fun b => (b.1 - base, b.2) := List.mem_map.mpr ⟨_, hmem, rfl⟩
  have hlen := length_slice hfile
  have hread := layOut_block (List.replicate (last - base) 0xff) hshift
    (by rw [List.length_replicate]) hin (k := k) (by rw [hlen]; exact hk)
  unfold placeBlocks
  refine hread.trans ?_
  show (slice data p.off p.filesz)[k]? = _
  unfold slice
  rw [List.getElem?_take_of_lt hk, List.getElem?_drop]

theorem flashed (hs : Walked data h base h.phnum (loads, flash)) (hperm : blocks.Perm flash)
    (horigin : ∃ b ∈ blocks, b.1 = base) (hordered : Ordered base blocks last)
    (hmapped : ∀ j < h.shnum - 1, Mapped data loads (sectionHeader data h (j + 1))) :
    Flashed data h base (placeBlocks base last blocks) := by
  have hlen := length_placeBlocks hordered
  have hle := hordered.le
  have hblock : ∀ b ∈ blocks, ∃ j < h.phnum, FileBacked (programHeader data h j) ∧
      b = blockOf data (programHeader data h j) := fun b hb => hs.block b (hperm.mem_iff.mp hb)
  have hblocks : ∀ j < h.phnum, FileBacked (programHeader data h j) →
      blockOf data (programHeader data h j) ∈ blocks :=
    fun j hj hb => hperm.mem_iff.mpr (hs.blocks j hj hb)
  have hsegment : ∀ i < h.phnum, FileBacked (programHeader data h i) →
      ∀ k < (programHeader data h i).filesz,
        (programHeader data h i).off + k < data.length ∧
        (placeBlocks base last blocks)[(programHeader data h i).lma - base + k]? =
          data[(programHeader data h i).off + k]? := by
    intro i hi hb k hk
    obtain ⟨-, -, hfile⟩ := hs.fits i hi hb
    exact ⟨by omega, placed_block hordered (hblocks i hi hb) hfile hk⟩
  obtain ⟨first, hfirst, hbase⟩ := horigin
  obtain ⟨end', hend, hstop⟩ := hordered.last (List.ne_nil_of_mem hfirst)
  obtain ⟨j₀, hj₀, hb₀, heq₀⟩ := hblock first hfirst
  obtain ⟨j₁, hj₁, hb₁, heq₁⟩ := hblock end' hend
  obtain ⟨-, hhi₁, hfile₁⟩ := hs.fits j₁ hj₁ hb₁
  rw [heq₁, stop_blockOf hfile₁] at hstop
  exact {
    segment := hsegment
    allocated := by
      intro i hlo hhi halloc htyp
      obtain ⟨j, rfl⟩ := Nat.exists_eq_add_of_le' hlo
      obtain ⟨hfile, load, hload, hcovers, hunique, hsize, hoff⟩ :=
        hmapped j (by omega) halloc htyp
      obtain ⟨j', hj', ht', rfl⟩ := hs.load load hload
      have hbacked : ∀ p, (programHeader data h p).typ = 1 → loadOf (programHeader data h p) =
          loadOf (programHeader data h j') → FileBacked (programHeader data h p) := by
        intro p hp heq
        refine ⟨hp, fun hzero => ?_⟩
        have hfilesz : (programHeader data h p).filesz = (programHeader data h j').filesz :=
          congrArg Load.filesz heq
        have hsize' : _ ≤ (programHeader data h j').filesz := hsize
        have hpos := halloc.2
        omega
      refine ⟨⟨j', hj', hbacked j' ht' rfl, hcovers⟩, fun p hp htp hc k hk => ?_⟩
      have hsame := hunique _ (hs.loads p hp htp) hc
      have hvma : (programHeader data h p).vma = (programHeader data h j').vma :=
        congrArg Load.vma hsame
      have hoff' : (programHeader data h p).off = (programHeader data h j').off :=
        congrArg Load.off hsame
      have hfilesz : (programHeader data h p).filesz = (programHeader data h j').filesz :=
        congrArg Load.filesz hsame
      have hpb := hbacked p htp hsame
      have hlower := (hs.fits p hp hpb).1
      have hsize' : (sectionHeader data h (j + 1)).addr - (programHeader data h j').vma +
          (sectionHeader data h (j + 1)).size ≤ (programHeader data h j').filesz := hsize
      have hoff'' : (sectionHeader data h (j + 1)).off = (programHeader data h j').off +
          ((sectionHeader data h (j + 1)).addr - (programHeader data h j').vma) := hoff
      obtain ⟨-, hbyte⟩ := hsegment p hp hpb
        ((sectionHeader data h (j + 1)).addr - (programHeader data h p).vma + k) (by omega)
      refine ⟨by omega, ?_⟩
      rw [show (programHeader data h p).lma +
          ((sectionHeader data h (j + 1)).addr - (programHeader data h p).vma) - base + k =
          (programHeader data h p).lma - base +
            ((sectionHeader data h (j + 1)).addr - (programHeader data h p).vma + k) by omega,
        hbyte]
      congr 1
      omega
    erased := by
      intro k hk hnone
      have hshift := hordered.shift (Nat.le_refl base)
      have houtside := layOut_outside (List.replicate (last - base) 0xff) hshift
        (by rw [List.length_replicate]) (i := k) ?_
      · refine houtside.trans ?_
        rw [List.getElem?_replicate, if_pos (by omega)]
      · intro b hb
        obtain ⟨c, hc, rfl⟩ := List.mem_map.mp hb
        obtain ⟨j, hj, hbacked, rfl⟩ := hblock c hc
        obtain ⟨hlower, -, hfile⟩ := hs.fits j hj hbacked
        have hstop' := stop_blockOf hfile
        unfold Block.stop blockOf at hstop' ⊢
        dsimp only at hstop' ⊢
        have hgap := hnone j hj hbacked
        omega
    lower := fun i hi hb => (hs.fits i hi hb).1
    origin := ⟨j₀, hj₀, hb₀, by rw [heq₀] at hbase; exact hbase⟩
    upper := by
      intro i hi hb
      obtain ⟨-, -, hfile⟩ := hs.fits i hi hb
      have hin := (hordered.mem (hblocks i hi hb)).2
      rw [stop_blockOf hfile] at hin
      omega
    reached := ⟨j₁, hj₁, hb₁, by omega⟩
    bound := by omega }

end Image

/-- For every file and base: `PackageError`, and no other exception, or the flash of the file. -/
theorem elf_payload_exact (data : List UInt8) (base : Nat) :
    (∃ payload, elfPayload data base = .ok payload ∧
      Flashed data (elfHeader data) base payload) ∨
    Refuses (elfPayload data base) := by
  have hyields : Yields Documented (elfPayload data base)
      (Flashed data (elfHeader data) base) := by
    refine yields_seq (yields_checkHeader data) fun h ⟨heq, ht⟩ => ?_
    rw [← heq]
    refine yields_seq (yields_range h.phnum
      (fun i s hi hs => yields_segmentTurn ht hi hs) walked_start) fun s hs => ?_
    obtain ⟨loads, flash⟩ := s
    refine yields_seq (yields_checkBlocks base flash) fun out ⟨hperm, horigin, hordered⟩ => ?_
    obtain ⟨blocks, last⟩ := out
    refine yields_bind (yields_require fun _ => ?_)
    refine yields_seq (yields_checkNames ht) fun nameTable _ => ?_
    refine yields_seq (yields_range (h.shnum - 1)
      (fun k allocated hk hmapped => yields_sectionTurn ht nameTable loads hk hmapped)
      (I := fun k _ => ∀ j < k, Mapped data loads (sectionHeader data h (j + 1))) nofun)
      fun _ hmapped => ?_
    exact yields_pure (flashed hs hperm horigin hordered hmapped)
  cases hout : elfPayload data base with
  | ok payload =>
      rw [hout] at hyields
      exact .inl ⟨payload, rfl, hyields⟩
  | error e =>
      rw [hout] at hyields
      obtain ⟨message, rfl⟩ := hyields
      exact .inr ⟨message, rfl⟩

end EkBareMetal.Tools

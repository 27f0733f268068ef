import EkBareMetal.Lib.Simulation
import EkBareMetal.Ftp.RamObject
import EkBareMetal.Proofs.FtpFile

/-!
# The RAM file is a store of one file

`FileStore` says what the two banks are for: there is a file or none, and an
upload or none, and a commit makes the one of the other. `RamFile` represents a
store through its committed bank and the staged part of its other one
(`Represents`), and an object in memory is the `RamFile` that its pointers show
(`RamWorld.image`), as long as nothing it owns lies in anything else it owns
(`Placed`), which the initializer checks and no operation changes. So the calls
of a run are answered as the store would answer them, and the bytes behind a
view stay where they are until the next commit.
-/

namespace EkBareMetal.Ftp

open Words Transition

/-! ## The store -/

/-- What fits in a bank. -/
abbrev Fitting (capacity : Nat) : Type := { bytes : List UInt8 // bytes.length ≤ capacity }

structure FileStore (capacity : Nat) where
  name : List UInt8
  file : Option (Fitting capacity)
  staging : Option (Fitting capacity)

/-- A call by what it carries. Bytes that no call may be made with are `none`. -/
inductive StoreCall where
  | matchesName (name : Option (List UInt8))
  | clear
  | inspect
  | begin
  | append (source : Option (List UInt8))
  | abort
  | commit
  deriving DecidableEq

inductive StoreAnswer where
  | matched (found : Bool)
  | done
  | file (bytes : Option (List UInt8))
  | result (result : FtpStorageResult)
  deriving DecidableEq

namespace FileStore

variable {capacity : Nat}

def start (capacity : Nat) (name : List UInt8) : FileStore capacity := ⟨name, none, none⟩

def named (s : FileStore capacity) : Option (List UInt8) → Bool
  | none => false
  | some name => name == s.name || name == 0x2f :: s.name

/-- Append to what is staged, as a whole or not at all. -/
def stage (s : FileStore capacity) (staged : Fitting capacity) :
    Option (List UInt8) → FtpStorageResult × FileStore capacity
  | none => (.invalidArgument, s)
  | some bytes =>
      if h : (staged.val ++ bytes).length ≤ capacity then
        (.ok, { s with staging := some ⟨staged.val ++ bytes, h⟩ })
      else (.capacity, s)

def append (s : FileStore capacity) (source : Option (List UInt8)) :
    FtpStorageResult × FileStore capacity :=
  match s.staging with
  | none => (.invalidState, s)
  | some staged => s.stage staged source

def begin (s : FileStore capacity) : FtpStorageResult × FileStore capacity :=
  match s.staging with
  | some _ => (.invalidState, s)
  | none => (.ok, { s with staging := some ⟨[], Nat.zero_le _⟩ })

def commit (s : FileStore capacity) : FtpStorageResult × FileStore capacity :=
  match s.staging with
  | none => (.invalidState, s)
  | some staged => (.ok, { s with file := some staged, staging := none })

def answer : StoreCall → FileStore capacity → StoreAnswer × FileStore capacity
  | .matchesName name, s => (.matched (s.named name), s)
  | .clear, s => (.done, { s with file := none, staging := none })
  | .inspect, s => (.file (s.file.map Subtype.val), s)
  | .begin, s => (.result s.begin.1, s.begin.2)
  | .append source, s => (.result (s.append source).1, (s.append source).2)
  | .abort, s => (.done, { s with staging := none })
  | .commit, s => (.result s.commit.1, s.commit.2)

end FileStore

/-! ## Two banks represent a store -/

/-- The file of a view. -/
def FtpStorageView.file (v : FtpStorageView) : Option (List UInt8) :=
  if v.present then some v.data else Option.none

structure Represents {capacity : Nat} (f : RamFile) (s : FileStore capacity) : Prop where
  sized : f.Sized
  capacity : f.capacity = capacity
  name : s.name = f.basename
  file : s.file.map Subtype.val = f.inspect.file
  staging : s.staging.map Subtype.val = if f.uploading then some f.staged else none

section Represents

variable {capacity : Nat} {f : RamFile} {s : FileStore capacity}

theorem Represents.idle (h : Represents f s) (hup : f.uploading = false) :
    s.staging = none := by
  have hs := h.staging
  rw [hup] at hs
  exact Option.map_eq_none_iff.mp hs

theorem Represents.upload (h : Represents f s) (hup : f.uploading = true) :
    ∃ staged, s.staging = some staged ∧ staged.val = f.staged := by
  have hs := h.staging
  rw [hup, if_pos rfl] at hs
  exact Option.map_eq_some_iff.mp hs

theorem length_staged (h : f.Sized) : f.staged.length = f.stagingLength := by
  have hbank := h.bank (!f.committed)
  have hstaging := h.staging
  rw [RamFile.staged, List.length_take]
  omega

theorem Represents.begin (h : Represents f s) :
    f.begin.1 = s.begin.1 ∧ Represents f.begin.2 s.begin.2 := by
  unfold RamFile.begin FileStore.begin
  cases hup : f.uploading with
  | true =>
      obtain ⟨staged, hs, -⟩ := h.upload hup
      rw [hs]
      exact ⟨rfl, h⟩
  | false =>
      rw [h.idle hup]
      exact ⟨rfl, ⟨h.sized.bank, h.sized.committed, Nat.zero_le _⟩, h.capacity, h.name, h.file,
        rfl⟩

theorem Represents.append (h : Represents f s) (overlaps : Bool) (bytes : List UInt8) :
    (f.append overlaps bytes).1 =
        (s.append (if bytes.length ≠ 0 ∧ overlaps then none else some bytes)).1 ∧
      Represents (f.append overlaps bytes).2
        (s.append (if bytes.length ≠ 0 ∧ overlaps then none else some bytes)).2 := by
  cases hup : f.uploading with
  | false =>
      unfold FileStore.append RamFile.append
      rw [h.idle hup, hup]
      exact ⟨rfl, h⟩
  | true =>
      obtain ⟨staged, hs, hstaged⟩ := h.upload hup
      have hlen := length_staged h.sized
      have hbound := h.sized.staging
      have hcapacity := h.capacity
      unfold FileStore.append
      rw [hs]
      by_cases hnone : bytes.length ≠ 0 ∧ overlaps = true
      · rw [if_pos hnone]
        unfold RamFile.append
        rw [hup, if_neg nofun, if_neg hnone.1, if_pos hnone.2]
        exact ⟨rfl, h⟩
      rw [if_neg hnone]
      unfold FileStore.stage
      dsimp only
      have hroom : (staged.val ++ bytes).length ≤ capacity ↔
          bytes.length ≤ f.capacity - f.stagingLength := by
        rw [List.length_append, hstaged, hlen]
        omega
      by_cases hle : bytes.length ≤ f.capacity - f.stagingLength
      · rw [dif_pos (hroom.mpr hle)]
        have hok : (f.append overlaps bytes).1 = .ok := by
          unfold RamFile.append
          rw [hup, if_neg nofun]
          split
          · rfl
          · next hne =>
              rw [if_neg fun ho => hnone ⟨hne, ho⟩, if_neg (Nat.not_lt.mpr hle)]
        have heq : (FtpStorageResult.ok, (f.append overlaps bytes).2) =
            f.append overlaps bytes := Prod.ext hok.symm rfl
        obtain ⟨hsized, hkept, huploading, hbytes⟩ := RamFile.append_ok h.sized heq
        have hname : (f.append overlaps bytes).2.basename = f.basename := by
          unfold RamFile.append RamFile.setBank
          cases f.committed <;> grind
        refine ⟨hok, hsized, hkept.capacity.trans hcapacity, h.name.trans hname.symm, ?_, ?_⟩
        · rw [hkept.inspect]
          exact h.file
        · rw [huploading, hup, if_pos rfl, hbytes, Option.map_some, ← hstaged]
      · rw [dif_neg (mt hroom.mp hle)]
        have hne : bytes.length ≠ 0 := fun h0 => hle (h0 ▸ Nat.zero_le _)
        unfold RamFile.append
        rw [hup, if_neg nofun, if_neg hne, if_neg fun ho => hnone ⟨hne, ho⟩,
          if_pos (Nat.not_le.mp hle)]
        exact ⟨rfl, h⟩

theorem Represents.commit (h : Represents f s) :
    f.commit.1 = s.commit.1 ∧ Represents f.commit.2 s.commit.2 := by
  cases hup : f.uploading with
  | false =>
      unfold RamFile.commit FileStore.commit
      rw [h.idle hup, hup]
      exact ⟨rfl, h⟩
  | true =>
      obtain ⟨staged, hs, hstaged⟩ := h.upload hup
      have hsame : f.commit.2.capacity = f.capacity ∧ f.commit.2.basename = f.basename := by
        unfold RamFile.commit
        rw [hup]
        exact ⟨rfl, rfl⟩
      generalize hc : f.commit = out at hsame ⊢
      obtain ⟨r, f'⟩ := out
      obtain ⟨rfl, hsized, hview, hidle⟩ := RamFile.commit_uploading h.sized hup hc.symm
      unfold FileStore.commit
      rw [hs]
      refine ⟨rfl, hsized, hsame.1.trans h.capacity, h.name.trans hsame.2.symm, ?_, ?_⟩
      · show some staged.val = f'.inspect.file
        rw [hview, hstaged]
        rfl
      · show none = _
        rw [hidle]
        rfl

end Represents

/-! ## An object in memory is two banks -/

/-- A write inside a range overwrites a part of what the range reads as. -/
theorem read_write_inside {m : ByteMem} {a off n : Nat} {bs : List UInt8}
    (h : off + bs.length ≤ n) :
    (m.write (a + off) bs).read a n = patch (m.read a n) off bs := by
  obtain ⟨k, rfl⟩ := Nat.exists_eq_add_of_le h
  have hfront : (m.write (a + off) bs).read a off = m.read a off :=
    ((ByteMem.within_write m (a + off) bs).agree (.inl (Nat.le_refl _))).read_eq.symm
  have hback : (m.write (a + off) bs).read (a + (off + bs.length)) k =
      m.read (a + (off + bs.length)) k :=
    ((ByteMem.within_write m (a + off) bs).agree (.inr (by omega))).read_eq.symm
  have hlen : (m.read a (off + bs.length)).length = off + bs.length := ByteMem.length_read _ _ _
  rw [ByteMem.read_add, hback, ByteMem.read_add, ByteMem.read_write_same, hfront, patch,
    ByteMem.read_add m a (off + bs.length) k, List.drop_left' hlen, List.append_assoc,
    ByteMem.read_add m a off bs.length, List.append_assoc,
    List.take_left' (ByteMem.length_read _ _ _)]

namespace RamWorld

/-- The file that the pointers of an object show. -/
def image (w : RamWorld) (nameLength : Nat) : RamFile where
  capacity := w.object.capacity
  bank0 := w.memory.read w.object.buffer0 w.object.capacity
  bank1 := w.memory.read w.object.buffer1 w.object.capacity
  basename := w.memory.read w.object.basename nameLength
  committedLength := w.object.committedLength
  stagingLength := w.object.stagingLength
  committed := w.object.committed
  present := w.object.present
  uploading := w.object.uploading

/-- Two ranges without a common address. -/
def Apart (a n b k : Nat) : Prop := a + n ≤ b ∨ b + k ≤ a

/-- What the initializer establishes: the banks and the basename lie apart, and the name is
one. -/
structure Placed (nameLength : Nat) (w : RamWorld) : Prop where
  banks : Apart w.object.buffer0 w.object.capacity w.object.buffer1 w.object.capacity
  name0 : Apart w.object.buffer0 w.object.capacity w.object.basename (nameLength + 1)
  name1 : Apart w.object.buffer1 w.object.capacity w.object.basename (nameLength + 1)
  pointer : ∀ i, w.object.buffer i ≠ null
  named : 0 < nameLength ∧ nameLength ≤ ftpStorageNameMax
  characters : ∀ i < nameLength, nameCharacter (w.memory (w.object.basename + i))
  terminator : w.memory (w.object.basename + nameLength) = 0
  committed : w.object.committedLength ≤ w.object.capacity
  staging : w.object.stagingLength ≤ w.object.capacity
  absent : w.object.present = false → w.object.committedLength = 0

variable {target : Target} {nameLength : Nat} {w : RamWorld}

theorem bank_image (i : Bool) :
    (w.image nameLength).bank i = w.memory.read (w.object.buffer i) w.object.capacity := by
  cases i <;> rfl

theorem Placed.sized (h : w.Placed nameLength) : (w.image nameLength).Sized where
  bank i := by
    rw [bank_image]
    exact ByteMem.length_read _ _ _
  committed := h.committed
  staging := h.staging

/-- The bank that an upload fills lies apart from the committed one. -/
theorem Placed.other (h : w.Placed nameLength) (i : Bool) :
    Apart (w.object.buffer !i) w.object.capacity (w.object.buffer i) w.object.capacity := by
  cases i
  · exact h.banks.symm
  · exact h.banks

theorem Placed.name (h : w.Placed nameLength) (i : Bool) :
    Apart (w.object.buffer i) w.object.capacity w.object.basename (nameLength + 1) := by
  cases i
  · exact h.name0
  · exact h.name1

/-- What an append that copies leaves in memory. -/
theorem Placed.written (h : w.Placed nameLength) {bytes : List UInt8}
    (hle : bytes.length ≤ w.object.capacity - w.object.stagingLength) :
    let m := w.memory.write
      (w.object.buffer (!w.object.committed) + w.object.stagingLength) bytes
    (∀ x, w.object.basename ≤ x → x < w.object.basename + (nameLength + 1) → m x = w.memory x) ∧
    m.read (w.object.buffer w.object.committed) w.object.capacity =
      w.memory.read (w.object.buffer w.object.committed) w.object.capacity ∧
    m.read (w.object.buffer !w.object.committed) w.object.capacity =
      patch (w.memory.read (w.object.buffer !w.object.committed) w.object.capacity)
        w.object.stagingLength bytes := by
  intro m
  have hstaging := h.staging
  have hwithin : ByteMem.Within w.memory m (w.object.buffer (!w.object.committed))
      w.object.capacity :=
    (ByteMem.within_write _ _ _).mono (by omega) (by omega)
  refine ⟨fun x hlo hhi => ?_, ?_, read_write_inside (by omega)⟩
  · refine hwithin x ?_
    obtain hn | hn := h.name (!w.object.committed)
    · exact .inr (by omega)
    · exact .inl (by omega)
  · exact (hwithin.agree (h.other w.object.committed).symm).read_eq.symm

/-! ## The calls -/

/-- Where the bytes of an append may not lie: at NULL, past the end of the address space, or
in anything of the file's. -/
def Refused (target : Target) (w : RamWorld) (bytes length : Nat) : Prop :=
  bytes = null ∨ target.uintptrMax < bytes + length ∨
    ¬ (Apart bytes length w.object.buffer0 w.object.capacity ∧
      Apart bytes length w.object.buffer1 w.object.capacity ∧
      Apart bytes length w.object.context target.objectSize)

instance (target : Target) (w : RamWorld) (bytes length : Nat) :
    Decidable (Refused target w bytes length) := by
  unfold Refused Apart
  infer_instance

/-- The object and its banks end in the address space. -/
structure Inside (target : Target) (w : RamWorld) : Prop where
  buffer0 : w.object.buffer0 + w.object.capacity ≤ target.uintptrMax
  buffer1 : w.object.buffer1 + w.object.capacity ≤ target.uintptrMax
  object : w.object.context + target.objectSize ≤ target.uintptrMax

theorem rangeMake_eq {pointer length : Nat} (h : pointer + length ≤ target.uintptrMax) :
    rangeMake target pointer length = some ⟨pointer, pointer + length⟩ := by
  unfold rangeMake
  rw [if_neg (by omega)]

theorem rangeMake_none {pointer length : Nat} (hlen : length ≠ 0)
    (h : target.uintptrMax < pointer + length) : rangeMake target pointer length = none := by
  unfold rangeMake
  rw [if_pos (by omega)]

theorem rangesOverlap_iff {a n b k : Nat} :
    rangesOverlap ⟨a, a + n⟩ ⟨b, b + k⟩ = false ↔ Apart a n b k := by
  simp only [rangesOverlap, Bool.and_eq_false_iff, decide_eq_false_iff_not, Apart]
  omega

theorem sourceFits_iff (h : w.Inside target) {bytes length : Nat} (hlen : length ≠ 0) :
    w.sourceFits target bytes length = false ↔ Refused target w bytes length := by
  have hclear : ∀ {source pointer n}, pointer + n ≤ target.uintptrMax →
      clearOf target source pointer n = !rangesOverlap source ⟨pointer, pointer + n⟩ := by
    intro source pointer n hn
    rw [clearOf, rangeMake_eq hn]
  unfold sourceFits Refused
  by_cases hnull : bytes = null
  · rw [if_pos hnull]
    exact iff_of_true rfl (.inl hnull)
  rw [if_neg hnull]
  by_cases hend : target.uintptrMax < bytes + length
  · rw [rangeMake_none hlen hend]
    exact iff_of_true rfl (.inr (.inl hend))
  rw [rangeMake_eq (Nat.not_lt.mp hend)]
  simp only [hclear h.buffer0, hclear h.buffer1, hclear h.object, hnull, hend, false_or,
    ← rangesOverlap_iff]
  simp only [Bool.and_eq_false_iff, Bool.not_eq_false', ← Bool.not_eq_false, not_and_or, or_assoc]

end RamWorld

/-- A call as the store sees it. -/
def RamCall.asked (target : Target) (w : RamWorld) : RamCall → StoreCall
  | .matchesName name length =>
      .matchesName (if name = null then none else some (w.memory.read name length))
  | .clear => .clear
  | .inspect => .inspect
  | .begin => .begin
  | .append bytes length =>
      .append (if length ≠ 0 ∧ RamWorld.Refused target w bytes length then none
        else some (w.memory.read bytes length))
  | .abort => .abort
  | .commit => .commit

/-- A view is the bytes behind it. -/
def RamAnswer.seen (memory : ByteMem) : RamAnswer → StoreAnswer
  | .matched found => .matched found
  | .done => .done
  | .view v => .file (if v.present then some (memory.read v.data v.length) else none)
  | .result r => .result r

def seeing (target : Target) (w : RamWorld) (e : RamEvent) (w' : RamWorld) :
    Option (StoreCall × StoreAnswer) :=
  match e with
  | .call call answer => some (call.asked target w, answer.seen w'.memory)
  | .outside => none

namespace RamWorld

variable {target : Target} {nameLength : Nat} {w : RamWorld}

theorem image_begin : (w.image nameLength).begin =
    (w.begin.1, w.begin.2.image nameLength) := by
  unfold RamFile.begin RamWorld.begin
  show (if w.object.uploading = true then _ else _) = _
  split <;> rfl

theorem image_commit : (w.image nameLength).commit =
    (w.commit.1, w.commit.2.image nameLength) := by
  unfold RamFile.commit RamWorld.commit
  show (if (!w.object.uploading) = true then _ else _) = _
  split <;> rfl

/-- What the name reads as behind a write to a bank. -/
theorem Placed.name_written (h : w.Placed nameLength) {bytes : List UInt8}
    (hle : bytes.length ≤ w.object.capacity - w.object.stagingLength) :
    (w.memory.write (w.object.buffer (!w.object.committed) + w.object.stagingLength) bytes).read
      w.object.basename nameLength = w.memory.read w.object.basename nameLength := by
  refine (ByteMem.read_eq_iff_agree.mpr fun x hlo hhi => ?_)
  exact (h.written hle).1 x hlo (by omega)

theorem Placed.image_append (h : w.Placed nameLength) {bytes length : Nat} :
    (w.image nameLength).append (!w.sourceFits target bytes length)
        (w.memory.read bytes length) =
      ((w.append target bytes length).1, (w.append target bytes length).2.image nameLength) := by
  unfold RamFile.append RamWorld.append
  rw [ByteMem.length_read]
  show (if (!w.object.uploading) = true then _ else _) = _
  split
  · rfl
  split
  · rfl
  split
  · rfl
  show (if length > w.object.capacity - w.object.stagingLength then _ else _) = _
  split
  · rfl
  next hle =>
  have hle' : (w.memory.read bytes length).length ≤
      w.object.capacity - w.object.stagingLength := by
    rw [ByteMem.length_read]
    exact Nat.not_lt.mp hle
  obtain ⟨-, hkept, hpatched⟩ := h.written hle'
  have hname := h.name_written hle'
  cases hc : w.object.committed <;> rw [hc] at hkept hpatched hname <;>
    simp only [RamFile.setBank, image, RamObject.buffer, hc, Bool.not_true, Bool.not_false,
      if_true, RamFile.bank, Bool.false_eq_true, if_false] at hkept hpatched hname ⊢ <;>
    simp only [hkept, hpatched, hname]

/-! ## The name -/

theorem basenameLength_eq {memory : ByteMem} {basename len : Nat}
    (hend : memory (basename + len) = 0) {k : Nat} :
    ∀ {n : Nat}, n ≤ len → len ≤ n + k →
      (∀ i, n ≤ i → i < len → memory (basename + i) ≠ 0) →
      basenameLength memory basename n k = len := by
  induction k with
  | zero =>
      intro n hlo hhi _
      exact Nat.le_antisymm hlo hhi
  | succ k ih =>
      intro n hlo hhi hne
      unfold basenameLength
      by_cases hn : n = len
      · rw [if_pos (by rw [hn]; exact hend), hn]
      · have hlt : n < len := Nat.lt_of_le_of_ne hlo hn
        rw [if_neg (hne n (Nat.le_refl n) hlt)]
        exact ih hlt (by omega) fun i hi => hne i (Nat.le_of_succ_le hi)

theorem Placed.length_name (h : w.Placed nameLength) :
    basenameLength w.memory w.object.basename 0 ftpStorageNameMax = nameLength := by
  refine basenameLength_eq h.terminator (Nat.zero_le _) (by have := h.named; omega) ?_
  intro i _ hi hzero
  have hchar := h.characters i hi
  rw [hzero] at hchar
  exact absurd hchar (by decide)

theorem read_cons (m : ByteMem) (a n : Nat) : m.read a (n + 1) = m a :: m.read (a + 1) n := by
  rw [Nat.add_comm, ByteMem.read_add]
  rfl

/-- No name begins with a slash. -/
theorem Placed.slash (h : w.Placed nameLength) (bytes : List UInt8) :
    0x2f :: bytes ≠ w.memory.read w.object.basename nameLength := by
  obtain ⟨n, hn⟩ := Nat.exists_eq_succ_of_ne_zero (Nat.ne_of_gt h.named.1)
  have hchar := h.characters 0 h.named.1
  rw [hn, read_cons]
  intro heq
  rw [Nat.add_zero, ← (List.cons.inj heq).1] at hchar
  exact absurd hchar (by decide)

theorem read_eq_read {m : ByteMem} {a b n k : Nat} :
    n = k ∧ m.read a n = m.read b n ↔ m.read a n = m.read b k := by
  constructor
  · rintro ⟨rfl, h⟩
    exact h
  · intro h
    have hlen := congrArg List.length h
    rw [ByteMem.length_read, ByteMem.length_read] at hlen
    subst hlen
    exact ⟨rfl, h⟩

theorem Placed.matchesName (h : w.Placed nameLength) {name length : Nat} :
    w.matchesName name length = true ↔ name ≠ null ∧
      (w.memory.read name length = w.memory.read w.object.basename nameLength ∨
        w.memory.read name length = 0x2f :: w.memory.read w.object.basename nameLength) := by
  have hnamed := h.named
  have hlen : (w.memory.read w.object.basename nameLength).length = nameLength :=
    ByteMem.length_read _ _ _
  unfold RamWorld.matchesName
  dsimp only
  rw [h.length_name]
  by_cases hnull : name = null
  · rw [if_pos (.inl hnull)]
    exact iff_of_false nofun fun hc => hc.1 hnull
  by_cases hout : length = 0 ∨ length > ftpStorageNameMax + 1
  · rw [if_pos (.inr hout)]
    refine iff_of_false nofun fun ⟨_, hc⟩ => ?_
    obtain hc | hc := hc
    · have hl := congrArg List.length hc
      rw [ByteMem.length_read, hlen] at hl
      omega
    · have hl := congrArg List.length hc
      rw [ByteMem.length_read, List.length_cons, hlen] at hl
      omega
  rw [if_neg (not_or.mpr ⟨hnull, hout⟩)]
  obtain ⟨n, rfl⟩ := Nat.exists_eq_succ_of_ne_zero (fun h0 => hout (.inl h0))
  have hand : ∀ a k, (k == nameLength && w.memory.read a k ==
      w.memory.read w.object.basename k) = true ↔
      w.memory.read a k = w.memory.read w.object.basename nameLength := by
    intro a k
    rw [Bool.and_eq_true, beq_iff_eq, beq_iff_eq]
    exact read_eq_read
  by_cases hslash : w.memory name = 0x2f
  · rw [if_pos hslash]
    refine (hand (name + 1) n).trans ?_
    rw [Nat.succ_eq_add_one, read_cons, hslash, List.cons_inj_right]
    exact ⟨fun hc => ⟨hnull, .inr hc⟩, fun hc => hc.2.resolve_left (h.slash _)⟩
  · rw [if_neg hslash]
    refine (hand name (n + 1)).trans ?_
    refine ⟨fun hc => ⟨hnull, .inl hc⟩, fun hc => hc.2.resolve_right fun hs => hslash ?_⟩
    rw [Nat.succ_eq_add_one, read_cons] at hs
    exact (List.cons.inj hs).1

/-! ## The initializer -/

/-- The scan found the name: its characters, its terminator, and its range. -/
structure Scanned (target : Target) (memory : ByteMem) (basename n len : Nat) : Prop where
  fits : basename + len + 1 ≤ target.uintptrMax
  characters : ∀ i, n ≤ i → i < len → nameCharacter (memory (basename + i))
  terminator : memory (basename + len) = 0

theorem scanName_some {memory : ByteMem} {basename len : Nat} {range : RamRange} {k : Nat} :
    ∀ {n : Nat}, scanName target memory basename n k = some (len, range) →
      n ≤ len ∧ range = ⟨basename, basename + (len + 1)⟩ ∧
        Scanned target memory basename n len := by
  induction k with
  | zero =>
      intro n h
      cases h
  | succ k ih =>
      intro n h
      unfold scanName rangeMake at h
      split at h
      · cases h
      next range' hrange =>
      split at hrange
      · cases hrange
      next hfits =>
      cases hrange
      split at h
      · next hend =>
          cases h
          refine ⟨Nat.le_refl _, rfl, by omega, fun i hlo hhi => ?_, hend⟩
          exact absurd hhi (Nat.not_lt.mpr hlo)
      · next hend =>
          split at h
          · cases h
          next hchar =>
          rw [Bool.not_eq_true, Bool.not_eq_false'] at hchar
          obtain ⟨hle, hr, hscan⟩ := ih h
          refine ⟨Nat.le_of_succ_le hle, hr, hscan.fits, fun i hlo hhi => ?_, hscan.terminator⟩
          obtain rfl | hlt := Nat.eq_or_lt_of_le hlo
          · exact hchar
          · exact hscan.characters i hlt hhi

theorem rangeMake_some {pointer length : Nat} {range : RamRange}
    (h : rangeMake target pointer length = some range) :
    range = ⟨pointer, pointer + length⟩ ∧ (length ≠ 0 → pointer + length ≤ target.uintptrMax) := by
  unfold rangeMake at h
  split at h
  · cases h
  · cases h
    exact ⟨rfl, fun _ => by omega⟩

/-- The object that a successful initialization leaves. -/
def freshObject (file bufferA bufferB capacity basename : Nat) : RamObject where
  context := file
  capacity := capacity
  buffer0 := bufferA
  buffer1 := bufferB
  basename := basename
  committedLength := 0
  stagingLength := 0
  committed := false
  present := false
  uploading := false

theorem ramFileInit_some {memory : ByteMem} {file bufferA bufferB capacity basename : Nat}
    {object : RamObject}
    (h : ramFileInit target memory file bufferA bufferB capacity basename = some object) :
    object = freshObject file bufferA bufferB capacity basename ∧
      Inside target ⟨object, memory⟩ ∧ ∃ len, Placed len ⟨object, memory⟩ := by
  unfold ramFileInit at h
  split at h
  · cases h
  next hargs =>
  split at h
  · cases h
  split at h
  · cases h
  split at h
  · next range rangeA rangeB len name hrange hrangeA hrangeB hname =>
      split at h
      · cases h
      next hlen =>
      split at h
      · cases h
      next hover =>
      cases h
      obtain ⟨rfl, hobject⟩ := rangeMake_some hrange
      obtain ⟨rfl, hfitA⟩ := rangeMake_some hrangeA
      obtain ⟨rfl, hfitB⟩ := rangeMake_some hrangeB
      obtain ⟨-, rfl, hscan⟩ := scanName_some hname
      simp only [not_or] at hargs hlen
      obtain ⟨-, hA, hB, -, hcapacity⟩ := hargs
      simp only [anyOverlap, List.any_cons, List.any_nil, Bool.or_false, Bool.or_eq_true,
        not_or, Bool.not_eq_true, rangesOverlap_iff] at hover
      obtain ⟨-, ⟨hbanks, hname0⟩, hname1⟩ := hover
      refine ⟨rfl, ⟨hfitA hcapacity, hfitB hcapacity,
        hobject (Nat.ne_of_gt target.objectSize_pos)⟩, len, ?_⟩
      exact {
        banks := hbanks
        name0 := hname0
        name1 := hname1
        pointer := fun i => by cases i <;> assumption
        named := ⟨Nat.pos_of_ne_zero hlen.1, Nat.not_lt.mp hlen.2.1⟩
        characters := fun i hi => hscan.characters i (Nat.zero_le i) hi
        terminator := hscan.terminator
        committed := Nat.zero_le _
        staging := Nat.zero_le _
        absent := fun _ => rfl }
  · cases h

/-! ## Steps -/

/-- The calls keep the pointers, and the memory of the basename. -/
structure Framed (nameLength : Nat) (w w' : RamWorld) : Prop where
  context : w'.object.context = w.object.context
  capacity : w'.object.capacity = w.object.capacity
  buffer : ∀ i, w'.object.buffer i = w.object.buffer i
  basename : w'.object.basename = w.object.basename
  name : ∀ x, w.object.basename ≤ x → x < w.object.basename + (nameLength + 1) →
    w'.memory x = w.memory x

theorem Framed.refl (w : RamWorld) : Framed nameLength w w :=
  ⟨rfl, rfl, fun _ => rfl, rfl, fun _ _ _ => rfl⟩

theorem Framed.inside {w' : RamWorld} (h : Framed nameLength w w') (hin : Inside target w) :
    Inside target w' where
  buffer0 := by
    rw [h.capacity, show w'.object.buffer0 = _ from h.buffer false]
    exact hin.buffer0
  buffer1 := by
    rw [h.capacity, show w'.object.buffer1 = _ from h.buffer true]
    exact hin.buffer1
  object := by
    rw [h.context]
    exact hin.object

/-- What is left to say of a step for its state to be placed again. -/
theorem Framed.placed {w' : RamWorld} (h : Framed nameLength w w') (hp : w.Placed nameLength)
    (hcommitted : w'.object.committedLength ≤ w'.object.capacity)
    (hstaging : w'.object.stagingLength ≤ w'.object.capacity)
    (habsent : w'.object.present = false → w'.object.committedLength = 0) :
    w'.Placed nameLength where
  banks := by
    rw [h.capacity, show w'.object.buffer0 = _ from h.buffer false,
      show w'.object.buffer1 = _ from h.buffer true]
    exact hp.banks
  name0 := by
    rw [h.capacity, h.basename, show w'.object.buffer0 = _ from h.buffer false]
    exact hp.name0
  name1 := by
    rw [h.capacity, h.basename, show w'.object.buffer1 = _ from h.buffer true]
    exact hp.name1
  pointer i := by
    rw [h.buffer]
    exact hp.pointer i
  named := hp.named
  characters i hi := by
    rw [h.basename, h.name _ (Nat.le_add_right _ _) (by omega)]
    exact hp.characters i hi
  terminator := by
    rw [h.basename, h.name _ (Nat.le_add_right _ _) (by omega)]
    exact hp.terminator
  committed := hcommitted
  staging := hstaging
  absent := habsent

theorem append_cases (target : Target) (w : RamWorld) (bytes length : Nat) :
    ((w.append target bytes length).2 = w) ∨
    (w.append target bytes length).1 = .ok ∧
      length ≤ w.object.capacity - w.object.stagingLength ∧
      (w.append target bytes length).2 = {
        memory := w.memory.write
          (w.object.buffer (!w.object.committed) + w.object.stagingLength)
          (w.memory.read bytes length)
        object := { w.object with stagingLength := w.object.stagingLength + length } } := by
  unfold RamWorld.append
  split
  · exact .inl rfl
  split
  · exact .inl rfl
  split
  · exact .inl rfl
  split
  · exact .inl rfl
  next hle => exact .inr ⟨rfl, Nat.not_lt.mp hle, rfl⟩

/-- Every call keeps what the initializer established. -/
theorem Placed.perform (h : w.Placed nameLength) (target : Target) (call : RamCall) :
    Framed nameLength w (w.perform target call).2 ∧
      (w.perform target call).2.Placed nameLength := by
  have hsame : Framed nameLength w w := .refl w
  cases call with
  | matchesName name length => exact ⟨hsame, h⟩
  | inspect => exact ⟨hsame, h⟩
  | clear =>
      have hframed : Framed nameLength w w.clear := ⟨rfl, rfl, fun _ => rfl, rfl, fun _ _ _ => rfl⟩
      exact ⟨hframed, hframed.placed h (Nat.zero_le _) (Nat.zero_le _) fun _ => rfl⟩
  | abort =>
      have hframed : Framed nameLength w w.abortUpload :=
        ⟨rfl, rfl, fun _ => rfl, rfl, fun _ _ _ => rfl⟩
      exact ⟨hframed, hframed.placed h h.committed (Nat.zero_le _) h.absent⟩
  | begin =>
      show Framed nameLength w w.begin.2 ∧ w.begin.2.Placed nameLength
      unfold RamWorld.begin
      split
      · exact ⟨hsame, h⟩
      · have hframed : Framed nameLength w { w with object :=
            { w.object with stagingLength := 0, uploading := true } } :=
          ⟨rfl, rfl, fun _ => rfl, rfl, fun _ _ _ => rfl⟩
        exact ⟨hframed, hframed.placed h h.committed (Nat.zero_le _) h.absent⟩
  | append bytes length =>
      show Framed nameLength w (w.append target bytes length).2 ∧ _
      obtain heq | ⟨-, hle, heq⟩ := append_cases target w bytes length
      · rw [heq]
        exact ⟨hsame, heq.symm ▸ h⟩
      · have hle' : (w.memory.read bytes length).length ≤
            w.object.capacity - w.object.stagingLength := by
          rw [ByteMem.length_read]
          exact hle
        have hstaging := h.staging
        have hframed : Framed nameLength w (w.append target bytes length).2 := by
          rw [heq]
          exact ⟨rfl, rfl, fun _ => rfl, rfl, (h.written hle').1⟩
        refine ⟨hframed, hframed.placed h ?_ ?_ ?_⟩
        · rw [heq]
          exact h.committed
        · rw [heq]
          show w.object.stagingLength + length ≤ w.object.capacity
          omega
        · rw [heq]
          exact h.absent
  | commit =>
      show Framed nameLength w w.commit.2 ∧ w.commit.2.Placed nameLength
      unfold RamWorld.commit
      split
      · exact ⟨hsame, h⟩
      · have hframed : Framed nameLength w { w with object := { w.object with
            committed := !w.object.committed
            committedLength := w.object.stagingLength
            present := true
            stagingLength := 0
            uploading := false } } :=
          ⟨rfl, rfl, fun _ => rfl, rfl, fun _ _ _ => rfl⟩
        exact ⟨hframed, hframed.placed h h.staging (Nat.zero_le _) nofun⟩

/-! ## The simulation -/

structure Follows {capacity : Nat} (target : Target) (nameLength : Nat) (w : RamWorld)
    (s : FileStore capacity) : Prop where
  placed : w.Placed nameLength
  inside : w.Inside target
  represents : Represents (w.image nameLength) s

theorem take_read {m : ByteMem} {a n k : Nat} (h : k ≤ n) : (m.read a n).take k = m.read a k := by
  obtain ⟨r, rfl⟩ := Nat.exists_eq_add_of_le h
  rw [ByteMem.read_add, List.take_left' (ByteMem.length_read _ _ _)]

/-- The bytes behind the view of the object. -/
theorem Placed.inspect (h : w.Placed nameLength) :
    (w.image nameLength).inspect.file =
      if w.inspect.present then some (w.memory.read w.inspect.data w.inspect.length)
      else none := by
  have hcommitted := h.committed
  unfold FtpStorageView.file RamFile.inspect RamWorld.inspect
  rw [bank_image]
  cases hpresent : w.object.present
  · simp only [image, hpresent, Bool.false_eq_true, if_false]
  · simp only [image, hpresent, if_true, take_read hcommitted]

section Follows

variable {capacity : Nat} {s : FileStore capacity}

theorem Follows.named (h : Follows target nameLength w s) (name length : Nat) :
    s.named (if name = null then none else some (w.memory.read name length)) =
      w.matchesName name length := by
  have hname : s.name = w.memory.read w.object.basename nameLength := h.represents.name
  refine Bool.eq_iff_iff.mpr (Iff.trans ?_ h.placed.matchesName.symm)
  split
  · next hnull => exact iff_of_false nofun fun hc => hc.1 hnull
  · next hnull =>
      show (_ == s.name || _ == 0x2f :: s.name) = true ↔ _
      rw [hname, Bool.or_eq_true, beq_iff_eq, beq_iff_eq]
      exact ⟨fun hc => ⟨hnull, hc⟩, And.right⟩

theorem Follows.append (h : Follows target nameLength w s) (bytes length : Nat) :
    (w.append target bytes length).1 =
        (s.append (if length ≠ 0 ∧ Refused target w bytes length then none
          else some (w.memory.read bytes length))).1 ∧
      Represents ((w.append target bytes length).2.image nameLength)
        (s.append (if length ≠ 0 ∧ Refused target w bytes length then none
          else some (w.memory.read bytes length))).2 := by
  have happend := h.represents.append (!w.sourceFits target bytes length)
    (w.memory.read bytes length)
  rw [h.placed.image_append, ByteMem.length_read] at happend
  have hsource : (if length ≠ 0 ∧ (!w.sourceFits target bytes length) = true then none
      else some (w.memory.read bytes length)) =
      if length ≠ 0 ∧ Refused target w bytes length then none
        else some (w.memory.read bytes length) := by
    refine if_congr (and_congr_right fun hlen => ?_) rfl rfl
    rw [Bool.not_eq_true', sourceFits_iff h.inside hlen]
  rw [hsource] at happend
  exact happend

/-- The calls are answered by the store. -/
theorem Follows.perform (h : Follows target nameLength w s) (call : RamCall) :
    (FileStore.answer (call.asked target w) s).1 =
        (w.perform target call).1.seen (w.perform target call).2.memory ∧
      Follows target nameLength (w.perform target call).2
        (FileStore.answer (call.asked target w) s).2 := by
  obtain ⟨hframed, hplaced⟩ := h.placed.perform target call
  have hinside := hframed.inside h.inside
  have hr := h.represents
  cases call with
  | matchesName name length =>
      exact ⟨congrArg StoreAnswer.matched (h.named name length), h⟩
  | inspect => exact ⟨congrArg StoreAnswer.file (hr.file.trans h.placed.inspect), h⟩
  | clear =>
      exact ⟨rfl, hplaced, hinside, hplaced.sized, hr.capacity, hr.name, rfl, rfl⟩
  | abort =>
      exact ⟨rfl, hplaced, hinside, hplaced.sized, hr.capacity, hr.name, hr.file, rfl⟩
  | begin =>
      have hbegin := hr.begin
      rw [image_begin] at hbegin
      exact ⟨congrArg StoreAnswer.result hbegin.1.symm, hplaced, hinside, hbegin.2⟩
  | append bytes length =>
      obtain ⟨hresult, hnext⟩ := h.append bytes length
      exact ⟨congrArg StoreAnswer.result hresult.symm, hplaced, hinside, hnext⟩
  | commit =>
      have hcommit := hr.commit
      rw [image_commit] at hcommit
      exact ⟨congrArg StoreAnswer.result hcommit.1.symm, hplaced, hinside, hcommit.2⟩

/-- What the rest of the program may write shows in nothing of the file's. -/
theorem outside_owned {memory : ByteMem}
    (h : ByteMem.Inside w.memory memory fun x => ¬ w.object.Owns nameLength x) {x : Nat}
    (hx : w.object.Owns nameLength x) : memory x = w.memory x :=
  h x (not_not_intro hx)

theorem outside_bank {memory : ByteMem}
    (h : ByteMem.Inside w.memory memory fun x => ¬ w.object.Owns nameLength x) (i : Bool) :
    memory.read (w.object.buffer i) w.object.capacity =
      w.memory.read (w.object.buffer i) w.object.capacity := by
  refine ByteMem.read_eq_iff_agree.mpr fun x hlo hhi => outside_owned h ?_
  cases i
  · exact .inl ⟨hlo, hhi⟩
  · exact .inr (.inl ⟨hlo, hhi⟩)

theorem Follows.outside (h : Follows target nameLength w s) {memory : ByteMem}
    (hm : ByteMem.Inside w.memory memory fun x => ¬ w.object.Owns nameLength x) :
    Follows target nameLength { w with memory := memory } s := by
  have hname : ∀ x, w.object.basename ≤ x → x < w.object.basename + (nameLength + 1) →
      memory x = w.memory x := fun x hlo hhi => outside_owned hm (.inr (.inr ⟨hlo, hhi⟩))
  have hframed : Framed nameLength w { w with memory := memory } :=
    ⟨rfl, rfl, fun _ => rfl, rfl, hname⟩
  refine ⟨hframed.placed h.placed h.placed.committed h.placed.staging h.placed.absent,
    hframed.inside h.inside, ?_⟩
  have himage : RamWorld.image { w with memory := memory } nameLength = w.image nameLength := by
    have h0 := outside_bank hm false
    have h1 := outside_bank hm true
    have hn : memory.read w.object.basename nameLength =
        w.memory.read w.object.basename nameLength :=
      ByteMem.read_eq_iff_agree.mpr fun x hlo hhi => hname x hlo (by omega)
    simp only [RamObject.buffer, Bool.false_eq_true, if_false, if_true] at h0 h1
    simp only [image, h0, h1, hn]
  rw [himage]
  exact h.represents

end Follows

theorem follows_simulates (target : Target) (nameLength capacity : Nat) :
    Simulates (RamStep target nameLength) (seeing target)
      (@FileStore.answer capacity) (Follows target nameLength) where
  call h hstep hsee := by
    cases hstep with
    | call call =>
        cases hsee
        exact h.perform call
    | outside memory hm => cases hsee
  silent h hstep hsee := by
    cases hstep with
    | call call => cases hsee
    | outside memory hm => exact h.outside hm

/-! ## Failures and views -/

/-- A call that fails changes nothing. -/
theorem perform_failed {call : RamCall} {r : FtpStorageResult} (hr : r ≠ .ok)
    (h : (w.perform target call).1 = .result r) : (w.perform target call).2 = w := by
  cases call with
  | matchesName name length => rfl
  | inspect => rfl
  | clear => cases h
  | abort => cases h
  | begin =>
      show w.begin.2 = w
      have h' : w.begin.1 = r := RamAnswer.result.inj h
      unfold RamWorld.begin at h' ⊢
      split at h'
      · next hup => rw [if_pos hup]
      · exact absurd h'.symm hr
  | append bytes length =>
      obtain heq | ⟨hok, -, -⟩ := append_cases target w bytes length
      · exact heq
      · have h' : (w.append target bytes length).1 = r := RamAnswer.result.inj h
        exact absurd (h'.symm.trans hok) hr
  | commit =>
      show w.commit.2 = w
      have h' : w.commit.1 = r := RamAnswer.result.inj h
      unfold RamWorld.commit at h' ⊢
      split at h'
      · next hup => rw [if_pos hup]
      · exact absurd h'.symm hr

/-- The committed bank is where it was, with the bytes it had. -/
structure Retains (w w' : RamWorld) : Prop where
  committed : w'.object.committed = w.object.committed
  buffer : w'.object.buffer w.object.committed = w.object.buffer w.object.committed
  capacity : w'.object.capacity = w.object.capacity
  bytes : w'.memory.read (w.object.buffer w.object.committed) w.object.capacity =
    w.memory.read (w.object.buffer w.object.committed) w.object.capacity

theorem Retains.refl (w : RamWorld) : Retains w w := ⟨rfl, rfl, rfl, rfl⟩

theorem Retains.trans {w₁ w₂ : RamWorld} (h : Retains w w₁) (h' : Retains w₁ w₂) :
    Retains w w₂ where
  committed := h'.committed.trans h.committed
  buffer := by
    have hbuffer := h'.buffer
    rw [h.committed] at hbuffer
    exact hbuffer.trans h.buffer
  capacity := h'.capacity.trans h.capacity
  bytes := by
    have hbytes := h'.bytes
    rw [h.committed, h.buffer, h.capacity] at hbytes
    exact hbytes.trans h.bytes

theorem Placed.retains (h : w.Placed nameLength) {call : RamCall}
    (hcall : call = .commit → (w.perform target call).1 ≠ .result .ok) :
    Retains w (w.perform target call).2 := by
  cases call with
  | matchesName name length => exact .refl w
  | inspect => exact .refl w
  | clear => exact ⟨rfl, rfl, rfl, rfl⟩
  | abort => exact ⟨rfl, rfl, rfl, rfl⟩
  | begin =>
      show Retains w w.begin.2
      unfold RamWorld.begin
      split
      · exact .refl w
      · exact ⟨rfl, rfl, rfl, rfl⟩
  | append bytes length =>
      show Retains w (w.append target bytes length).2
      obtain heq | ⟨-, hle, heq⟩ := append_cases target w bytes length
      · rw [heq]
        exact .refl w
      · rw [heq]
        refine ⟨rfl, rfl, rfl, ?_⟩
        exact (h.written (by rw [ByteMem.length_read]; exact hle)).2.1
  | commit =>
      have hfailed : RamAnswer.result w.commit.1 ≠ .result .ok := hcall rfl
      show Retains w w.commit.2
      unfold RamWorld.commit at hfailed ⊢
      split at hfailed
      · next hup =>
          rw [if_pos hup]
          exact .refl w
      · exact absurd rfl hfailed

theorem step_retains {e : RamEvent} {w' : RamWorld} (hp : w.Placed nameLength)
    (h : RamStep target nameLength w e w') (he : e ≠ .call .commit (.result .ok)) :
    w'.Placed nameLength ∧ Retains w w' := by
  cases h with
  | call call =>
      refine ⟨(hp.perform target call).2, hp.retains fun hc hok => he ?_⟩
      rw [hok, hc]
  | outside memory hm =>
      have hname : ∀ x, w.object.basename ≤ x → x < w.object.basename + (nameLength + 1) →
          memory x = w.memory x := fun x hlo hhi => outside_owned hm (.inr (.inr ⟨hlo, hhi⟩))
      have hframed : Framed nameLength w { w with memory := memory } :=
        ⟨rfl, rfl, fun _ => rfl, rfl, hname⟩
      exact ⟨hframed.placed hp hp.committed hp.staging hp.absent, rfl, rfl, rfl,
        outside_bank hm w.object.committed⟩

/-- Without a commit that succeeds the committed bank keeps its bytes. -/
theorem run_retains {w' : RamWorld} {rest : List (RamEvent × RamWorld)}
    (h : Run (RamStep target nameLength) w rest w') (hp : w.Placed nameLength)
    (hrest : ∀ x ∈ rest, x.1 ≠ .call .commit (.result .ok)) : Retains w w' := by
  induction h with
  | nil => exact .refl _
  | cons hs _ ih =>
      obtain ⟨he, hrest⟩ := List.forall_mem_cons.mp hrest
      obtain ⟨hp', hretains⟩ := step_retains hp hs he
      exact hretains.trans (ih hp' hrest)

/-- The bytes behind a view, as long as its bank keeps them. -/
theorem Retains.view {w' : RamWorld} (h : Retains w w') (hp : w.Placed nameLength) :
    w'.memory.read w.inspect.data w.inspect.length =
      w.memory.read w.inspect.data w.inspect.length := by
  unfold RamWorld.inspect
  cases hpresent : w.object.present with
  | false =>
      dsimp only
      rw [hp.absent hpresent]
      rfl
  | true =>
      dsimp only
      rw [if_pos rfl, ← take_read hp.committed, ← take_read hp.committed, h.bytes]

end RamWorld

/-! ## Runs -/

/-- From a configuration that the initializer accepts, every run of calls, whatever the rest
of the program writes outside of what is the file's, is answered as the store answers. What is
staged fits, a call that fails changes nothing, no begin, append or abort moves the file, and
the bytes behind a view stay until a commit succeeds. -/
theorem ram_file_store {target : Target} {memory : ByteMem}
    {file bufferA bufferB capacity basename : Nat} {object : RamObject}
    (h : ramFileInit target memory file bufferA bufferB capacity basename = some object) :
    ∃ nameLength, memory (basename + nameLength) = 0 ∧
      (∀ i < nameLength, memory (basename + i) ≠ 0) ∧
      ∀ tr w, Run (RamStep target nameLength) ⟨object, memory⟩ tr w →
        answers FileStore.answer (.start capacity (memory.read basename nameLength))
            ((observed (seeing target) ⟨object, memory⟩ tr).map Prod.fst) =
          (observed (seeing target) ⟨object, memory⟩ tr).map Prod.snd ∧
        w.object.stagingLength ≤ capacity ∧
        (w.inspect.present = false → w.inspect = ⟨null, 0, false⟩) ∧
        (w.inspect.present = true → w.inspect.data ≠ null) ∧
        (∀ call r, r ≠ .ok → (w.perform target call).1 = .result r →
          (w.perform target call).2 = w) ∧
        (∀ call, call = .begin ∨ call = .abort ∨ (∃ bytes length, call = .append bytes length) →
          (w.perform target call).2.inspect = w.inspect) ∧
        ∀ rest w', Run (RamStep target nameLength) w rest w' →
          (∀ x ∈ rest, x.1 ≠ .call .commit (.result .ok)) →
          w'.memory.read w.inspect.data w.inspect.length =
            w.memory.read w.inspect.data w.inspect.length := by
  obtain ⟨rfl, hinside, nameLength, hplaced⟩ := RamWorld.ramFileInit_some h
  refine ⟨nameLength, hplaced.terminator, fun i hi hzero => ?_, fun tr w hrun => ?_⟩
  · have hchar : nameCharacter (memory (basename + i)) = true := hplaced.characters i hi
    rw [hzero] at hchar
    exact absurd hchar (by decide)
  have hstart : RamWorld.Follows target nameLength
      ⟨RamWorld.freshObject file bufferA bufferB capacity basename, memory⟩
      (FileStore.start capacity (memory.read basename nameLength)) :=
    ⟨hplaced, hinside, hplaced.sized, rfl, rfl, rfl, rfl⟩
  obtain ⟨hanswers, hw⟩ := hrun.simulates
    (RamWorld.follows_simulates target nameLength capacity) hstart
  have hcapacity : w.object.capacity = capacity := hw.represents.capacity
  refine ⟨hanswers, hcapacity ▸ hw.placed.staging, fun hpresent => ?_, fun hpresent => ?_,
    fun call r hr hc => RamWorld.perform_failed hr hc, fun call hc => ?_,
    fun rest w' hrest hother => (RamWorld.run_retains hrest hw.placed hother).view hw.placed⟩
  · have habsent : w.object.present = false := hpresent
    unfold RamWorld.inspect
    rw [habsent, hw.placed.absent habsent]
    rfl
  · have hthere : w.object.present = true := hpresent
    unfold RamWorld.inspect
    dsimp only
    rw [if_pos hthere]
    exact hw.placed.pointer _
  · obtain rfl | rfl | ⟨bytes, length, rfl⟩ := hc
    · show w.begin.2.inspect = w.inspect
      unfold RamWorld.begin
      split <;> rfl
    · rfl
    · show (w.append target bytes length).2.inspect = w.inspect
      obtain heq | ⟨-, -, heq⟩ := RamWorld.append_cases target w bytes length
      · rw [heq]
      · rw [heq]
        rfl

/-- The calls of a run. -/
def performed (target : Target) (w : RamWorld) : List RamCall → List (RamEvent × RamWorld)
  | [] => []
  | call :: calls =>
      (.call call (w.perform target call).1, (w.perform target call).2) ::
        performed target (w.perform target call).2 calls

def performedEnd (target : Target) (w : RamWorld) : List RamCall → RamWorld
  | [] => w
  | call :: calls => performedEnd target (w.perform target call).2 calls

theorem run_performed (target : Target) (nameLength : Nat) (w : RamWorld)
    (calls : List RamCall) :
    Run (RamStep target nameLength) w (performed target w calls) (performedEnd target w calls) := by
  induction calls generalizing w with
  | nil => exact .nil w
  | cons call calls ih => exact .cons (.call w call) (ih _)

/-- The microcontroller's addresses, with an object of 40 bytes. -/
def armTarget : Target := ⟨0xffffffff, 0xffffffff, 0xffffffff, 40, by decide⟩

/-- A name of one character at 100, and bytes to append at 200. -/
def ramMemory : ByteMem := fun x => if x = 100 then 0x66 else if x < 200 then 0 else 7

/-- An upload up to the capacity, an append out of the bank that is filled, and a commit. -/
theorem ram_file_store_full :
    ∃ w, (∃ tr, Run (RamStep armTarget 1) ⟨RamWorld.freshObject 10 60 64 4 100, ramMemory⟩ tr w) ∧
      w.inspect = ⟨64, 4, true⟩ ∧
      ∀ rest w', Run (RamStep armTarget 1) w rest w' →
        (∀ x ∈ rest, x.1 ≠ .call .commit (.result .ok)) →
        w'.memory.read 64 4 = [7, 7, 7, 7] := by
  have hinit : ramFileInit armTarget ramMemory 10 60 64 4 100 =
      some (RamWorld.freshObject 10 60 64 4 100) := by rfl
  have hrun := run_performed armTarget 1 ⟨RamWorld.freshObject 10 60 64 4 100, ramMemory⟩
    [.begin, .append 200 3, .append 61 1, .append 204 2, .append 204 1, .commit]
  obtain ⟨n, hend, hname, hall⟩ := ram_file_store hinit
  have hn : n = 1 := by
    obtain h0 | h1 | h2 : n = 0 ∨ n = 1 ∨ 1 < n := by omega
    · rw [h0] at hend
      exact absurd hend (by decide)
    · exact h1
    · exact absurd rfl (hname 1 h2)
  rw [hn] at hall
  obtain ⟨-, -, -, -, -, -, hview⟩ := hall _ _ hrun
  exact ⟨_, ⟨_, hrun⟩, rfl, fun rest w' hrest hother => (hview rest w' hrest hother).trans rfl⟩

end EkBareMetal.Ftp

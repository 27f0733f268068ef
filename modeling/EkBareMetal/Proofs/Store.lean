import EkBareMetal.Proofs.Validity
import EkBareMetal.Boot.Store
import EkBareMetal.Lib.Memory

/-!
# What the store calls answer

Whatever the adapter answers: a load that succeeds names a valid record and
only reads; a replacement that succeeds names exactly the record it was asked
to write, in the other page, and writes nowhere but in that page.
-/

namespace EkBareMetal.Boot

open Words Interact

theorem select_ok {page0 page1 : List UInt8} {m : BootMetadata} {page : UInt32}
    (h : bootMetadataSelect page0 page1 = .ok (m, page)) :
    (page = 0 ∧ bootMetadataDecode page0 = .ok m) ∨
      (page = 1 ∧ bootMetadataDecode page1 = .ok m) := by
  unfold bootMetadataSelect at h
  split at h
  · cases h
  · next v0 v1 h0 h1 =>
      split at h
      · cases h
      split at h
      · injection h with h
        simp only [Prod.mk.injEq] at h
        obtain ⟨rfl, rfl⟩ := h
        exact .inr ⟨rfl, h1⟩
      · injection h with h
        simp only [Prod.mk.injEq] at h
        obtain ⟨rfl, rfl⟩ := h
        exact .inl ⟨rfl, h0⟩
  · next v0 e h0 h1 =>
      injection h with h
      simp only [Prod.mk.injEq] at h
      obtain ⟨rfl, rfl⟩ := h
      exact .inl ⟨rfl, h0⟩
  · next e v1 h0 h1 =>
      injection h with h
      simp only [Prod.mk.injEq] at h
      obtain ⟨rfl, rfl⟩ := h
      exact .inr ⟨rfl, h1⟩

theorem storeSelect_ok {page0 page1 : List UInt8} {s : BootStoreSnapshot}
    (h : storeSelect page0 page1 = .ok s) :
    bootMetadataSelect page0 page1 = .ok (s.record, s.page) := by
  unfold storeSelect at h
  split at h
  · cases h
  · cases h
  · cases h
  · next r p hs =>
      injection h with h
      subst h
      exact hs

/-- A snapshot a load can answer: valid, in page 0 or page 1. -/
structure Loadable (s : BootStoreSnapshot) : Prop where
  record : MetadataOk s.record
  page : s.page = 0 ∨ s.page = 1

theorem storeSelect_loadable {page0 page1 : List UInt8} {s : BootStoreSnapshot}
    (h : storeSelect page0 page1 = .ok s) : Loadable s := by
  rcases select_ok (storeSelect_ok h) with ⟨hp, hd⟩ | ⟨hp, hd⟩
  · exact ⟨metadataValidate_eq_ok.mp (decode_ok_validate hd), .inl hp⟩
  · exact ⟨metadataValidate_eq_ok.mp (decode_ok_validate hd), .inr hp⟩

/-- A store request that changes nothing. -/
def IsRead (e : Event StoreSig) : Prop := ∃ address size, e.op = .read address size

/-- A request that writes nowhere but in metadata page `page`. -/
def WritesPage (page : UInt32) (e : Event StoreSig) : Prop :=
  IsRead e ∨ e.op = .erasePage (pageAddress page) ∨
    ∃ i word, i < 168 ∧
      e.op = .programWord (pageAddress page + UInt32.ofNat i) word

theorem load_safe : Safe IsRead bootStoreLoad fun r =>
    ∀ s, r = .ok s → Loadable s := by
  unfold bootStoreLoad
  refine safe_ask fun r => ⟨⟨_, _, rfl⟩, ?_⟩
  split
  · exact safe_pure fun s hs => by cases hs
  refine safe_ask fun r => ⟨⟨_, _, rfl⟩, ?_⟩
  split
  · exact safe_pure fun s hs => by cases hs
  · exact safe_pure fun s hs => storeSelect_loadable hs

theorem stageWords_safe (page : UInt32) (wanted : List UInt8) (n i : Nat)
    (h : i + 4 * n ≤ 164) :
    Safe (WritesPage page) (stageWords (pageAddress page) wanted n i)
      fun _ => True := by
  induction n generalizing i with
  | zero => exact safe_pure trivial
  | succ n ih =>
      refine safe_ask fun done => ⟨.inr (.inr ⟨i, _, by omega, rfl⟩), ?_⟩
      split
      · exact safe_pure trivial
      · exact ih (i + bootProgramBytes) (by simp only [bootProgramBytes]; omega)

theorem commit_address (a : UInt32) : a + 168 - 4 = a + 164 := by grind

theorem commitRecord_safe (expected : BootStoreSnapshot) (desired : BootMetadata)
    (page : UInt32) :
    Safe (WritesPage page) (commitRecord expected desired (pageAddress page))
      fun r => ∀ s, r = .ok s → Loadable s ∧ MetadataOk s.record ∧
        metadataWire s.record bootCommitValid =
          metadataWire desired bootCommitValid ∧ s.page = 1 - expected.page := by
  unfold commitRecord
  rw [commit_address]
  refine safe_ask fun done => ⟨.inr (.inr ⟨164, bootCommitValid, by omega, rfl⟩), ?_⟩
  split
  · exact safe_pure fun s hs => by cases hs
  refine safe_ask fun r => ⟨.inl ⟨_, _, rfl⟩, ?_⟩
  split
  · exact safe_pure fun s hs => by cases hs
  split
  · exact safe_pure fun s hs => by cases hs
  refine safe_bind (load_safe.mono (fun e he => .inl he) fun a ha => ha)
    fun r hr => ?_
  split
  · exact safe_pure fun s hs => by cases hs
  split
  · exact safe_pure fun s hs => by cases hs
  next snapshot hpage =>
  split
  · exact safe_pure fun s hs => by cases hs
  next henc =>
  refine safe_pure fun s hs => ?_
  injection hs with hs
  subst hs
  obtain ⟨hv, hw⟩ := encode_ok (not_not.mp henc)
  exact ⟨hr _ rfl, metadataValidate_eq_ok.mp hv, hw.symm, not_not.mp hpage⟩

/-- What a replacement that answers OK has done. -/
structure Replaced (expected : BootStoreSnapshot) (desired : BootMetadata)
    (s : BootStoreSnapshot) : Prop where
  record : s.record = desired
  page : s.page = 1 - expected.page
  valid : MetadataOk desired
  sequence : desired.sequence = expected.record.sequence + 1

theorem replace_safe (expected : BootStoreSnapshot) (desired : BootMetadata) :
    Safe (WritesPage (1 - expected.page)) (bootStoreReplace expected desired)
      fun r => ∀ s, r = .ok s → Replaced expected desired s := by
  unfold bootStoreReplace
  split
  · exact safe_pure fun s hs => by cases hs
  split
  · exact safe_pure fun s hs => by cases hs
  · exact safe_pure fun s hs => by cases hs
  next old wanted hold hwanted =>
  obtain ⟨hdv, -⟩ := encode_ok hwanted
  split
  · exact safe_pure fun s hs => by cases hs
  next n hn =>
  split
  · exact safe_pure fun s hs => by cases hs
  next hseq =>
  refine safe_bind (load_safe.mono (fun e he => .inl he) fun a ha => ha)
    fun r hr => ?_
  split
  · exact safe_pure fun s hs => by cases hs
  next snapshot =>
  split
  · exact safe_pure fun s hs => by cases hs
  split
  · exact safe_pure fun s hs => by cases hs
  next hsame =>
  simp only [not_or, not_not] at hsame
  rw [hsame.1]
  have hsequence : desired.sequence = expected.record.sequence + 1 := by
    rw [not_not.mp hseq]
    unfold bootMetadataNextSequence at hn
    split at hn
    · split at hn
      · cases hn
      · injection hn with hn
        exact hn.symm
    · cases hn
  unfold stageRecord
  refine safe_ask fun erased => ⟨.inr (.inl rfl), ?_⟩
  split
  · exact safe_pure fun s hs => by cases hs
  refine safe_ask fun blank => ⟨.inl ⟨_, _, rfl⟩, ?_⟩
  split
  · exact safe_pure fun s hs => by cases hs
  split
  · exact safe_pure fun s hs => by cases hs
  refine safe_bind (stageWords_safe _ _ stagedWords 0 (by simp)) fun staged _ => ?_
  split
  · exact safe_pure fun s hs => by cases hs
  refine safe_ask fun readback => ⟨.inl ⟨_, _, rfl⟩, ?_⟩
  split
  · exact safe_pure fun s hs => by cases hs
  split
  · exact safe_pure fun s hs => by cases hs
  refine (commitRecord_safe expected desired _).mono (fun e he => he)
    fun r hr s hs => ?_
  obtain ⟨-, hm, hw, hp⟩ := hr s hs
  exact ⟨wire_injective (metadataValidate_eq_ok.mpr hm) hdv hw, hp,
    metadataValidate_eq_ok.mp hdv, hsequence⟩

/-! ## A working adapter -/

/-- The answers of an adapter that reads `mem` and never fails. -/
def storeAnswers (mem : ByteMem) : (op : StoreOp) → StoreSig.Ans op
  | .read address size =>
      some ⟨mem.read address.toNat size, ByteMem.length_readAt mem address size⟩
  | .erasePage _ => true
  | .programWord _ _ => true

theorem board_load (mem : ByteMem) :
    bootStoreLoad.eval (storeAnswers mem) =
      storeSelect (mem.read bootMetadataPage0.toNat 168)
        (mem.read bootMetadataPage1.toNat 168) := rfl

end EkBareMetal.Boot

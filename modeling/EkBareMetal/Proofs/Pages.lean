import EkBareMetal.Proofs.Codec

/-!
# Which of the two pages has authority

A page either decodes or counts as empty. The cases of the selection are the
four pairs of answers; where both pages decode under one sequence, the bytes
are compared, and since an accepted wire is the encoding of its record, equal
bytes and equal records are the same thing.
-/

namespace EkBareMetal.Boot

open Words

variable {page0 page1 : List UInt8} {m m' : BootMetadata} {out : BootMetadata} {page : UInt32}

/-- The page that a page index names. -/
def pageAt (page0 page1 : List UInt8) (page : UInt32) : List UInt8 :=
  if page = 0 then page0 else page1

/-- Both pages decode under one sequence, and their records' bytes differ. -/
def Contested (page0 page1 : List UInt8) : Prop :=
  ∃ m m', bootMetadataDecode page0 = .ok m ∧ bootMetadataDecode page1 = .ok m' ∧
    m.sequence = m'.sequence ∧ page0.take bootMetadataBytes ≠ page1.take bootMetadataBytes

def Unrecorded (page0 page1 : List UInt8) : Prop :=
  (∀ m, bootMetadataDecode page0 ≠ .ok m) ∧ ∀ m, bootMetadataDecode page1 ≠ .ok m

/-- Pages that decode and agree in a record's bytes hold one record. -/
theorem decode_same (h0 : bootMetadataDecode page0 = .ok m)
    (h1 : bootMetadataDecode page1 = .ok m')
    (hsame : page0.take bootMetadataBytes = page1.take bootMetadataBytes) : m = m' := by
  have hwire : metadataWire m bootCommitValid = metadataWire m' bootCommitValid := by
    rw [decode_canonical h0, decode_canonical h1, hsame]
  exact wire_injective (decode_ok_validate h0) (decode_ok_validate h1) hwire

/-! ## The four cases -/

theorem selectInto_none (h : Unrecorded page0 page1) :
    bootMetadataSelectInto page0 page1 out page = (.errorNoRecord, out, page) := by
  obtain ⟨h0, h1⟩ := h
  unfold bootMetadataSelectInto bootMetadataSelect
  cases hd0 : bootMetadataDecode page0 with
  | ok v => exact absurd hd0 (h0 v)
  | error e0 =>
      cases hd1 : bootMetadataDecode page1 with
      | ok v => exact absurd hd1 (h1 v)
      | error e1 => rfl

theorem selectInto_first (h0 : bootMetadataDecode page0 = .ok m)
    (h1 : ∀ m', bootMetadataDecode page1 ≠ .ok m') :
    bootMetadataSelectInto page0 page1 out page = (.ok, m, 0) := by
  unfold bootMetadataSelectInto bootMetadataSelect
  rw [h0]
  cases hd1 : bootMetadataDecode page1 with
  | ok v => exact absurd hd1 (h1 v)
  | error e1 => rfl

theorem selectInto_second (h0 : ∀ m', bootMetadataDecode page0 ≠ .ok m')
    (h1 : bootMetadataDecode page1 = .ok m) :
    bootMetadataSelectInto page0 page1 out page = (.ok, m, 1) := by
  unfold bootMetadataSelectInto bootMetadataSelect
  rw [h1]
  cases hd0 : bootMetadataDecode page0 with
  | ok v => exact absurd hd0 (h0 v)
  | error e0 => rfl

theorem selectInto_both (h0 : bootMetadataDecode page0 = .ok m)
    (h1 : bootMetadataDecode page1 = .ok m') :
    bootMetadataSelectInto page0 page1 out page =
      if m.sequence = m'.sequence ∧
          page0.take bootMetadataBytes ≠ page1.take bootMetadataBytes then
        (.errorConflict, out, page)
      else if m.sequence < m'.sequence then (.ok, m', 1)
      else (.ok, m, 0) := by
  unfold bootMetadataSelectInto bootMetadataSelect
  rw [h0, h1]
  dsimp only
  by_cases hc : m.sequence = m'.sequence ∧
      page0.take bootMetadataBytes ≠ page1.take bootMetadataBytes
  · rw [if_pos hc, if_pos hc]
  rw [if_neg hc, if_neg hc]
  by_cases hlt : m.sequence < m'.sequence
  · rw [if_pos hlt, if_pos hlt]
  · rw [if_neg hlt, if_neg hlt]

theorem selectInto_same (h0 : bootMetadataDecode page0 = .ok m)
    (h1 : bootMetadataDecode page1 = .ok m')
    (hsame : page0.take bootMetadataBytes = page1.take bootMetadataBytes) :
    bootMetadataSelectInto page0 page1 out page = (.ok, m, 0) := by
  obtain rfl := decode_same h0 h1 hsame
  rw [selectInto_both h0 h1, if_neg fun hc => hc.2 hsame, if_neg (UInt32.lt_irrefl _)]

theorem selectInto_less (h0 : bootMetadataDecode page0 = .ok m)
    (h1 : bootMetadataDecode page1 = .ok m') (hlt : m.sequence < m'.sequence) :
    bootMetadataSelectInto page0 page1 out page = (.ok, m', 1) := by
  rw [selectInto_both h0 h1, if_neg fun hc => UInt32.ne_of_lt hlt hc.1, if_pos hlt]

theorem selectInto_greater (h0 : bootMetadataDecode page0 = .ok m)
    (h1 : bootMetadataDecode page1 = .ok m') (hlt : m'.sequence < m.sequence) :
    bootMetadataSelectInto page0 page1 out page = (.ok, m, 0) := by
  have hge : ¬ m.sequence < m'.sequence := UInt32.not_lt.mpr (UInt32.le_of_lt hlt)
  rw [selectInto_both h0 h1, if_neg fun hc => UInt32.ne_of_lt hlt hc.1.symm, if_neg hge]

theorem selectInto_contested (h : Contested page0 page1) :
    bootMetadataSelectInto page0 page1 out page = (.errorConflict, out, page) := by
  obtain ⟨m, m', h0, h1, hc⟩ := h
  rw [selectInto_both h0 h1, if_pos hc]

theorem decodes_or (wire : List UInt8) :
    (∃ m, bootMetadataDecode wire = .ok m) ∨ ∀ m, bootMetadataDecode wire ≠ .ok m := by
  cases h : bootMetadataDecode wire with
  | ok m => exact .inl ⟨m, rfl⟩
  | error e => exact .inr fun m => nofun

/-- What the selection can do, each with what it finds. -/
theorem selectInto_cases (page0 page1 : List UInt8) (out : BootMetadata) (page : UInt32) :
    (Unrecorded page0 page1 ∧
      bootMetadataSelectInto page0 page1 out page = (.errorNoRecord, out, page)) ∨
    (Contested page0 page1 ∧
      bootMetadataSelectInto page0 page1 out page = (.errorConflict, out, page)) ∨
    ∃ m p, (p = 0 ∨ p = 1) ∧ bootMetadataDecode (pageAt page0 page1 p) = .ok m ∧
      (∀ q m', bootMetadataDecode (pageAt page0 page1 q) = .ok m' → m'.sequence ≤ m.sequence) ∧
      bootMetadataSelectInto page0 page1 out page = (.ok, m, p) := by
  obtain ⟨m, h0⟩ | h0 := decodes_or page0
  · obtain ⟨m', h1⟩ | h1 := decodes_or page1
    · have hseq : ∀ q x, bootMetadataDecode (pageAt page0 page1 q) = .ok x → x = m ∨ x = m' := by
        intro q x hx
        unfold pageAt at hx
        split at hx
        · exact .inl (Except.ok.inj (hx.symm.trans h0))
        · exact .inr (Except.ok.inj (hx.symm.trans h1))
      by_cases hc : m.sequence = m'.sequence ∧
          page0.take bootMetadataBytes ≠ page1.take bootMetadataBytes
      · refine .inr (.inl ⟨⟨m, m', h0, h1, hc⟩, ?_⟩)
        rw [selectInto_both h0 h1, if_pos hc]
      by_cases hlt : m.sequence < m'.sequence
      · refine .inr (.inr ⟨m', 1, .inr rfl, h1, ?_, ?_⟩)
        · intro q x hx
          obtain rfl | rfl := hseq q x hx
          · exact UInt32.le_of_lt hlt
          · exact UInt32.le_refl _
        · rw [selectInto_both h0 h1, if_neg hc, if_pos hlt]
      · refine .inr (.inr ⟨m, 0, .inl rfl, h0, ?_, ?_⟩)
        · intro q x hx
          obtain rfl | rfl := hseq q x hx
          · exact UInt32.le_refl _
          · exact UInt32.not_lt.mp hlt
        · rw [selectInto_both h0 h1, if_neg hc, if_neg hlt]
    · refine .inr (.inr ⟨m, 0, .inl rfl, h0, ?_, selectInto_first h0 h1⟩)
      intro q x hx
      unfold pageAt at hx
      split at hx
      · rw [Except.ok.inj (hx.symm.trans h0)]
        exact UInt32.le_refl _
      · exact absurd hx (h1 x)
  · obtain ⟨m', h1⟩ | h1 := decodes_or page1
    · refine .inr (.inr ⟨m', 1, .inr rfl, h1, ?_, selectInto_second h0 h1⟩)
      intro q x hx
      unfold pageAt at hx
      split at hx
      · exact absurd hx (h0 x)
      · rw [Except.ok.inj (hx.symm.trans h1)]
        exact UInt32.le_refl _
    · exact .inl ⟨⟨h0, h1⟩, selectInto_none ⟨h0, h1⟩⟩

/-! ## The pages exchanged -/

/-- The answer for the pages the other way round. -/
def exchanged (page0 page1 : List UInt8) (r : BootResult × BootMetadata × UInt32) :
    BootResult × BootMetadata × UInt32 :=
  if r.1 = .ok then
    (.ok, r.2.1,
      if page0.take bootMetadataBytes = page1.take bootMetadataBytes then 0 else 1 - r.2.2)
  else r

theorem decode_take (h : bootMetadataBytes ≤ page0.length) :
    bootMetadataDecode (page0.take bootMetadataBytes) = bootMetadataDecode page0 := by
  have hlen : bootMetadataBytes ≤ (page0.take bootMetadataBytes).length := by
    rw [List.length_take]
    omega
  have happ := decode_append hlen (page0.drop bootMetadataBytes)
  rw [List.take_append_drop] at happ
  exact happ.symm

/-- Of two pages that agree in a record's bytes both decode or none. -/
theorem decode_congr (h : bootMetadataDecode page0 = .ok m)
    (hsame : page0.take bootMetadataBytes = page1.take bootMetadataBytes) :
    bootMetadataDecode page1 = .ok m := by
  obtain ⟨ha, -⟩ := decode_ok h
  have hlen0 := ha.length
  have hlen1 : bootMetadataBytes ≤ page1.length := by
    have hlen := congrArg List.length hsame
    rw [List.length_take, List.length_take] at hlen
    omega
  rw [← decode_take hlen1, ← hsame, decode_take hlen0]
  exact h

theorem Contested.symm (h : Contested page0 page1) : Contested page1 page0 := by
  obtain ⟨m, m', h0, h1, heq, hne⟩ := h
  exact ⟨m', m, h1, h0, heq.symm, hne.symm⟩

theorem selectInto_swap (page0 page1 : List UInt8) (out : BootMetadata) (page : UInt32) :
    bootMetadataSelectInto page1 page0 out page =
      exchanged page0 page1 (bootMetadataSelectInto page0 page1 out page) := by
  by_cases hsame : page0.take bootMetadataBytes = page1.take bootMetadataBytes
  · obtain ⟨m, h0⟩ | h0 := decodes_or page0
    · have h1 := decode_congr h0 hsame
      rw [selectInto_same h0 h1 hsame, selectInto_same h1 h0 hsame.symm, exchanged, if_pos rfl,
        if_pos hsame]
    · have h1 : ∀ m, bootMetadataDecode page1 ≠ .ok m :=
        fun m h => h0 m (decode_congr h hsame.symm)
      rw [selectInto_none ⟨h0, h1⟩, selectInto_none ⟨h1, h0⟩, exchanged, if_neg nofun]
  have hindex : ∀ m p, exchanged page0 page1 (.ok, m, p) = (.ok, m, 1 - p) := by
    intro m p
    rw [exchanged, if_pos rfl, if_neg hsame]
  obtain ⟨m, h0⟩ | h0 := decodes_or page0
  · obtain ⟨m', h1⟩ | h1 := decodes_or page1
    · by_cases heq : m.sequence = m'.sequence
      · have hc : Contested page0 page1 := ⟨m, m', h0, h1, heq, hsame⟩
        rw [selectInto_contested hc, selectInto_contested hc.symm, exchanged, if_neg nofun]
      by_cases hlt : m.sequence < m'.sequence
      · rw [selectInto_less h0 h1 hlt, selectInto_greater h1 h0 hlt, hindex, UInt32.sub_self]
      · have hgt : m'.sequence < m.sequence :=
          UInt32.lt_of_le_of_ne (UInt32.not_lt.mp hlt) (Ne.symm heq)
        rw [selectInto_greater h0 h1 hgt, selectInto_less h1 h0 hgt, hindex, UInt32.sub_zero]
    · rw [selectInto_first h0 h1, selectInto_second h1 h0, hindex, UInt32.sub_zero]
  · obtain ⟨m', h1⟩ | h1 := decodes_or page1
    · rw [selectInto_second h0 h1, selectInto_first h1 h0, hindex, UInt32.sub_self]
    · rw [selectInto_none ⟨h0, h1⟩, selectInto_none ⟨h1, h0⟩, exchanged, if_neg nofun]

/-! ## Authority -/

/-- The record selected is the decodable one of the greatest sequence, the pages can
be exchanged, each error has one cause, and an error writes neither output. -/
theorem metadata_authority (page0 page1 : List UInt8) (out : BootMetadata) (page : UInt32) :
    (∀ m p, bootMetadataSelectInto page0 page1 out page = (.ok, m, p) → (p = 0 ∨ p = 1) ∧
      bootMetadataDecode (pageAt page0 page1 p) = .ok m ∧
      ∀ q m', bootMetadataDecode (pageAt page0 page1 q) = .ok m' → m'.sequence ≤ m.sequence) ∧
    bootMetadataSelectInto page1 page0 out page =
      exchanged page0 page1 (bootMetadataSelectInto page0 page1 out page) ∧
    ((bootMetadataSelectInto page0 page1 out page).1 = .ok →
      page0.take bootMetadataBytes = page1.take bootMetadataBytes →
      (bootMetadataSelectInto page0 page1 out page).2.2 = 0) ∧
    ((bootMetadataSelectInto page0 page1 out page).1 = .errorConflict ↔
      Contested page0 page1) ∧
    ((bootMetadataSelectInto page0 page1 out page).1 = .errorNoRecord ↔
      Unrecorded page0 page1) ∧
    ((bootMetadataSelectInto page0 page1 out page).1 ≠ .ok →
      (bootMetadataSelectInto page0 page1 out page).2 = (out, page)) := by
  have hswap := selectInto_swap page0 page1 out page
  obtain ⟨hun, hr⟩ | ⟨hcon, hr⟩ | ⟨m, p, hp, hdec, hmax, hr⟩ :=
    selectInto_cases page0 page1 out page
  · rw [hr] at hswap ⊢
    refine ⟨fun _ _ h => (nomatch h), hswap, nofun, ⟨nofun, fun h => ?_⟩,
      ⟨fun _ => hun, fun _ => rfl⟩, fun _ => rfl⟩
    rw [selectInto_contested h] at hr
    cases hr
  · rw [hr] at hswap ⊢
    refine ⟨fun _ _ h => (nomatch h), hswap, nofun, ⟨fun _ => hcon, fun _ => rfl⟩,
      ⟨nofun, fun h => ?_⟩, fun _ => rfl⟩
    rw [selectInto_none h] at hr
    cases hr
  · rw [hr] at hswap ⊢
    refine ⟨?_, hswap, fun _ hsame => ?_, ⟨nofun, fun h => ?_⟩, ⟨nofun, fun h => ?_⟩,
      fun h => absurd rfl h⟩
    · intro m' p' h
      cases h
      exact ⟨hp, hdec, hmax⟩
    · unfold pageAt at hdec
      split at hdec
      · next h0 => exact h0
      · rw [selectInto_same (decode_congr hdec hsame.symm) hdec hsame] at hr
        cases hr
        rfl
    · rw [selectInto_contested h] at hr
      cases hr
    · rw [selectInto_none h] at hr
      cases hr

/-- The factory record in page 0 and its successor in page 1. -/
theorem metadata_authority_factory :
    let successor := { factoryRecord with sequence := factoryRecord.sequence + 1 }
    let page0 := metadataWire factoryRecord bootCommitValid
    let page1 := metadataWire successor bootCommitValid
    bootMetadataSelectInto page0 page1 factoryRecord 7 = (.ok, successor, 1) ∧
      bootMetadataSelectInto page1 page0 factoryRecord 7 = (.ok, successor, 0) ∧
      factoryRecord.sequence ≤ successor.sequence := by
  intro successor page0 page1
  have h0 : bootMetadataDecode page0 = .ok factoryRecord := decode_wire (by decide +kernel)
  have h1 : bootMetadataDecode page1 = .ok successor := decode_wire (by decide +kernel)
  have hr : bootMetadataSelectInto page0 page1 factoryRecord 7 = (.ok, successor, 1) :=
    selectInto_less h0 h1 (by decide +kernel)
  have hauth := metadata_authority page0 page1 factoryRecord 7
  refine ⟨hr, ?_, (hauth.1 successor 1 hr).2.2 0 factoryRecord h0⟩
  rw [hauth.2.1, hr]
  decide +kernel

end EkBareMetal.Boot

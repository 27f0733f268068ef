import EkBareMetal.Lib.Transition
import EkBareMetal.Proofs.Format
import EkBareMetal.Proofs.Reachable
import EkBareMetal.Proofs.Store

/-!
# Power cuts in the metadata store

The adapter here is a page of flash that may fail, or lose its power, at every
request. One invariant carries everything: some page holds a record, and
nothing the other page decodes to is as new. A replacement works in the other
page only, behind a commit word that is not VALID yet, so it keeps the old
authority until the write of that one word; and whatever that write leaves
behind is either still hidden or already the complete new record.
-/

namespace EkBareMetal.Boot

open Words Interact Transition ByteMem

/-! ## The device -/

/-- What an erase of the page at `a` may leave when it is not completed: in a
metadata page the old contents or contents that do not decode, in any other
page anything. -/
def TornErase (a : UInt32) (m m' : ByteMem) : Prop :=
  Within m m' a.toNat bootEraseBytes ∧
    (a = bootMetadataPage0 ∨ a = bootMetadataPage1 →
      m' = m ∨ ∀ r, bootMetadataDecode (m'.read a.toNat 168) ≠ .ok r)

/-- The memory with the page at `a` erased. -/
def erasePage (a : UInt32) (m : ByteMem) : ByteMem :=
  m.write a.toNat (List.replicate bootEraseBytes 0xff)

/-- The memory with the bits that are clear in `word` cleared at `a`. -/
def programWord (a word : UInt32) (m : ByteMem) : ByteMem :=
  m.write a.toNat (put32 (get32 (m.read a.toNat 4) &&& word))

/-- Flash behind a store adapter. A read answers the truth or fails. An erase
or a program that answers true has been completed; one that answers false, or
is cut, stays within its own page or word. What is left in the word is not
restricted: any subset of the requested bits cleared is one case of it. -/
def pageDevice : Handler StoreSig ByteMem where
  step
    | .read a n, m, ans, m' =>
        m' = m ∧ ∀ b : Bytes n, ans = some b → b.val = m.read a.toNat n
    | .erasePage a, m, done, m' =>
        if done = true then m' = erasePage a m else TornErase a m m'
    | .programWord a word, m, done, m' =>
        if done = true then m' = programWord a word m else Within m m' a.toNat 4
  cut
    | .read _ _, m, m' => m' = m
    | .erasePage a, m, m' => TornErase a m m'
    | .programWord a _, m, m' => Within m m' a.toNat 4

/-! ## Authority -/

/-- The record bytes of a metadata page. -/
def recordBytes (mem : ByteMem) (page : UInt32) : List UInt8 :=
  mem.read (pageAddress page).toNat bootMetadataBytes

/-- Page `page` holds `r`, and the other page holds nothing as new, unless it
is page 1 and the same record once more. -/
structure Authority (mem : ByteMem) (page : UInt32) (r : BootMetadata) :
    Prop where
  known : page = 0 ∨ page = 1
  holds : bootMetadataDecode (recordBytes mem page) = .ok r
  newest : ∀ r', bootMetadataDecode (recordBytes mem (1 - page)) = .ok r' →
    r'.sequence < r.sequence ∨ page = 0 ∧ recordBytes mem 1 = recordBytes mem 0

theorem load_eval (mem : ByteMem) :
    bootStoreLoad.eval (storeAnswers mem) =
      storeSelect (recordBytes mem 0) (recordBytes mem 1) := board_load mem

theorem take_recordBytes (mem : ByteMem) (page : UInt32) :
    (recordBytes mem page).take bootMetadataBytes = recordBytes mem page :=
  List.take_of_length_le (by rw [recordBytes, length_read])

/-- A load through an adapter that works finds the authority. -/
theorem Authority.loaded {mem : ByteMem} {page : UInt32} {r : BootMetadata}
    (h : Authority mem page r) :
    bootStoreLoad.eval (storeAnswers mem) = .ok ⟨r, page⟩ := by
  rw [load_eval]
  obtain ⟨hp, hd, hn⟩ := h
  unfold storeSelect bootMetadataSelect
  rcases hp with rfl | rfl
  · have hn' : ∀ r', bootMetadataDecode (recordBytes mem 1) = .ok r' →
        r'.sequence < r.sequence ∨ recordBytes mem 1 = recordBytes mem 0 :=
      fun r' hr' => (hn r' hr').imp id And.right
    rw [hd]
    cases h1 : bootMetadataDecode (recordBytes mem 1) with
    | error e => rfl
    | ok r' =>
        dsimp only
        rcases hn' r' h1 with hlt | hsame
        · have hne : r.sequence ≠ r'.sequence := by grind
          have hle : ¬ r'.sequence > r.sequence := by grind
          rw [if_neg (fun hc => hne hc.1), if_neg hle]
        · rw [hsame, hd] at h1
          injection h1 with h1
          subst h1
          rw [if_neg (fun hc => hc.2 (by rw [hsame])),
            if_neg (UInt32.lt_irrefl _)]
  · have hn' : ∀ r', bootMetadataDecode (recordBytes mem 0) = .ok r' →
        r'.sequence < r.sequence := fun r' hr' =>
      (hn r' hr').resolve_right (fun hc => absurd hc.1 (by decide))
    rw [hd]
    cases h0 : bootMetadataDecode (recordBytes mem 0) with
    | error e => rfl
    | ok r' =>
        have hlt := hn' r' h0
        have hne : r'.sequence ≠ r.sequence := by grind
        dsimp only
        rw [if_neg (fun hc => hne hc.1), if_pos hlt]

/-- What such a load finds is the authority. -/
theorem authority_of_load {mem : ByteMem} {s : BootStoreSnapshot}
    (h : bootStoreLoad.eval (storeAnswers mem) = .ok s) :
    Authority mem s.page s.record := by
  rw [load_eval] at h
  have hsel := storeSelect_ok h
  unfold bootMetadataSelect at hsel
  split at hsel
  · cases hsel
  · next v0 v1 h0 h1 =>
      split at hsel
      · cases hsel
      next htwin =>
      rw [take_recordBytes, take_recordBytes] at htwin
      split at hsel
      · next hlt =>
          obtain ⟨hr, hp⟩ := Prod.mk.injEq .. ▸ Except.ok.inj hsel
          rw [← hr, ← hp]
          refine ⟨.inr rfl, h1, fun r' hr' => .inl ?_⟩
          rw [show (1 : UInt32) - 1 = 0 from rfl, h0] at hr'
          injection hr' with hr'
          rwa [← hr']
      · next hle =>
          obtain ⟨hr, hp⟩ := Prod.mk.injEq .. ▸ Except.ok.inj hsel
          rw [← hr, ← hp]
          refine ⟨.inl rfl, h0, fun r' hr' => ?_⟩
          rw [show (1 : UInt32) - 0 = 1 from rfl, h1] at hr'
          injection hr' with hr'
          subst hr'
          by_cases heq : v0.sequence = v1.sequence
          · refine .inr ⟨rfl, ?_⟩
            by_contra hne
            exact htwin ⟨heq, fun he => hne he.symm⟩
          · refine .inl ?_
            grind
  · next v0 e h0 h1 =>
      obtain ⟨hr, hp⟩ := Prod.mk.injEq .. ▸ Except.ok.inj hsel
      rw [← hr, ← hp]
      refine ⟨.inl rfl, h0, fun r' hr' => ?_⟩
      rw [show (1 : UInt32) - 0 = 1 from rfl, h1] at hr'
      cases hr'
  · next e v1 h0 h1 =>
      obtain ⟨hr, hp⟩ := Prod.mk.injEq .. ▸ Except.ok.inj hsel
      rw [← hr, ← hp]
      refine ⟨.inr rfl, h1, fun r' hr' => ?_⟩
      rw [show (1 : UInt32) - 1 = 0 from rfl, h0] at hr'
      cases hr'

theorem Authority.unique {mem : ByteMem} {page page' : UInt32}
    {r r' : BootMetadata} (h : Authority mem page r)
    (h' : Authority mem page' r') : page' = page ∧ r' = r := by
  have he := h.loaded
  rw [h'.loaded] at he
  simp only [Except.ok.injEq, BootStoreSnapshot.mk.injEq] at he
  exact ⟨he.2, he.1⟩

/-- The record bytes of one page are away from the other page. -/
theorem pages_apart {page : UInt32} (h : page = 0 ∨ page = 1) :
    (pageAddress (1 - page)).toNat + bootEraseBytes ≤ (pageAddress page).toNat ∨
      (pageAddress page).toNat + bootMetadataBytes ≤
        (pageAddress (1 - page)).toNat := by
  rcases h with rfl | rfl
  · exact .inr (by decide)
  · exact .inl (by decide)

section Authority

variable {mem mem' : ByteMem} {page : UInt32} {r d : BootMetadata}

theorem Authority.recordBytes_eq (h : Authority mem page r)
    (hw : Within mem mem' (pageAddress (1 - page)).toNat bootEraseBytes) :
    recordBytes mem' page = recordBytes mem page := by
  have hagree : Agree mem mem' (pageAddress page).toNat bootMetadataBytes := by
    refine hw.agree ?_
    have := pages_apart h.known
    omega
  exact hagree.read_eq.symm

/-- Work in the other page that stays hidden leaves the authority alone. -/
theorem Authority.hidden (h : Authority mem page r)
    (hw : Within mem mem' (pageAddress (1 - page)).toNat bootEraseBytes)
    (hd : ∀ r', bootMetadataDecode (recordBytes mem' (1 - page)) ≠ .ok r') :
    Authority mem' page r := by
  refine ⟨h.known, ?_, fun r' hr' => absurd hr' (hd r')⟩
  rw [h.recordBytes_eq hw]
  exact h.holds

/-- A newer record in the other page takes the authority over. -/
theorem Authority.superseded (h : Authority mem page r)
    (hw : Within mem mem' (pageAddress (1 - page)).toNat bootEraseBytes)
    (hd : bootMetadataDecode (recordBytes mem' (1 - page)) = .ok d)
    (hlt : r.sequence < d.sequence) : Authority mem' (1 - page) d := by
  have hback : 1 - (1 - page) = page := by
    rcases h.known with hp | hp <;>
    · rw [hp]
      rfl
  refine ⟨?_, hd, fun r' hr' => ?_⟩
  · rcases h.known with hp | hp <;>
    · rw [hp]
      decide
  · rw [hback, h.recordBytes_eq hw, h.holds] at hr'
    injection hr' with hr'
    rw [← hr']
    exact .inl hlt

/-- A torn erase of the other page changes no authority. -/
theorem Authority.torn (h : Authority mem page r)
    (ht : TornErase (pageAddress (1 - page)) mem mem') :
    Authority mem' page r := by
  have hpage : pageAddress (1 - page) = bootMetadataPage0 ∨
      pageAddress (1 - page) = bootMetadataPage1 := by
    rcases h.known with hp | hp
    · rw [hp]
      exact .inr rfl
    · rw [hp]
      exact .inl rfl
  rcases ht.2 hpage with rfl | hd
  · exact h
  · exact h.hidden ht.1 hd

end Authority

/-! ## Hidden work -/

/-- Page `page` holds `r`, and the other page is still without a commit word. -/
def Uncommitted (page : UInt32) (r : BootMetadata) (mem : ByteMem) : Prop :=
  Authority mem page r ∧
    mem.read ((pageAddress (1 - page)).toNat + 164) 4 = List.replicate 4 0xff

section Staging

variable {page : UInt32} {r : BootMetadata} {mem mem' : ByteMem}

theorem recordBytes_commit (mem : ByteMem) (page : UInt32) :
    slice (recordBytes mem page) 164 4 =
      mem.read ((pageAddress page).toNat + 164) 4 := slice_read (by decide)

theorem uncommitted_intro (h : Authority mem page r)
    (hw : Within mem mem' (pageAddress (1 - page)).toNat bootEraseBytes)
    (hc : mem'.read ((pageAddress (1 - page)).toNat + 164) 4 =
      List.replicate 4 0xff) : Uncommitted page r mem' := by
  refine ⟨h.hidden hw ?_, hc⟩
  refine decode_of_commit ?_
  rw [recordBytes_commit, hc]
  decide

/-- A write in front of the commit word keeps the page uncommitted. -/
theorem Uncommitted.write (h : Uncommitted page r mem) {i : Nat}
    (hi : i + 4 ≤ 164)
    (hw : Within mem mem' ((pageAddress (1 - page)).toNat + i) 4) :
    Uncommitted page r mem' := by
  refine uncommitted_intro h.1 (hw.mono (by omega) (by simp; omega)) ?_
  have hagree : Agree mem mem' ((pageAddress (1 - page)).toNat + 164) 4 :=
    hw.agree (by omega)
  rw [← hagree.read_eq, h.2]

theorem within_erasePage (a : UInt32) (m : ByteMem) :
    Within m (erasePage a m) a.toNat bootEraseBytes := by
  have h := within_write m a.toNat (List.replicate bootEraseBytes 0xff)
  rwa [List.length_replicate] at h

theorem within_programWord (a word : UInt32) (m : ByteMem) :
    Within m (programWord a word m) a.toNat 4 := by
  have h := within_write m a.toNat (put32 (get32 (m.read a.toNat 4) &&& word))
  rwa [length_put32] at h

theorem read_programWord (a word : UInt32) (m : ByteMem) :
    (programWord a word m).read a.toNat 4 =
      put32 (get32 (m.read a.toNat 4) &&& word) := by
  have h := read_write_same m a.toNat (put32 (get32 (m.read a.toNat 4) &&& word))
  rwa [length_put32] at h

theorem toNat_pageAddress_add {i : Nat} (hi : i < bootEraseBytes) :
    (pageAddress page + UInt32.ofNat i).toNat = (pageAddress page).toNat + i := by
  simp only [bootEraseBytes] at hi
  have h0 : bootMetadataPage0.toNat = 0x8000 := rfl
  have h1 : bootMetadataPage1.toNat = 0x8400 := rfl
  rw [UInt32.toNat_add, UInt32.toNat_ofNat', pageAddress]
  split <;> omega

/-- The staging loop works behind the missing commit word, wherever it stops. -/
theorem stageWords_wp (wanted : List UInt8) (n i : Nat) (h : i + 4 * n ≤ 164)
    (hm : Uncommitted page r mem) :
    wp pageDevice (fun m => Authority m page r)
      (stageWords (pageAddress (1 - page)) wanted n i)
      (fun _ m => Uncommitted page r m) mem := by
  induction n generalizing i mem with
  | zero => exact hm
  | succ n ih =>
      have ha : (pageAddress (1 - page) + UInt32.ofNat i).toNat =
          (pageAddress (1 - page)).toNat + i :=
        toNat_pageAddress_add (by simp only [bootEraseBytes]; omega)
      have hkeep : ∀ m', Within mem m'
          (pageAddress (1 - page) + UInt32.ofNat i).toNat 4 →
            Uncommitted page r m' := by
        intro m' hw
        rw [ha] at hw
        exact hm.write (by omega) hw
      refine wp_ask_bind.mpr ⟨fun m' hc => (hkeep m' hc).1, fun done m' hs => ?_⟩
      have hm' : Uncommitted page r m' := by
        cases done with
        | false => exact hkeep m' hs
        | true =>
            have hs' : m' = programWord _ _ mem := hs
            rw [hs']
            exact hkeep _ (within_programWord _ _ _)
      cases done with
      | false => exact hm'
      | true => exact ih (i + 4) (by omega) hm'

/-- The record bytes in front of the commit word are those of a staged wire. -/
theorem staged_wire {d : BootMetadata}
    (hs : recordBytes mem page = metadataWire d bootCommitErased)
    (hw : Within mem mem' ((pageAddress page).toNat + 164) 4) :
    recordBytes mem' page = metadataWire d
      (get32 (mem'.read ((pageAddress page).toNat + 164) 4)) := by
  have hbody : ∀ m : ByteMem, recordBytes m page =
      m.read (pageAddress page).toNat 164 ++
        m.read ((pageAddress page).toNat + 164) 4 := fun m => read_add m _ 164 4
  have hagree : Agree mem mem' (pageAddress page).toNat 164 :=
    hw.agree (.inl (by omega))
  have hsplit : ∀ c, metadataWire d c =
      (metadataBody d ++ put32 (bootCrc32 (metadataBody d))) ++ put32 c :=
    fun c => (List.append_assoc _ _ _).symm
  rw [hbody, hsplit] at hs
  have hfront := List.append_inj_left hs (by simp)
  rw [hbody, hsplit, ← hfront, hagree.read_eq, put32_get32 (length_read _ _ _)]

end Staging

/-! ## Replacement -/

/-- The old record or the new one, and nothing else. -/
def Either (page : UInt32) (r d : BootMetadata) (mem : ByteMem) : Prop :=
  Authority mem page r ∨ Authority mem (1 - page) d

/-- What a replacement of `r` by `d` leaves, by what it answered. -/
def Outcome (page : UInt32) (r d : BootMetadata) :
    Except BootStoreResult BootStoreSnapshot → ByteMem → Prop
  | .ok s, mem => s = ⟨d, 1 - page⟩ ∧ Authority mem (1 - page) d
  | .error .uncertain, mem => Either page r d mem
  | .error _, mem => Authority mem page r

section Replace

variable {page : UInt32} {r d : BootMetadata} {mem : ByteMem}

theorem outcome_error {e : BootStoreResult} (h : Authority mem page r) :
    Outcome page r d (.error e) mem := by
  cases e with
  | uncertain => exact .inl h
  | _ => exact h

/-- Loading answers what the pages hold, or fails to read them. -/
theorem load_wp {K : ByteMem → Prop} (hK : K mem) :
    wp pageDevice K bootStoreLoad (fun res m => m = mem ∧
      (res = .error .io ∨ res = bootStoreLoad.eval (storeAnswers mem))) mem := by
  refine wp_ask_bind.mpr ⟨fun m' hc => by rw [hc]; exact hK, fun ans m' hs => ?_⟩
  obtain ⟨rfl, h0⟩ := hs
  cases ans with
  | none => exact ⟨rfl, .inl rfl⟩
  | some page0 =>
      refine wp_ask_bind.mpr ⟨fun m'' hc => by rw [hc]; exact hK,
        fun ans m'' hs => ?_⟩
      obtain ⟨rfl, h1⟩ := hs
      cases ans with
      | none => exact ⟨rfl, .inl rfl⟩
      | some page1 =>
          refine ⟨rfl, .inr ?_⟩
          rw [board_load, ← h0 page0 rfl, ← h1 page1 rfl]

/-- The commit word makes the new record the authority. -/
theorem committed_authority {mem' : ByteMem} (h : Authority mem page r)
    (hd : bootMetadataValidate d = .ok) (hlt : r.sequence < d.sequence)
    (hs : recordBytes mem (1 - page) = metadataWire d bootCommitErased)
    (hw : Within mem mem' ((pageAddress (1 - page)).toNat + 164) 4)
    (hc : get32 (mem'.read ((pageAddress (1 - page)).toNat + 164) 4) = bootCommitValid) :
    recordBytes mem' (1 - page) = metadataWire d bootCommitValid ∧
      Authority mem' (1 - page) d := by
  have hwire := staged_wire hs hw
  rw [hc] at hwire
  refine ⟨hwire, h.superseded (hw.mono (by omega) (by simp)) ?_ hlt⟩
  rw [hwire]
  exact decode_wire hd

/-- From the commit word on: the new record is there, or the answer does not
claim to know. -/
theorem commitRecord_wp (h : Authority mem page r)
    (hd : bootMetadataValidate d = .ok) (hlt : r.sequence < d.sequence)
    (hs : recordBytes mem (1 - page) = metadataWire d bootCommitErased)
    (expected : BootStoreSnapshot) :
    wp pageDevice (Either page r d)
      (commitRecord expected d (pageAddress (1 - page)))
      (Outcome page r d) mem := by
  have ha : (pageAddress (1 - page) + 164).toNat =
      (pageAddress (1 - page)).toNat + 164 :=
    toNat_pageAddress_add (by decide)
  have hnew : ∀ m', Within mem m' ((pageAddress (1 - page)).toNat + 164) 4 →
      get32 (m'.read ((pageAddress (1 - page)).toNat + 164) 4) =
        bootCommitValid → Authority m' (1 - page) d :=
    fun m' hw hc => (committed_authority h hd hlt hs hw hc).2
  -- Whatever the commit word is left as, it is VALID or it hides the page.
  have hany : ∀ m', Within mem m' ((pageAddress (1 - page)).toNat + 164) 4 →
      Either page r d m' := by
    intro m' hw
    by_cases hc : get32 (m'.read ((pageAddress (1 - page)).toNat + 164) 4) =
        bootCommitValid
    · exact .inr (hnew m' hw hc)
    · refine .inl (h.hidden (hw.mono (by omega) (by simp)) ?_)
      refine decode_of_commit ?_
      rw [recordBytes_commit]
      exact hc
  unfold commitRecord
  rw [commit_address]
  refine wp_ask_bind.mpr ⟨fun m' hc => ?_, fun done m' hstep => ?_⟩
  · have hw : Within mem m' (pageAddress (1 - page) + 164).toNat 4 := hc
    rw [ha] at hw
    exact hany m' hw
  cases done with
  | false =>
      have hw : Within mem m' (pageAddress (1 - page) + 164).toNat 4 := hstep
      rw [ha] at hw
      exact hany m' hw
  | true =>
      have hm' : m' = programWord (pageAddress (1 - page) + 164)
        bootCommitValid mem := hstep
      have hw : Within mem m' ((pageAddress (1 - page)).toNat + 164) 4 := by
        rw [hm', ← ha]
        exact within_programWord _ _ _
      have hauth : Authority m' (1 - page) d := by
        refine hnew m' hw ?_
        rw [hm', ← ha, read_programWord, get32_put32]
        exact UInt32.and_zero
      refine wp_ask_bind.mpr ⟨fun m'' hc => ?_, fun ans m'' hr => ?_⟩
      · rw [hc]
        exact .inr hauth
      obtain ⟨rfl, -⟩ := hr
      cases ans with
      | none => exact .inr hauth
      | some readback =>
          dsimp only
          split
          · exact .inr hauth
          rw [wp_bind']
          refine wp_post (load_wp (.inr hauth)) fun res m hres => ?_
          obtain ⟨rfl, hres⟩ := hres
          cases res with
          | error e => exact .inr hauth
          | ok s =>
              rw [hauth.loaded] at hres
              have hsnap : s = ⟨d, 1 - page⟩ := by
                rcases hres with he | he
                · cases he
                · injection he
              dsimp only
              split
              · exact .inr hauth
              split
              · exact .inr hauth
              · exact ⟨hsnap, hauth⟩

/-- Until the commit word, the authority is the old one wherever it stops. -/
theorem stageRecord_wp (h : Authority mem page r)
    (hd : bootMetadataValidate d = .ok) (hlt : r.sequence < d.sequence)
    (expected : BootStoreSnapshot) :
    wp pageDevice (Either page r d)
      (stageRecord expected d (pageAddress (1 - page)))
      (Outcome page r d) mem := by
  unfold stageRecord
  refine wp_ask_bind.mpr ⟨fun m' hc => .inl (h.torn hc), fun erased m' hs => ?_⟩
  cases erased with
  | false => exact h.torn hs
  | true =>
  have hm' : m' = erasePage (pageAddress (1 - page)) mem := hs
  have hu : Uncommitted page r m' := by
    rw [hm']
    refine uncommitted_intro h (within_erasePage _ _) ?_
    have hblank := read_write_same mem (pageAddress (1 - page)).toNat
      (List.replicate bootEraseBytes 0xff)
    rw [List.length_replicate] at hblank
    rw [erasePage, ← slice_read (n := bootEraseBytes) (by simp), hblank]
    decide
  refine wp_ask_bind.mpr ⟨fun m'' hc => by rw [hc]; exact .inl hu.1,
    fun ans m'' hr => ?_⟩
  obtain ⟨rfl, -⟩ := hr
  cases ans with
  | none => exact hu.1
  | some blank =>
  dsimp only
  split
  · exact hu.1
  rw [wp_bind']
  refine wp_mono (stageWords_wp _ stagedWords 0 (by simp) hu)
    (fun m hk => .inl hk) fun staged m hstaged => ?_
  cases staged with
  | false => exact hstaged.1
  | true =>
  refine wp_ask_bind.mpr ⟨fun m'' hc => by rw [hc]; exact .inl hstaged.1,
    fun ans m'' hr => ?_⟩
  obtain ⟨rfl, hread⟩ := hr
  cases ans with
  | none => exact hstaged.1
  | some readback =>
  dsimp only
  split
  · exact hstaged.1
  · next hsame =>
      refine commitRecord_wp hstaged.1 hd hlt ?_ expected
      exact (hread readback rfl).symm.trans (not_not.mp hsame).symm

theorem nextSequence_lt {n : UInt32} (h : bootMetadataNextSequence r = .ok n) :
    r.sequence < n := by
  unfold bootMetadataNextSequence at h
  split at h
  · split at h
    · cases h
    next hmax =>
    injection h with h
    have h1 : r.sequence.toNat < 4294967296 := UInt32.toNat_lt _
    have h2 : r.sequence.toNat ≠ 4294967295 := fun he => hmax (UInt32.toNat_inj.mp he)
    have h3 : (1 : UInt32).toNat = 1 := rfl
    rw [← h, UInt32.lt_iff_toNat_lt, UInt32.toNat_add, h3]
    omega
  · cases h

/-- Replacing the authoritative record of a device that may fail or be cut
anywhere. -/
theorem replace_wp (h : Authority mem page r) (expected : BootStoreSnapshot)
    (d : BootMetadata) :
    wp pageDevice (Either page r d) (bootStoreReplace expected d)
      (Outcome page r d) mem := by
  unfold bootStoreReplace
  split
  · exact outcome_error h
  split
  · exact outcome_error h
  · exact outcome_error h
  next old wanted hold hwanted =>
  obtain ⟨hev, hold⟩ := encode_ok hold
  obtain ⟨hdv, -⟩ := encode_ok hwanted
  split
  · exact outcome_error h
  next n hn =>
  split
  · exact outcome_error h
  next hseq =>
  rw [wp_bind']
  refine wp_post (load_wp (.inl h)) fun res m hres => ?_
  obtain ⟨rfl, hres⟩ := hres
  cases res with
  | error e => exact outcome_error h
  | ok s =>
  have hsnap : s = ⟨r, page⟩ := by
    rw [h.loaded] at hres
    rcases hres with he | he
    · cases he
    · injection he
  subst hsnap
  dsimp only
  split
  · exact outcome_error h
  next current hcurrent =>
  obtain ⟨hrv, hcurrent⟩ := encode_ok hcurrent
  split
  · exact outcome_error h
  next hsame =>
  simp only [not_or, not_not] at hsame hseq
  have hrec : expected.record = r := by
    refine wire_injective hev hrv ?_
    rw [← hold, ← hcurrent]
    exact hsame.2
  refine stageRecord_wp h hdv ?_ expected
  rw [hseq, ← hrec]
  exact nextSequence_lt hn

end Replace

/-! ## A device that does what it is for -/

/-- Every request carried out. -/
def workingStore : (op : StoreOp) → ByteMem → StoreSig.Ans op × ByteMem
  | .read a n, m => (some ⟨m.read a.toNat n, length_readAt m a n⟩, m)
  | .erasePage a, m => (true, erasePage a m)
  | .programWord a word, m => (true, programWord a word m)

/-- The requests a device may not refuse: a read from the start of a metadata
page, an erase of one, and a program of a word of one that sets no bit. -/
def StoreOp.Proper : StoreOp → ByteMem → Prop
  | .read a n, _ => ∃ page, a = pageAddress page ∧ 0 < n ∧ n ≤ bootEraseBytes
  | .erasePage a, _ => ∃ page, a = pageAddress page
  | .programWord a word, m => ∃ page i, a = pageAddress page + UInt32.ofNat i ∧
      i % 4 = 0 ∧ i < bootEraseBytes ∧ get32 (m.read a.toNat 4) &&& word = word

abbrev obligingStore : Handler StoreSig ByteMem := .obliging StoreOp.Proper workingStore

section Working

variable {page : UInt32} {r d : BootMetadata} {mem : ByteMem} {K : ByteMem → Prop}

theorem proper_read (page : UInt32) {n : Nat} (h0 : 0 < n) (hn : n ≤ bootEraseBytes) :
    (StoreOp.read (pageAddress page) n).Proper mem := ⟨page, rfl, h0, hn⟩

theorem load_works (h : Authority mem page r) :
    wp obligingStore K bootStoreLoad (fun res m => m = mem ∧ res = .ok ⟨r, page⟩) mem := by
  refine wp_obliging (proper_read 0 (by decide) (by decide)) ?_
  refine wp_obliging (proper_read 1 (by decide) (by decide)) ⟨rfl, ?_⟩
  exact (load_eval mem).symm.trans h.loaded

theorem and_erased (word : UInt32) : get32 (List.replicate 4 0xff) &&& word = word := by
  rw [show get32 (List.replicate 4 0xff) = 0xffffffff by decide, UInt32.and_comm]
  exact UInt32.and_neg_one

/-- A word that is still erased takes whatever is programmed. -/
theorem programWord_erased {a : UInt32} (word : UInt32)
    (he : mem.read a.toNat 4 = List.replicate 4 0xff) :
    programWord a word mem = mem.write a.toNat (put32 word) ∧
      get32 (mem.read a.toNat 4) &&& word = word := by
  rw [programWord, he, and_erased]
  exact ⟨rfl, rfl⟩

/-- The staging loop over an erased page, from word to word. -/
theorem stageWords_works (page : UInt32) {wanted : List UInt8} (hlen : wanted.length = 168)
    (he : ∀ i < bootEraseBytes, i % 4 = 0 →
      mem.read ((pageAddress page).toNat + i) 4 = List.replicate 4 0xff)
    (n i : Nat) (hi : i % 4 = 0) (h : i + 4 * n ≤ 168) :
    wp obligingStore K (stageWords (pageAddress page) wanted n i)
      (fun done m => m = mem.write (pageAddress page).toNat (wanted.take (i + 4 * n)) ∧
        done = true) (mem.write (pageAddress page).toNat (wanted.take i)) := by
  induction n generalizing i with
  | zero => exact ⟨rfl, rfl⟩
  | succ n ih =>
      have hroom : i < bootEraseBytes := by simp only [bootEraseBytes]; omega
      have ha : (pageAddress page + UInt32.ofNat i).toNat = (pageAddress page).toNat + i :=
        toNat_pageAddress_add hroom
      have htake : (wanted.take i).length = i := by rw [List.length_take]; omega
      have hold : (mem.write (pageAddress page).toNat (wanted.take i)).read
          (pageAddress page + UInt32.ofNat i).toNat 4 = List.replicate 4 0xff := by
        have hw := within_write mem (pageAddress page).toNat (wanted.take i)
        rw [htake] at hw
        rw [ha, ← he i hroom hi]
        exact (hw.agree (.inr (Nat.le_refl _))).read_eq.symm
      have hslice : (slice wanted i 4).length = 4 := length_slice (by omega)
      obtain ⟨hprog, hbits⟩ := programWord_erased (get32 (slice wanted i 4)) hold
      refine wp_obliging ⟨page, i, rfl, hi, hroom, hbits⟩ ?_
      have hnext : programWord (pageAddress page + UInt32.ofNat i) (get32 (slice wanted i 4))
          (mem.write (pageAddress page).toNat (wanted.take i)) =
          mem.write (pageAddress page).toNat (wanted.take (i + 4)) := by
        rw [hprog, ha, put32_get32 hslice]
        have happend := write_append mem (pageAddress page).toNat (wanted.take i)
          (slice wanted i 4)
        rw [htake] at happend
        rw [happend, slice, ← List.take_add]
      have hgo := ih (i + 4) (by omega) (by omega)
      rw [show i + 4 + 4 * n = i + 4 * (n + 1) by omega, ← hnext] at hgo
      exact hgo

/-- What a replacement leaves that nothing failed. -/
def Replaces (page : UInt32) (d : BootMetadata) (mem : ByteMem)
    (res : Except BootStoreResult BootStoreSnapshot) (m : ByteMem) : Prop :=
  res = .ok ⟨d, 1 - page⟩ ∧ Authority m (1 - page) d ∧
    Within mem m (pageAddress (1 - page)).toNat bootEraseBytes

theorem commitRecord_works (h : Authority mem page r)
    (hd : bootMetadataValidate d = .ok) (hlt : r.sequence < d.sequence)
    (hs : recordBytes mem (1 - page) = metadataWire d bootCommitErased) :
    wp obligingStore K (commitRecord ⟨r, page⟩ d (pageAddress (1 - page)))
      (Replaces page d mem) mem := by
  have ha : (pageAddress (1 - page) + 164).toNat = (pageAddress (1 - page)).toNat + 164 :=
    toNat_pageAddress_add (by decide)
  have hold : mem.read (pageAddress (1 - page) + 164).toNat 4 = List.replicate 4 0xff := by
    rw [ha, ← recordBytes_commit, hs, slice_wire_commit]
    decide
  obtain ⟨hprog, hbits⟩ := programWord_erased bootCommitValid hold
  have hw := within_programWord (pageAddress (1 - page) + 164) bootCommitValid mem
  have hc : get32 ((programWord (pageAddress (1 - page) + 164) bootCommitValid mem).read
      ((pageAddress (1 - page)).toNat + 164) 4) = bootCommitValid := by
    rw [← ha, read_programWord, hbits, get32_put32]
  rw [ha] at hw
  obtain ⟨hwire, hauth⟩ := committed_authority h hd hlt hs hw hc
  unfold commitRecord
  rw [commit_address]
  refine wp_obliging ⟨1 - page, 164, rfl, rfl, by decide, hbits⟩ ?_
  refine wp_obliging (proper_read (1 - page) (by decide) (by decide)) ?_
  have hback : metadataWire d bootCommitValid =
      (programWord (pageAddress (1 - page) + 164) bootCommitValid mem).read
        (pageAddress (1 - page)).toNat bootMetadataBytes := hwire.symm
  dsimp only [workingStore]
  rw [if_neg (not_not.mpr hback), wp_bind']
  refine wp_post (load_works hauth) fun res m hres => ?_
  obtain ⟨rfl, rfl⟩ := hres
  dsimp only
  rw [if_neg (not_not.mpr rfl), if_neg (not_not.mpr (encode_valid hd (.inr rfl) le_rfl))]
  exact ⟨rfl, hauth, hw.mono (by omega) (by simp)⟩

theorem read_erasePage {a : UInt32} {i n : Nat} (h : i + n ≤ bootEraseBytes) :
    (erasePage a mem).read (a.toNat + i) n = List.replicate n 0xff := by
  have hread := read_write_same mem a.toNat (List.replicate bootEraseBytes 0xff)
  rw [List.length_replicate] at hread
  rw [← slice_read h, erasePage, hread, slice, List.drop_replicate, List.take_replicate,
    Nat.min_eq_left (by omega)]

/-- The staged words and the erased commit word behind them. -/
theorem staged_read (hmem : mem.read ((pageAddress page).toNat + 164) 4 =
    List.replicate 4 0xff) :
    recordBytes (mem.write (pageAddress page).toNat
      ((metadataWire d bootCommitErased).take 164)) page =
        metadataWire d bootCommitErased := by
  have hlen : ((metadataWire d bootCommitErased).take 164).length = 164 := by
    rw [List.length_take, length_metadataWire]
    rfl
  have hfront := read_write_same mem (pageAddress page).toNat
    ((metadataWire d bootCommitErased).take 164)
  have hwithin := within_write mem (pageAddress page).toNat
    ((metadataWire d bootCommitErased).take 164)
  rw [hlen] at hfront hwithin
  have hback : (metadataWire d bootCommitErased).drop 164 = List.replicate 4 0xff := by
    have hslice := slice_wire_commit d bootCommitErased
    rw [slice, List.take_of_length_le (by rw [List.length_drop, length_metadataWire])] at hslice
    exact hslice
  rw [recordBytes, show bootMetadataBytes = 164 + 4 from rfl, read_add, hfront,
    ← (hwithin.agree (.inr (Nat.le_refl _))).read_eq, hmem, ← hback, List.take_append_drop]

theorem stageRecord_works (h : Authority mem page r)
    (hd : bootMetadataValidate d = .ok) (hlt : r.sequence < d.sequence) :
    wp obligingStore K (stageRecord ⟨r, page⟩ d (pageAddress (1 - page)))
      (Replaces page d mem) mem := by
  have herased := within_erasePage (pageAddress (1 - page)) mem
  have hblank : ∀ {i n : Nat}, i + n ≤ bootEraseBytes →
      (erasePage (pageAddress (1 - page)) mem).read ((pageAddress (1 - page)).toNat + i) n =
        List.replicate n 0xff := read_erasePage
  have hall : ((erasePage (pageAddress (1 - page)) mem).read (pageAddress (1 - page)).toNat
      bootEraseBytes).all (· == 0xff) = true := by
    refine List.all_eq_true.mpr fun b hb => ?_
    have hread := hblank (i := 0) (n := bootEraseBytes) (Nat.zero_add _).le
    rw [Nat.add_zero] at hread
    rw [hread] at hb
    rw [List.eq_of_mem_replicate hb]
    rfl
  unfold stageRecord
  refine wp_obliging ⟨1 - page, rfl⟩ (wp_obliging (proper_read (1 - page) (by decide) le_rfl) ?_)
  dsimp only [workingStore]
  rw [hall, Bool.not_true, if_neg Bool.false_ne_true, wp_bind']
  have hstage := stageWords_works (K := K) (1 - page)
    (length_metadataWire d bootCommitErased)
    (fun i hi h4 => hblank (i := i) (n := 4) (by simp only [bootEraseBytes] at hi ⊢; omega))
    stagedWords 0 rfl (by decide)
  rw [List.take_zero, write_nil] at hstage
  refine wp_post hstage fun done m hdone => ?_
  obtain ⟨hm, rfl⟩ := hdone
  have hstaged : recordBytes m (1 - page) = metadataWire d bootCommitErased := by
    rw [hm]
    exact staged_read (hblank (i := 164) (n := 4) (by decide))
  have hw : Within mem m (pageAddress (1 - page)).toNat bootEraseBytes := by
    refine herased.trans ?_
    rw [hm]
    exact (within_write _ _ _).mono le_rfl (by simp)
  have hhidden : Authority m page r := by
    refine h.hidden hw (decode_of_commit ?_)
    rw [hstaged, slice_wire_commit]
    decide
  refine wp_obliging (proper_read (1 - page) (by decide) (by decide)) ?_
  have hback : metadataWire d bootCommitErased =
      m.read (pageAddress (1 - page)).toNat bootMetadataBytes := hstaged.symm
  dsimp only [workingStore]
  rw [if_neg (not_not.mpr hback)]
  refine wp_post (commitRecord_works hhidden hd hlt hstaged) fun res m' hres => ?_
  exact ⟨hres.1, hres.2.1, hw.trans hres.2.2⟩

/-- The successor of the authority, on a device that works, becomes the authority. -/
theorem replace_works (h : Authority mem page r) (hd : bootMetadataValidate d = .ok)
    (hn : bootMetadataNextSequence r = .ok d.sequence) :
    wp obligingStore K (bootStoreReplace ⟨r, page⟩ d) (Replaces page d mem) mem := by
  have hr := decode_ok_validate h.holds
  have hpage : ¬ page > 1 := by
    rcases h.known with rfl | rfl <;> decide
  have hlt := nextSequence_lt hn
  unfold bootStoreReplace
  rw [if_neg hpage, encode_valid hr (.inr rfl) le_rfl, encode_valid hd (.inl rfl) le_rfl, hn]
  dsimp only
  rw [if_neg (not_not.mpr rfl), wp_bind']
  refine wp_post (load_works h) fun res m hres => ?_
  obtain ⟨rfl, rfl⟩ := hres
  dsimp only
  rw [encode_valid hr (.inr rfl) le_rfl]
  dsimp only
  rw [if_neg (by simp)]
  exact stageRecord_works h hd hlt

end Working
/-! ## Runs of replacements -/

/-- A replacement as it was called, and what it answered; no answer when the
power went during the call. -/
structure ReplaceCall where
  expected : BootStoreSnapshot
  desired : BootMetadata
  outcome : Option (Except BootStoreResult BootStoreSnapshot)

/-- A fresh load that succeeds, and a replacement of the snapshot it gave. -/
inductive StoreStep : ByteMem → ReplaceCall → ByteMem → Prop where
  | replace {m m₁ m' : ByteMem} {c : ReplaceCall}
      (hload : Exec pageDevice bootStoreLoad m (some (.ok c.expected)) m₁)
      (hreplace : Exec pageDevice (bootStoreReplace c.expected c.desired) m₁
        c.outcome m') : StoreStep m c m'

/-- One call, whatever becomes of it. -/
theorem storeStep_outcome {m m' : ByteMem} {c : ReplaceCall} {page : UInt32}
    {r : BootMetadata} (h : Authority m page r) (hstep : StoreStep m c m') :
    c.expected = ⟨r, page⟩ ∧ Either page r c.desired m' ∧
      ∀ res, c.outcome = some res → Outcome page r c.desired res m' := by
  obtain ⟨hload, hreplace⟩ := hstep
  obtain ⟨rfl, hres⟩ := hload.post (load_wp (K := fun _ => True) trivial)
  have hexp : c.expected = ⟨r, page⟩ := by
    rw [h.loaded] at hres
    rcases hres with he | he
    · cases he
    · injection he
  have hwp := replace_wp h c.expected c.desired
  refine ⟨hexp, ?_⟩
  cases hout : c.outcome with
  | none =>
      rw [hout] at hreplace
      exact ⟨hreplace.crash hwp, fun res hr => by cases hr⟩
  | some res =>
      rw [hout] at hreplace
      have hpost := hreplace.post hwp
      refine ⟨?_, fun res' hr => by cases hr; exact hpost⟩
      cases res with
      | ok s => exact .inr hpost.2
      | error e =>
          cases e with
          | uncertain => exact hpost
          | _ => exact .inl hpost

theorem storeRun_authority {m m' : ByteMem}
    {tr : List (ReplaceCall × ByteMem)} (h : ∃ page r, Authority m page r)
    (hrun : Run StoreStep m tr m') : ∃ page r, Authority m' page r := by
  refine @Run.invariant _ _ _ _ _ _ (fun m => ∃ page r, Authority m page r)
    (fun {m c m'} hi hs => ?_) hrun h
  obtain ⟨page, r, ha⟩ := hi
  rcases (storeStep_outcome ha hs).2.1 with h' | h'
  · exact ⟨_, _, h'⟩
  · exact ⟨_, _, h'⟩

/-- A board with its record in page 0 and page 1 erased. -/
theorem authority_fresh {m : ByteMem} {r : BootMetadata}
    (h0 : bootMetadataDecode (m.read bootMetadataPage0.toNat 168) = .ok r)
    (h1 : m.read bootMetadataPage1.toNat 1024 = List.replicate 1024 0xff) :
    Authority m 0 r := by
  refine ⟨.inl rfl, h0, fun r' hr' => absurd hr' ?_⟩
  have hblank : recordBytes m (1 - 0) = List.replicate 168 0xff := by
    have hs := @slice_read m bootMetadataPage1.toNat 1024 0 168 (by decide)
    rw [h1, slice, List.drop_zero, List.take_replicate] at hs
    exact hs.symm
  rw [hblank]
  exact decode_of_commit (by decide) r'

/-- After every call of every run, cut or completed, a load through an adapter
that works answers the record that was authoritative before the call or the
desired one; the desired one when the call answered OK, and the old snapshot
when it answered neither OK nor UNCERTAIN. -/
theorem replace_atomic {m₀ m m' : ByteMem} {r₀ : BootMetadata}
    {tr : List (ReplaceCall × ByteMem)} {c : ReplaceCall}
    (h0 : bootMetadataDecode (m₀.read bootMetadataPage0.toNat 168) = .ok r₀)
    (h1 : m₀.read bootMetadataPage1.toNat 1024 = List.replicate 1024 0xff)
    (hrun : Run StoreStep m₀ tr m) (hstep : StoreStep m c m') :
    bootStoreLoad.eval (storeAnswers m) = .ok c.expected ∧
    ∃ s, bootStoreLoad.eval (storeAnswers m') = .ok s ∧
      (s = c.expected ∨ s.record = c.desired ∧ s.page = 1 - c.expected.page) ∧
      (∀ out, c.outcome = some (.ok out) → s = out ∧ s.record = c.desired) ∧
      ∀ e, c.outcome = some (.error e) → e ≠ .uncertain → s = c.expected := by
  obtain ⟨page, r, ha⟩ := storeRun_authority ⟨0, r₀, authority_fresh h0 h1⟩ hrun
  obtain ⟨hexp, heither, hout⟩ := storeStep_outcome ha hstep
  refine ⟨by rw [hexp]; exact ha.loaded, ?_⟩
  rcases heither with hold | hnew
  · refine ⟨⟨r, page⟩, hold.loaded, .inl hexp.symm, fun out ho => ?_,
      fun e he hne => hexp.symm⟩
    obtain ⟨rfl, hnew⟩ := hout _ ho
    obtain ⟨hp, rfl⟩ := hold.unique hnew
    exact ⟨by rw [hp], rfl⟩
  · refine ⟨⟨c.desired, 1 - page⟩, hnew.loaded, .inr ⟨rfl, by rw [hexp]⟩,
      fun out ho => ⟨(hout _ ho).1.symm, rfl⟩, fun e he hne => ?_⟩
    have hold : Authority m' page r := by
      have h := hout _ he
      cases e with
      | uncertain => exact absurd rfl hne
      | _ => exact h
    obtain ⟨hp, hr⟩ := hold.unique hnew
    rw [hexp, hr, hp]

/-- A board with `r` in page 0 and everything else erased. -/
def freshPages (r : BootMetadata) : ByteMem :=
  ByteMem.write (fun _ => 0xff) 0x8000 (metadataWire r bootCommitValid)

theorem freshPages_decode {r : BootMetadata} (h : bootMetadataValidate r = .ok) :
    bootMetadataDecode ((freshPages r).read bootMetadataPage0.toNat 168) =
      .ok r := by
  have hread := read_write_same (fun _ => 0xff) 0x8000
    (metadataWire r bootCommitValid)
  rw [length_metadataWire] at hread
  exact (congrArg bootMetadataDecode hread).trans (decode_wire h)

theorem freshPages_blank (r : BootMetadata) :
    (freshPages r).read bootMetadataPage1.toNat 1024 =
      List.replicate 1024 0xff := by
  have hw := within_write (fun _ => 0xff) 0x8000 (metadataWire r bootCommitValid)
  rw [length_metadataWire] at hw
  have hagree : Agree (fun _ => 0xff) (freshPages r) bootMetadataPage1.toNat 1024 :=
    hw.agree (.inr (by decide))
  rw [← hagree.read_eq, ByteMem.read, List.map_const', List.length_range]

theorem authority_freshPages {r : BootMetadata} (h : bootMetadataValidate r = .ok) :
    Authority (freshPages r) 0 r :=
  authority_fresh (freshPages_decode h) (freshPages_blank r)

theorem tornErase_erasePage (a : UInt32) (m : ByteMem) :
    TornErase a m (erasePage a m) := by
  have hw := within_write m a.toNat (List.replicate bootEraseBytes 0xff)
  rw [List.length_replicate] at hw
  refine ⟨hw, fun _ => .inr fun r => decode_of_commit ?_ r⟩
  have hread := read_write_same m a.toNat (List.replicate bootEraseBytes 0xff)
  rw [List.length_replicate] at hread
  have hcommit := @slice_read (erasePage a m) a.toNat bootEraseBytes 164 4 (by decide)
  rw [erasePage, hread] at hcommit
  rw [slice_read (by decide), erasePage, ← hcommit]
  decide

theorem workingStore_step (op : StoreOp) (m : ByteMem) :
    pageDevice.step op m (workingStore op m).1 (workingStore op m).2 := by
  cases op with
  | read a n => exact ⟨rfl, fun b hb => by injection hb with hb; rw [← hb]⟩
  | erasePage a => rfl
  | programWord a word => rfl

theorem workingStore_cut (op : StoreOp) (m : ByteMem) :
    pageDevice.cut op m (workingStore op m).2 := by
  cases op with
  | read a n => rfl
  | erasePage a => exact tornErase_erasePage a m
  | programWord a word => exact within_programWord a word m

/-- What a working device makes of a program it may make of it on `pageDevice`. -/
theorem exec_working {α : Type} {p : Prog StoreSig α} {Q : α → ByteMem → Prop} {m : ByteMem}
    (hp : wp obligingStore (fun _ => True) p Q m) :
    Exec pageDevice p m (some (p.run workingStore m).1) (p.run workingStore m).2 ∧
      Q (p.run workingStore m).1 (p.run workingStore m).2 :=
  ⟨exec_run workingStore_step p m,
    (exec_run (H := obligingStore) (fun _ _ _ => rfl) p m).post hp⟩

section Commits

variable {m : ByteMem} {page : UInt32} {r d : BootMetadata}

theorem exec_load_working (h : Authority m page r) :
    Exec pageDevice bootStoreLoad m (some (.ok ⟨r, page⟩)) m := by
  obtain ⟨he, hm, hr⟩ := exec_working (load_works h)
  rwa [hm, hr] at he

/-- The successor of what was loaded is committed, and the caller is told. -/
theorem exists_committed (h : Authority m page r) (hd : bootMetadataValidate d = .ok)
    (hn : bootMetadataNextSequence r = .ok d.sequence) :
    ∃ m', StoreStep m ⟨⟨r, page⟩, d, some (.ok ⟨d, 1 - page⟩)⟩ m' ∧
      Authority m' (1 - page) d := by
  obtain ⟨he, hr, ha, -⟩ := exec_working (replace_works h hd hn)
  rw [hr] at he
  exact ⟨_, ⟨exec_load_working h, he⟩, ha⟩

/-- The record that follows another is not in the same flash. -/
theorem Authority.moved {page' : UInt32} {m' : ByteMem} (h : Authority m page r)
    (hn : bootMetadataNextSequence r = .ok d.sequence) (h' : Authority m' page' d) :
    m' ≠ m := by
  rintro rfl
  have hlt := nextSequence_lt hn
  rw [(h.unique h').2] at hlt
  exact UInt32.lt_irrefl _ hlt

/-- The same with the power gone before the caller is told. -/
theorem exists_cut (h : Authority m page r) (hd : bootMetadataValidate d = .ok)
    (hn : bootMetadataNextSequence r = .ok d.sequence) :
    ∃ m', StoreStep m ⟨⟨r, page⟩, d, none⟩ m' ∧ Authority m' (1 - page) d := by
  obtain ⟨-, -, ha, -⟩ := exec_working (replace_works h hd hn)
  obtain ⟨op, m₁, hlast, hcut⟩ := exec_cut_last workingStore_step (h.moved hn ha)
  have hc := workingStore_cut op m₁
  rw [hlast] at hc
  exact ⟨_, ⟨exec_load_working h, hcut _ hc⟩, ha⟩

end Commits

/-- One replacement is committed and answered; the power goes in the next one,
and the record that was under way is found. -/
theorem replace_atomic_cut :
    ∃ tr m c m', Run StoreStep (freshPages factoryRecord) tr m ∧
      (tr.map fun x => x.1.outcome) =
        [some (.ok ⟨{ factoryRecord with sequence := 2 }, 1⟩)] ∧
      StoreStep m c m' ∧ c.outcome = none ∧
      bootStoreLoad.eval (storeAnswers m) = .ok c.expected ∧
      bootStoreLoad.eval (storeAnswers m') =
        .ok ⟨{ factoryRecord with sequence := 3 }, 0⟩ := by
  have h0 : Authority (freshPages factoryRecord) 0 factoryRecord :=
    authority_freshPages (by decide)
  obtain ⟨m, hstep, h1⟩ := exists_committed (d := { factoryRecord with sequence := 2 }) h0
    (by decide) (by decide)
  obtain ⟨m', hcut, h2⟩ := exists_cut (d := { factoryRecord with sequence := 3 }) h1
    (by decide) (by decide)
  have hrun : Run StoreStep (freshPages factoryRecord) _ m := .cons hstep (.nil m)
  have hall := replace_atomic (freshPages_decode (by decide)) (freshPages_blank _) hrun hcut
  exact ⟨_, m, _, m', hrun, rfl, hcut, rfl, hall.1, h2.loaded⟩

end EkBareMetal.Boot

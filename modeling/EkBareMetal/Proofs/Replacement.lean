import EkBareMetal.Proofs.PowerCut
import Mathlib.Data.List.Infix

/-!
# The commands of a replacement

What `boot_store_replace` asks of an adapter it need not trust. Whatever the
adapter answers, the erase and the programs are a prefix of one fixed list: the
page that is not authoritative, its words in ascending order, the commit word
last. How far along the list it gets depends on what it has been shown, and the
shapes of its transcripts say so: nothing is commanded before the checks have
passed, and the commit word only behind two comparisons.
-/

namespace EkBareMetal.Boot

open Words Interact

def StoreOp.isCommand : StoreOp → Bool
  | .read _ _ => false
  | _ => true

/-- The erases and programs of a transcript, in order. -/
def commands (tr : List (Event StoreSig)) : List StoreOp :=
  (tr.map Event.op).filter StoreOp.isCommand

/-- Word `k` of the staged record. -/
def stagedWord (destination : UInt32) (desired : BootMetadata) (k : Nat) : StoreOp :=
  .programWord (destination + UInt32.ofNat (4 * k))
    (get32 (slice (metadataWire desired bootCommitErased) (4 * k) 4))

def commitWord (destination : UInt32) : StoreOp :=
  .programWord (destination + 164) bootCommitValid

/-- All that a replacement may command. -/
def replacePlan (destination : UInt32) (desired : BootMetadata) : List StoreOp :=
  .erasePage destination ::
    ((List.range stagedWords).map (stagedWord destination desired) ++
      [commitWord destination])

/-! ## Transcripts of the parts -/

section Parts

variable {tr : List (Event StoreSig)} {destination : UInt32}
  {expected s : BootStoreSnapshot} {desired : BootMetadata}

@[simp] theorem commands_nil : commands [] = [] := rfl

@[simp] theorem commands_append (a b : List (Event StoreSig)) :
    commands (a ++ b) = commands a ++ commands b := by
  simp [commands]

@[simp] theorem commands_read {address : UInt32} {size : Nat} {r : Option (Bytes size)} :
    commands (⟨.read address size, r⟩ :: tr) = commands tr := rfl

@[simp] theorem commands_erase {address : UInt32} {done : Bool} :
    commands (⟨.erasePage address, done⟩ :: tr) = .erasePage address :: commands tr := rfl

@[simp] theorem commands_program {address word : UInt32} {done : Bool} :
    commands (⟨.programWord address word, done⟩ :: tr) =
      .programWord address word :: commands tr := rfl

theorem load_commands {r : Except BootStoreResult BootStoreSnapshot}
    (h : Runs bootStoreLoad tr r) : commands tr = [] := by
  obtain ⟨page0, rest, rfl, hk⟩ := runs_ask_iff.mp h
  cases page0 with
  | none =>
      obtain ⟨rfl, -⟩ := runs_pure_iff.mp hk
      rfl
  | some page0 =>
      obtain ⟨page1, rest', rfl, hk'⟩ := runs_ask_iff.mp hk
      cases page1 with
      | none =>
          obtain ⟨rfl, -⟩ := runs_pure_iff.mp hk'
          rfl
      | some page1 =>
          obtain ⟨rfl, -⟩ := runs_pure_iff.mp hk'
          rfl

/-- The staging loop programs in order, and stops at the first word that fails. -/
theorem stageWords_commands {n k : Nat} {ok : Bool}
    (h : Runs (stageWords destination (metadataWire desired bootCommitErased) n (4 * k))
      tr ok) :
    commands tr <+: (List.range' k n).map (stagedWord destination desired) ∧
      (ok = true →
        commands tr = (List.range' k n).map (stagedWord destination desired)) := by
  induction n generalizing k tr with
  | zero =>
      obtain ⟨rfl, -⟩ := runs_pure_iff.mp h
      exact ⟨List.nil_prefix, fun _ => rfl⟩
  | succ n ih =>
      obtain ⟨done, rest, rfl, hk⟩ := runs_ask_iff.mp h
      have hword : StoreOp.programWord (destination + UInt32.ofNat (4 * k))
          (get32 (slice (metadataWire desired bootCommitErased) (4 * k) 4)) =
            stagedWord destination desired k := rfl
      rw [commands_program, hword, List.range'_succ, List.map_cons]
      split at hk
      · obtain ⟨rfl, rfl⟩ := runs_pure_iff.mp hk
        exact ⟨List.prefix_cons_inj _ |>.mpr List.nil_prefix, nofun⟩
      · obtain ⟨hpre, hall⟩ := ih (k := k + 1) hk
        exact ⟨(List.prefix_cons_inj _).mpr hpre, fun hok => by rw [hall hok]⟩

/-- From the commit word on nothing else is commanded, an error says that the
authority is uncertain, and success rests on a last load. -/
theorem commitRecord_runs {r : Except BootStoreResult BootStoreSnapshot}
    (h : Runs (commitRecord expected desired destination) tr r) :
    ∃ done b, tr = ⟨commitWord destination, done⟩ :: b ∧ commands b = [] ∧
      (∀ e, r = .error e → e = .uncertain) ∧
      (∀ s, r = .ok s → ∃ c d, b = c ++ d ∧ Runs bootStoreLoad d (.ok s)) := by
  unfold commitRecord at h
  rw [commit_address] at h
  obtain ⟨done, b, rfl, hk⟩ := runs_ask_iff.mp h
  refine ⟨done, b, rfl, ?_⟩
  have huncertain : ∀ {tr' : List (Event StoreSig)},
      Runs (pure (.error .uncertain)) tr' r → tr' = [] ∧
        (∀ e, r = .error e → e = .uncertain) ∧ ∀ s, r ≠ .ok s := by
    intro tr' h'
    obtain ⟨rfl, rfl⟩ := runs_pure_iff.mp h'
    exact ⟨rfl, fun e he => (Except.error.inj he).symm, nofun⟩
  split at hk
  · obtain ⟨rfl, he, hno⟩ := huncertain hk
    exact ⟨rfl, he, fun s hs => absurd hs (hno s)⟩
  obtain ⟨readback, b', rfl, hk'⟩ := runs_ask_iff.mp hk
  rw [commands_read]
  split at hk'
  · obtain ⟨rfl, he, hno⟩ := huncertain hk'
    exact ⟨rfl, he, fun s hs => absurd hs (hno s)⟩
  split at hk'
  · obtain ⟨rfl, he, hno⟩ := huncertain hk'
    exact ⟨rfl, he, fun s hs => absurd hs (hno s)⟩
  obtain ⟨tr₁, loaded, tr₂, rfl, h₁, h₂⟩ := runs_bind_iff'.mp hk'
  rw [commands_append, load_commands h₁, List.nil_append]
  split at h₂
  · obtain ⟨rfl, he, hno⟩ := huncertain h₂
    exact ⟨rfl, he, fun s hs => absurd hs (hno s)⟩
  next snapshot =>
  split at h₂
  · obtain ⟨rfl, he, hno⟩ := huncertain h₂
    exact ⟨rfl, he, fun s hs => absurd hs (hno s)⟩
  split at h₂
  · obtain ⟨rfl, he, hno⟩ := huncertain h₂
    exact ⟨rfl, he, fun s hs => absurd hs (hno s)⟩
  · obtain ⟨rfl, rfl⟩ := runs_pure_iff.mp h₂
    refine ⟨rfl, nofun, fun s hs => ?_⟩
    cases hs
    exact ⟨[_], tr₁, by rw [List.append_nil]; rfl, h₁⟩

end Parts

/-! ## Transcripts of a replacement -/

/-- `a` is the load of a replacement whose arguments are in order and whose
expectation is what the load has found. -/
structure Checked (expected : BootStoreSnapshot) (desired : BootMetadata)
    (a : List (Event StoreSig)) : Prop where
  page : expected.page ≤ 1
  expected_valid : MetadataOk expected.record
  desired_valid : MetadataOk desired
  room : expected.record.sequence ≠ uint32Max
  sequence : desired.sequence = expected.record.sequence + 1
  loaded : Runs bootStoreLoad a (.ok expected)

/-- `a` ends with the two comparisons that must have come out right: the erased page
reads back blank, and all but the commit word reads back as staged. -/
def Staged (expected : BootStoreSnapshot) (desired : BootMetadata)
    (a : List (Event StoreSig)) : Prop :=
  ∃ (load words : List (Event StoreSig)) (blank : Bytes bootEraseBytes)
    (readback : Bytes bootMetadataBytes),
    a = load ++
      ⟨.erasePage (pageAddress (1 - expected.page)), true⟩ ::
      ⟨.read (pageAddress (1 - expected.page)) bootEraseBytes, some blank⟩ ::
      (words ++
        [⟨.read (pageAddress (1 - expected.page)) bootMetadataBytes, some readback⟩]) ∧
    Checked expected desired load ∧ (∀ b ∈ blank.val, b = 0xff) ∧
    commands words =
      (List.range stagedWords).map (stagedWord (pageAddress (1 - expected.page)) desired) ∧
    readback.val = metadataWire desired bootCommitErased

/-- How far a replacement gets. -/
inductive Transcript (expected : BootStoreSnapshot) (desired : BootMetadata) :
    List (Event StoreSig) → Except BootStoreResult BootStoreSnapshot → Prop where
  | refused {tr : List (Event StoreSig)} {e : BootStoreResult} (h : commands tr = []) :
      Transcript expected desired tr (.error e)
  | erased {a b : List (Event StoreSig)} {done : Bool} {e : BootStoreResult}
      (hc : Checked expected desired a)
      (hb : commands b <+:
        (List.range stagedWords).map (stagedWord (pageAddress (1 - expected.page)) desired))
      (he : e = .io ∨ e = .verify) :
      Transcript expected desired
        (a ++ ⟨.erasePage (pageAddress (1 - expected.page)), done⟩ :: b) (.error e)
  | committed {a b : List (Event StoreSig)} {done : Bool}
      {r : Except BootStoreResult BootStoreSnapshot} (ha : Staged expected desired a)
      (hb : commands b = []) (he : ∀ e, r = .error e → e = .uncertain)
      (hs : ∀ s, r = .ok s → ∃ c d, b = c ++ d ∧ Runs bootStoreLoad d (.ok s)) :
      Transcript expected desired
        (a ++ ⟨commitWord (pageAddress (1 - expected.page)), done⟩ :: b) r

section Transcripts

variable {expected : BootStoreSnapshot} {desired : BootMetadata}
  {tr a : List (Event StoreSig)} {r : Except BootStoreResult BootStoreSnapshot}

theorem stageRecord_transcript (hc : Checked expected desired a)
    (h : Runs (stageRecord expected desired (pageAddress (1 - expected.page))) tr r) :
    Transcript expected desired (a ++ tr) r := by
  obtain ⟨done, b, rfl, hk⟩ := runs_ask_iff.mp h
  have hstop : ∀ {b : List (Event StoreSig)} {e : BootStoreResult}, r = .error e →
      e = .io ∨ e = .verify →
      commands b <+: (List.range stagedWords).map
        (stagedWord (pageAddress (1 - expected.page)) desired) →
      Transcript expected desired
        (a ++ ⟨.erasePage (pageAddress (1 - expected.page)), done⟩ :: b) r := by
    rintro b e rfl he hb
    exact .erased hc hb he
  split at hk
  · obtain ⟨rfl, hr⟩ := runs_pure_iff.mp hk
    exact hstop hr (.inl rfl) List.nil_prefix
  next hdone =>
  obtain rfl : done = true := by simpa using hdone
  obtain ⟨blank, b₁, rfl, hk₁⟩ := runs_ask_iff.mp hk
  split at hk₁
  · obtain ⟨rfl, hr⟩ := runs_pure_iff.mp hk₁
    exact hstop hr (.inl rfl) List.nil_prefix
  next blank =>
  split at hk₁
  · obtain ⟨rfl, hr⟩ := runs_pure_iff.mp hk₁
    exact hstop hr (.inr rfl) List.nil_prefix
  next hblank =>
  obtain ⟨words, staged, b₂, rfl, hwords, hk₂⟩ := runs_bind_iff'.mp hk₁
  obtain ⟨hpre, hall⟩ := stageWords_commands (k := 0) hwords
  rw [← List.range_eq_range'] at hpre hall
  split at hk₂
  · obtain ⟨rfl, hr⟩ := runs_pure_iff.mp hk₂
    refine hstop hr (.inl rfl) ?_
    rw [commands_read, commands_append, commands_nil, List.append_nil]
    exact hpre
  next hstaged =>
  have hall := hall (by simpa using hstaged)
  obtain ⟨readback, b₃, rfl, hk₃⟩ := runs_ask_iff.mp hk₂
  split at hk₃
  · obtain ⟨rfl, hr⟩ := runs_pure_iff.mp hk₃
    refine hstop hr (.inl rfl) ?_
    rw [commands_read, commands_append, commands_read, commands_nil, List.append_nil]
    exact hpre
  next readback =>
  split at hk₃
  · obtain ⟨rfl, hr⟩ := runs_pure_iff.mp hk₃
    refine hstop hr (.inr rfl) ?_
    rw [commands_read, commands_append, commands_read, commands_nil, List.append_nil]
    exact hpre
  next hsame =>
  obtain ⟨done, b, rfl, hb, he, hs⟩ := commitRecord_runs hk₃
  have hblank' : ∀ x ∈ blank.val, x = 0xff := by simpa using hblank
  have hst : Staged expected desired _ :=
    ⟨a, words, blank, readback, rfl, hc, hblank', hall, (not_not.mp hsame).symm⟩
  have htr : Transcript expected desired
      (_ ++ ⟨commitWord (pageAddress (1 - expected.page)), done⟩ :: b) r :=
    .committed hst hb he hs
  simpa only [List.append_assoc, List.cons_append, List.nil_append] using htr

theorem replace_transcript (h : Runs (bootStoreReplace expected desired) tr r) :
    Transcript expected desired tr r := by
  have hrefuse : ∀ {e : BootStoreResult}, Runs (pure (.error e)) tr r →
      Transcript expected desired tr r := by
    intro e h'
    obtain ⟨rfl, rfl⟩ := runs_pure_iff.mp h'
    exact .refused rfl
  unfold bootStoreReplace at h
  split at h
  · exact hrefuse h
  next hpage =>
  split at h
  · exact hrefuse h
  · exact hrefuse h
  next old wanted hold hwanted =>
  obtain ⟨hev, hold⟩ := encode_ok hold
  obtain ⟨hdv, -⟩ := encode_ok hwanted
  split at h
  · exact hrefuse h
  next n hn =>
  split at h
  · exact hrefuse h
  next hseq =>
  obtain ⟨a, loaded, tr', rfl, ha, hk⟩ := runs_bind_iff'.mp h
  have hlate : ∀ {e : BootStoreResult}, Runs (pure (.error e)) tr' r →
      Transcript expected desired (a ++ tr') r := by
    intro e h'
    obtain ⟨rfl, rfl⟩ := runs_pure_iff.mp h'
    refine .refused ?_
    rw [commands_append, load_commands ha, commands_nil, List.append_nil]
  split at hk
  · exact hlate hk
  next snapshot =>
  split at hk
  · exact hlate hk
  next current hcur =>
  obtain ⟨hsv, hcur⟩ := encode_ok hcur
  split at hk
  · exact hlate hk
  next hsame =>
  simp only [not_or, not_not] at hsame
  have hrecord : snapshot.record = expected.record := by
    refine wire_injective hsv hev ?_
    rw [← hcur, ← hold, hsame.2]
  obtain rfl : snapshot = expected := by
    obtain ⟨record, page⟩ := snapshot
    obtain ⟨record', page'⟩ := expected
    rw [show record = record' from hrecord, show page = page' from hsame.1]
  have hroom : snapshot.record.sequence ≠ uint32Max := by
    intro hmax
    rw [nextSequence_exhausted (metadataValidate_eq_ok.mp hev) hmax] at hn
    cases hn
  rw [nextSequence_eq_ok (metadataValidate_eq_ok.mp hev) hroom] at hn
  cases hn
  exact stageRecord_transcript ⟨UInt32.not_lt.mp hpage, metadataValidate_eq_ok.mp hev,
    metadataValidate_eq_ok.mp hdv, hroom, not_not.mp hseq, ha⟩ hk

end Transcripts

/-! ## The discipline -/

/-- The address a request programs. -/
def StoreOp.programmed : StoreOp → Option UInt32
  | .programWord address _ => some address
  | _ => none

/-- What an adapter sees of a replacement, whatever it answers. -/
structure Disciplined (expected : BootStoreSnapshot) (desired : BootMetadata)
    (tr : List (Event StoreSig)) (r : Except BootStoreResult BootStoreSnapshot) :
    Prop where
  plan : commands tr <+: replacePlan (pageAddress (1 - expected.page)) desired
  words : ((commands tr).filterMap StoreOp.programmed).map UInt32.toNat <+:
    (List.range 42).map fun k => (pageAddress (1 - expected.page)).toNat + 4 * k
  other : commands tr ≠ [] → pageAddress (1 - expected.page) ≠ pageAddress expected.page
  checked : commands tr ≠ [] → ∃ a b done,
    tr = a ++ ⟨.erasePage (pageAddress (1 - expected.page)), done⟩ :: b ∧
      Checked expected desired a
  staged : commitWord (pageAddress (1 - expected.page)) ∈ commands tr → ∃ a b done,
    tr = a ++ ⟨commitWord (pageAddress (1 - expected.page)), done⟩ :: b ∧
      Staged expected desired a ∧ commands b = []
  refused : ∀ e, r = .error e → e ≠ .io → e ≠ .verify → e ≠ .uncertain →
    commands tr = []
  unloaded : ∀ a b e, tr = a ++ b → Runs bootStoreLoad a (.error e) → commands tr = []
  ok : ∀ s, r = .ok s → s.record = desired ∧ s.page = 1 - expected.page ∧
    ∃ a b, tr = a ++ b ∧ Runs bootStoreLoad b (.ok s)

section Discipline

variable {expected : BootStoreSnapshot} {desired : BootMetadata} {destination : UInt32}
  {tr a b : List (Event StoreSig)} {r : Except BootStoreResult BootStoreSnapshot}

theorem toNat_wordOffset {k : Nat} (h : k < stagedWords) :
    (UInt32.ofNat (4 * k)).toNat = 4 * k := by
  have h41 : stagedWords = 41 := rfl
  rw [UInt32.toNat_ofNat']
  exact Nat.mod_eq_of_lt (by omega)

theorem stagedWord_ne_commitWord {k : Nat} (h : k < stagedWords) :
    stagedWord destination desired k ≠ commitWord destination := by
  intro he
  injection he with ha
  have hk : UInt32.ofNat (4 * k) = 164 := (UInt32.add_right_inj destination).mp ha
  have hn : (UInt32.ofNat (4 * k)).toNat = 164 := congrArg UInt32.toNat hk
  rw [toNat_wordOffset h] at hn
  have h41 : stagedWords = 41 := rfl
  omega

theorem commitWord_notMem_staged :
    commitWord destination ∉
      (List.range stagedWords).map (stagedWord destination desired) := by
  intro h
  obtain ⟨k, hk, he⟩ := List.mem_map.mp h
  exact stagedWord_ne_commitWord (List.mem_range.mp hk) he

/-- The words of the plan go up from the start of the page, and stay inside. -/
theorem replacePlan_words (desired : BootMetadata) (hroom : destination.toNat + 168 < 2 ^ 32) :
    ((replacePlan destination desired).filterMap StoreOp.programmed).map UInt32.toNat =
      (List.range 42).map fun k => destination.toNat + 4 * k := by
  have hword : ∀ k < 41, (destination + UInt32.ofNat (4 * k)).toNat =
      destination.toNat + 4 * k := by
    intro k hk
    rw [UInt32.toNat_add, toNat_wordOffset hk]
    exact Nat.mod_eq_of_lt (by omega)
  have hcommit : (destination + 164).toNat = destination.toNat + 4 * 41 := by
    have h164 : (164 : UInt32).toNat = 164 := rfl
    rw [UInt32.toNat_add, h164]
    exact Nat.mod_eq_of_lt (by omega)
  have hstaged : (((List.range stagedWords).map (stagedWord destination desired)).filterMap
      StoreOp.programmed).map UInt32.toNat =
        (List.range 41).map fun k => destination.toNat + 4 * k := by
    rw [List.filterMap_map, List.map_filterMap]
    rw [← List.filterMap_eq_map]
    refine List.filterMap_congr fun k hk => ?_
    exact congrArg some (hword k (List.mem_range.mp hk))
  rw [List.range_succ, List.map_append, ← hstaged]
  simp only [replacePlan, List.filterMap_cons, List.filterMap_append, List.map_append,
    StoreOp.programmed, commitWord, List.filterMap_nil, List.map_cons, List.map_nil, hcommit]

theorem pageAddress_ne {page : UInt32} (h : page ≤ 1) :
    pageAddress (1 - page) ≠ pageAddress page := by
  have hpage : page = 0 ∨ page = 1 := by
    have hn : page.toNat ≤ 1 := h
    have h0 : (0 : UInt32).toNat = 0 := rfl
    have h1 : (1 : UInt32).toNat = 1 := rfl
    rw [← UInt32.toNat_inj, ← UInt32.toNat_inj]
    omega
  rcases hpage with rfl | rfl <;> decide

theorem pageAddress_room {page : UInt32} : (pageAddress page).toNat + 168 < 2 ^ 32 := by
  unfold pageAddress
  split <;> decide

theorem Staged.commands_eq (h : Staged expected desired a) :
    commands a = .erasePage (pageAddress (1 - expected.page)) ::
      (List.range stagedWords).map (stagedWord (pageAddress (1 - expected.page)) desired) := by
  obtain ⟨load, words, blank, readback, rfl, hc, -, hwords, -⟩ := h
  simp only [commands_append, load_commands hc.loaded, commands_erase, commands_read,
    hwords, commands_nil, List.nil_append, List.append_nil]

theorem Staged.checked (h : Staged expected desired a) :
    ∃ c d, a = c ++ ⟨.erasePage (pageAddress (1 - expected.page)), true⟩ :: d ∧
      Checked expected desired c := by
  obtain ⟨load, words, blank, readback, rfl, hc, -⟩ := h
  exact ⟨load, _, rfl, hc⟩

/-- Behind a load that failed there is no load that succeeded. -/
theorem Checked.not_unloaded {rest x : List (Event StoreSig)} {e : BootStoreResult}
    (h : Checked expected desired a) (he : Runs bootStoreLoad b (.error e))
    (htr : a ++ rest = b ++ x) : False := by
  obtain ⟨-, hr, -⟩ := runs_prefix h.loaded he htr
  cases hr

theorem Transcript.plan (h : Transcript expected desired tr r) :
    commands tr <+: replacePlan (pageAddress (1 - expected.page)) desired := by
  cases h with
  | refused h =>
      rw [h]
      exact List.nil_prefix
  | erased hc hb he =>
      rw [commands_append, load_commands hc.loaded, List.nil_append, commands_erase]
      exact (List.prefix_cons_inj _).mpr (hb.trans (List.prefix_append _ _))
  | @committed a b done r ha hb he hs =>
      have hcommit : commands (⟨commitWord (pageAddress (1 - expected.page)), done⟩ :: b) =
          commitWord (pageAddress (1 - expected.page)) :: commands b := rfl
      rw [commands_append, hcommit, ha.commands_eq, hb]
      exact List.prefix_refl _

theorem Transcript.checked (h : Transcript expected desired tr r) (hne : commands tr ≠ []) :
    ∃ a b done, tr = a ++ ⟨.erasePage (pageAddress (1 - expected.page)), done⟩ :: b ∧
      Checked expected desired a := by
  cases h with
  | refused h0 => exact absurd h0 hne
  | erased hc => exact ⟨_, _, _, rfl, hc⟩
  | committed ha =>
      obtain ⟨c, d, rfl, hc⟩ := ha.checked
      exact ⟨c, _, true, by rw [List.append_assoc, List.cons_append], hc⟩

theorem Transcript.unloaded {x : List (Event StoreSig)} {e : BootStoreResult}
    (h : Transcript expected desired tr r) (htr : tr = b ++ x)
    (hb : Runs bootStoreLoad b (.error e)) : commands tr = [] := by
  cases h with
  | refused h => exact h
  | erased hc => exact (hc.not_unloaded hb htr).elim
  | committed ha =>
      obtain ⟨c, d, rfl, hc⟩ := ha.checked
      rw [List.append_assoc, List.cons_append] at htr
      exact (hc.not_unloaded hb htr).elim

/-- Whatever the adapter answers, a replacement commands a prefix of its plan, nothing
at all before its checks have passed, and the commit word only behind the two
comparisons; and it reports success only of what a last load has returned. -/
theorem replace_disciplined (h : Runs (bootStoreReplace expected desired) tr r) :
    Disciplined expected desired tr r := by
  have ht := replace_transcript h
  refine ⟨ht.plan, ?_, fun hne => ?_, ht.checked, fun hmem => ?_,
    fun e he hio hverify huncertain => ?_, fun a b e htr ha => ht.unloaded htr ha,
    fun s hs => ?_⟩
  · rw [← replacePlan_words desired pageAddress_room]
    exact (ht.plan.filterMap _).map _
  · obtain ⟨a, b, done, -, hc⟩ := ht.checked hne
    exact pageAddress_ne hc.page
  · cases ht with
    | refused h0 =>
        rw [h0] at hmem
        cases hmem
    | erased hc hb =>
        rw [commands_append, load_commands hc.loaded, List.nil_append, commands_erase] at hmem
        rcases List.mem_cons.mp hmem with he | hmem
        · cases he
        · exact absurd (hb.subset hmem) commitWord_notMem_staged
    | committed ha hb => exact ⟨_, _, _, rfl, ha, hb⟩
  · subst he
    cases ht with
    | refused h0 => exact h0
    | erased hc hb he => exact absurd he (not_or.mpr ⟨hio, hverify⟩)
    | committed ha hb he => exact absurd (he e rfl) huncertain
  · subst hs
    have hdone := (replace_safe expected desired tr _ h).2 s rfl
    refine ⟨hdone.record, hdone.page, ?_⟩
    cases ht with
    | committed ha hb he hs =>
        obtain ⟨c, d, rfl, hd⟩ := hs s rfl
        exact ⟨_, d, by rw [← List.cons_append, ← List.append_assoc], hd⟩

theorem replace_disciplined_committed :
    ∃ tr, Runs (bootStoreReplace ⟨factoryRecord, 0⟩ { factoryRecord with sequence := 2 }) tr
        (.ok ⟨{ factoryRecord with sequence := 2 }, 1⟩) ∧
      Disciplined ⟨factoryRecord, 0⟩ { factoryRecord with sequence := 2 } tr
        (.ok ⟨{ factoryRecord with sequence := 2 }, 1⟩) := by
  have h : Authority (freshPages factoryRecord) 0 factoryRecord :=
    authority_freshPages (by decide)
  obtain ⟨-, hr, -⟩ := exec_working
    (replace_works (d := { factoryRecord with sequence := 2 }) h (by decide) (by decide))
  have hruns := runs_trace workingStore
    (bootStoreReplace ⟨factoryRecord, 0⟩ { factoryRecord with sequence := 2 })
    (freshPages factoryRecord)
  rw [hr] at hruns
  exact ⟨_, hruns, replace_disciplined hruns⟩

end Discipline

end EkBareMetal.Boot

import EkBareMetal.Boot.Diag
import EkBareMetal.Lib.Transition
import EkBareMetal.Proofs.Format

/-!
# The retained record is old, rejected or new

A publication clears one word, writes fifteen and sets the first again, over
whatever the block held. The codec accepts a block only when it is word for
word the encoding of a valid record, so between the first store and the last
the block is refused for the one cleared word alone, and nothing has to be
known of the other fifteen.
-/

namespace EkBareMetal.Boot

open Words Interact Transition

/-! ## The codec -/

/-- The block of a published record. -/
def recordWords (r : BootDiag) : DiagWords := fun i =>
  (diagFields r .published).get i

/-- The bytes of the block, as a reader collects them. -/
def blockBytes (b : DiagWords) : List UInt8 :=
  (List.finRange 16).flatMap fun i => put32 (b i)

/-- What a reader makes of the block. -/
def retained (b : DiagWords) : Except BootDiagResult BootDiag :=
  bootDiagDecode (blockBytes b) .published

section Codec

variable {b : DiagWords} {r : BootDiag}

theorem blockBytes_eq :
    blockBytes b = ((List.finRange 16).map b).flatMap bytes32 := by
  rw [List.flatMap_map]
  rfl

@[simp] theorem length_blockBytes : (blockBytes b).length = 64 := by
  rw [blockBytes_eq, length_flatMap_bytes32, List.length_map, List.length_finRange]

/-- Word `i` of the collected bytes is word `i` of the block. -/
theorem get32_blockBytes (i : Fin 16) :
    get32 (slice (blockBytes b) (4 * i) 4) = b i := by
  have hi : i.val < ((List.finRange 16).map b).length := by simp
  have h := wordAt_flatMap _ hi
  rw [← blockBytes_eq, List.get_eq_getElem, List.getElem_map,
    List.getElem_finRange] at h
  exact h

theorem candidate_blockBytes : candidateWords (blockBytes b) = b :=
  funext get32_blockBytes

/-- The codec reads the block word by word. -/
theorem retained_eq :
    retained b =
      if b 0 ≠ bootDiagMagic then .error .errorMagic
      else if b 1 ≠ bootDiagVersion then .error .errorVersion
      else if b 2 ≠ UInt32.ofNat bootDiagBytes then .error .errorLength
      else if b 3 ≠ 1 then .error .errorValidity
      else if b 15 ≠ 0 then .error .errorReserved
      else match bootDiagValidate (spelled b) with
        | .ok => .ok (spelled b)
        | e => .error e := by
  have hw (i : Fin 16) (k : Nat) (hk : k = 4 * i.val) :
      get32 (slice (blockBytes b) k 4) = b i := by rw [hk, get32_blockBytes]
  have hlen : ¬ (blockBytes b).length < bootDiagBytes := by simp
  rw [retained, bootDiagDecode, if_neg hlen]
  simp only [hw 0 0 rfl, hw 1 4 rfl, hw 2 8 rfl, hw 3 12 rfl, hw 4 16 rfl,
    hw 5 20 rfl, hw 6 24 rfl, hw 7 28 rfl, hw 8 32 rfl, hw 9 36 rfl,
    hw 10 40 rfl, hw 11 44 rfl, hw 12 48 rfl, hw 13 52 rfl, hw 14 56 rfl,
    hw 15 60 rfl, BootDiagValidity.word]
  rfl

theorem spelled_recordWords : spelled (recordWords r) = r := rfl

/-- A block with the header of a record is the block of what it spells. -/
theorem eq_recordWords (h0 : b 0 = bootDiagMagic) (h1 : b 1 = bootDiagVersion)
    (h2 : b 2 = UInt32.ofNat bootDiagBytes) (h3 : b 3 = 1) (h15 : b 15 = 0) :
    b = recordWords (spelled b) := by
  funext i
  match i with
  | 0 => exact h0
  | 1 => exact h1
  | 2 => exact h2
  | 3 => exact h3
  | 15 => exact h15
  | 4 | 5 | 6 | 7 | 8 | 9 | 10 | 11 | 12 | 13 | 14 => rfl
  | ⟨n + 16, hn⟩ => exact absurd hn (by omega)

/-- The codec accepts exactly the encodings of valid records. -/
theorem retained_eq_ok :
    retained b = .ok r ↔ b = recordWords r ∧ bootDiagValidate r = .ok := by
  constructor
  · intro h
    rw [retained_eq] at h
    split at h
    · cases h
    next h0 =>
    split at h
    · cases h
    next h1 =>
    split at h
    · cases h
    next h2 =>
    split at h
    · cases h
    next h3 =>
    split at h
    · cases h
    next h15 =>
    simp only [ne_eq, not_not] at h0 h1 h2 h3 h15
    split at h
    · next hv =>
      injection h with h
      subst h
      exact ⟨eq_recordWords h0 h1 h2 h3 h15, hv⟩
    · cases h
  · rintro ⟨rfl, hv⟩
    rw [retained_eq, spelled_recordWords, hv]
    rfl

/-- The one cleared word is enough to be refused. -/
theorem retained_cleared (h : b validityWord = 0) : ∀ r, retained b ≠ .ok r := by
  intro r hr
  obtain ⟨rfl, -⟩ := retained_eq_ok.mp hr
  have hone : recordWords r validityWord = 1 := rfl
  exact absurd (hone.symm.trans h) (by decide)

theorem diagEncode_ok (h : bootDiagValidate r = .ok) :
    bootDiagEncode r .published bootDiagBytes = .ok (blockBytes (recordWords r)) := by
  rw [bootDiagEncode, if_neg (by decide), h]
  rfl

end Codec

/-! ## The block under word accesses that may fail -/

/-- The retained block, and whether a store to it has failed since the call
began. -/
structure DiagMemory where
  block : DiagWords
  failed : Bool

/-- A word access returns or stores faithfully, or it fails, and then a store
may have been done or not. A reset during a store leaves it done or not. -/
def diagDevice : Handler DiagSig DiagMemory where
  step
    | .read i, s, answer, s' =>
        s' = s ∧ (answer = none ∨ answer = some (s.block i))
    | .write i v, s, done, s' =>
        if done then s' = { s with block := Function.update s.block i v }
        else s'.failed = true ∧
          (s'.block = s.block ∨ s'.block = Function.update s.block i v)
    | .barrier, s, _, s' => s' = s
    | .capture _ _, s, _, s' => s' = s
  cut
    | .write i v, s, s' =>
        s'.block = s.block ∨ s'.block = Function.update s.block i v
    | .read _, s, s' => s' = s
    | .barrier, s, s' => s' = s
    | .capture _ _, s, s' => s' = s

section Device

variable {s : DiagMemory} {b : DiagWords} {K : DiagMemory → Prop}

theorem readWords_wp (is : List (Fin 16)) :
    wp diagDevice (fun s' => s' = s) (readWords is)
      (fun answer s' => s' = s ∧
        ∀ bytes, answer = some bytes →
          bytes = is.flatMap fun i => put32 (s.block i)) s := by
  induction is with
  | nil => exact ⟨rfl, fun bytes h => (Option.some.inj h).symm⟩
  | cons i rest ih =>
      refine wp_ask_bind.mpr ⟨fun s' hc => hc, fun answer s' hs => ?_⟩
      obtain ⟨rfl, rfl | rfl⟩ := hs
      · exact ⟨rfl, nofun⟩
      · refine wp_bind'.mpr (wp_post ih ?_)
        rintro answer s' ⟨rfl, hbytes⟩
        refine ⟨rfl, fun bytes h => ?_⟩
        obtain ⟨tail, htail, rfl⟩ := Option.map_eq_some_iff.mp h
        rw [hbytes tail htail, List.flatMap_cons]

/-- A record that was read is what the block decodes to. -/
theorem readRecord_wp :
    wp diagDevice (fun s' => s' = s) readRecord
      (fun answer s' => s' = s ∧
        match answer with
        | .ok r => retained s.block = .ok r
        | .error e => e ≠ .ok) s := by
  refine wp_bind'.mpr (wp_post (readWords_wp _) ?_)
  rintro answer s' ⟨rfl, hbytes⟩
  cases answer with
  | none => exact ⟨rfl, nofun⟩
  | some wire =>
      have hwire : wire = blockBytes s'.block := hbytes wire rfl
      subst hwire
      have hdef : bootDiagDecode (blockBytes s'.block) .published =
          retained s'.block := rfl
      simp only [hdef]
      cases hr : retained s'.block with
      | error e => exact ⟨rfl, nofun⟩
      | ok r => exact ⟨rfl, rfl⟩

/-- A call that reads the record goes on with what the block decodes to. -/
theorem reading_wp {k : BootDiag → Prog DiagSig DiagReply}
    {p : BootDiagPublication} {Q : DiagReply → DiagMemory → Prop} (hK : K s)
    (herror : ∀ e, e ≠ .ok → Q ⟨e, p, none⟩ s)
    (hok : ∀ r, retained s.block = .ok r → wp diagDevice K (k r) Q s) :
    wp diagDevice K
      (do
        match ← readRecord with
        | .error e => pure ⟨e, p, none⟩
        | .ok r => k r) Q s := by
  refine wp_bind'.mpr (wp_mono readRecord_wp (fun s' h => h ▸ hK) ?_)
  rintro answer s' ⟨rfl, hanswer⟩
  cases answer with
  | error e => exact herror e hanswer
  | ok r => exact hok r hanswer

/-- The other words are stored while the cleared one stays cleared. -/
theorem writeWords_wp (w : DiagWords) {is : List (Fin 16)}
    (his : validityWord ∉ is) (hs : s.block validityWord = 0) :
    wp diagDevice (fun s' => s'.block validityWord = 0) (writeWords w is)
      (fun done s' => s'.block validityWord = 0 ∧
        (done = true → s'.failed = s.failed ∧ (∀ i ∈ is, s'.block i = w i) ∧
          ∀ i, i ∉ is → s'.block i = s.block i) ∧
        (done = false → s'.failed = true)) s := by
  induction is generalizing s with
  | nil => exact ⟨hs, fun _ => ⟨rfl, List.forall_mem_nil _, fun _ _ => rfl⟩, nofun⟩
  | cons i rest ih =>
      obtain ⟨hi, hrest⟩ := not_or.mp (mt List.mem_cons.mpr his)
      have hupdate : Function.update s.block i (w i) validityWord = 0 := by
        rw [Function.update_of_ne hi, hs]
      refine wp_ask_bind.mpr ⟨?_, fun done s' hstep => ?_⟩
      · rintro s' (hb | hb)
        · rw [hb, hs]
        · rw [hb, hupdate]
      · cases done with
        | false =>
            obtain ⟨hf, hb | hb⟩ := hstep
            · exact ⟨by rw [hb, hs], nofun, fun _ => hf⟩
            · exact ⟨by rw [hb, hupdate], nofun, fun _ => hf⟩
        | true =>
            have hs' : s' = { s with block := Function.update s.block i (w i) } :=
              hstep
            subst hs'
            refine wp_post (ih hrest hupdate) ?_
            rintro done s' ⟨hzero, hdone, hfail⟩
            refine ⟨hzero, fun hd => ?_, hfail⟩
            obtain ⟨hf, hwords, hsame⟩ := hdone hd
            refine ⟨hf, List.forall_mem_cons.mpr ⟨?_, hwords⟩, fun j hj => ?_⟩
            · by_cases hmem : i ∈ rest
              · exact hwords i hmem
              · exact (hsame i hmem).trans (Function.update_self i (w i) s.block)
            · obtain ⟨hne, hout⟩ := not_or.mp (mt List.mem_cons.mpr hj)
              exact (hsame j hout).trans (Function.update_of_ne hne (w i) s.block)

theorem mem_otherWords {i : Fin 16} : i ∈ otherWords ↔ i ≠ validityWord := by
  simp [otherWords]

/-- What is found in the block when a publication of `r` over `b` is cut. -/
def Between (b : DiagWords) (r : BootDiag) (b' : DiagWords) : Prop :=
  b' = b ∨ b' validityWord = 0 ∨ b' = recordWords r

theorem publishWords_wp (p : BootDiagPublication) (r : BootDiag)
    (c : BootDiagContext) :
    wp diagDevice (fun s' => Between s.block r s'.block)
      (publishWords p (recordWords r) c)
      (fun x s' =>
        (x = (.ok, { p with context := c, associated := true }) ∧
          s' = ⟨recordWords r, s.failed⟩) ∨
        (x.1 = .uncertain ∧ x.2.associated = false ∧ x.2.busy = p.busy ∧
          s'.failed = true ∧ Between s.block r s'.block)) s := by
  refine wp_ask_bind.mpr ⟨?_, fun done s₁ hstep => ?_⟩
  · rintro s' (hb | hb)
    · exact .inl hb
    · exact .inr (.inl (by rw [hb, Function.update_self]))
  cases done with
  | false =>
      obtain ⟨hf, hb | hb⟩ := hstep
      · exact .inr ⟨rfl, rfl, rfl, hf, .inl hb⟩
      · exact .inr ⟨rfl, rfl, rfl, hf, .inr (.inl (by rw [hb, Function.update_self]))⟩
  | true =>
      have hs₁ : s₁ = { s with block := Function.update s.block validityWord 0 } :=
        hstep
      have hzero : s₁.block validityWord = 0 := by
        rw [hs₁]
        exact Function.update_self validityWord 0 s.block
      refine wp_ask_bind.mpr ⟨?_, ?_⟩
      · rintro s' rfl
        exact .inr (.inl hzero)
      rintro - s₁ rfl
      refine wp_bind'.mpr (wp_mono (writeWords_wp _ (by simp [mem_otherWords]) hzero)
        (fun s' h => .inr (.inl h)) ?_)
      rintro done s₂ ⟨hzero₂, hdone, hfail⟩
      cases done with
      | false => exact .inr ⟨rfl, rfl, rfl, hfail rfl, .inr (.inl hzero₂)⟩
      | true =>
          obtain ⟨hf, hwords, -⟩ := hdone rfl
          have hnew : Function.update s₂.block validityWord 1 = recordWords r := by
            funext i
            by_cases hi : i = validityWord
            · subst hi; rw [Function.update_self]; rfl
            · rw [Function.update_of_ne hi, hwords i (mem_otherWords.mpr hi)]
          refine wp_ask_bind.mpr ⟨?_, ?_⟩
          · rintro s' rfl
            exact .inr (.inl hzero₂)
          rintro - s₂ rfl
          refine wp_ask_bind.mpr ⟨?_, fun done s₃ hstep => ?_⟩
          · rintro s' (hb | hb)
            · exact .inr (.inl (by rw [hb, hzero₂]))
            · exact .inr (.inr (by rw [hb, hnew]))
          cases done with
          | false =>
              obtain ⟨hf', hb | hb⟩ := hstep
              · exact .inr ⟨rfl, rfl, rfl, hf', .inr (.inl (by rw [hb, hzero₂]))⟩
              · exact .inr ⟨rfl, rfl, rfl, hf', .inr (.inr (by rw [hb, hnew]))⟩
          | true =>
              have hs₃ : s₃ = { s₂ with
                  block := Function.update s₂.block validityWord 1 } := hstep
              refine .inl ⟨rfl, ?_⟩
              rw [hs₃, hnew, hf, hs₁]

theorem publish_wp (p : BootDiagPublication) {r : BootDiag} (c : BootDiagContext)
    (hv : bootDiagValidate r = .ok) :
    wp diagDevice (fun s' => Between s.block r s'.block) (publish p r c)
      (fun x s' =>
        (x = (.ok, { p with context := c, associated := true }) ∧
          s' = ⟨recordWords r, s.failed⟩) ∨
        (x.1 = .uncertain ∧ x.2.associated = false ∧ x.2.busy = p.busy ∧
          s'.failed = true ∧ Between s.block r s'.block)) s := by
  rw [publish, diagEncode_ok hv]
  dsimp only
  rw [candidate_blockBytes]
  exact publishWords_wp p r c

theorem locked_wp {p : BootDiagPublication} {caller : DiagCaller}
    {body : BootDiagPublication → Prog DiagSig DiagReply}
    {Q : DiagReply → DiagMemory → Prop}
    (hrefused : ∀ result, result ≠ .ok → Q ⟨result, p, none⟩ s)
    (hbody : p.busy = false →
      wp diagDevice K (body { p with busy := true })
        (fun reply s' =>
          Q { reply with object := { reply.object with busy := false } } s') s) :
    wp diagDevice K (locked p caller body) Q s := by
  rw [locked]
  split
  · exact hrefused .isr nofun
  split
  · exact hrefused .busy nofun
  next hbusy =>
    exact wp_bind'.mpr (wp_post (hbody (by simpa using hbusy)) fun reply s' h => h)

end Device

/-! ## What a call does -/

/-- The record and the evidence a call publishes, if it comes to that. -/
def publishes (p : BootDiagPublication) (b : DiagWords) :
    DiagCall → Option (BootDiag × BootDiagContext)
  | .boot flags => some (bootDiagInit flags)
  | .progress stage health =>
      if p.associated then
        (retained b).toOption.map fun r =>
          ({ r with stage := stage, health := health }, p.context)
      else none
  | _ => none

/-- What a snapshot that returns OK writes. -/
def shows (p : BootDiagPublication) (r : BootDiag) :
    DiagCall → Option (BootDiag × BootDiagContext)
  | .snapshot => some (r, p.context)
  | _ => none

/-- What one call leaves of the owner `p` and of the block `b`. -/
inductive DiagOutcome (p : BootDiagPublication) (b : DiagWords) :
    DiagCall → DiagReply → DiagMemory → Prop where
  | refused {call : DiagCall} {result : BootDiagPublicationResult}
      (h : result ≠ .ok) : DiagOutcome p b call ⟨result, p, none⟩ ⟨b, false⟩
  | published {call : DiagCall} {r : BootDiag} {c : BootDiagContext}
      (h : publishes p b call = some (r, c)) (hv : bootDiagValidate r = .ok) :
      DiagOutcome p b call ⟨.ok, { p with context := c, associated := true }, none⟩
        ⟨recordWords r, false⟩
  | uncertain {call : DiagCall} {r : BootDiag} {c : BootDiagContext}
      {p' : BootDiagPublication} {s : DiagMemory}
      (h : publishes p b call = some (r, c)) (hv : bootDiagValidate r = .ok)
      (hbusy : p'.busy = p.busy) (hlost : p'.associated = false)
      (hfailed : s.failed = true) (hb : Between b r s.block) :
      DiagOutcome p b call ⟨.uncertain, p', none⟩ s
  | adopted {c : BootDiagContext} {r : BootDiag} (h : retained b = .ok r) :
      DiagOutcome p b (.adopt c true)
        ⟨.ok, { p with context := c, associated := true }, none⟩ ⟨b, false⟩
  | served {call : DiagCall} {r : BootDiag} (hc : call = .snapshot ∨ call = .capture)
      (ha : p.associated = true) (h : retained b = .ok r) :
      DiagOutcome p b call ⟨.ok, p, shows p r call⟩ ⟨b, false⟩

/-- What a reset in the middle of a call leaves of the block. -/
def CutAt (p : BootDiagPublication) (b : DiagWords) (call : DiagCall)
    (b' : DiagWords) : Prop :=
  b' = b ∨ ∃ r c, publishes p b call = some (r, c) ∧
    bootDiagValidate r = .ok ∧ Between b r b'

section Calls

variable {p : BootDiagPublication} {b : DiagWords} {caller : DiagCaller}

/-- The owner is again what it was before the lock was taken. -/
theorem unlocked_eq (hbusy : p.busy = false) :
    (⟨p.context, false, p.associated⟩ : BootDiagPublication) = p := by
  rw [← hbusy]

theorem DiagOutcome.unlocked {call : DiagCall} {result : BootDiagPublicationResult}
    (hbusy : p.busy = false) (h : result ≠ .ok) :
    DiagOutcome p b call ⟨result, ⟨p.context, false, p.associated⟩, none⟩ ⟨b, false⟩ := by
  rw [unlocked_eq hbusy]
  exact .refused h

theorem validate_init (flags : UInt32) :
    bootDiagValidate (bootDiagInit flags).1 = .ok := by
  -- the flags are the one field that is not checked
  have hzero : bootDiagValidate (bootDiagInit flags).1 =
      bootDiagValidate (bootDiagInit 0).1 := rfl
  rw [hzero]
  decide

/-- Stage and health are checked on their own, so one may be replaced. -/
theorem validate_progress {r : BootDiag} {stage health : UInt32}
    (hv : bootDiagValidate r = .ok) (hs : ¬ stage > 5)
    (hh : health &&& ~~~bootDiagHealthMask = 0) :
    bootDiagValidate { r with stage := stage, health := health } = .ok := by
  rw [bootDiagValidate] at hv ⊢
  split at hv
  · cases hv
  split at hv
  · cases hv
  next hf =>
  split at hv
  · cases hv
  next hd =>
  split at hv
  · cases hv
  next hslot =>
  split at hv
  · cases hv
  next hcount =>
  rw [if_neg hs, if_neg hf, if_neg hd, if_neg hslot, if_neg hcount,
    if_neg (not_not.mpr hh)]

/-- A publication as a part of a call that holds the lock. -/
theorem published_wp {call : DiagCall} {r : BootDiag} {c : BootDiagContext}
    (hbusy : p.busy = false) (h : publishes p b call = some (r, c))
    (hv : bootDiagValidate r = .ok) :
    wp diagDevice (fun s' => CutAt p b call s'.block)
      (do
        let (result, p) ← publish { p with busy := true } r c
        pure ⟨result, p, none⟩ : Prog DiagSig DiagReply)
      (fun reply s' => DiagOutcome p b call
        { reply with object := { reply.object with busy := false } } s') ⟨b, false⟩ := by
  refine wp_bind'.mpr (wp_mono (publish_wp _ c hv)
    (fun s' hk => .inr ⟨r, c, h, hv, hk⟩) ?_)
  rintro ⟨result, p'⟩ s' (⟨he, rfl⟩ | ⟨rfl, hlost, -, hf, hb⟩)
  · obtain ⟨rfl, rfl⟩ := Prod.mk.inj he
    have hp : p = { p with busy := false } := by rw [← hbusy]
    exact hp ▸ .published h hv
  · exact .uncertain h hv hbusy.symm hlost hf hb

theorem boot_wp (flags : UInt32) :
    wp diagDevice (fun s' => CutAt p b (.boot flags) s'.block)
      (bootDiagPublicationBoot p caller flags)
      (DiagOutcome p b (.boot flags)) ⟨b, false⟩ := by
  rw [bootDiagPublicationBoot]
  split
  · exact .refused nofun
  exact locked_wp (fun result h => .refused h) fun hbusy =>
    published_wp hbusy rfl (validate_init flags)

theorem adopt_wp (c : BootDiagContext) (trusted : Bool) :
    wp diagDevice (fun s' => CutAt p b (.adopt c trusted) s'.block)
      (bootDiagPublicationAdopt p caller c trusted)
      (DiagOutcome p b (.adopt c trusted)) ⟨b, false⟩ := by
  rw [bootDiagPublicationAdopt]
  split
  · exact .refused nofun
  split
  · exact .refused nofun
  next htrusted =>
  have htrue : trusted = true := by simpa using htrusted
  subst htrue
  refine locked_wp (fun result h => .refused h) fun hbusy => ?_
  refine reading_wp (.inl rfl) (fun e he => ?_) fun r hr => ?_
  · exact .unlocked hbusy he
  · exact wp_pure.mpr (unlocked_eq hbusy ▸ .adopted hr)

theorem progress_wp (stage health : UInt32) :
    wp diagDevice (fun s' => CutAt p b (.progress stage health) s'.block)
      (bootDiagPublicationProgress p caller stage health)
      (DiagOutcome p b (.progress stage health)) ⟨b, false⟩ := by
  rw [bootDiagPublicationProgress]
  split
  · exact .refused nofun
  split
  · exact .refused nofun
  next hrange =>
  refine locked_wp (fun result h => .refused h) fun hbusy => ?_
  split
  · exact .unlocked hbusy nofun
  next hassociated =>
  refine reading_wp (.inl rfl) (fun e he => ?_) fun r hr => ?_
  · exact .unlocked hbusy he
  have ha : p.associated = true := by simpa using hassociated
  obtain ⟨hstage, hhealth⟩ := not_or.mp hrange
  have hpublishes : publishes p b (.progress stage health) =
      some ({ r with stage := stage, health := health }, p.context) := by
    rw [publishes, if_pos ha, hr]
    rfl
  exact published_wp hbusy hpublishes
    (validate_progress (retained_eq_ok.mp hr).2 hstage (not_not.mp hhealth))

theorem snapshot_wp :
    wp diagDevice (fun s' => CutAt p b .snapshot s'.block)
      (bootDiagPublicationSnapshot p caller) (DiagOutcome p b .snapshot)
      ⟨b, false⟩ := by
  rw [bootDiagPublicationSnapshot]
  split
  · exact .refused nofun
  refine locked_wp (fun result h => .refused h) fun hbusy => ?_
  split
  · exact .unlocked hbusy nofun
  next hassociated =>
  refine reading_wp (.inl rfl) (fun e he => ?_) fun r hr => ?_
  · exact .unlocked hbusy he
  have ha : p.associated = true := by simpa using hassociated
  exact wp_pure.mpr (unlocked_eq hbusy ▸ .served (.inl rfl) ha hr)

theorem capture_wp :
    wp diagDevice (fun s' => CutAt p b .capture s'.block)
      (bootDiagPublicationCapture p caller) (DiagOutcome p b .capture)
      ⟨b, false⟩ := by
  rw [bootDiagPublicationCapture]
  split
  · exact .refused nofun
  refine locked_wp (fun result h => .refused h) fun hbusy => ?_
  split
  · exact .unlocked hbusy nofun
  next hassociated =>
  refine reading_wp (.inl rfl) (fun e he => ?_) fun r hr => ?_
  · exact .unlocked hbusy he
  have ha : p.associated = true := by simpa using hassociated
  refine wp_ask_bind.mpr ⟨?_, ?_⟩
  · rintro s' rfl
    exact .inl rfl
  rintro done s' rfl
  cases done with
  | false => exact .unlocked hbusy nofun
  | true => exact wp_pure.mpr (unlocked_eq hbusy ▸ .served (.inr rfl) ha hr)

theorem diagCall_wp (call : DiagCall) :
    wp diagDevice (fun s' => CutAt p b call s'.block) (call.run p caller)
      (DiagOutcome p b call) ⟨b, false⟩ := by
  cases call with
  | boot flags => exact boot_wp flags
  | adopt c trusted => exact adopt_wp c trusted
  | progress stage health => exact progress_wp stage health
  | snapshot => exact snapshot_wp
  | capture => exact capture_wp

/-- The call needs an association. -/
def NeedsAssociation (call : DiagCall) : Prop :=
  call = .snapshot ∨ call = .capture ∨ ∃ stage health, call = .progress stage health

/-- A call that was turned away without a look at the block. -/
def TurnedAway (p : BootDiagPublication) (tr : List (Event DiagSig))
    (reply : DiagReply) : Prop :=
  tr = [] ∧ reply.result ≠ .ok ∧ reply.object = p ∧ reply.out = none

theorem turnedAway_pure {result : BootDiagPublicationResult}
    {tr : List (Event DiagSig)} {reply : DiagReply}
    (hr : Runs (pure ⟨result, p, none⟩) tr reply) (h : result ≠ .ok) :
    TurnedAway p tr reply := by
  obtain ⟨rfl, rfl⟩ := runs_pure_iff.mp hr
  exact ⟨rfl, h, rfl, rfl⟩

theorem turnedAway_locked {tr : List (Event DiagSig)} {reply : DiagReply}
    {body : BootDiagPublication → Prog DiagSig DiagReply}
    (hlost : p.associated = false)
    (hr : Runs (locked p caller fun p => do
      if !p.associated then pure ⟨.unassociated, p, none⟩ else body p) tr reply) :
    TurnedAway p tr reply := by
  rw [locked] at hr
  split at hr
  · exact turnedAway_pure hr nofun
  split at hr
  · exact turnedAway_pure hr nofun
  next hbusy =>
    simp only [hlost, Bool.not_false, if_true] at hr
    obtain ⟨rfl, rfl⟩ := runs_pure_iff.mp hr
    refine ⟨rfl, nofun, ?_, rfl⟩
    have hp := unlocked_eq (p := p) (by simpa using hbusy)
    rwa [hlost] at hp

/-- Without an association nothing is looked at and nobody is called back. -/
theorem unassociated_silent {call : DiagCall} {tr : List (Event DiagSig)}
    {reply : DiagReply} (hlost : p.associated = false) (hcall : NeedsAssociation call)
    (hr : Runs (call.run p caller) tr reply) : TurnedAway p tr reply := by
  obtain rfl | rfl | ⟨stage, health, rfl⟩ := hcall
  · simp only [DiagCall.run, bootDiagPublicationSnapshot] at hr
    split at hr
    · exact turnedAway_pure hr nofun
    · exact turnedAway_locked hlost hr
  · simp only [DiagCall.run, bootDiagPublicationCapture] at hr
    split at hr
    · exact turnedAway_pure hr nofun
    · exact turnedAway_locked hlost hr
  · simp only [DiagCall.run, bootDiagPublicationProgress] at hr
    split at hr
    · exact turnedAway_pure hr nofun
    split at hr
    · exact turnedAway_pure hr nofun
    · exact turnedAway_locked hlost hr

end Calls

/-! ## Runs -/

/-- The owner and the block it publishes to. -/
structure DiagStation where
  object : BootDiagPublication
  block : DiagWords

/-- The owner is new, the block is whatever the reset before left. -/
def diagStart (b : DiagWords) : DiagStation := ⟨bootDiagPublicationZero, b⟩

inductive DiagLabel where
  | call (caller : DiagCaller) (call : DiagCall)
      (result : BootDiagPublicationResult)
      (out : Option (BootDiag × BootDiagContext)) (failed : Bool)
  | reset (cut : Option DiagCall)

/-- A call that returns, or a reset, which may come in the middle of a call.
The block outlives the reset and the owner does not. -/
inductive DiagStep : DiagStation → DiagLabel → DiagStation → Prop where
  | call {s s' : DiagStation} {caller : DiagCaller} {call : DiagCall}
      {result : BootDiagPublicationResult}
      {out : Option (BootDiag × BootDiagContext)} {failed : Bool}
      (h : Exec diagDevice (call.run s.object caller) ⟨s.block, false⟩
        (some ⟨result, s'.object, out⟩) ⟨s'.block, failed⟩) :
      DiagStep s (.call caller call result out failed) s'
  | reset {s : DiagStation} : DiagStep s (.reset none) (diagStart s.block)
  | cut {s : DiagStation} {caller : DiagCaller} {call : DiagCall} {s' : DiagMemory}
      (h : Exec diagDevice (call.run s.object caller) ⟨s.block, false⟩ none s') :
      DiagStep s (.reset (some call)) (diagStart s'.block)

/-- What is the published record after a step, if `latest` was before it. -/
def nextPublished (latest : Option (BootDiag × BootDiagContext)) :
    DiagLabel × DiagStation → Option (BootDiag × BootDiagContext)
  | (.call _ (.boot flags) .ok _ _, _) => some (bootDiagInit flags)
  | (.call _ (.adopt c _) .ok _ _, s) => (retained s.block).toOption.map (·, c)
  | (.call _ (.progress stage health) .ok _ _, _) =>
      latest.map fun x => ({ x.1 with stage := stage, health := health }, x.2)
  | _ => latest

/-- The record a run published or adopted last, with its evidence. -/
def lastPublished (tr : List (DiagLabel × DiagStation)) :
    Option (BootDiag × BootDiagContext) := tr.foldl nextPublished none

/-- A call that gives the owner its association. -/
def Associates : DiagLabel → Prop
  | .call _ (.boot _) .ok _ _ => True
  | .call _ (.adopt _ _) .ok _ _ => True
  | _ => False

/-- An associated owner keeps the evidence of the record in its block, and that
record is the last one published. -/
structure DiagHeld (latest : Option (BootDiag × BootDiagContext))
    (s : DiagStation) : Prop where
  free : s.object.busy = false
  held : s.object.associated = true →
    ∃ r c, latest = some (r, c) ∧ retained s.block = .ok r ∧ s.object.context = c

section Runs

variable {s s' : DiagStation} {l : DiagLabel} {b₀ : DiagWords}
  {tr : List (DiagLabel × DiagStation)}
  {latest : Option (BootDiag × BootDiagContext)}

theorem held_start (b : DiagWords) : DiagHeld latest (diagStart b) := ⟨rfl, nofun⟩

theorem next_refused {caller : DiagCaller} {call : DiagCall}
    {result : BootDiagPublicationResult} {out : Option (BootDiag × BootDiagContext)}
    {failed : Bool} (h : result ≠ .ok) :
    nextPublished latest (.call caller call result out failed, s) = latest := by
  cases call <;> cases result <;> first | rfl | exact absurd rfl h

/-- What a call publishes is what is the published record after it. -/
theorem next_published {caller : DiagCaller} {call : DiagCall} {r : BootDiag}
    {c : BootDiagContext} {out : Option (BootDiag × BootDiagContext)} {failed : Bool}
    (hi : DiagHeld latest s) (h : publishes s.object s.block call = some (r, c)) :
    nextPublished latest (.call caller call .ok out failed, s') = some (r, c) := by
  cases call with
  | boot flags => exact h
  | progress stage health =>
      rw [publishes] at h
      split at h
      · next ha =>
        obtain ⟨r₀, c₀, hlatest, hr, hc⟩ := hi.held ha
        rw [hr] at h
        rw [nextPublished, hlatest, ← h, hc]
        rfl
      · cases h
  | adopt | snapshot | capture => cases h

theorem step_held (hi : DiagHeld latest s) (h : DiagStep s l s') :
    DiagHeld (nextPublished latest (l, s')) s' := by
  cases h with
  | reset => exact held_start _
  | cut h => exact held_start _
  | @call _ caller call result out failed h =>
      have ho := h.post (diagCall_wp call)
      obtain ⟨object, block⟩ := s
      obtain ⟨object', block'⟩ := s'
      dsimp only at ho
      cases ho with
      | refused hne => rw [next_refused hne]; exact hi
      | published hpub hv =>
          refine ⟨hi.free, fun _ => ⟨_, _, next_published hi hpub, ?_, rfl⟩⟩
          exact retained_eq_ok.mpr ⟨rfl, hv⟩
      | uncertain hpub hv hbusy hlost hfailed hb =>
          have hne : BootDiagPublicationResult.uncertain ≠ .ok := nofun
          rw [next_refused hne]
          exact ⟨hbusy.trans hi.free, fun ha => absurd (hlost.symm.trans ha) nofun⟩
      | @adopted c r hr =>
          refine ⟨hi.free, fun _ => ⟨r, c, ?_, hr, rfl⟩⟩
          show (retained block).toOption.map (·, c) = some (r, c)
          rw [hr]
          rfl
      | served hcall ha hr =>
          obtain rfl | rfl := hcall
          · exact hi
          · exact hi

theorem run_held (h : Run DiagStep (diagStart b₀) tr s) :
    DiagHeld (lastPublished tr) s := by
  refine h.history (I := fun tr s => DiagHeld (lastPublished tr) s) ?_ (held_start b₀)
  intro tr s l s' _ hi hstep
  rw [lastPublished, List.foldl_append]
  exact step_held hi hstep

/-- An association is given by a publication at boot or by an adoption. -/
theorem step_associates (hlost : s.object.associated = false) (h : DiagStep s l s')
    (ha : s'.object.associated = true) : Associates l := by
  cases h with
  | reset => exact absurd ha nofun
  | cut h => exact absurd ha nofun
  | @call _ caller call result out failed h =>
      have ho := h.post (diagCall_wp call)
      obtain ⟨object, block⟩ := s
      obtain ⟨object', block'⟩ := s'
      dsimp only at ho hlost ha
      cases ho with
      | refused hne => exact absurd (hlost.symm.trans ha) nofun
      | published hpub hv =>
          cases call with
          | boot flags => trivial
          | progress stage health =>
              rw [publishes, hlost] at hpub
              cases hpub
          | adopt | snapshot | capture => cases hpub
      | uncertain hpub hv hbusy hgone hfailed hb =>
          exact absurd (hgone.symm.trans ha) nofun
      | adopted hr => trivial
      | served hcall hassociated hr => exact absurd (hlost.symm.trans ha) nofun

theorem run_associates (h : Run DiagStep s tr s')
    (hlost : s.object.associated = false) (ha : s'.object.associated = true) :
    ∃ x ∈ tr, Associates x.1 := by
  induction h with
  | nil => exact absurd (hlost.symm.trans ha) nofun
  | @cons s s₁ s' l tr hstep hr ih =>
      cases hs₁ : s₁.object.associated with
      | true => exact ⟨_, List.mem_cons_self, step_associates hlost hstep hs₁⟩
      | false =>
          obtain ⟨x, hx, hassociates⟩ := ih hs₁ ha
          exact ⟨x, List.mem_cons_of_mem _ hx, hassociates⟩

/-- Old, rejected, or the complete encoding of what the call publishes. -/
def Atomic (s : DiagStation) (call : DiagCall) (block : DiagWords) : Prop :=
  block = s.block ∨ (∀ r, retained block ≠ .ok r) ∨
    ∃ r c, publishes s.object s.block call = some (r, c) ∧
      bootDiagEncode r .published bootDiagBytes = .ok (blockBytes block)

theorem atomic_between {call : DiagCall} {block : DiagWords} {r : BootDiag}
    {c : BootDiagContext} (h : publishes s.object s.block call = some (r, c))
    (hv : bootDiagValidate r = .ok) (hb : Between s.block r block) :
    Atomic s call block := by
  obtain hb | hb | rfl := hb
  · exact .inl hb
  · exact .inr (.inl (retained_cleared hb))
  · exact .inr (.inr ⟨r, c, h, diagEncode_ok hv⟩)

theorem atomic_cut {call : DiagCall} {block : DiagWords}
    (h : CutAt s.object s.block call block) : Atomic s call block := by
  obtain hb | ⟨r, c, hpub, hv, hb⟩ := h
  · exact .inl hb
  · exact atomic_between hpub hv hb

theorem atomic_outcome {call : DiagCall} {reply : DiagReply} {m : DiagMemory}
    (h : DiagOutcome s.object s.block call reply m) : Atomic s call m.block := by
  cases h with
  | refused => exact .inl rfl
  | published hpub hv => exact atomic_between hpub hv (.inr (.inr rfl))
  | uncertain hpub hv hbusy hlost hfailed hb => exact atomic_between hpub hv hb
  | adopted => exact .inl rfl
  | served => exact .inl rfl

theorem outcome_failed {p : BootDiagPublication} {b : DiagWords} {call : DiagCall}
    {reply : DiagReply} {m : DiagMemory} (h : DiagOutcome p b call reply m)
    (hfailed : m.failed = true) :
    reply.result = .uncertain ∧ reply.object.associated = false := by
  cases h with
  | uncertain hpub hv hbusy hlost hf hb => exact ⟨rfl, hlost⟩
  | refused | published | adopted | served => cases hfailed

/-- Of the record only the stage and the health change, of the evidence
nothing. -/
theorem outcome_progress {p : BootDiagPublication} {b : DiagWords}
    {stage health : UInt32} {reply : DiagReply} {m : DiagMemory}
    (h : DiagOutcome p b (.progress stage health) reply m) (hok : reply.result = .ok) :
    ∃ r, retained b = .ok r ∧
      retained m.block = .ok { r with stage := stage, health := health } ∧
      reply.object.context = p.context := by
  cases h with
  | refused hne => exact absurd hok hne
  | @published _ r c hpub hv =>
      rw [publishes] at hpub
      split at hpub
      · obtain ⟨r₀, hr₀, he⟩ := Option.map_eq_some_iff.mp hpub
        obtain ⟨rfl, rfl⟩ := Prod.mk.inj he
        have hb : retained b = .ok r₀ := by
          cases hb : retained b with
          | ok r => rw [hb] at hr₀; cases hr₀; rfl
          | error e => rw [hb] at hr₀; cases hr₀
        exact ⟨r₀, hb, retained_eq_ok.mpr ⟨rfl, hv⟩, rfl⟩
      · cases hpub
  | uncertain => cases hok
  | served hcall => obtain h | h := hcall <;> cases h

end Runs

/-! ## The result -/

/-- What a run of calls and resets leaves of an owner and its block, and what
the next call does to them. -/
structure DiagSafe (tr : List (DiagLabel × DiagStation)) (s : DiagStation) : Prop where
  /-- A reset in the middle of a call leaves one of three blocks. -/
  cut : ∀ caller call m,
    Exec diagDevice (call.run s.object caller) ⟨s.block, false⟩ none m →
      Atomic s call m.block
  /-- So does every return, and a failed store is reported. -/
  returned : ∀ caller call reply m,
    Exec diagDevice (call.run s.object caller) ⟨s.block, false⟩ (some reply) m →
      Atomic s call m.block ∧
        (m.failed = true →
          reply.result = .uncertain ∧ reply.object.associated = false)
  /-- Without an association three calls are refused at once. -/
  refuses : s.object.associated = false → ∀ caller call, NeedsAssociation call →
    ∀ evs reply, Runs (call.run s.object caller) evs reply →
      TurnedAway s.object evs reply
  /-- And it comes back only with a publication at boot or an adoption. -/
  regained : s.object.associated = false → ∀ tr' s', Run DiagStep s tr' s' →
    s'.object.associated = true → ∃ x ∈ tr', Associates x.1
  /-- Progress changes the stage and the health. -/
  progressed : ∀ caller stage health reply m,
    Exec diagDevice (bootDiagPublicationProgress s.object caller stage health)
      ⟨s.block, false⟩ (some reply) m → reply.result = .ok →
    ∃ r, retained s.block = .ok r ∧
      retained m.block = .ok { r with stage := stage, health := health } ∧
      reply.object.context = s.object.context
  /-- An associated owner has the last published record and its evidence. -/
  held : s.object.associated = true →
    ∃ r c, lastPublished tr = some (r, c) ∧ retained s.block = .ok r ∧
      s.object.context = c

/-- The retained record is published atomically. -/
theorem diag_publication {b₀ : DiagWords} {tr : List (DiagLabel × DiagStation)}
    {s : DiagStation} (h : Run DiagStep (diagStart b₀) tr s) : DiagSafe tr s where
  cut _ call _ he := atomic_cut (he.crash (diagCall_wp call))
  returned _ call _ _ he :=
    have ho := he.post (diagCall_wp call)
    ⟨atomic_outcome ho, outcome_failed ho⟩
  refuses hlost _ _ hcall _ _ hr := unassociated_silent hlost hcall hr
  regained hlost _ _ hr ha := run_associates hr hlost ha
  progressed _ stage health _ _ he hok :=
    outcome_progress (he.post (diagCall_wp (.progress stage health))) hok
  held := (run_held h).held

/-- A block in which one value cannot be stored. -/
def stuckBlock : (op : DiagOp) → DiagMemory → DiagSig.Ans op × DiagMemory
  | .read i, s => (some (s.block i), s)
  | .write i v, s =>
      if v = 0xdeadbeef then (false, { s with failed := true })
      else (true, { s with block := Function.update s.block i v })
  | .barrier, s => ((), s)
  | .capture _ _, s => (true, s)

theorem stuckBlock_step (op : DiagOp) (s : DiagMemory) :
    diagDevice.step op s (stuckBlock op s).1 (stuckBlock op s).2 := by
  cases op with
  | read i => exact ⟨rfl, .inr rfl⟩
  | write i v =>
      simp only [diagDevice, stuckBlock]
      split
      · exact ⟨rfl, .inl rfl⟩
      · rfl
  | barrier => rfl
  | capture r c => rfl

/-- Calls made from the foreground, one after another, on that block. -/
def playDiag : List DiagCall → DiagStation →
    List (DiagLabel × DiagStation) × DiagStation
  | [], s => ([], s)
  | call :: calls, s =>
      let x := (call.run s.object ⟨true, true⟩).run stuckBlock ⟨s.block, false⟩
      let s' : DiagStation := ⟨x.1.object, x.2.block⟩
      let rest := playDiag calls s'
      ((.call ⟨true, true⟩ call x.1.result x.1.out x.2.failed, s') :: rest.1, rest.2)

theorem run_playDiag (calls : List DiagCall) (s : DiagStation) :
    Run DiagStep s (playDiag calls s).1 (playDiag calls s).2 := by
  induction calls generalizing s with
  | nil => exact .nil s
  | cons call calls ih => exact .cons (.call (exec_run stuckBlock_step _ _)) (ih _)

/-- The first publication fails at the flags, a second one is made and then
brought forward. -/
def diagCalls : List DiagCall :=
  [.boot 0xdeadbeef, .snapshot, .boot 1, .progress 4 1]

theorem diag_publication_stuck :
    DiagSafe (playDiag diagCalls (diagStart fun _ => 0)).1
        (playDiag diagCalls (diagStart fun _ => 0)).2 ∧
      lastPublished (playDiag diagCalls (diagStart fun _ => 0)).1 =
        some ({ (bootDiagInit 1).1 with stage := 4, health := 1 },
          (bootDiagInit 1).2) ∧
      (playDiag diagCalls (diagStart fun _ => 0)).2.object.associated = true :=
  ⟨diag_publication (run_playDiag _ _), by decide +kernel, by decide +kernel⟩

end EkBareMetal.Boot

import EkBareMetal.Proofs.Backed
import EkBareMetal.Proofs.Flash

/-!
# What the receiver's calls do to the board

The store and the verifier inside the receiver, each over the flash controller
it shares with everything else. Two facts are kept about every stretch of the
receiver: where it may have written, which follows from the addresses it asks
for, and what it answers, which the store and the verifier bring with them.
-/

namespace EkBareMetal.Boot

open Words Interact ByteMem

/-! ## Confinement -/

/-- The board changed in `P` only, by commands that work in `P` only. -/
structure Confined (P : Nat → Prop) (b b' : Board) : Prop where
  mem : Inside b.mem b'.mem P
  log : ∃ cs, b'.log = b.log ++ cs ∧ ∀ c ∈ cs, ∀ x, c.Touches x → P x

section Confined

variable {P : Nat → Prop} {b b' b'' : Board} {c : FlashCommand}

theorem Confined.refl (P : Nat → Prop) (b : Board) : Confined P b b :=
  ⟨.refl _ _, [], (List.append_nil _).symm, fun _ hc => by cases hc⟩

theorem Confined.trans (h : Confined P b b') (h' : Confined P b' b'') :
    Confined P b b'' := by
  obtain ⟨cs, hl, hc⟩ := h.log
  obtain ⟨cs', hl', hc'⟩ := h'.log
  refine ⟨h.mem.trans h'.mem, cs ++ cs', ?_, fun c hm => ?_⟩
  · rw [hl', hl, List.append_assoc]
  · rcases List.mem_append.mp hm with hm | hm
    · exact hc c hm
    · exact hc' c hm

theorem Commanded.confined (h : Commanded c b b')
    (hc : ∀ x, c.Touches x → P x) : Confined P b b' := by
  rcases h with rfl | ⟨hl, hm⟩
  · exact .refl _ _
  · refine ⟨hm.within.inside fun x h₁ h₂ => hc x ⟨h₁, h₂⟩, [c], hl, ?_⟩
    intro c' hc'
    rw [List.mem_singleton.mp hc']
    exact hc

/-- A command works on some byte. -/
theorem exists_touches (c : FlashCommand) : c.Touches c.address.toNat := by
  refine ⟨Nat.le_refl _, ?_⟩
  cases c <;> simp [FlashCommand.size]

theorem Confined.eq (h : Confined (fun _ => False) b b') : b' = b := by
  obtain ⟨cs, hl, hc⟩ := h.log
  have hnil : cs = [] := by
    cases cs with
    | nil => rfl
    | cons c cs => exact (hc c List.mem_cons_self _ (exists_touches c)).elim
  rw [hnil, List.append_nil] at hl
  obtain ⟨mem, log⟩ := b
  obtain ⟨mem', log'⟩ := b'
  have hmem : mem' = mem := funext fun x => h.mem x id
  have hlog : log' = log := hl
  rw [hmem, hlog]

end Confined

/-- The commands a request may start work in `P`. -/
def Targets (P : Nat → Prop) : ReceiveOp → Prop
  | .flashErase a => ∀ x, (FlashCommand.erase a).Touches x → P x
  | .flashProgram a w => ∀ x, (FlashCommand.program a w).Touches x → P x
  | _ => True

theorem confined_wp {P : Nat → Prop} {p : Prog ReceiveSig α}
    (hp : p.Only (Targets P)) (b : Board) :
    wp boardDevice (Confined P b) p (fun _ => Confined P b) b := by
  refine wp_only (fun op b₁ r b₂ hop hI hs => hI.trans ?_)
    (fun op b₁ b₂ hop hI hc => hI.trans ?_) hp (.refl P b)
  · cases op with
    | flashErase a => exact hs.1.confined hop
    | flashProgram a w => exact hs.1.confined hop
    | flashRead a n => exact hs.1 ▸ .refl P b₁
    | flashBlocked => exact hs ▸ .refl P b₁
    | host op => exact hs ▸ .refl P b₁
  · cases op with
    | flashErase a => exact Commanded.confined hc hop
    | flashProgram a w => exact Commanded.confined hc hop
    | flashRead a n => exact hc ▸ .refl P b₁
    | flashBlocked => exact hc ▸ .refl P b₁
    | host op => exact hc ▸ .refl P b₁

/-- A program that asks for no command changes nothing. -/
theorem unchanged_wp {p : Prog ReceiveSig α}
    (hp : p.Only (Targets fun _ => False)) (b : Board) :
    wp boardDevice (· = b) p (fun _ b' => b' = b) b :=
  wp_mono (confined_wp hp b) (fun _ h => h.eq) fun _ _ h => h.eq

/-! ## The running callback -/

theorem serveRunning_only (op : RunningOp) :
    (serveRunning op).Only (Targets fun _ => False) :=
  ⟨trivial, fun _ => trivial⟩

theorem running_wp (p : Prog RunningSig α) (b : Board) :
    wp boardDevice (· = b) (p.inline serveRunning) (fun _ b' => b' = b) b :=
  unchanged_wp (Prog.only_inline (fun op _ => serveRunning_only op) p.only_true) b

/-! ## The verifier -/

/-- The verifier's callbacks on a board: what is read is true. -/
def verifyBoard : Handler VerifySig Board where
  step op b r b' := b' = b ∧ Truthful b.mem ⟨op, r⟩
  cut _ b b' := b' = b

theorem payloadCalls_wp (op : VerifyOp) (kept : BootFlashResult) (b : Board) :
    wp boardDevice (fun b' => verifyBoard.cut op b b') (payloadCalls op kept)
      (fun x b' => verifyBoard.step op b x.1 b' ∧ True) b := by
  cases op with
  | read a n =>
      refine wp_ask_bind.mpr ⟨fun b' hc => hc, fun r b' hs => ?_⟩
      obtain ⟨rfl, hb⟩ := hs
      refine ⟨⟨rfl, fun address requested bytes he => ?_⟩, trivial⟩
      injection he with hop hans
      injection hop with ha hn
      subst ha hn
      cases r with
      | error e => exact absurd hans (by simp [Except.toOption])
      | ok got =>
          have hgot : got = bytes := Option.some.inj (eq_of_heq hans)
          rw [← hgot]
          exact hb got rfl
  | progress phase completed total =>
      refine wp_ask_bind.mpr ⟨fun b' hc => hc, fun r b' hs => ?_⟩
      exact ⟨⟨hs, fun a n bytes he => (by cases he)⟩, trivial⟩
  | library =>
      refine wp_ask_bind.mpr ⟨fun b' hc => hc, fun r b' hs => ?_⟩
      exact ⟨⟨hs, fun a n bytes he => (by cases he)⟩, trivial⟩

/-- What follows from true reads holds of the verifier inside the receiver. -/
theorem verify_wp {p : Prog VerifySig α} {Q : α → Prop} {b : Board}
    (h : Given (Truthful b.mem) p Q) (kept : BootFlashResult) :
    wp boardDevice (· = b) (p.interp payloadCalls kept)
      (fun x b' => b' = b ∧ Q x.1) b := by
  have hp : wp verifyBoard (· = b) p (fun a b' => Q a ∧ b' = b) b := by
    refine wp_of_given (E := Truthful b.mem) (I := (· = b)) ?_ ?_ h rfl
    · intro op b₁ r b₂ hI hs
      subst hI
      exact ⟨hs.2, hs.1⟩
    · intro op b₁ b₂ hI hc
      exact hc.trans hI
  have hw := @wp_interp _ _ _ _ _ _ boardDevice verifyBoard payloadCalls
    (fun _ _ => True) id (· = b) (fun op r s _ => payloadCalls_wp op r s)
    p (fun a b' => Q a ∧ b' = b) kept b trivial hp
  exact wp_post hw fun x b' hx => ⟨hx.1.2, hx.1.1⟩

theorem receive_verifyManifest_wp (C : Crypto) (wire : List UInt8)
    (slot : UInt32) (kept : BootFlashResult) (b : Board) :
    wp boardDevice (· = b)
      ((bootVerifyManifest C wire slot).interp payloadCalls kept)
      (fun x b' => b' = b ∧ ∀ m, x.1 = .ok m →
        admittedManifest C wire slot = .ok m) b := by
  refine wp_post (verify_wp (verifyManifest_given C wire slot) kept)
    fun x b' h => ⟨h.1, fun m hm => ?_⟩
  rcases h.2 with he | ⟨e, he, -⟩
  · rw [← he, hm]
  · rw [hm] at he
    cases he

theorem receive_verifyStored_wp (C : Crypto) (wire : List UInt8)
    (slot : UInt32) (kept : BootFlashResult) (b : Board) :
    wp boardDevice (· = b)
      ((bootVerifyStored C wire slot).interp payloadCalls kept)
      (fun x b' => b' = b ∧ ∀ image, x.1 = .ok image →
        storedResult C b.mem wire slot = .ok image) b := by
  refine wp_post (verify_wp (verifyStored_given (fun _ he => he) C wire slot) kept)
    fun x b' h => ⟨h.1, fun image hi => ?_⟩
  rcases h.2 with he | ⟨e, he, -⟩
  · rw [← he, hi]
  · rw [hi] at he
    cases he

/-! ## The store -/

/-- The receiver's metadata callbacks are an adapter of the page device. -/
theorem metadataCalls_wp (op : StoreOp) (kept : BootFlashResult) (b : Board) :
    wp boardDevice (fun b' => pageDevice.cut op b.mem b'.mem)
      (metadataCalls op kept)
      (fun x b' => pageDevice.step op b.mem x.1 b'.mem ∧ True) b := by
  cases op with
  | read a n =>
      refine wp_ask_bind.mpr ⟨fun b' hc => congrArg Board.mem hc,
        fun r b' hs => ?_⟩
      obtain ⟨rfl, hb⟩ := hs
      refine ⟨⟨rfl, fun bytes hbytes => ?_⟩, trivial⟩
      cases r with
      | error e => cases hbytes
      | ok got =>
          injection hbytes with hgot
          rw [← hgot]
          exact hb got rfl
  | erasePage a =>
      have htorn : ∀ b', Commanded (.erase a) b b' →
          TornErase a b.mem b'.mem := by
        intro b' hc
        rcases hc with rfl | ⟨-, hm⟩
        · exact FlashCommand.Leaves.refl (.erase a) _
        · exact hm
      refine wp_ask_bind.mpr ⟨htorn, fun r b' hs => ⟨?_, trivial⟩⟩
      show if (r == .ok) = true then b'.mem = erasePage a b.mem
        else TornErase a b.mem b'.mem
      split
      · next hr => exact hs.2 (by simpa using hr)
      · exact htorn b' hs.1
  | programWord a w =>
      have hword : ∀ b', Commanded (.program a w) b b' →
          Within b.mem b'.mem a.toNat 4 := by
        intro b' hc
        rcases hc with rfl | ⟨-, hm⟩
        · exact Within.refl _ _ _
        · exact hm
      refine wp_ask_bind.mpr ⟨hword, fun r b' hs => ⟨?_, trivial⟩⟩
      show if (r == .ok) = true then b'.mem = programWord a w b.mem
        else Within b.mem b'.mem a.toNat 4
      split
      · next hr =>
          obtain ⟨hm, hbits⟩ := hs.2 (by simpa using hr)
          rw [hm, programWord, hbits]
      · exact hword b' hs.1

theorem storeOp_nonempty (op : StoreOp) : Nonempty (StoreSig.Ans op) := by
  cases op with
  | read a n => exact ⟨none⟩
  | erasePage a => exact ⟨false⟩
  | programWord a w => exact ⟨false⟩

theorem load_only (kept : BootFlashResult) :
    (bootStoreLoad.interp metadataCalls kept).Only (Targets fun _ => False) := by
  have hreads : bootStoreLoad.Only fun (op : StoreOp) => ∃ a n, op = .read a n :=
    load_safe.only storeOp_nonempty
  refine Prog.only_interp (fun op kept hop => ?_) hreads kept
  obtain ⟨a, n, rfl⟩ := hop
  exact ⟨trivial, fun _ => trivial⟩

theorem replace_only (expected : BootStoreSnapshot) (d : BootMetadata)
    (kept : BootFlashResult) :
    ((bootStoreReplace expected d).interp metadataCalls kept).Only
      (Targets InMetadata) := by
  have hwrites : (bootStoreReplace expected d).Only fun (op : StoreOp) =>
      (∃ a n, op = .read a n) ∨ op = .erasePage (pageAddress (1 - expected.page)) ∨
        ∃ i word, i < 168 ∧ op = .programWord
          (pageAddress (1 - expected.page) + UInt32.ofNat i) word :=
    (replace_safe expected d).only storeOp_nonempty
  refine Prog.only_interp (fun op kept hop => ?_) hwrites kept
  rcases hop with ⟨a, n, rfl⟩ | rfl | ⟨i, word, hi, rfl⟩
  · exact ⟨trivial, fun _ => trivial⟩
  · exact ⟨fun x hx => inMetadata_page hx.1 hx.2, fun _ => trivial⟩
  · refine ⟨fun x hx => ?_, fun _ => trivial⟩
    obtain ⟨h₁, h₂⟩ := hx
    simp only [FlashCommand.address, FlashCommand.size, bootProgramBytes,
      @toNat_pageAddress_add (1 - expected.page) i (by
        simp only [bootEraseBytes]; omega)] at h₁ h₂
    refine @inMetadata_page x (1 - expected.page) (by omega) ?_
    simp only [bootEraseBytes]
    omega

/-- A load inside the receiver answers what the pages hold, or fails. -/
theorem receive_load_wp (kept : BootFlashResult) (b : Board) :
    wp boardDevice (· = b) (bootStoreLoad.interp metadataCalls kept)
      (fun x b' => b' = b ∧ ∀ s, x.1 = .ok s →
        bootStoreLoad.eval (storeAnswers b.mem) = .ok s) b := by
  have hw := @wp_interp _ _ _ _ _ _ boardDevice pageDevice metadataCalls
    (fun _ _ => True) Board.mem (fun _ => True)
    (fun op r s _ => metadataCalls_wp op r s) bootStoreLoad
    (fun res m => m = b.mem ∧ (res = .error .io ∨
      res = bootStoreLoad.eval (storeAnswers b.mem))) kept b trivial
    (load_wp trivial)
  refine wp_mono (wp_and (unchanged_wp (load_only kept) b) hw)
    (fun b' h => h.1) fun x b' h => ⟨h.1, fun s hs => ?_⟩
  rcases h.2.1.2 with he | he
  · rw [hs] at he
    cases he
  · rw [← he, hs]

/-- A replacement inside the receiver: the old record or the new one, and
nothing changed outside the metadata pages. -/
theorem receive_replace_wp {b : Board} {page : UInt32} {r : BootMetadata}
    (h : Authority b.mem page r) (expected : BootStoreSnapshot)
    (d : BootMetadata) (kept : BootFlashResult) :
    wp boardDevice
      (fun b' => Confined InMetadata b b' ∧ Either page r d b'.mem)
      ((bootStoreReplace expected d).interp metadataCalls kept)
      (fun x b' => Confined InMetadata b b' ∧ Outcome page r d x.1 b'.mem) b := by
  have hw := @wp_interp _ _ _ _ _ _ boardDevice pageDevice metadataCalls
    (fun _ _ => True) Board.mem (Either page r d)
    (fun op r s _ => metadataCalls_wp op r s) (bootStoreReplace expected d)
    (Outcome page r d) kept b trivial (replace_wp h expected d)
  exact wp_post (wp_and (confined_wp (replace_only expected d kept) b) hw)
    fun x b' hx => ⟨hx.1, hx.2.1⟩

end EkBareMetal.Boot

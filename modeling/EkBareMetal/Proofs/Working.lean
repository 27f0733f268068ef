import EkBareMetal.Proofs.Receive
import EkBareMetal.Proofs.Selection
import EkBareMetal.Proofs.Streaming

/-!
# A board that does what it is for

What is proved of a board that may fail at every request is proved of one that
never writes anything, too. This module has the other board: a controller that
has finished every command by its next poll. Behind the driver it carries out
each proper request of the receiver (`serveReceive_works`), and on a board that
does so the store replaces and the verifier decides.
-/

namespace EkBareMetal.Boot

open Words Interact ByteMem

/-! ## The receiver's requests -/

/-- The `n` bytes at `a` are in the flash the driver serves. -/
def Placed (a : UInt32) (n : Nat) : Prop :=
  bootMetadataPage0.toNat ≤ a.toNat ∧ 0 < n ∧ a.toNat + n ≤ bootSlotBEnd.toNat

theorem range_of_placed {a : UInt32} {n : Nat} (h : Placed a n) :
    range a n bootMetadataPage0 bootSlotBEnd = true := by
  obtain ⟨hlo, h0, hhi⟩ := h
  have hend : a ≤ bootSlotBEnd := by
    rw [UInt32.le_iff_toNat_le]
    omega
  have hsub : (bootSlotBEnd - a).toNat = bootSlotBEnd.toNat - a.toNat :=
    UInt32.toNat_sub_of_le _ _ hend
  have hlt : a < bootSlotBEnd := by
    rw [UInt32.lt_iff_toNat_lt]
    omega
  simp only [range, Bool.and_eq_true, decide_eq_true_eq, bne_iff_ne]
  refine ⟨⟨⟨UInt32.le_iff_toNat_le.mpr hlo, hlt⟩, by omega⟩, ?_⟩
  rw [hsub]
  omega

/-- The requests a working board may not refuse. -/
def ReceiveOp.Proper : ReceiveOp → ByteMem → Prop
  | .flashRead a n, _ => Placed a n
  | .flashErase a, _ => Placed a bootEraseBytes ∧ a.toNat % bootEraseBytes = 0
  | .flashProgram a w, m => Placed a bootProgramBytes ∧ a.toNat % bootProgramBytes = 0 ∧
      get32 (m.read a.toNat 4) &&& w = w
  | _, _ => True

def workingReceive : (op : ReceiveOp) → ByteMem → ReceiveSig.Ans op × ByteMem
  | .flashRead a n, m => (.ok ⟨m.read a.toNat n, length_readAt m a n⟩, m)
  | .flashErase a, m => (.ok, erasePage a m)
  | .flashProgram a w, m => (.ok, m.write a.toNat (put32 w))
  | .flashBlocked, m => (none, m)
  | .host _, m => (true, m)

abbrev obligingReceive : Handler ReceiveSig ByteMem := .obliging ReceiveOp.Proper workingReceive

theorem placed_page {page : UInt32} {i n : Nat} (h0 : 0 < n) (hn : i + n ≤ bootEraseBytes) :
    Placed (pageAddress page + UInt32.ofNat i) n := by
  have ha : (pageAddress page + UInt32.ofNat i).toNat = (pageAddress page).toNat + i :=
    toNat_pageAddress_add (by omega)
  have hpage : (pageAddress page).toNat = 32768 ∨ (pageAddress page).toNat = 33792 := by
    unfold pageAddress
    split
    · exact .inl rfl
    · exact .inr rfl
  have h1 : bootMetadataPage0.toNat = 32768 := rfl
  have h2 : bootSlotBEnd.toNat = 260096 := rfl
  simp only [bootEraseBytes] at hn
  unfold Placed
  omega

/-! ## The store -/

/-- Through the receiver's callbacks the board is an obliging store. -/
theorem metadataCalls_works (op : StoreOp) (kept : BootFlashResult) (m : ByteMem) :
    wp obligingReceive (fun _ => False) (metadataCalls op kept)
      (fun x m' => obligingStore.step op m x.1 m' ∧ True) m := by
  by_cases hop : op.Proper m
  swap
  · cases op <;> exact ⟨fun _ hc => hc, fun r m' _ => ⟨fun h => absurd h hop, trivial⟩⟩
  cases op with
  | read a n =>
      obtain ⟨page, rfl, h0, hn⟩ := hop
      refine wp_obliging ?_ ⟨fun _ => rfl, trivial⟩
      have hp := @placed_page page 0 n h0 (by omega)
      rwa [show UInt32.ofNat 0 = 0 from rfl, UInt32.add_zero] at hp
  | erasePage a =>
      obtain ⟨page, rfl⟩ := hop
      refine wp_obliging ⟨?_, ?_⟩ ⟨fun _ => rfl, trivial⟩
      · have hp := @placed_page page 0 bootEraseBytes (by decide) (by omega)
        rwa [show UInt32.ofNat 0 = 0 from rfl, UInt32.add_zero] at hp
      · unfold pageAddress
        split <;> decide
  | programWord a w =>
      obtain ⟨page, i, rfl, h4, hi, hbits⟩ := hop
      simp only [bootEraseBytes] at hi
      refine wp_obliging ⟨placed_page (by decide) ?_, ?_, hbits⟩ ⟨fun _ => ?_, trivial⟩
      · simp only [bootProgramBytes, bootEraseBytes]
        omega
      · rw [toNat_pageAddress_add (by simp only [bootEraseBytes]; omega)]
        have h0 : bootMetadataPage0.toNat = 32768 := rfl
        have h1 : bootMetadataPage1.toNat = 33792 := rfl
        simp only [bootProgramBytes]
        unfold pageAddress
        split <;> omega
      · show (true, programWord _ w m) = (true, _)
        rw [programWord, hbits]
        rfl

section Store

variable {page : UInt32} {r d : BootMetadata} {mem : ByteMem} {K : ByteMem → Prop}

theorem store_works {α : Type} {p : Prog StoreSig α} {Q : α → ByteMem → Prop}
    (kept : BootFlashResult) (hp : wp obligingStore (fun _ => False) p Q mem) :
    wp obligingReceive K (p.interp metadataCalls kept) (fun x m => Q x.1 m) mem :=
  wp_mono (@wp_interp _ _ _ _ _ _ obligingReceive obligingStore metadataCalls
    (fun _ _ => True) id (fun _ => False) (fun op r s _ => metadataCalls_works op r s)
    p Q kept mem trivial hp) (fun _ hf => hf.elim) fun _ _ h => h.1

end Store

/-! ## The verifier -/

/-- The requests of a verification of `slot`. -/
def VerifyOp.Proper (slot : UInt32) : VerifyOp → Prop
  | .read a n => (slotBase slot).toNat ≤ a.toNat ∧ a.toNat + n ≤ (slotManifest slot).toNat ∧
      0 < n
  | _ => True

abbrev obligingReader (slot : UInt32) : Handler VerifySig ByteMem :=
  .obliging (fun op _ => op.Proper slot) fun op m => (verifyAnswers m op, m)

theorem payloadCalls_works {slot : UInt32} (hs : slotValid slot = true) (op : VerifyOp)
    (kept : BootFlashResult) (m : ByteMem) :
    wp obligingReceive (fun _ => False) (payloadCalls op kept)
      (fun x m' => (obligingReader slot).step op m x.1 m' ∧ True) m := by
  by_cases hop : op.Proper slot
  swap
  · cases op with
    | read a n => exact ⟨fun _ hc => hc, fun r m' _ => ⟨fun h => absurd h hop, trivial⟩⟩
    | _ => exact absurd trivial hop
  cases op with
  | read a n =>
      have hend : bootSlotBEnd.toNat = 260096 := rfl
      have h0 : bootMetadataPage0.toNat = 32768 := rfl
      obtain ⟨hlo, hhi, hn⟩ := hop
      refine wp_obliging ⟨?_, hn, ?_⟩ ⟨fun _ => rfl, trivial⟩ <;>
        rcases slot_bounds hs with ⟨-, hb, hm⟩ | ⟨-, hb, hm⟩ <;> omega
  | progress phase completed total => exact wp_obliging trivial ⟨fun _ => rfl, trivial⟩
  | library => exact wp_obliging trivial ⟨fun _ => rfl, trivial⟩

section Verifier

variable {C : Crypto} {wire : List UInt8} {slot : UInt32} {mem : ByteMem} {K : ByteMem → Prop}

theorem Consecutive.pos {a b : Nat} {l : List (UInt32 × Nat)} (h : Consecutive a l b) :
    ∀ x ∈ l, 0 < x.2 := by
  induction l generalizing a with
  | nil => exact fun x hx => absurd hx List.not_mem_nil
  | cons y l ih =>
      obtain ⟨-, hpos, -, hrest⟩ := h
      intro x hx
      rcases List.mem_cons.mp hx with rfl | hx
      · exact hpos
      · exact ih hrest x hx

theorem mem_readsOf {tr : List (Event VerifySig)} {e : Event VerifySig} {a : UInt32} {n : Nat}
    (he : e ∈ tr) (hop : e.op = .read a n) : (a, n) ∈ readsOf tr := by
  induction tr with
  | nil => cases he
  | cons e' tr ih =>
      obtain ⟨op, ans⟩ := e'
      rcases List.mem_cons.mp he with rfl | hrest
      · cases hop
        exact List.mem_cons_self
      · cases op with
        | read a' n' => exact List.mem_cons_of_mem _ (ih hrest)
        | progress phase completed total => exact ih hrest
        | library => exact ih hrest

theorem verifyOp_nonempty (op : VerifyOp) : Nonempty (VerifySig.Ans op) := by
  cases op with
  | read a n => exact ⟨none⟩
  | progress phase completed total => exact ⟨true⟩
  | library => exact ⟨true⟩

/-- A verification asks for payload of its slot, and never for nothing. -/
theorem proper_of_reads {tr : List (Event VerifySig)} {a b : Nat}
    (hplace : ∀ e ∈ tr, ReadsPayload slot e) (hreads : Consecutive a (readsOf tr) b)
    (e : Event VerifySig) (he : e ∈ tr) : e.op.Proper slot := by
  have hpayload := hplace e he
  cases hop : e.op with
  | read a n =>
      obtain ⟨hlo, hhi⟩ := hpayload a n hop
      exact ⟨hlo, hhi, hreads.pos _ (mem_readsOf he hop)⟩
  | progress phase completed total => trivial
  | library => trivial

theorem verifyManifest_only : (bootVerifyManifest C wire slot).Only fun (op : VerifyOp) =>
    op.Proper slot := by
  refine @Safe.only _ _ verifyOp_nonempty _ _ (fun _ => True) fun tr r hr => ⟨?_, trivial⟩
  have hno := (verifyManifest_runs hr).1
  exact proper_of_reads (verifyManifest_safe C wire slot tr r hr).1
    (show Consecutive 0 (readsOf tr) 0 by rw [hno]; rfl)

theorem verifyStored_only : (bootVerifyStored C wire slot).Only fun (op : VerifyOp) =>
    op.Proper slot := by
  refine @Safe.only _ _ verifyOp_nonempty _ _ (fun _ => True) fun tr r hr => ⟨?_, trivial⟩
  obtain ⟨hrefused, hadmitted⟩ := verifyStored_runs hr
  have hplace := (verifyStored_safe C wire slot tr r hr).1
  cases hadm : admittedManifest C wire slot with
  | error e =>
      exact proper_of_reads hplace
        (show Consecutive 0 (readsOf tr) 0 by rw [(hrefused e hadm).1]; rfl)
  | ok m =>
      obtain ⟨⟨b, -, hreads⟩, -⟩ := hadmitted m hadm
      exact proper_of_reads hplace hreads

/-- A program that asks for proper things only gets the answers of the memory. -/
theorem verify_works {α : Type} {p : Prog VerifySig α} (hs : slotValid slot = true)
    (hp : p.Only fun (op : VerifyOp) => op.Proper slot) (kept : BootFlashResult) :
    wp obligingReceive K (p.interp payloadCalls kept)
      (fun x m => m = mem ∧ x.1 = p.eval (verifyAnswers mem)) mem :=
  wp_mono (@wp_interp _ _ _ _ _ _ obligingReceive (obligingReader slot) payloadCalls
    (fun _ _ => True) id (fun _ => False) (fun op r s _ => payloadCalls_works hs op r s)
    p (fun a m => m = mem ∧ a = p.eval (verifyAnswers mem)) kept mem trivial
    (wp_obliging_only hp)) (fun _ hf => hf.elim) fun _ _ h => h.1

end Verifier

/-! ## The controller -/

structure WorkingDevice where
  flash : FlashDevice
  status : UInt32

namespace WorkingDevice

/-- The command under way is finished, and the status register says so. -/
def finished (d : WorkingDevice) : WorkingDevice :=
  match d.flash.pending with
  | none => d
  | some c =>
      let mem := match c with
        | .erase a => erasePage a d.flash.board.mem
        | .program a w => programWord a w d.flash.board.mem
      { flash := { d.flash with
          board := { d.flash.board with mem := mem }
          pending := none }
        status := 2 }

def written (d : WorkingDevice) (address value : UInt32) : WorkingDevice :=
  if address = bootFlashFma then { d with flash := { d.flash with fma := value } }
  else if address = bootFlashFmd then
    { d with flash := { d.flash with fmd := value } }
  else if address = bootFlashFcmisc then { d with status := 0 }
  else if address = bootFlashFmc ∧ value = flashKey ||| flashWrite then
    { d with flash := d.flash.started (.program d.flash.fma d.flash.fmd) }
  else if address = bootFlashFmc ∧ value = flashKey ||| flashErase then
    { d with flash := d.flash.started (.erase d.flash.fma) }
  else d

end WorkingDevice

/-- The clock register is that of a 50 MHz board. -/
def workingController : (op : (FlashSig.sum HostSig).Op) → WorkingDevice →
    (FlashSig.sum HostSig).Ans op × WorkingDevice
  | .inl (.readRegister a), d =>
      if a = bootFlashFmc then (some 0, d.finished)
      else if a = bootFlashFcris then (some d.status, d)
      else (some 49, d)
  | .inl (.writeRegister a v), d => (true, d.written a v)
  | .inl (.readFlash a n), d =>
      (some ⟨d.flash.board.mem.read a.toNat n, length_readAt _ a n⟩, d)
  | .inr _, d => (true, d)

theorem WorkingDevice.finished_works (d : WorkingDevice) :
    ∃ d₁, FlashDevice.Works d.flash d₁ ∧
      d.finished.flash = { d₁ with pending := none } := by
  unfold finished
  split
  · next hp => exact ⟨d.flash, .rests hp, (finished_none hp).symm⟩
  · next c hp =>
      refine ⟨_, .goes hp ?_, rfl⟩
      cases c with
      | erase a => exact tornErase_erasePage a _
      | program a w =>
          have hw := within_write d.flash.board.mem a.toNat
            (put32 (get32 (d.flash.board.mem.read a.toNat 4) &&& w))
          rw [length_put32] at hw
          exact hw

theorem works_refl (d : FlashDevice) : FlashDevice.Works d d := by
  rcases hp : d.pending with _ | c
  · exact .rests hp
  · exact .goes hp (.refl c _)

theorem WorkingDevice.written_flash (d : WorkingDevice) (a v : UInt32) :
    FlashDevice.Written a v d.flash (d.written a v).flash := by
  unfold FlashDevice.Written written
  split
  · rfl
  split
  · rfl
  split
  · rfl
  split
  · rfl
  split
  · rfl
  · trivial

theorem workingController_views :
    (Handler.ofFun workingController).Views (controllerDevice.sum hostDevice)
      WorkingDevice.flash := by
  refine ⟨fun op d answer d' hs => ?_, fun op d d' hc => absurd hc id⟩
  have hs : workingController op d = (answer, d') := hs
  match op with
  | .inl (.readRegister a) =>
      rw [workingController] at hs
      split at hs
      · next ha =>
          obtain ⟨rfl, rfl⟩ := Prod.mk.injEq _ _ _ _ ▸ hs
          obtain ⟨d₁, hw, hd⟩ := d.finished_works
          refine ⟨d₁, hw, ?_⟩
          rw [ha]
          exact hd
      next ha =>
      refine ⟨d.flash, works_refl _, ?_⟩
      have hseen : FlashDevice.seenIdle a answer = false := by
        simp [FlashDevice.seenIdle, ha]
      rw [hseen]
      split at hs <;>
        exact congrArg WorkingDevice.flash (congrArg Prod.snd hs).symm
  | .inl (.writeRegister a v) =>
      obtain ⟨rfl, rfl⟩ := Prod.mk.injEq _ _ _ _ ▸ hs
      exact fun _ => .inl (d.written_flash a v)
  | .inl (.readFlash a n) =>
      obtain ⟨rfl, rfl⟩ := Prod.mk.injEq _ _ _ _ ▸ hs
      refine ⟨works_refl _, fun _ b hb => ?_⟩
      cases hb
      rfl
  | .inr op =>
      obtain ⟨rfl, rfl⟩ := Prod.mk.injEq _ _ _ _ ▸ hs
      exact rfl

/-- The controller's part of it. -/
def workingFlash (op : FlashOp) (d : WorkingDevice) : FlashSig.Ans op × WorkingDevice :=
  workingController (.inl op) d

/-- The driver of that board between two calls. -/
abbrev workingDriver : BootFlash := ⟨50, 1, false, .ok⟩

section Driver

variable {d : WorkingDevice} {K : WorkingDevice → Prop}

theorem finished_idle (hd : d.flash.pending = none) : d.finished = d := by
  rw [WorkingDevice.finished, hd]

theorem read_fmc : workingFlash (.readRegister bootFlashFmc) d = (some 0, d.finished) := by
  rw [workingFlash, workingController, if_pos rfl]
  rfl

theorem read_fcris : workingFlash (.readRegister bootFlashFcris) d = (some d.status, d) := by
  rw [workingFlash, workingController, if_neg (by decide), if_pos rfl]
  rfl

theorem read_usecrl : workingFlash (.readRegister bootFlashUsecrl) d = (some 49, d) := by
  rw [workingFlash, workingController, if_neg (by decide), if_neg (by decide)]
  rfl

theorem write_register (a v : UInt32) :
    workingFlash (.writeRegister a v) d = (true, d.written a v) := rfl

theorem read_flash (a : UInt32) (n : Nat) :
    workingFlash (.readFlash a n) d =
      (some ⟨d.flash.board.mem.read a.toNat n, length_readAt _ a n⟩, d) := rfl

theorem written_fma (v : UInt32) :
    d.written bootFlashFma v = { d with flash := { d.flash with fma := v } } := by
  rw [WorkingDevice.written, if_pos rfl]

theorem written_fmd (v : UInt32) :
    d.written bootFlashFmd v = { d with flash := { d.flash with fmd := v } } := by
  rw [WorkingDevice.written, if_neg (by decide), if_pos rfl]

theorem written_fcmisc (v : UInt32) : d.written bootFlashFcmisc v = { d with status := 0 } := by
  rw [WorkingDevice.written, if_neg (by decide), if_neg (by decide), if_pos rfl]

theorem written_command {command : UInt32} (hc : command = flashWrite ∨ command = flashErase) :
    d.written bootFlashFmc (flashKey ||| command) =
      { d with flash := d.flash.started (flashCommand d.flash.fma d.flash.fmd command) } := by
  rw [WorkingDevice.written, if_neg (by decide), if_neg (by decide), if_neg (by decide)]
  rcases hc with rfl | rfl
  · rw [if_pos ⟨rfl, rfl⟩]
    rfl
  · rw [if_neg (by decide), if_pos ⟨rfl, rfl⟩]
    rfl

/-- A poll finds the command finished. -/
theorem poll_works (n : Nat) :
    wp (.ofFun workingFlash) K (idle (n + 1)) (fun r d' => r = .ok ∧ d' = d.finished) d := by
  unfold idle
  refine wp_answer ?_
  rw [read_fmc]
  exact ⟨rfl, rfl⟩

theorem idle_works (hd : d.flash.pending = none) (n : Nat) :
    wp (.ofFun workingFlash) K (idle (n + 1)) (fun r d' => r = .ok ∧ d' = d) d := by
  have h := poll_works (K := K) (d := d) n
  rwa [finished_idle hd] at h

theorem clearStatus_works :
    wp (.ofFun workingFlash) K clearStatus
      (fun r d' => r = .ok ∧ d' = { d with status := 0 }) d := by
  unfold clearStatus
  refine wp_answer ?_
  rw [write_register, written_fcmisc]
  refine wp_answer ?_
  rw [read_fcris]
  exact ⟨if_pos (show (0 : UInt32) &&& flashStatus = 0 by decide), rfl⟩

theorem checkBits_works (address word command : UInt32) :
    wp (.ofFun workingFlash) K (checkBits address word command)
      (fun r d' => d' = d ∧ (r = .ok ↔ (command = flashWrite →
        get32 (d.flash.board.mem.read address.toNat 4) &&& word = word))) d := by
  unfold checkBits
  split
  · next hw =>
      refine wp_answer ?_
      rw [read_flash]
      refine ⟨rfl, ?_⟩
      dsimp only
      split
      · next hne => exact ⟨nofun, fun hb => absurd (hb hw) hne⟩
      · next heq => exact ⟨fun _ _ => not_not.mp heq, fun _ => rfl⟩
  · next hw => exact ⟨rfl, fun _ h => absurd h hw, fun _ => rfl⟩

/-- The device with the latches loaded. -/
def WorkingDevice.latched (d : WorkingDevice) (address word command : UInt32) : WorkingDevice :=
  { d with flash := { d.flash with
      fma := address
      fmd := if command = flashWrite then word else d.flash.fmd } }

theorem latch_works (address word command : UInt32) :
    wp (.ofFun workingFlash) K (latch address word command)
      (fun done d' => done = true ∧ d' = d.latched address word command) d := by
  unfold latch WorkingDevice.latched
  split
  · refine wp_answer ?_
    rw [write_register, written_fmd, Bool.not_true, if_neg Bool.false_ne_true]
    refine wp_answer (f := pure) ?_
    rw [write_register, written_fma]
    exact ⟨rfl, rfl⟩
  · refine wp_answer (f := pure) ?_
    rw [write_register, written_fma]
    exact ⟨rfl, rfl⟩

/-- What the command makes of the memory. -/
def FlashCommand.done : FlashCommand → ByteMem → ByteMem
  | .erase a, m => erasePage a m
  | .program a w, m => programWord a w m

theorem finished_started (c : FlashCommand) :
    ({ d with flash := d.flash.started c } : WorkingDevice).finished =
      { flash := { d.flash with
          board := ⟨c.done d.flash.board.mem, d.flash.board.log ++ [c]⟩
          pending := none }
        status := 2 } := by
  cases c <;> rfl

theorem done_flashCommand {address word command : UInt32} {m : ByteMem}
    (hbits : command = flashWrite → get32 (m.read address.toNat 4) &&& word = word) :
    (flashCommand address word command).done m =
      m.write address.toNat (commanded word command) := by
  unfold flashCommand commanded
  split
  · next hw => rw [FlashCommand.done, programWord, hbits hw]
  · rfl

theorem length_commanded (word command : UInt32) :
    (commanded word command).length = commandBytes command := by
  unfold commanded commandBytes
  split
  · exact length_put32 word
  · exact List.length_replicate

/-- A launch of the command in the latches carries it out. -/
theorem launch_works {address word command : UInt32}
    (hc : command = flashWrite ∨ command = flashErase)
    (hbits : command = flashWrite →
      get32 (d.flash.board.mem.read address.toNat 4) &&& word = word) :
    wp (.ofFun workingFlash) K (launch 1 address word command)
      (fun r d' => r = .ok ∧ d'.flash.pending = none ∧
        d'.flash.board.mem = d.flash.board.mem.write address.toNat (commanded word command))
      (d.latched address word command) := by
  have hcommand : flashCommand address (if command = flashWrite then word else d.flash.fmd)
      command = flashCommand address word command := by
    unfold flashCommand
    split
    · rfl
    · rfl
  unfold launch
  refine wp_answer ?_
  rw [write_register, written_command hc, Bool.not_true, if_neg Bool.false_ne_true, wp_bind']
  refine wp_post (poll_works 0) fun r d' h => ?_
  obtain ⟨rfl, rfl⟩ := h
  rw [finished_started, if_neg (not_not.mpr rfl)]
  have hmem := done_flashCommand hbits
  have hread := read_write_same d.flash.board.mem address.toNat (commanded word command)
  rw [length_commanded] at hread
  refine wp_answer ?_
  rw [read_fcris]
  dsimp only [WorkingDevice.latched]
  rw [hcommand, hmem, if_neg (by decide), if_neg (by decide)]
  refine wp_answer ?_
  rw [read_flash]
  exact ⟨if_neg (not_not.mpr hread), rfl, rfl⟩

/-- A modification that may be made is made, any other is refused, and the driver is
where it was. -/
theorem modify_works (hd : d.flash.pending = none) {address word command : UInt32}
    (hc : command = flashWrite ∨ command = flashErase) :
    wp (.ofFun workingFlash) K (modify workingDriver address word command)
      (fun x d' => (x.2 = workingDriver ∧ d'.flash.pending = none) ∧
        (Placed address (commandBytes command) → address.toNat % commandBytes command = 0 →
          (command = flashWrite →
            get32 (d.flash.board.mem.read address.toNat 4) &&& word = word) →
          x.1 = .ok ∧ d'.flash.board.mem =
            d.flash.board.mem.write address.toNat (commanded word command))) d := by
  unfold modify
  dsimp only
  split
  · next hargs =>
      refine ⟨⟨rfl, hd⟩, fun hp halign _ => ?_⟩
      rcases hargs with hrange | hne
      · rw [range_of_placed hp] at hrange
        cases hrange
      · exact absurd halign hne
  rw [if_neg Bool.false_ne_true, wp_bind']
  refine wp_post (idle_works hd 0) fun r d' h => ?_
  obtain ⟨rfl, rfl⟩ := h
  rw [if_neg (not_not.mpr rfl)]
  refine wp_answer ?_
  rw [read_usecrl]
  dsimp only
  rw [if_neg (by decide)]
  unfold modifyIdle
  rw [wp_bind']
  refine wp_post (checkBits_works address word command) fun r d₁ h => ?_
  obtain ⟨rfl, hbits⟩ := h
  split
  · next hne => exact ⟨⟨rfl, hd⟩, fun _ _ hb => absurd (hbits.mpr hb) hne⟩
  next hok =>
  have hb := hbits.mp (not_not.mp hok)
  rw [wp_bind']
  refine wp_post clearStatus_works fun r d₂ h => ?_
  obtain ⟨rfl, rfl⟩ := h
  rw [if_neg (not_not.mpr rfl), wp_bind']
  refine wp_post (latch_works address word command) fun done d₃ h => ?_
  obtain ⟨rfl, rfl⟩ := h
  rw [Bool.not_true, if_neg Bool.false_ne_true, wp_bind']
  refine wp_post (launch_works (d := { d₁ with status := 0 }) hc hb) fun r d₄ h => ?_
  obtain ⟨rfl, hp, hmem⟩ := h
  rw [if_neg (not_not.mpr rfl)]
  exact ⟨⟨rfl, hp⟩, fun _ _ _ => ⟨rfl, hmem⟩⟩

theorem read_works (hd : d.flash.pending = none) (address : UInt32) (size : Nat) :
    wp (.ofFun workingFlash) K (bootFlashRead workingDriver address size)
      (fun x d' => (x.2 = workingDriver ∧ d' = d) ∧ (Placed address size →
        x.1 = .ok ⟨d.flash.board.mem.read address.toNat size,
          length_readAt _ address size⟩)) d := by
  unfold bootFlashRead
  split
  · next hrange =>
      refine ⟨⟨rfl, rfl⟩, fun hp => ?_⟩
      rw [range_of_placed hp] at hrange
      cases hrange
  rw [if_neg Bool.false_ne_true, wp_bind']
  refine wp_post (idle_works hd 0) fun r d' h => ?_
  obtain ⟨rfl, rfl⟩ := h
  rw [if_neg (not_not.mpr rfl)]
  exact wp_answer ⟨⟨rfl, rfl⟩, fun _ => rfl⟩

end Driver

/-- Between two calls nothing is blocked and nothing under way. -/
def AtRest (f : BootFlash) (d : WorkingDevice) : Prop :=
  f = workingDriver ∧ d.flash.pending = none

abbrev WorkingDevice.mem (d : WorkingDevice) : ByteMem := d.flash.board.mem

abbrev workingHandler : Handler (FlashSig.sum HostSig) WorkingDevice :=
  (Handler.ofFun workingFlash).sum (.ofFun fun _ d => (true, d))

/-- Behind the driver the controller is an obliging board. -/
theorem serveReceive_works (op : ReceiveOp) (f : BootFlash) (d : WorkingDevice)
    (h : AtRest f d) :
    wp workingHandler (fun _ => False) (serveReceive op f)
      (fun x d' => obligingReceive.step op d.mem x.1 d'.mem ∧ AtRest x.2 d') d := by
  obtain ⟨rfl, hd⟩ := h
  cases op with
  | flashRead a n =>
      refine wp_left.mpr (wp_post (read_works hd a n) fun x d' h => ?_)
      obtain ⟨⟨hf, rfl⟩, hx⟩ := h
      refine ⟨fun hp => ?_, hf, hd⟩
      rw [hx hp]
      rfl
  | flashErase a =>
      refine wp_left.mpr (wp_post (modify_works hd (.inr rfl)) fun x d' h => ?_)
      obtain ⟨hready, hx⟩ := h
      refine ⟨fun hp => ?_, hready⟩
      obtain ⟨hr, hm⟩ := hx hp.1 hp.2 fun hw => absurd hw (by decide)
      rw [hr]
      exact congrArg (Prod.mk _) hm.symm
  | flashProgram a w =>
      refine wp_left.mpr (wp_post (modify_works hd (.inl rfl)) fun x d' h => ?_)
      obtain ⟨hready, hx⟩ := h
      refine ⟨fun hp => ?_, hready⟩
      obtain ⟨hr, hm⟩ := hx hp.1 hp.2.1 fun _ => hp.2.2
      rw [hr]
      exact congrArg (Prod.mk _) hm.symm
  | flashBlocked => exact ⟨fun _ => rfl, rfl, hd⟩
  | host op =>
      refine wp_bind'.mpr (wp_right.mpr (wp_answer (f := pure) ?_))
      exact ⟨fun _ => rfl, rfl, hd⟩

theorem workingHandler_step (op : (FlashSig.sum HostSig).Op) (d : WorkingDevice) :
    workingHandler.step op d (workingController op d).1 (workingController op d).2 := by
  cases op <;> rfl

/-- A call of the receiver on the working controller does what it does on an obliging
board. -/
theorem perform_works {C : Crypto} {r : BootReceive} {f : BootFlash} {d : WorkingDevice}
    {call : ReceiveCall} {Q : ReceiveReply → ByteMem → Prop} (h : AtRest f d)
    (hp : wp obligingReceive (fun _ => False) (call.calls C r) Q d.mem) :
    let y := (call.perform C r f).run workingController d
    Q y.1.1 y.2.mem ∧ AtRest y.1.2 y.2 :=
  (exec_run workingHandler_step (call.perform C r f) d).post
    (@wp_interp _ _ _ _ _ _ workingHandler obligingReceive serveReceive AtRest
      WorkingDevice.mem (fun _ => False) serveReceive_works (call.calls C r) Q f d h hp)

/-! ## The station -/

/-- The factory board, with the manifest of its image in place. -/
def stationMemory : ByteMem :=
  factoryMemory.write (slotManifest bootSlotA).toNat (packageWire bootSlotA)

def stationBoard : WorkingDevice := ⟨⟨⟨stationMemory, []⟩, 0, 0, none⟩, 0⟩

theorem station_loaded :
    bootStoreLoad.eval (storeAnswers stationMemory) = .ok ⟨factoryRecord, 0⟩ := by
  decide +kernel

theorem station_backed {slot : UInt32} (hs : slotValid slot = true) :
    Backed packageCrypto stationMemory factoryRecord slot := by
  rcases slotValid_iff.mp hs with rfl | rfl
  · refine fun _ => ⟨packageImage bootSlotA, ?_, by decide +kernel⟩
    rw [slotVerified_eq, show storedManifest stationMemory bootSlotA =
      packageWire bootSlotA by decide +kernel]
    exact package_stored rfl (by decide +kernel)
  · exact backed_of_empty rfl

end EkBareMetal.Boot

import EkBareMetal.Boot.Receive
import EkBareMetal.Proofs.PowerCut

/-!
# The controller driver on an honest device

A keyed write of the command register starts a command at the latched address.
From then until the register is read back idle the device works on that page
or word and on nothing else, and it may be left there at any moment. Nothing
is assumed about how a command ends: that a completed one did what it was for
is what the driver's own comparison with the array establishes.

Over this device the driver is a simpler one, `boardDevice`, whose requests
are the driver's calls: an erase or a program either happens exactly, or it is
not reported as done and has stayed within its page or word.
-/

namespace EkBareMetal.Boot

open Words Interact ByteMem

/-! ## The device -/

inductive FlashCommand where
  | erase (address : UInt32)
  | program (address word : UInt32)
  deriving DecidableEq

namespace FlashCommand

def address : FlashCommand → UInt32
  | .erase a => a
  | .program a _ => a

def size : FlashCommand → Nat
  | .erase _ => bootEraseBytes
  | .program _ _ => bootProgramBytes

/-- The command works on the byte at `x`. -/
def Touches (c : FlashCommand) (x : Nat) : Prop :=
  c.address.toNat ≤ x ∧ x < c.address.toNat + c.size

/-- What the command may have made of the memory at any time after its start. -/
def Leaves : FlashCommand → ByteMem → ByteMem → Prop
  | .erase a => TornErase a
  | .program a _ => fun m m' => Within m m' a.toNat bootProgramBytes

theorem Leaves.refl (c : FlashCommand) (m : ByteMem) : c.Leaves m m := by
  cases c with
  | erase a => exact ⟨Within.refl _ _ _, fun _ => .inl rfl⟩
  | program a w => exact Within.refl _ _ _

theorem Leaves.within {c : FlashCommand} {m m' : ByteMem} (h : c.Leaves m m') :
    Within m m' c.address.toNat c.size := by
  cases c with
  | erase a => exact h.1
  | program a w => exact h

theorem Leaves.trans {c : FlashCommand} {m m' m'' : ByteMem}
    (h : c.Leaves m m') (h' : c.Leaves m' m'') : c.Leaves m m'' := by
  cases c with
  | erase a =>
      refine ⟨Within.trans h.1 h'.1, fun ha => ?_⟩
      rcases h'.2 ha with rfl | hd
      · exact h.2 ha
      · exact .inr hd
  | program a w => exact Within.trans h h'

end FlashCommand

/-- The flash array, and the commands that were started so far. -/
structure Board where
  mem : ByteMem
  log : List FlashCommand

structure FlashDevice where
  board : Board
  fma : UInt32
  fmd : UInt32
  pending : Option FlashCommand

namespace FlashDevice

/-- The device with the command `c` under way. -/
def started (d : FlashDevice) (c : FlashCommand) : FlashDevice :=
  { d with
    board := { d.board with log := d.board.log ++ [c] }
    pending := some c }

/-- Time passes: the command under way, if there is one, goes on. -/
inductive Works : FlashDevice → FlashDevice → Prop where
  | rests {d : FlashDevice} (h : d.pending = none) : Works d d
  | goes {d : FlashDevice} {c : FlashCommand} {m : ByteMem}
      (h : d.pending = some c) (hm : c.Leaves d.board.mem m) :
      Works d { d with board := { d.board with mem := m } }

/-- A register write that was made. Writes the driver has no use for are
promised nothing. -/
def Written (address value : UInt32) (d d' : FlashDevice) : Prop :=
  if address = bootFlashFma then d' = { d with fma := value }
  else if address = bootFlashFmd then d' = { d with fmd := value }
  else if address = bootFlashFcmisc then d' = d
  else if address = bootFlashFmc ∧ value = flashKey ||| flashWrite then
    d' = d.started (.program d.fma d.fmd)
  else if address = bootFlashFmc ∧ value = flashKey ||| flashErase then
    d' = d.started (.erase d.fma)
  else True

/-- The read of `address` with this answer saw the command register idle. -/
def seenIdle (address : UInt32) (answer : Option UInt32) : Bool :=
  address == bootFlashFmc && answer.any fun v => v &&& flashCommands == 0

end FlashDevice

open FlashDevice

/-- The device as the driver's callbacks see it. Any callback may fail; a
failed register write may have been made all the same. -/
def controllerDevice : Handler FlashSig FlashDevice where
  step
    | .readRegister a, d, answer, d' => ∃ d₁, Works d d₁ ∧
        d' = if seenIdle a answer then { d₁ with pending := none } else d₁
    | .writeRegister a v, d, done, d' =>
        d.pending = none → Written a v d d' ∨ done = false ∧ d' = d
    | .readFlash a n, d, answer, d' => Works d d' ∧ (d.pending = none →
        ∀ b : Bytes n, answer = some b → b.val = d.board.mem.read a.toNat n)
  cut
    | .readRegister _, d, d' => Works d d'
    | .writeRegister a v, d, d' => d.pending = none → Written a v d d' ∨ d' = d
    | .readFlash _ _, d, d' => Works d d'

/-- The host's callbacks have no access to the device. -/
def hostDevice : Handler HostSig FlashDevice where
  step _ d _ d' := d' = d
  cut _ d d' := d' = d

/-! ## The same device behind the driver -/

/-- The command was not started, or started and left somewhere. -/
def Commanded (c : FlashCommand) (b b' : Board) : Prop :=
  b' = b ∨ b'.log = b.log ++ [c] ∧ c.Leaves b.mem b'.mem

def boardDevice : Handler ReceiveSig Board where
  step
    | .flashRead a n, b, answer, b' => b' = b ∧
        ∀ bytes : Bytes n, answer = .ok bytes → bytes.val = b.mem.read a.toNat n
    | .flashErase a, b, result, b' => Commanded (.erase a) b b' ∧
        (result = .ok → b'.mem = erasePage a b.mem)
    | .flashProgram a w, b, result, b' => Commanded (.program a w) b b' ∧
        (result = .ok → b'.mem = b.mem.write a.toNat (put32 w) ∧
          get32 (b.mem.read a.toNat 4) &&& w = w)
    | .flashBlocked, b, _, b' => b' = b
    | .host _, b, _, b' => b' = b
  cut
    | .flashErase a, b, b' => Commanded (.erase a) b b'
    | .flashProgram a w, b, b' => Commanded (.program a w) b b'
    | _, b, b' => b' = b

/-! ## What the driver's steps do -/

section Driver

variable {d : FlashDevice} {K : FlashDevice → Prop}

theorem works_none {d' : FlashDevice} (hd : d.pending = none)
    (h : Works d d') : d' = d := by
  cases h with
  | rests _ => rfl
  | goes hp _ => rw [hd] at hp; cases hp

theorem finished_none (hd : d.pending = none) : { d with pending := none } = d := by
  rw [← hd]

/-- On an idle device a register read changes nothing. -/
theorem readRegister_wp {a : UInt32} {f : Option UInt32 → Prog FlashSig β}
    {Q : β → FlashDevice → Prop} (hd : d.pending = none) (hK : K d)
    (h : ∀ answer, wp controllerDevice K (f answer) Q d) :
    wp controllerDevice K (FlashOp.askRead a >>= f) Q d := by
  refine wp_ask_bind.mpr ⟨fun d' hc => ?_, fun answer d' hs => ?_⟩
  · rw [works_none hd hc]
    exact hK
  · obtain ⟨d₁, hw, rfl⟩ := hs
    obtain rfl := works_none hd hw
    rw [finished_none hd, ite_self]
    exact h answer

theorem readFlash_wp {a : UInt32} {n : Nat}
    {f : Option (Bytes n) → Prog FlashSig β} {Q : β → FlashDevice → Prop}
    (hd : d.pending = none) (hK : K d)
    (h : ∀ answer, (∀ b : Bytes n, answer = some b →
      b.val = d.board.mem.read a.toNat n) →
        wp controllerDevice K (f answer) Q d) :
    wp controllerDevice K (FlashOp.askFlash a n >>= f) Q d := by
  refine wp_ask_bind.mpr ⟨fun d' hc => ?_, fun answer d' hs => ?_⟩
  · rw [works_none hd hc]
    exact hK
  · obtain ⟨hw, hb⟩ := hs
    obtain rfl := works_none hd hw
    exact h answer (hb hd)

theorem writeRegister_wp {a v : UInt32} {f : Bool → Prog FlashSig β}
    {Q : β → FlashDevice → Prop} (hd : d.pending = none) (hK : K d)
    (hK' : ∀ d', Written a v d d' → K d')
    (h : ∀ done d', Written a v d d' ∨ done = false ∧ d' = d →
      wp controllerDevice K (f done) Q d') :
    wp controllerDevice K (FlashOp.askWrite a v >>= f) Q d := by
  refine wp_ask_bind.mpr ⟨fun d' hc => ?_, fun done d' hs => h done d' (hs hd)⟩
  rcases hc hd with hw | rfl
  · exact hK' d' hw
  · exact hK

theorem idle_wp (hd : d.pending = none) (hK : K d) (n : Nat) :
    wp controllerDevice K (idle n) (fun _ d' => d' = d) d := by
  induction n with
  | zero => rfl
  | succ n ih =>
      unfold idle
      refine readRegister_wp hd hK fun answer => ?_
      cases answer with
      | none => rfl
      | some value =>
          dsimp only
          split
          · rfl
          · exact ih

theorem clearStatus_wp (hd : d.pending = none) (hK : K d) :
    wp controllerDevice K clearStatus (fun _ d' => d' = d) d := by
  have hw : ∀ d', Written bootFlashFcmisc flashStatus d d' → d' = d :=
    fun d' h => h
  unfold clearStatus
  refine writeRegister_wp hd hK (fun d' h => hw d' h ▸ hK) fun done d' h => ?_
  obtain rfl : d' = d := h.elim (hw d') And.right
  split
  · rfl
  refine readRegister_wp hd hK fun answer => ?_
  cases answer with
  | none => rfl
  | some value => rfl

theorem checkBits_wp (hd : d.pending = none) (hK : K d)
    (address word command : UInt32) :
    wp controllerDevice K (checkBits address word command)
      (fun r d' => d' = d ∧ (r = .ok → command = flashWrite →
        get32 (d.board.mem.read address.toNat 4) &&& word = word)) d := by
  unfold checkBits
  split
  · refine readFlash_wp hd hK fun answer hb => ?_
    cases answer with
    | none => exact ⟨rfl, fun hr => by cases hr⟩
    | some bytes =>
        refine ⟨rfl, fun hr _ => ?_⟩
        rw [← hb bytes rfl]
        by_contra hne
        rw [if_pos hne] at hr
        cases hr
  · next hne => exact ⟨rfl, fun _ hc => absurd hc hne⟩

/-- The latches of the command to come. -/
structure Latched (address word command : UInt32) (d d' : FlashDevice) :
    Prop where
  board : d'.board = d.board
  pending : d'.pending = none
  address : d'.fma = address
  word : command = flashWrite → d'.fmd = word

theorem latch_wp (hd : d.pending = none)
    (hK : ∀ d', d'.board = d.board → K d') (address word command : UInt32) :
    wp controllerDevice K (latch address word command)
      (fun done d' => d'.board = d.board ∧ d'.pending = none ∧
        (done = true → Latched address word command d d')) d := by
  have hfma : ∀ d₁ d', Written bootFlashFma address d₁ d' →
      d' = { d₁ with fma := address } := fun d₁ d' h => h
  have hfmd : ∀ d', Written bootFlashFmd word d d' →
      d' = { d with fmd := word } := fun d' h => h
  have haddress : ∀ d₁ : FlashDevice, d₁.pending = none →
      d₁.board = d.board → (command = flashWrite → d₁.fmd = word) →
      wp controllerDevice K (FlashOp.askWrite bootFlashFma address)
        (fun done d' => d'.board = d.board ∧ d'.pending = none ∧
          (done = true → Latched address word command d d')) d₁ := by
    intro d₁ hp hb hword
    refine wp_ask.mpr ⟨fun d' hc => ?_, fun done d' hs => ?_⟩
    · rcases hc hp with hw | rfl
      · rw [hfma _ _ hw]
        exact hK _ hb
      · exact hK _ hb
    · rcases hs hp with hw | ⟨rfl, rfl⟩
      · rw [hfma _ _ hw]
        exact ⟨hb, hp, fun _ => ⟨hb, hp, rfl, hword⟩⟩
      · exact ⟨hb, hp, fun h => by cases h⟩
  unfold latch
  split
  · refine writeRegister_wp hd (hK d rfl) (fun d' hw => ?_) fun done d' hs => ?_
    · rw [hfmd _ hw]
      exact hK _ rfl
    rcases hs with hw | ⟨rfl, rfl⟩
    · rw [hfmd _ hw]
      split
      · exact ⟨rfl, hd, fun h => by cases h⟩
      · exact haddress _ hd rfl fun _ => rfl
    · exact ⟨rfl, hd, fun h => by cases h⟩
  · next hne => exact haddress d hd rfl fun hc => absurd hc hne

/-! ### A command under way -/

/-- From the keyed write of `c` on: not started, or started and somewhere. -/
def Ran (c : FlashCommand) (d d' : FlashDevice) : Prop :=
  d'.board = d.board ∧ d'.pending = none ∨
    d'.board.log = d.board.log ++ [c] ∧ c.Leaves d.board.mem d'.board.mem ∧
      (d'.pending = none ∨ d'.pending = some c)

section Ran

variable {c : FlashCommand} {d' d'' : FlashDevice}

theorem Ran.commanded (h : Ran c d d') : Commanded c d.board d'.board := by
  rcases h with ⟨hb, -⟩ | ⟨hl, hm, -⟩
  · exact .inl hb
  · exact .inr ⟨hl, hm⟩

theorem Ran.within (h : Ran c d d') :
    Within d.board.mem d'.board.mem c.address.toNat c.size := by
  rcases h with ⟨hb, -⟩ | ⟨-, hm, -⟩
  · rw [hb]
    exact Within.refl _ _ _
  · exact hm.within

theorem Ran.works (h : Ran c d d') (hw : Works d' d'') : Ran c d d'' := by
  cases hw with
  | rests _ => exact h
  | goes hp hm =>
      rcases h with ⟨-, hn⟩ | ⟨hl, hm', hp'⟩
      · rw [hn] at hp
        cases hp
      · rcases hp' with hn | hc
        · rw [hn] at hp
          cases hp
        · rw [hc] at hp
          injection hp with hp
          subst hp
          exact .inr ⟨hl, hm'.trans hm, .inr hc⟩

theorem Ran.finished (h : Ran c d d') : Ran c d { d' with pending := none } := by
  rcases h with ⟨hb, -⟩ | ⟨hl, hm, -⟩
  · exact .inl ⟨hb, rfl⟩
  · exact .inr ⟨hl, hm, .inl rfl⟩

/-- Polling while the command runs, until it is seen idle. -/
theorem poll_wp {d₀ : FlashDevice} (h : Ran c d₀ d)
    (hK : ∀ d', Ran c d₀ d' → K d') (n : Nat) :
    wp controllerDevice K (idle n)
      (fun r d' => Ran c d₀ d' ∧ (r = .ok → d'.pending = none)) d := by
  induction n generalizing d with
  | zero => exact ⟨h, fun hr => by cases hr⟩
  | succ n ih =>
      unfold idle
      refine wp_ask_bind.mpr ⟨fun d' hc => hK d' (h.works hc),
        fun answer d' hs => ?_⟩
      obtain ⟨d₁, hw, rfl⟩ := hs
      have h₁ := h.works hw
      cases answer with
      | none => exact ⟨h₁, fun hr => by cases hr⟩
      | some value =>
          dsimp only
          by_cases hv : value &&& flashCommands = 0
          · have hseen : seenIdle bootFlashFmc (some value) = true := by
              simp [seenIdle, hv]
            rw [if_pos hv, if_pos hseen]
            exact ⟨h₁.finished, fun _ => rfl⟩
          · have hseen : ¬ seenIdle bootFlashFmc (some value) = true := by
              simp [seenIdle, hv]
            rw [if_neg hv, if_neg hseen]
            exact ih h₁

end Ran

/-- The command that the keyed write of `command` starts. -/
def flashCommand (address word command : UInt32) : FlashCommand :=
  if command = flashWrite then .program address word else .erase address

theorem address_flashCommand (address word command : UInt32) :
    (flashCommand address word command).address = address := by
  unfold flashCommand
  split
  · rfl
  · rfl

theorem size_flashCommand (address word command : UInt32) :
    (flashCommand address word command).size = commandBytes command := by
  unfold flashCommand commandBytes
  split
  · rfl
  · rfl

/-- The keyed write starts what is in the latches. -/
theorem written_fmc {d₀ d' : FlashDevice} {address word command : UInt32}
    (hc : command = flashWrite ∨ command = flashErase)
    (hl : Latched address word command d₀ d)
    (hw : Written bootFlashFmc (flashKey ||| command) d d') :
    Ran (flashCommand address word command) d₀ d' := by
  have hstart : d' = d.started (flashCommand address word command) := by
    rcases hc with rfl | rfl
    · have h : d' = d.started (.program d.fma d.fmd) := hw
      rw [h, hl.address, hl.word rfl]
      rfl
    · have h : d' = d.started (.erase d.fma) := hw
      rw [h, hl.address]
      rfl
  rw [hstart]
  refine .inr ⟨?_, ?_, .inr rfl⟩
  · show d.board.log ++ _ = _
    rw [hl.board]
  · show FlashCommand.Leaves _ d₀.board.mem d.board.mem
    rw [hl.board]
    exact .refl _ _

/-- A launch that answers OK has left the bytes it was for. -/
theorem launch_wp {d₀ : FlashDevice} {address word command : UInt32}
    (hc : command = flashWrite ∨ command = flashErase)
    (hl : Latched address word command d₀ d)
    (hK : ∀ d', Ran (flashCommand address word command) d₀ d' → K d')
    (polls : UInt32) :
    wp controllerDevice K (launch polls address word command)
      (fun r d' => Ran (flashCommand address word command) d₀ d' ∧
        (r = .ok → d'.pending = none ∧ d'.board.mem =
          d₀.board.mem.write address.toNat (commanded word command))) d := by
  have hran : Ran (flashCommand address word command) d₀ d :=
    .inl ⟨hl.board, hl.pending⟩
  unfold launch
  refine writeRegister_wp hl.pending (hK d hran)
    (fun d' hw => hK d' (written_fmc hc hl hw)) fun done d₁ hs => ?_
  have h₁ : Ran (flashCommand address word command) d₀ d₁ := by
    rcases hs with hw | ⟨-, rfl⟩
    · exact written_fmc hc hl hw
    · exact hran
  split
  · exact ⟨h₁, fun hr => by cases hr⟩
  rw [wp_bind']
  refine wp_post (poll_wp h₁ hK polls.toNat) fun r d₂ h₂ => ?_
  obtain ⟨h₂, hidle⟩ := h₂
  split
  · next hne => exact ⟨h₂, fun hr => absurd hr hne⟩
  next hok =>
  have hp₂ := hidle (not_not.mp hok)
  refine readRegister_wp hp₂ (hK d₂ h₂) fun answer => ?_
  cases answer with
  | none => exact ⟨h₂, fun hr => by cases hr⟩
  | some value =>
      dsimp only
      split
      · exact ⟨h₂, fun hr => by cases hr⟩
      split
      · exact ⟨h₂, fun hr => by cases hr⟩
      refine readFlash_wp hp₂ (hK d₂ h₂) fun answer hb => ?_
      cases answer with
      | none => exact ⟨h₂, fun hr => by cases hr⟩
      | some bytes =>
          refine ⟨h₂, fun hr => ⟨hp₂, ?_⟩⟩
          have hsame : bytes.val = commanded word command := by
            by_contra hne
            rw [if_pos hne] at hr
            cases hr
          have hw := h₂.within
          rw [address_flashCommand, size_flashCommand] at hw
          rw [hw.eq_write, ← hb bytes rfl, hsame]

/-! ### The calls -/

/-- A driver that is not blocked has no command under way. -/
def Quiet (f : BootFlash) (d : FlashDevice) : Prop :=
  f.blocked = false → d.pending = none

@[simp] theorem leave_blocked (f : BootFlash) (r : BootFlashResult) :
    (leave f r).blocked = f.blocked := by
  unfold leave
  split
  · rfl
  · rfl

theorem Quiet.leave {f : BootFlash} {r : BootFlashResult} (h : Quiet f d) :
    Quiet (leave f r) d := by
  intro hb
  rw [leave_blocked] at hb
  exact h hb

theorem quiet_blocked {f : BootFlash} {r : BootFlashResult} :
    Quiet (leave { f with blocked := true } r) d := by
  intro hb
  rw [leave_blocked] at hb
  cases hb

theorem read_wp {f : BootFlash} (hq : Quiet f d) (hK : K d) (address : UInt32)
    (size : Nat) :
    wp controllerDevice K (bootFlashRead f address size)
      (fun x d' => d' = d ∧ Quiet x.2 d ∧ ∀ bytes, x.1 = .ok bytes →
        bytes.val = d.board.mem.read address.toNat size) d := by
  unfold bootFlashRead
  split
  · exact ⟨rfl, hq, fun b hb => by cases hb⟩
  split
  · exact ⟨rfl, hq.leave, fun b hb => by cases hb⟩
  next hb =>
  have hd : d.pending = none := hq (by simpa using hb)
  rw [wp_bind']
  refine wp_post (idle_wp hd hK 1) fun r d' hd' => ?_
  subst hd'
  split
  · exact ⟨rfl, quiet_blocked, fun b hb => by cases hb⟩
  refine readFlash_wp hd hK fun answer hread => ?_
  cases answer with
  | none => exact ⟨rfl, hq.leave, fun b hb => by cases hb⟩
  | some bytes =>
      refine ⟨rfl, hq, fun b hb => ?_⟩
      injection hb with hb
      rw [← hb, hread bytes rfl]

/-- What a modification leaves by what it answered. -/
structure Modified (address word command : UInt32) (d : FlashDevice)
    (x : FlashReply) (d' : FlashDevice) : Prop where
  ran : Commanded (flashCommand address word command) d.board d'.board
  quiet : Quiet x.2 d'
  done : x.1 = .ok → d'.board.mem =
      d.board.mem.write address.toNat (commanded word command) ∧
    (command = flashWrite →
      get32 (d.board.mem.read address.toNat 4) &&& word = word)

theorem modified_untouched {address word command : UInt32} {x : FlashReply}
    (hq : Quiet x.2 d) (hne : x.1 ≠ .ok) :
    Modified address word command d x d :=
  ⟨.inl rfl, hq, fun h => absurd h hne⟩

theorem modifyIdle_wp {f : BootFlash} (hd : d.pending = none)
    {address word command : UInt32}
    (hc : command = flashWrite ∨ command = flashErase)
    (hK : ∀ d', Commanded (flashCommand address word command) d.board d'.board →
      K d') :
    wp controllerDevice K (modifyIdle f address word command)
      (Modified address word command d) d := by
  have hKd : K d := hK d (.inl rfl)
  have hq : ∀ f' : BootFlash, Quiet f' d := fun f' _ => hd
  unfold modifyIdle
  rw [wp_bind']
  refine wp_post (checkBits_wp hd hKd address word command) fun r d' h => ?_
  obtain ⟨rfl, hbits⟩ := h
  split
  · next hne => exact modified_untouched (hq _) hne
  next hok =>
  have hbits := hbits (not_not.mp hok)
  rw [wp_bind']
  refine wp_post (clearStatus_wp hd hKd) fun r d₁ h => ?_
  subst h
  split
  · next hne => exact modified_untouched (hq _) hne
  rw [wp_bind']
  refine wp_post (latch_wp hd (fun d₁ hb => hK d₁ (.inl hb)) address word command)
    fun latched d₁ h => ?_
  obtain ⟨hb, hp, hl⟩ := h
  split
  · exact ⟨.inl hb, fun _ => hp, fun h => by cases h⟩
  next hlatched =>
  have hl := hl (by simpa using hlatched)
  rw [wp_bind']
  refine wp_post (launch_wp hc hl (fun d₂ h₂ => hK d₂ h₂.commanded) f.polls)
    fun r d₂ h₂ => ?_
  obtain ⟨h₂, hdone⟩ := h₂
  split
  · next hne => exact ⟨h₂.commanded, quiet_blocked, fun h => absurd h hne⟩
  · next hok' =>
      obtain ⟨hp₂, hmem⟩ := hdone (not_not.mp hok')
      exact ⟨h₂.commanded, fun _ => hp₂, fun _ => ⟨hmem, hbits⟩⟩

theorem modify_wp {f : BootFlash} (hq : Quiet f d)
    {address word command : UInt32}
    (hc : command = flashWrite ∨ command = flashErase)
    (hK : ∀ d', Commanded (flashCommand address word command) d.board d'.board →
      K d') :
    wp controllerDevice K (modify f address word command)
      (Modified address word command d) d := by
  have hKd : K d := hK d (.inl rfl)
  unfold modify
  dsimp only
  split
  · exact modified_untouched hq (by simp)
  split
  · exact modified_untouched hq.leave (by simp)
  next hb =>
  have hd : d.pending = none := hq (by simpa using hb)
  rw [wp_bind']
  refine wp_post (idle_wp hd hKd 1) fun r d' hd' => ?_
  subst hd'
  split
  · next hne => exact modified_untouched quiet_blocked hne
  refine readRegister_wp hd hKd fun answer => ?_
  cases answer with
  | none => exact modified_untouched hq.leave (by simp)
  | some value =>
      dsimp only
      split
      · exact modified_untouched hq.leave (by simp)
      · exact modifyIdle_wp hd hc hK

end Driver

/-- The driver on the device serves the calls of the receiver as `boardDevice`
answers them, and stays quiet. -/
theorem serveReceive_wp (op : ReceiveOp) (f : BootFlash) (d : FlashDevice)
    (hq : Quiet f d) :
    wp (controllerDevice.sum hostDevice)
      (fun d' => boardDevice.cut op d.board d'.board) (serveReceive op f)
      (fun x d' => boardDevice.step op d.board x.1 d'.board ∧ Quiet x.2 d') d := by
  cases op with
  | flashRead a n =>
      refine wp_left.mpr (wp_post (read_wp (K := fun d' => d'.board = d.board) hq rfl
        a n) fun x d' h => ?_)
      obtain ⟨rfl, hq', hb⟩ := h
      exact ⟨⟨rfl, hb⟩, hq'⟩
  | flashErase a =>
      refine wp_left.mpr (wp_post (modify_wp hq (.inr rfl) fun d' h => h)
        fun x d' h => ?_)
      exact ⟨⟨h.ran, fun hr => (h.done hr).1⟩, h.quiet⟩
  | flashProgram a w =>
      refine wp_left.mpr (wp_post (modify_wp hq (.inl rfl) fun d' h => h)
        fun x d' h => ?_)
      exact ⟨⟨h.ran, fun hr => ⟨(h.done hr).1, (h.done hr).2 rfl⟩⟩, h.quiet⟩
  | flashBlocked => exact ⟨rfl, hq⟩
  | host op =>
      refine wp_bind'.mpr (wp_right.mpr (wp_ask.mpr ⟨fun d' hc => ?_,
        fun answer d' hs => ?_⟩))
      · exact congrArg FlashDevice.board hc
      · obtain rfl : d' = d := hs
        exact ⟨rfl, hq⟩

end EkBareMetal.Boot

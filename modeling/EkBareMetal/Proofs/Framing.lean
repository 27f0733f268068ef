import EkBareMetal.Lib.Transition
import EkBareMetal.Net.Mac

/-!
# One frame for each call

The two bytes of the length move every byte of a frame across the words of the
FIFO, so both directions are read byte by byte: position `p` of the stream is
byte `p % 4` of its word. A call drains the words of one frame whether it keeps
the frame or not, and so the next call begins at the next frame.
-/

namespace EkBareMetal.Net

open Words Interact Transition

/-! ## Bytes of words -/

/-- A byte of a word, counted from the lowest. -/
theorem getElem?_bytes32 (w : UInt32) {j : Nat} (hj : j < 4) :
    (bytes32 w)[j]? = some (w >>> UInt32.ofNat (j * 8)).toUInt8 := by
  have hcases : j = 0 ∨ j = 1 ∨ j = 2 ∨ j = 3 := by omega
  obtain rfl | rfl | rfl | rfl := hcases
  · have hzero : w >>> UInt32.ofNat (0 * 8) = w := UInt32.shiftRight_zero
    rw [hzero]
    rfl
  · rfl
  · rfl
  · rfl

/-- A byte of a byte string that was written word by word. -/
theorem getElem?_flatMap_bytes32 {ws : List UInt32} {w : UInt32} {k j : Nat} (hw : ws[k]? = some w)
    (hj : j < 4) : (ws.flatMap bytes32)[4 * k + j]? =
      some (w >>> UInt32.ofNat (j * 8)).toUInt8 := by
  induction ws generalizing k with
  | nil => cases hw
  | cons v ws ih =>
      rw [List.flatMap_cons]
      cases k with
      | zero =>
          obtain rfl : v = w := Option.some.inj hw
          rw [List.getElem?_append_left (by rw [length_bytes32]; omega), Nat.mul_zero, Nat.zero_add]
          exact getElem?_bytes32 v hj
      | succ k =>
          rw [List.getElem?_append_right (by rw [length_bytes32]; omega), length_bytes32,
            show 4 * (k + 1) + j - 4 = 4 * k + j by omega]
          exact ih hw

/-- The words of a stream that is given byte by byte. -/
theorem flatMap_bytes32_range (f : Nat → UInt8) (n : Nat) :
    ((List.range n).map fun i => le32 [f (4 * i), f (4 * i + 1), f (4 * i + 2), f (4 * i + 3)]).flatMap
      bytes32 = (List.range (4 * n)).map f := by
  induction n with
  | zero => rfl
  | succ n ih =>
      rw [List.range_succ, List.map_append, List.flatMap_append, ih, List.map_singleton,
        List.flatMap_singleton, bytes32_le32 rfl, show 4 * (n + 1) = 4 * n + 4 by omega,
        List.range_add, List.map_append]
      rfl

/-! ## The frame in memory -/

section Storing

variable (mem : ByteMem) (frame : Nat) {offset byte : Nat} {bytes : List UInt8} {w : UInt32}

/-- The bytes in front of a position are stored, and then the byte at it. -/
theorem storeByte_write (h : ∀ h : offset + byte - 2 < bytes.length, 2 ≤ offset + byte →
      (w >>> UInt32.ofNat (byte * 8)).toUInt8 = bytes[offset + byte - 2]) :
    storeByte frame bytes.length offset w (mem.write frame (bytes.take (offset + byte - 2))) byte =
      mem.write frame (bytes.take (offset + byte + 1 - 2)) := by
  unfold storeByte
  by_cases hin : 2 ≤ offset + byte ∧ offset + byte - 2 < bytes.length
  · obtain ⟨hlo, hhi⟩ := hin
    have hlen : (bytes.take (offset + byte - 2)).length = offset + byte - 2 :=
      List.length_take_of_le (Nat.le_of_lt hhi)
    have hwrite := ByteMem.write_append mem frame (bytes.take (offset + byte - 2))
      [(w >>> UInt32.ofNat (byte * 8)).toUInt8]
    rw [hlen] at hwrite
    rw [if_pos ⟨hlo, hhi⟩, hwrite, h hhi hlo, ← List.take_succ_eq_append_getElem hhi]
    congr 2
    omega
  · rw [if_neg hin]
    congr 1
    by_cases hlo : 2 ≤ offset + byte
    · rw [List.take_of_length_le (by omega), List.take_of_length_le (by omega)]
    · rw [show offset + byte - 2 = 0 by omega, show offset + byte + 1 - 2 = 0 by omega]

/-- A word of the stream of the frame. -/
theorem storeWord_write {k : Nat} (h : ∀ j < 4, ∀ hlt : 4 * k + j - 2 < bytes.length,
      2 ≤ 4 * k + j → (w >>> UInt32.ofNat (j * 8)).toUInt8 = bytes[4 * k + j - 2]) :
    storeWord true frame bytes.length (4 * k) w (mem.write frame (bytes.take (4 * k - 2))) =
      mem.write frame (bytes.take (4 * (k + 1) - 2)) := by
  have h0 := storeByte_write mem frame (h 0 (by omega))
  have h1 := storeByte_write mem frame (h 1 (by omega))
  have h2 := storeByte_write mem frame (h 2 (by omega))
  have h3 := storeByte_write mem frame (h 3 (by omega))
  have hfold : storeWord true frame bytes.length (4 * k) w
      (mem.write frame (bytes.take (4 * k - 2))) =
      storeByte frame bytes.length (4 * k) w (storeByte frame bytes.length (4 * k) w
        (storeByte frame bytes.length (4 * k) w (storeByte frame bytes.length (4 * k) w
          (mem.write frame (bytes.take (4 * k - 2))) 0) 1) 2) 3 := rfl
  rw [hfold]
  exact (congrArg (storeByte frame bytes.length (4 * k) w · 3)
    ((congrArg (storeByte frame bytes.length (4 * k) w · 2)
      ((congrArg (storeByte frame bytes.length (4 * k) w · 1) h0).trans h1)).trans h2)).trans h3

end Storing

/-- The words from number `k` on, stored one after the other. -/
def storeWords (accept : Bool) (frame frameLength : Nat) : Nat → List UInt32 → ByteMem → ByteMem
  | _, [], mem => mem
  | k, w :: ws, mem =>
      storeWords accept frame frameLength (k + 1) ws
        (storeWord accept frame frameLength (4 * k) w mem)

theorem storeWords_false (frame frameLength k : Nat) (ws : List UInt32) (mem : ByteMem) :
    storeWords false frame frameLength k ws mem = mem := by
  induction ws generalizing k with
  | nil => rfl
  | cons w ws ih => exact ih (k + 1)

/-- A stream with the bytes of the frame behind its first two stores the frame. -/
theorem storeWords_write (mem : ByteMem) (frame : Nat) {k : Nat} {bytes : List UInt8}
    {ws : List UInt32}
    (h : ∀ i w, ws[i]? = some w → ∀ j < 4, ∀ hlt : 4 * (k + i) + j - 2 < bytes.length,
      2 ≤ 4 * (k + i) + j → (w >>> UInt32.ofNat (j * 8)).toUInt8 = bytes[4 * (k + i) + j - 2]) :
    storeWords true frame bytes.length k ws (mem.write frame (bytes.take (4 * k - 2))) =
      mem.write frame (bytes.take (4 * (k + ws.length) - 2)) := by
  induction ws generalizing k with
  | nil => rfl
  | cons w ws ih =>
      have hfirst := storeWord_write mem frame (h 0 w rfl)
      have hrest := ih (k := k + 1) ?_
      · rw [storeWords]
        refine (congrArg (storeWords true frame bytes.length (k + 1) ws) hfirst).trans ?_
        rw [hrest, List.length_cons]
        congr 2
        omega
      · intro i v hv j hj hlt hlo
        have hshift : 4 * (k + 1 + i) + j = 4 * (k + (i + 1)) + j := by omega
        have hlt' : 4 * (k + (i + 1)) + j - 2 < bytes.length := by omega
        have hbyte := h (i + 1) v hv j hj hlt' (by omega)
        rw [hbyte]
        congr 1
        omega

namespace QueuedFrame

variable (f : QueuedFrame)

theorem fifoLength_eq : f.fifoLength = f.bytes.length + 6 := by
  show 2 + f.bytes.length + 4 = f.bytes.length + 6
  omega

theorem fifoLength_le : f.fifoLength ≤ 2048 := f.bound

theorem length_words : f.words.length = (f.fifoLength + 3) / 4 := by
  have hlen := congrArg List.length f.stream
  have hfcs : f.fcs.length = 4 := f.fcs_length
  have hfiller := f.filler_length
  have heq := f.fifoLength_eq
  rw [length_flatMap_bytes32] at hlen
  simp only [le16, List.length_append, List.length_cons, List.length_nil] at hlen
  omega

theorem words_ne_nil : ∃ w rest, f.words = w :: rest := by
  have hlen := f.length_words
  have heq := f.fifoLength_eq
  cases hwords : f.words with
  | nil =>
      rw [hwords, List.length_nil] at hlen
      omega
  | cons w rest => exact ⟨w, rest, rfl⟩

/-- The length is the low half of the first word. -/
theorem prefix_word {w : UInt32} {rest : List UInt32} (h : f.words = w :: rest) :
    (w &&& 0xffff).toNat = f.fifoLength := by
  have hbytes := f.stream
  have hle := f.fifoLength_le
  rw [h, List.flatMap_cons] at hbytes
  have hword : w = le32 (bytes32 w ++ rest.flatMap bytes32) := (le32_bytes32_append w _).symm
  have hlow : w.toNat % 2 ^ 16 = f.fifoLength := by
    obtain ⟨c, d, tail, htail⟩ : ∃ c d tail, f.bytes ++ (f.fcs ++ f.filler) = c :: d :: tail := by
      have hfcs : f.fcs.length = 4 := f.fcs_length
      match hstream : f.bytes ++ (f.fcs ++ f.filler) with
      | [] =>
          have hlen := congrArg List.length hstream
          simp only [List.length_append, List.length_nil] at hlen
          omega
      | [c] =>
          have hlen := congrArg List.length hstream
          simp only [List.length_append, List.length_singleton] at hlen
          omega
      | c :: d :: tail => exact ⟨c, d, tail, rfl⟩
    rw [hword, hbytes, htail]
    have hassemble := toNat_le32_cons
      (UInt8.ofNat f.fifoLength) (UInt8.ofNat (f.fifoLength / 256)) c d tail
    refine (congrArg (· % 2 ^ 16) hassemble).trans ?_
    rw [UInt8.toNat_ofNat', UInt8.toNat_ofNat']
    omega
  rw [← hlow]
  exact toNat_and_mask w (n := 16) (by decide)

/-- A byte of a word of the frame. -/
theorem byte_word {i j : Nat} {w : UInt32} (hw : f.words[i]? = some w) (hj : j < 4)
    (hlt : 4 * i + j - 2 < f.bytes.length) (hlo : 2 ≤ 4 * i + j) :
    (w >>> UInt32.ofNat (j * 8)).toUInt8 = f.bytes[4 * i + j - 2] := by
  have hbyte := getElem?_flatMap_bytes32 hw hj
  have hlen : (le16 (ethernetFifoLengthBytes + f.bytes.length + ethernetFcsBytes)).length = 2 := rfl
  rw [f.stream, List.getElem?_append_right (by rw [hlen]; exact hlo), hlen,
    List.getElem?_append_left hlt, List.getElem?_eq_getElem hlt] at hbyte
  exact (Option.some.inj hbyte).symm

/-- All of the words store the frame and nothing else. -/
theorem storeWords_words (mem : ByteMem) (frame : Nat) :
    storeWords true frame f.bytes.length 0 f.words mem = mem.write frame f.bytes := by
  have hstore : storeWords true frame f.bytes.length 0 f.words
      (mem.write frame (f.bytes.take (4 * 0 - 2))) =
      mem.write frame (f.bytes.take (4 * (0 + f.words.length) - 2)) := by
    apply storeWords_write
    intro i w hw j hj hlt hlo
    simp only [Nat.zero_add] at hlt hlo ⊢
    exact f.byte_word hw hj hlt hlo
  have hlen := f.length_words
  have heq := f.fifoLength_eq
  rw [Nat.mul_zero, Nat.zero_sub, List.take_zero, ByteMem.write_nil,
    List.take_of_length_le (by omega)] at hstore
  exact hstore

end QueuedFrame

/-! ## A call -/

section Read

variable {α : Type} {K : Station → Prop} {o : EthernetObjects} {m : Mac} {accept : Bool}
  {frame capacity n : Nat}

theorem wp_macRead {offset : EthernetRegister} {p : UInt32 → EthernetProg α}
    {Q : α → Station → Prop} (h : ∀ r m', macHandler.step (.read offset) m r m' →
      wp station K (p r) Q (o, m')) : wp station K (macRead offset >>= p) Q (o, m) :=
  wp_outside (fun _ => id) h

theorem wp_macWrite {offset : EthernetRegister} {value : UInt32} {p : Unit → EthernetProg α}
    {Q : α → Station → Prop} (h : ∀ m', macHandler.step (.write offset value) m () m' →
      wp station K (p ()) Q (o, m')) : wp station K (macWrite offset value >>= p) Q (o, m) :=
  wp_outside (fun _ => id) fun _ => h

/-- The words behind the first one. -/
theorem wp_drainWords {ws : List UInt32} {k : Nat} {word : UInt32} {Q : Unit → Station → Prop}
    (hk : 0 < k) (hr : m.reading = ws)
    (hq : Q () ({ o with memory := storeWords accept frame n k ws o.memory },
      { m with reading := [], taken := m.taken + ws.length })) :
    wp station K (drainWords accept frame n ((List.range' k ws.length).map (4 * ·)) word) Q
      (o, m) := by
  induction ws generalizing k o m word with
  | nil =>
      obtain ⟨reading, queue, taken, written⟩ := m
      obtain rfl : reading = [] := hr
      exact hq
  | cons w ws ih =>
      rw [List.length_cons, List.range'_succ, List.map_cons, drainWords, if_pos (by omega)]
      refine wp_macRead fun r m' hs => ?_
      have hpop : m.Popped r m' := hs
      unfold Mac.Popped at hpop
      rw [hr] at hpop
      obtain ⟨rfl, rfl⟩ := hpop
      refine wp_modify (ih (Nat.succ_pos k) rfl ?_)
      dsimp only
      rw [List.length_cons, Nat.add_comm ws.length 1, ← Nat.add_assoc] at hq
      exact hq

theorem fifoOffsets_words {f : QueuedFrame} {w : UInt32} {rest : List UInt32}
    (h : f.words = w :: rest) :
    fifoOffsets f.fifoLength = 0 :: (List.range' 1 rest.length).map (4 * ·) := by
  have hlen := f.length_words
  rw [h, List.length_cons] at hlen
  unfold fifoOffsets
  rw [← hlen, List.range_eq_range', List.range'_succ, List.map_cons]

/-- All of the words, whether they are kept or not. -/
theorem wp_drainFrame (f : QueuedFrame) {w : UInt32} {rest : List UInt32}
    {Q : Unit → Station → Prop} (hwords : f.words = w :: rest) (hr : m.reading = rest)
    (hq : Q () ({ o with memory := if accept then o.memory.write frame f.bytes else o.memory },
      { m with reading := [], taken := m.taken + rest.length })) :
    wp station K (drainWords accept frame f.bytes.length (fifoOffsets f.fifoLength) w) Q
      (o, m) := by
  have hstore : storeWords accept frame f.bytes.length 1 rest
      (storeWord accept frame f.bytes.length (4 * 0) w o.memory) =
      if accept then o.memory.write frame f.bytes else o.memory := by
    have hfold : storeWords accept frame f.bytes.length 1 rest
        (storeWord accept frame f.bytes.length (4 * 0) w o.memory) =
        storeWords accept frame f.bytes.length 0 f.words o.memory := by
      rw [hwords]
      rfl
    rw [hfold]
    cases accept with
    | true => exact f.storeWords_words o.memory frame
    | false => exact storeWords_false frame f.bytes.length 0 f.words o.memory
  rw [fifoOffsets_words hwords, drainWords, if_neg (not_not.mpr rfl)]
  refine wp_modify (wp_drainWords Nat.one_pos hr ?_)
  rw [← hstore] at hq
  exact hq

end Read

/-- The frame is returned and not dropped. -/
def Acceptable (frame capacity : Nat) (f : QueuedFrame) : Prop :=
  frame ≠ null ∧ ethernetMinReceivedBytes ≤ f.bytes.length ∧
    f.bytes.length ≤ ethernetFrameMaxBytes ∧ f.bytes.length ≤ capacity

instance (frame capacity : Nat) (f : QueuedFrame) : Decidable (Acceptable frame capacity f) :=
  inferInstanceAs (Decidable (_ ∧ _))

/-- What is left of a call once the length is known. -/
theorem wp_readBody {K : Station → Prop} {o : EthernetObjects} {m : Mac} (f : QueuedFrame)
    {w : UInt32} {rest : List UInt32} {frame capacity : Nat}
    {Q : EthernetResult × Nat → Station → Prop} (hwords : f.words = w :: rest)
    (hr : m.reading = rest)
    (hok : Acceptable frame capacity f → ∀ counters, Q (.ok, f.bytes.length)
      ({ o with counters := counters, memory := o.memory.write frame f.bytes },
        { m with reading := [], taken := m.taken + rest.length }))
    (hdropped : ¬ Acceptable frame capacity f → ∀ counters, Q (.dropped, 0)
      ({ o with counters := counters },
        { m with reading := [], taken := m.taken + rest.length })) :
    wp station K (readBody frame capacity f.fifoLength w) Q (o, m) := by
  have hframe : f.fifoLength - ethernetFifoLengthBytes - ethernetFcsBytes = f.bytes.length := by
    have heq := f.fifoLength_eq
    show f.fifoLength - 2 - 4 = f.bytes.length
    omega
  have haccept : decide (frame ≠ null ∧ ethernetMinReceivedBytes ≤ f.bytes.length ∧
      f.bytes.length ≤ ethernetFrameMaxBytes ∧ f.bytes.length ≤ capacity) =
      decide (Acceptable frame capacity f) := rfl
  unfold readBody
  dsimp only
  rw [hframe, haccept]
  refine wp_bind'.mpr (wp_drainFrame f hwords hr ?_)
  refine wp_macWrite fun m' hm' => ?_
  obtain rfl : m' = { m with reading := [], taken := m.taken + rest.length } := hm'
  by_cases ha : Acceptable frame capacity f
  · rw [decide_eq_true ha, if_neg (show ¬ (!true) = true from nofun)]
    exact wp_modify (hok ha _)
  · rw [decide_eq_false ha, if_pos (show (!false) = true from rfl)]
    exact wp_modify (hdropped ha _)

/-- The driver is initialized, and the FIFO is at the first of these frames. -/
structure Ready (s : Station) (queue : List QueuedFrame) : Prop where
  initialized : s.1.initialized = true
  reading : s.2.reading = []
  queue : s.2.queue = queue

/-- What a call has done with a frame. -/
structure Concerns (f : QueuedFrame) (s : Station) (c : ReadCall) (s' : Station) : Prop where
  drained : s'.2.taken = s.2.taken + (f.fifoLength + 3) / 4
  ok : c.result = .ok ↔ Acceptable c.arguments.frame c.arguments.capacity f
  kept : c.result = .ok → c.length = some f.bytes.length ∧
    s'.1.memory.read c.arguments.frame f.bytes.length = f.bytes ∧
    ByteMem.Within s.1.memory s'.1.memory c.arguments.frame f.bytes.length
  dropped : c.result ≠ .ok → c.result = .dropped ∧ c.length = some 0 ∧
    s'.1.memory = s.1.memory

/-- The whole of a call, on the frame at the front of the queue. -/
theorem wp_readFrame {K : Station → Prop} {s : Station} {f : QueuedFrame}
    {queue : List QueuedFrame} (hs : Ready s (f :: queue)) (a : ReadArguments) :
    wp station K (ethernetReadFrame a.frame a.capacity a.length)
      (fun x s' => Concerns f s ⟨a, x.1, x.2⟩ s' ∧ Ready s' queue) s := by
  obtain ⟨o, m⟩ := s
  obtain ⟨hinit, hreading, hqueue⟩ := hs
  obtain ⟨w, rest, hwords⟩ := f.words_ne_nil
  have hlen := f.fifoLength_eq
  have hle := f.fifoLength_le
  unfold ethernetReadFrame
  rw [if_neg a.length_null, if_neg fun h => h.2 (a.frame_null h.1)]
  refine wp_load ?_
  dsimp only at hinit hreading hqueue
  rw [hinit, if_neg nofun]
  refine wp_macRead fun packets m₁ hpackets => ?_
  obtain ⟨rfl, hcount⟩ : m₁ = m ∧ (m.reading = [] → (packets &&& 0x3f ≠ 0 ↔ m.queue ≠ [])) :=
    hpackets
  rw [if_neg ((hcount hreading).mpr (by rw [hqueue]; exact List.cons_ne_nil _ _))]
  refine wp_macRead fun word m₂ hword => ?_
  have hpop : m₁.Popped word m₂ := hword
  unfold Mac.Popped at hpop
  rw [hreading, hqueue] at hpop
  obtain ⟨rest', hfront, rfl⟩ := hpop
  rw [hwords] at hfront
  obtain ⟨rfl, rfl⟩ := List.cons.inj hfront
  dsimp only
  rw [f.prefix_word hwords, if_neg (by
    show ¬ (f.fifoLength < 6 ∨ f.fifoLength > 2048)
    omega)]
  have hdrained : m₁.taken + 1 + rest.length = m₁.taken + (f.fifoLength + 3) / 4 := by
    have hwordCount := f.length_words
    rw [hwords, List.length_cons] at hwordCount
    omega
  refine wp_bind'.mpr (wp_readBody f hwords rfl (fun ha counters => ?_) fun ha counters => ?_)
  · refine ⟨⟨hdrained, iff_of_true rfl ha, fun _ => ⟨rfl, ?_, ?_⟩, fun h => absurd rfl h⟩,
      ⟨hinit, rfl, rfl⟩⟩
    · exact ByteMem.read_write_same o.memory a.frame f.bytes
    · exact ByteMem.within_write o.memory a.frame f.bytes
  · exact ⟨⟨hdrained, iff_of_false nofun ha, nofun, fun _ => ⟨rfl, rfl, rfl⟩⟩, ⟨hinit, rfl, rfl⟩⟩

/-! ## Calls one after the other -/

section Calls

variable {s s' : Station} {c : ReadCall} {f : QueuedFrame} {queue : List QueuedFrame}
  {tr : List (ReadCall × Station)}

theorem Ready.concerns (hs : Ready s (f :: queue)) (h : ReadStep s c s') :
    Concerns f s c s' ∧ Ready s' queue := by
  have hcall := Exec.post h (wp_readFrame (K := fun _ => True) hs c.arguments)
  exact hcall

/-- Nothing is taken from an empty queue. -/
theorem wp_readEmpty {K : Station → Prop} (hs : Ready s []) (a : ReadArguments) :
    wp station K (ethernetReadFrame a.frame a.capacity a.length)
      (fun x s' => x = (.empty, some 0) ∧ s' = s) s := by
  obtain ⟨o, m⟩ := s
  obtain ⟨hinit, hreading, hqueue⟩ := hs
  dsimp only at hinit hreading hqueue
  unfold ethernetReadFrame
  rw [if_neg a.length_null, if_neg fun h => h.2 (a.frame_null h.1)]
  refine wp_load ?_
  rw [hinit, if_neg nofun]
  refine wp_macRead fun packets m₁ hpackets => ?_
  obtain ⟨rfl, hcount⟩ : m₁ = m ∧ (m.reading = [] → (packets &&& 0x3f ≠ 0 ↔ m.queue ≠ [])) :=
    hpackets
  have hnone : packets &&& 0x3f = 0 := by
    by_contra hsome
    exact (hcount hreading).mp hsome hqueue
  rw [if_pos hnone]
  exact ⟨rfl, rfl⟩

theorem Ready.empty (hs : Ready s []) (h : ReadStep s c s') :
    (c.result, c.length) = (.empty, some 0) ∧ s' = s := by
  have hcall := Exec.post h (wp_readEmpty (K := fun _ => True) hs c.arguments)
  exact hcall

theorem Ready.step (hs : Ready s queue) (h : ReadStep s c s') : Ready s' queue.tail := by
  cases queue with
  | nil =>
      obtain ⟨-, rfl⟩ := hs.empty h
      exact hs
  | cons f queue => exact (hs.concerns h).2

/-- Every call takes one frame, as long as there is one. -/
theorem Ready.run (hs : Ready s queue) (h : Run ReadStep s tr s') :
    Ready s' (queue.drop tr.length) := by
  induction h generalizing queue with
  | nil => exact hs
  | cons hstep _ ih =>
      have hrest := ih (hs.step hstep)
      rw [List.drop_tail] at hrest
      exact hrest

end Calls

/-! ## A transmission -/

section Transmit

variable {K : Station → Prop} {o : EthernetObjects} {m : Mac} {frame length : Nat}
  {Q : Unit → Station → Prop}

theorem txWord_eq (memory : ByteMem) (frame length offset : Nat) :
    txWord memory frame length offset = le32 [txByte memory frame length offset,
      txByte memory frame length (offset + 1), txByte memory frame length (offset + 2),
      txByte memory frame length (offset + 3)] := by
  have hfirst : 0 ||| (txByte memory frame length offset).toUInt32 <<< UInt32.ofNat (0 * 8) =
      (txByte memory frame length offset).toUInt32 := by
    rw [UInt32.zero_or]
    exact UInt32.shiftLeft_zero
  unfold txWord
  rw [show List.range 4 = [0, 1, 2, 3] from rfl]
  simp only [List.foldl_cons, List.foldl_nil, Nat.add_zero]
  rw [hfirst]
  rfl

/-- The length of the payload, the frame, and zeros up to a whole word. -/
def txStream (frame : List UInt8) : List UInt8 :=
  le16 (frame.length - ethernetFrameHeaderBytes) ++ frame ++
    List.replicate ((4 - (frame.length + 2) % 4) % 4) 0

/-- The first two bytes are the length. -/
theorem txByte_length (memory : ByteMem) (frame length : Nat) :
    (List.range 2).map (txByte memory frame length) = le16 (length - ethernetFrameHeaderBytes) := by
  have hlow : (length - ethernetFrameHeaderBytes) >>> (0 * 8) = length - ethernetFrameHeaderBytes :=
    Nat.shiftRight_zero
  have hhigh : (length - ethernetFrameHeaderBytes) >>> (1 * 8) =
      (length - ethernetFrameHeaderBytes) / 256 := Nat.shiftRight_eq_div_pow _ 8
  unfold le16
  rw [← hhigh]
  nth_rewrite 1 [← hlow]
  rfl

theorem flatMap_txWord (memory : ByteMem) (frame length : Nat) :
    ((fifoOffsets (length + 2)).map (txWord memory frame length)).flatMap bytes32 =
      txStream (memory.read frame length) := by
  obtain ⟨pad, hpad⟩ : ∃ pad, pad = (4 - (length + 2) % 4) % 4 := ⟨_, rfl⟩
  have htotal : 4 * ((length + 2 + 3) / 4) = 2 + length + pad := by omega
  have hwords : (fifoOffsets (length + 2)).map (txWord memory frame length) =
      (List.range ((length + 2 + 3) / 4)).map fun i =>
        le32 [txByte memory frame length (4 * i), txByte memory frame length (4 * i + 1),
          txByte memory frame length (4 * i + 2), txByte memory frame length (4 * i + 3)] := by
    unfold fifoOffsets
    rw [List.map_map]
    exact List.map_congr_left fun i _ => txWord_eq memory frame length (4 * i)
  rw [hwords, flatMap_bytes32_range, htotal, List.range_add, List.range_add, List.map_append,
    List.map_append, List.map_map, List.map_map]
  unfold txStream
  rw [ByteMem.length_read, ← hpad]
  congr 1
  · congr 1
    · exact txByte_length memory frame length
    unfold ByteMem.read
    refine List.map_congr_left fun i hi => ?_
    have hlt := List.mem_range.mp hi
    show txByte memory frame length (2 + i) = _
    unfold txByte
    rw [if_neg (by show ¬ 2 + i < 2; omega), Nat.add_sub_cancel_left, if_pos hlt]
  · refine List.eq_replicate_iff.mpr ⟨by rw [List.length_map, List.length_range], fun b hb => ?_⟩
    obtain ⟨i, -, rfl⟩ := List.mem_map.mp hb
    show txByte memory frame length (2 + length + i) = 0
    unfold txByte
    rw [if_neg (by show ¬ 2 + length + i < 2; omega),
      if_neg (by show ¬ 2 + length + i - 2 < length; omega)]

theorem wp_sendWords {offsets : List Nat}
    (hq : Q () (o, { m with
      written := m.written ++ offsets.map (txWord o.memory frame length) })) :
    wp station K (sendWords frame length offsets) Q (o, m) := by
  induction offsets generalizing m with
  | nil =>
      rw [List.map_nil, List.append_nil] at hq
      exact hq
  | cons offset offsets ih =>
      refine wp_load (wp_macWrite fun m' hm' => ?_)
      obtain rfl : m' = { m with
        written := m.written ++ [txWord o.memory frame length offset] } := hm'
      refine ih ?_
      rw [List.append_assoc]
      exact hq

theorem wp_collectEvents (hq : ∀ counters, Q () ({ o with counters := counters }, m)) :
    wp station K collectEvents Q (o, m) := by
  refine wp_macRead fun events m₁ hm₁ => ?_
  obtain rfl : m₁ = m := hm₁
  refine wp_modify (wp_macRead fun request m₂ hm₂ => ?_)
  obtain rfl : m₂ = m₁ := hm₂
  split
  · refine wp_modify ⟨nofun, fun _ y hy => ?_⟩
    obtain ⟨o', m'⟩ := y
    obtain ⟨rfl, rfl⟩ : o' = _ ∧ m' = m₂ := hy
    exact hq _
  · refine ⟨nofun, fun _ y hy => ?_⟩
    obtain ⟨o', m'⟩ := y
    obtain ⟨rfl, rfl⟩ : o' = _ ∧ m' = m₂ := hy
    exact hq _

end Transmit

/-- What a call has put into the transmit FIFO. -/
structure Transmitted (frame length : Nat) (s : Station) (result : EthernetResult) (s' : Station) :
    Prop where
  ok : result = .ok → ∃ stream, s'.2.written = s.2.written ++ stream ∧
    stream.flatMap bytes32 = txStream (s.1.memory.read frame length)
  admissible : result = .ok → ethernetFrameHeaderBytes ≤ length ∧ length ≤ ethernetFrameMaxBytes
  refused : result ≠ .ok → s'.2.written = s.2.written

theorem Transmitted.none {frame length : Nat} {s s' : Station} {result : EthernetResult}
    (hresult : result ≠ .ok) (hs : s'.2 = s.2) : Transmitted frame length s result s' :=
  ⟨fun h => absurd h hresult, fun h => absurd h hresult, fun _ => by rw [hs]⟩

theorem wp_tryTransmit {K : Station → Prop} (frame length : Nat) (s : Station) :
    wp station K (ethernetTryTransmit frame length)
      (fun result s' => Transmitted frame length s result s') s := by
  obtain ⟨o, m⟩ := s
  unfold ethernetTryTransmit
  split
  · exact .none nofun rfl
  · next hargs =>
    rw [not_or, not_or, Nat.not_lt, Nat.not_lt] at hargs
    refine wp_load ?_
    split
    · exact .none nofun rfl
    refine wp_macRead fun request m₁ hm₁ => ?_
    obtain rfl : m₁ = m := hm₁
    split
    · exact .none nofun rfl
    refine wp_bind'.mpr (wp_collectEvents fun counters => ?_)
    refine wp_bind'.mpr (wp_sendWords ?_)
    -- the start of the transmission
    refine wp_bind'.mpr (wp_macRead fun current m₂ hm₂ => ?_)
    obtain rfl := hm₂
    refine ⟨nofun, fun _ y hy => wp_modify ?_⟩
    obtain ⟨o', m'⟩ := y
    obtain ⟨rfl, rfl⟩ : o' = _ ∧ m' = _ := hy
    exact ⟨fun _ => ⟨_, rfl, flatMap_txWord o.memory frame length⟩, fun _ => hargs.2,
      fun h => absurd rfl h⟩

/-- Call number `k` concerns frame number `k`, whatever came of the calls before it, and a
transmission writes the stream of its frame. -/
theorem ethernet_fifo_framing :
    (∀ (queue : List QueuedFrame) (s a a' : Station) (tr : List (ReadCall × Station))
      (c : ReadCall), Ready s queue → Run ReadStep s tr a → ReadStep a c a' →
      match queue[tr.length]? with
      | some f => Concerns f a c a'
      | none => (c.result, c.length) = (.empty, some 0) ∧ a' = a) ∧
    ∀ (frame length : Nat) (s : Station) (result : EthernetResult) (s' : Station),
      Exec station (ethernetTryTransmit frame length) s (some result) s' →
      Transmitted frame length s result s' := by
  constructor
  · intro queue s a a' tr c hs hrun hstep
    have ha := hs.run hrun
    cases hfront : queue[tr.length]? with
    | some f =>
        rw [List.drop_eq_getElem?_toList_append, hfront] at ha
        exact (ha.concerns hstep).1
    | none =>
        rw [List.drop_eq_nil_of_le (List.getElem?_eq_none_iff.mp hfront)] at ha
        exact ha.empty hstep
  · intro frame length s result s' h
    have hcall := Exec.post h (wp_tryTransmit (K := fun _ => True) frame length s)
    exact hcall

/-! ## A MAC with one answer -/

def Mac.pop (m : Mac) : UInt32 × Mac :=
  match m.reading, m.queue with
  | w :: rest, _ => (w, { m with reading := rest, taken := m.taken + 1 })
  | [], f :: queue =>
      (f.words.headD 0, { m with reading := f.words.tail, queue := queue, taken := m.taken + 1 })
  | [], [] => (0, { m with taken := m.taken + 1 })

/-- Idle, with the number of the queued frames. -/
def macAnswer : (op : MacOp) → Mac → MacSig.Ans op × Mac
  | .read .data, m => m.pop
  | .read .packetCount, m => (if m.queue.isEmpty then 0 else 1, m)
  | .read .status, m => (0, m)
  | .read .receiveControl, m => (0, m)
  | .read .transmitRequest, m => (0, m)
  | .write .data word, m => ((), { m with written := m.written ++ [word] })
  | .write .status _, m => ((), m)
  | .write .receiveControl _, m => ((), m)
  | .write .packetCount _, m => ((), m)
  | .write .transmitRequest _, m => ((), m)

theorem Mac.popped_pop (m : Mac) : m.Popped m.pop.1 m.pop.2 := by
  obtain ⟨reading, queue, taken, written⟩ := m
  cases reading with
  | cons w rest => exact ⟨rfl, rfl⟩
  | nil =>
      cases queue with
      | nil => rfl
      | cons f queue =>
          obtain ⟨w, rest, hwords⟩ := f.words_ne_nil
          refine ⟨rest, ?_, ?_⟩
          · show f.words = f.words.headD 0 :: rest
            rw [hwords]
            rfl
          · show Mac.mk f.words.tail queue (taken + 1) written = _
            rw [hwords]
            rfl

theorem macAnswer_steps (op : MacOp) (m : Mac) :
    macHandler.step op m (macAnswer op m).1 (macAnswer op m).2 := by
  match op with
  | .read .data => exact m.popped_pop
  | .read .packetCount =>
      refine ⟨rfl, fun _ => ?_⟩
      show (if m.queue.isEmpty then (0 : UInt32) else 1) &&& 0x3f ≠ 0 ↔ m.queue ≠ []
      cases m.queue with
      | nil => exact iff_of_false (fun h => h rfl) fun h => h rfl
      | cons f queue =>
          exact iff_of_true (show (1 : UInt32) &&& 0x3f ≠ 0 by decide) (List.cons_ne_nil f queue)
  | .read .status | .read .receiveControl | .read .transmitRequest => rfl
  | .write .data _ => rfl
  | .write .receiveControl _ => exact ⟨m.reading, m.queue, rfl⟩
  | .write .status _ | .write .packetCount _ | .write .transmitRequest _ => rfl

theorem exec_station {α : Type} (p : EthernetProg α) (s : Station) :
    Exec station p s (some (p.run (besideRun macAnswer) s).1) (p.run (besideRun macAnswer) s).2 :=
  exec_run (besideRun_steps macAnswer_steps) p s

/-- Sixty zeros, with an FCS of zeros. -/
def zeroFrame : QueuedFrame where
  bytes := List.replicate 60 0
  fcs := List.replicate 4 0
  filler := List.replicate 2 0
  words := 66 :: List.replicate 16 0
  stream := by decide
  fcs_length := rfl
  filler_length := by decide
  bound := by decide

/-- The first of two frames is dropped, since no byte of it fits. -/
theorem ethernet_fifo_framing_second :
    (∃ s a a' : Station, ∃ c₁ c₂ : ReadCall, ReadStep s c₁ a ∧ ReadStep a c₂ a' ∧
      c₁.arguments.capacity = 0 ∧ Concerns zeroFrame a c₂ a') ∧
    ∃ s s' : Station, ∃ result, Exec station (ethernetTryTransmit 4 14) s (some result) s' ∧
      Transmitted 4 14 s result s' := by
  let a₁ : ReadArguments := ⟨4, 0, 8, fun _ => rfl, by decide⟩
  let a₂ : ReadArguments := ⟨4, 1514, 8, fun h => absurd h (by decide), by decide⟩
  let o : EthernetObjects := ⟨true, true, ⟨0, 0, 0, 0, 0, 0, 0, 0⟩, fun _ => 0⟩
  let s : Station := (o, ⟨[], [zeroFrame, zeroFrame], 0, []⟩)
  have h₁ := exec_station (ethernetReadFrame a₁.frame a₁.capacity a₁.length) s
  have h₂ := exec_station (ethernetReadFrame a₂.frame a₂.capacity a₂.length)
    ((ethernetReadFrame a₁.frame a₁.capacity a₁.length).run (besideRun macAnswer) s).2
  have h₃ := exec_station (ethernetTryTransmit 4 14) s
  have hstep₁ : ReadStep s ⟨a₁, _, _⟩ _ := h₁
  have hstep₂ : ReadStep _ ⟨a₂, _, _⟩ _ := h₂
  exact ⟨⟨s, _, _, _, _, hstep₁, hstep₂, rfl, ethernet_fifo_framing.1 [zeroFrame, zeroFrame] s _ _
    [(⟨a₁, _, _⟩, _)] _ ⟨rfl, rfl, rfl⟩ (.cons hstep₁ (.nil _)) hstep₂⟩,
    ⟨s, _, _, h₃, ethernet_fifo_framing.2 4 14 s _ _ h₃⟩⟩

end EkBareMetal.Net

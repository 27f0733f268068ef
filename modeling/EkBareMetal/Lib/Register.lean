import Mathlib.Logic.Function.Iterate
import Mathlib.Data.List.Basic

/-!
# Shift registers with feedback

A register of `w` bits that moves down one place at each step, and takes the
feedback word when the bit that falls out is set. Bits are fed in at the low
end. The step is linear over exclusive or, and it loses nothing as long as the
feedback word has its top bit: then up to `w` bits fed in can all be told from
the state after them (`feeds_injective`), and what is fed in later changes
nothing about that (`feeds_burst`).
-/

namespace Register

variable {w : Nat} {p : BitVec w} {x y s : BitVec w} {b : Bool} {bs cs : List Bool}

def step (p s : BitVec w) : BitVec w := (s >>> 1) ^^^ (if s.getLsbD 0 then p else 0#w)

/-- One bit, as the lowest of a word. -/
def lowBit (w : Nat) (b : Bool) : BitVec w := BitVec.setWidth w (BitVec.ofBool b)

def feed (p s : BitVec w) (b : Bool) : BitVec w := step p (s ^^^ lowBit w b)

def feeds (p s : BitVec w) (bs : List Bool) : BitVec w := bs.foldl (feed p) s

/-- The bits of a list as a word, the first one lowest. -/
def word (w : Nat) : List Bool → BitVec w
  | [] => 0#w
  | b :: bs => lowBit w b ^^^ (word w bs <<< 1)

/-! ## The step -/

theorem step_xor : step p (x ^^^ y) = step p x ^^^ step p y := by
  have hback : ∀ a b : Bool, (if (a ^^ b) = true then p else 0#w) =
      (if a then p else 0#w) ^^^ (if b then p else 0#w) := by
    intro a b
    cases a <;> cases b <;> simp
  unfold step
  rw [BitVec.ushiftRight_xor_distrib, BitVec.getLsbD_xor, hback]
  ac_rfl

theorem step_eq_zero (hp : p.msb = true) (h : step p x = 0#w) : x = 0#w := by
  have hw : 0 < w := by
    by_contra hw
    obtain rfl : w = 0 := by omega
    simp [BitVec.msb_eq_getLsbD_last] at hp
  rw [BitVec.msb_eq_getLsbD_last] at hp
  unfold step at h
  cases hx : x.getLsbD 0 with
  | true =>
      -- the top bit comes from the feedback alone
      have htop := congrArg (fun v => v.getLsbD (w - 1)) h
      rw [hx, if_pos rfl] at htop
      simp only [BitVec.getLsbD_xor, BitVec.getLsbD_ushiftRight, hp, BitVec.getLsbD_zero] at htop
      rw [BitVec.getLsbD_of_ge x (1 + (w - 1)) (by omega)] at htop
      cases htop
  | false =>
      rw [hx, if_neg nofun, BitVec.xor_zero] at h
      apply BitVec.eq_of_getLsbD_eq
      intro i hi
      rw [BitVec.getLsbD_zero]
      cases i with
      | zero => exact hx
      | succ i =>
          have hbit := congrArg (fun v => v.getLsbD i) h
          simp only [BitVec.getLsbD_ushiftRight, BitVec.getLsbD_zero] at hbit
          rw [Nat.add_comm]
          exact hbit

theorem step_injective (hp : p.msb = true) : Function.Injective (step p) := by
  intro x y h
  have hxy : x ^^^ y = 0#w := by
    apply step_eq_zero hp
    rw [step_xor, h, BitVec.xor_self]
  exact BitVec.xor_eq_zero_iff.mp hxy

/-- A word with room at the top comes back from a place higher. -/
theorem step_shiftLeft (h : x.getLsbD (w - 1) = false) : step p (x <<< 1) = x := by
  have hlow : (x <<< 1).getLsbD 0 = false := by simp
  rw [step, hlow, if_neg nofun, BitVec.xor_zero]
  apply BitVec.eq_of_getLsbD_eq
  intro i hi
  rw [BitVec.getLsbD_ushiftRight, BitVec.getLsbD_shiftLeft]
  by_cases htop : i = w - 1
  · subst htop
    simp [h]
  · have hin : 1 + i < w := by omega
    simp [hin]

/-! ## Words of bits -/

theorem getLsbD_lowBit (i : Nat) : (lowBit w b).getLsbD i = (decide (i < w) && (decide (i = 0) && b)) := by
  unfold lowBit
  rw [BitVec.getLsbD_setWidth]
  cases i <;> simp

theorem getLsbD_word (i : Nat) : (word w bs).getLsbD i = (decide (i < w) && bs.getD i false) := by
  induction bs generalizing i with
  | nil => simp [word]
  | cons b bs ih =>
      rw [word, BitVec.getLsbD_xor, getLsbD_lowBit, BitVec.getLsbD_shiftLeft, ih]
      cases i with
      | zero => simp
      | succ i =>
          by_cases hi : i + 1 < w
          · have hlt : i < w := by omega
            simp [hi, hlt]
          · simp [hi]

theorem word_injective (hb : bs.length ≤ w) (hlen : bs.length = cs.length)
    (h : word w bs = word w cs) : bs = cs := by
  apply List.ext_getElem hlen
  intro i hbs hcs
  have hbit := congrArg (fun v => v.getLsbD i) h
  simp only [getLsbD_word] at hbit
  have hi : i < w := by omega
  simpa [hi, hbs, hcs] using hbit

/-! ## Feeding -/

theorem feeds_append (ds : List Bool) : feeds p s (bs ++ ds) = feeds p (feeds p s bs) ds :=
  List.foldl_append

/-- Bits that fit into the register can be put there all at once. -/
theorem feeds_word (h : bs.length ≤ w) :
    feeds p s bs = (step p)^[bs.length] (s ^^^ word w bs) := by
  induction bs generalizing s with
  | nil => simp [feeds, word]
  | cons b bs ih =>
      rw [List.length_cons] at h
      have hroom : (word w bs).getLsbD (w - 1) = false := by
        rw [getLsbD_word]
        have hlast : bs.length ≤ w - 1 := by omega
        simp [hlast]
      have hfeed : feeds p s (b :: bs) = feeds p (feed p s b) bs := rfl
      rw [hfeed, ih (by omega), List.length_cons, Function.iterate_succ_apply, word, feed,
        ← BitVec.xor_assoc, step_xor (y := word w bs <<< 1), step_shiftLeft hroom]

theorem feed_injective (hp : p.msb = true) (b : Bool) : Function.Injective (feed p · b) := by
  intro x y h
  exact (BitVec.xor_left_inj (lowBit w b)).mp (step_injective hp h)

theorem feeds_state_injective (hp : p.msb = true) (bs : List Bool) :
    Function.Injective (feeds p · bs) := by
  induction bs with
  | nil => exact fun _ _ h => h
  | cons b bs ih => exact fun _ _ h => feed_injective hp b (ih h)

theorem feeds_injective (hp : p.msb = true) (hb : bs.length ≤ w) (hlen : bs.length = cs.length)
    (h : feeds p s bs = feeds p s cs) : bs = cs := by
  rw [feeds_word hb, feeds_word (hlen ▸ hb), hlen] at h
  have hword := (step_injective hp).iterate _ h
  exact word_injective hb hlen ((BitVec.xor_right_inj s).mp hword)

/-- Two streams that differ in no more than `w` places in a row leave different states. -/
theorem feeds_burst (hp : p.msb = true) (pre post : List Bool) (hb : bs.length ≤ w)
    (hlen : bs.length = cs.length) (hne : bs ≠ cs) :
    feeds p s (pre ++ (bs ++ post)) ≠ feeds p s (pre ++ (cs ++ post)) := by
  rw [feeds_append, feeds_append, feeds_append, feeds_append]
  intro h
  exact hne (feeds_injective hp hb hlen (feeds_state_injective hp post h))

/-! ## Error patterns -/

/-- What a pattern leaves of a stream. -/
def flipped (bs es : List Bool) : List Bool := List.zipWith (· ^^ ·) bs es

theorem length_flipped {es : List Bool} (hlen : es.length = bs.length) :
    (flipped bs es).length = bs.length := by
  simp [flipped, hlen]

theorem getElem?_flipped {es : List Bool} (hlen : es.length = bs.length) (i : Nat) :
    (flipped bs es)[i]? = bs[i]?.map (· ^^ es.getD i false) := by
  unfold flipped
  rw [List.getElem?_zipWith]
  by_cases hi : i < bs.length
  · have hes : i < es.length := by omega
    simp [hi, hes]
  · have hout : bs[i]? = none := List.getElem?_eq_none (by omega)
    simp [hout]

theorem split_window (bs : List Bool) (k n : Nat) :
    bs = bs.take k ++ ((bs.drop k).take n ++ bs.drop (k + n)) := by
  rw [← List.drop_drop, List.take_append_drop, List.take_append_drop]

/-- Two streams that agree but for `w` places in a row. -/
theorem feeds_window (hp : p.msb = true) (hlen : bs.length = cs.length) {k : Nat}
    (hsame : ∀ i, ¬ (k ≤ i ∧ i < k + w) → bs[i]? = cs[i]?) (hne : bs ≠ cs) :
    feeds p s bs ≠ feeds p s cs := by
  have hpre : bs.take k = cs.take k := by
    apply List.ext_getElem?
    intro i
    rw [List.getElem?_take, List.getElem?_take]
    split
    · exact hsame i (by omega)
    · rfl
  have hpost : bs.drop (k + w) = cs.drop (k + w) := by
    apply List.ext_getElem?
    intro i
    rw [List.getElem?_drop, List.getElem?_drop]
    exact hsame _ (by omega)
  have hb := split_window bs k w
  have hc := split_window cs k w
  rw [← hpre, ← hpost] at hc
  have hmid : (bs.drop k).take w ≠ (cs.drop k).take w := by
    intro h
    rw [← h] at hc
    exact hne (hb.trans hc.symm)
  rw [hb, hc]
  apply feeds_burst hp _ _ ?_ ?_ hmid
  · rw [List.length_take]
    omega
  · simp [hlen]

/-- A pattern that sets a bit, and none outside of `w` places in a row, is seen. -/
theorem feeds_flipped {es : List Bool} (hp : p.msb = true) (hlen : es.length = bs.length) {k : Nat}
    (hin : ∀ i, es.getD i false = true → k ≤ i ∧ i < k + w) (hit : ∃ i, es.getD i false = true) :
    feeds p s (flipped bs es) ≠ feeds p s bs := by
  apply feeds_window hp (length_flipped hlen) (k := k)
  · intro i hi
    rw [getElem?_flipped hlen, Bool.eq_false_iff.mpr fun h => hi (hin i h)]
    simp
  · intro h
    obtain ⟨i, hi⟩ := hit
    have hlt : i < es.length := by
      by_contra hge
      simp [List.getElem?_eq_none (Nat.not_lt.mp hge)] at hi
    have hbit := getElem?_flipped hlen i
    rw [h, hi, List.getElem?_eq_getElem (by omega)] at hbit
    simp at hbit

end Register

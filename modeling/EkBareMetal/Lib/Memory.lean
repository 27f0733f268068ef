import EkBareMetal.Lib.Words

/-!
# Byte-addressed memory

A memory is a byte for every address. Only two questions about it ever come
up in a proof about a storage driver: what a range reads as after a write
that covers it, and that a range a write does not touch reads as before. The
second is stated once, as agreement of two memories on a range, and every
frame fact is an instance of it.
-/

abbrev ByteMem := Nat → UInt8

namespace ByteMem

/-- The `n` bytes from address `a` on. -/
def read (m : ByteMem) (a n : Nat) : List UInt8 :=
  (List.range n).map fun i => m (a + i)

/-- Replace the bytes from address `a` on by `bs`. -/
def write (m : ByteMem) (a : Nat) (bs : List UInt8) : ByteMem := fun x =>
  if a ≤ x then bs.getD (x - a) (m x) else m x

/-- The two memories hold the same bytes in the `n` addresses from `a` on. -/
def Agree (m m' : ByteMem) (a n : Nat) : Prop :=
  ∀ x, a ≤ x → x < a + n → m x = m' x

/-- Outside the `n` addresses from `a` on the memory did not change. -/
def Within (m m' : ByteMem) (a n : Nat) : Prop :=
  ∀ x, x < a ∨ a + n ≤ x → m' x = m x

/-- Outside the addresses in `P` the memory did not change. -/
def Inside (m m' : ByteMem) (P : Nat → Prop) : Prop := ∀ x, ¬ P x → m' x = m x

@[simp] theorem length_read (m : ByteMem) (a n : Nat) :
    (m.read a n).length = n := by
  simp only [read, List.length_map, List.length_range]

theorem length_readAt (m : ByteMem) (a : UInt32) (n : Nat) : (m.read a.toNat n).length = n :=
  length_read m a.toNat n

theorem getElem_read {m : ByteMem} {a n i : Nat} (h : i < (m.read a n).length) :
    (m.read a n)[i] = m (a + i) := by
  simp only [read, List.getElem_map, List.getElem_range]

theorem read_add (m : ByteMem) (a n k : Nat) :
    m.read a (n + k) = m.read a n ++ m.read (a + n) k := by
  simp only [read, List.range_add, List.map_append, List.map_map]
  congr 1
  refine List.map_congr_left fun i _ => ?_
  simp only [Function.comp_apply, Nat.add_assoc]

/-- A part of a range is a range. -/
theorem slice_read {m : ByteMem} {a n i k : Nat} (h : i + k ≤ n) :
    Words.slice (m.read a n) i k = m.read (a + i) k := by
  obtain ⟨r, rfl⟩ := Nat.exists_eq_add_of_le h
  rw [Nat.add_assoc, read_add, read_add,
    Words.slice_append_right (by rw [length_read]), length_read, Nat.sub_self,
    Words.slice_append_left (by rw [length_read]; omega),
    Words.slice_all (length_read _ _ _)]

theorem read_eq_iff_agree {m m' : ByteMem} {a n : Nat} :
    m.read a n = m'.read a n ↔ Agree m m' a n := by
  constructor
  · intro h x hlo hhi
    have hlen : x - a < (m.read a n).length := by rw [length_read]; omega
    have hlen' : x - a < (m'.read a n).length := by rw [length_read]; omega
    have hx := getElem_read (m := m) hlen
    have hx' := getElem_read (m := m') hlen'
    simp only [h, show a + (x - a) = x by omega] at hx hx'
    rw [← hx, hx']
  · intro h
    exact List.map_congr_left fun i hi =>
      h (a + i) (by omega) (by have := List.mem_range.mp hi; omega)

theorem Agree.refl (m : ByteMem) (a n : Nat) : Agree m m a n :=
  fun _ _ _ => rfl

theorem Agree.mono {m m' : ByteMem} {a n b k : Nat} (h : Agree m m' a n)
    (hlo : a ≤ b) (hhi : b + k ≤ a + n) : Agree m m' b k :=
  fun x h₁ h₂ => h x (by omega) (by omega)

theorem Agree.trans {m m' m'' : ByteMem} {a n : Nat} (h : Agree m m' a n)
    (h' : Agree m' m'' a n) : Agree m m'' a n :=
  fun x h₁ h₂ => (h x h₁ h₂).trans (h' x h₁ h₂)

theorem Agree.symm {m m' : ByteMem} {a n : Nat} (h : Agree m m' a n) :
    Agree m' m a n := fun x h₁ h₂ => (h x h₁ h₂).symm

theorem Agree.read_eq {m m' : ByteMem} {a n : Nat} (h : Agree m m' a n) :
    m.read a n = m'.read a n := read_eq_iff_agree.mpr h

theorem Within.refl (m : ByteMem) (a n : Nat) : Within m m a n :=
  fun _ _ => rfl

theorem Within.trans {m m' m'' : ByteMem} {a n : Nat} (h : Within m m' a n)
    (h' : Within m' m'' a n) : Within m m'' a n :=
  fun x hx => (h' x hx).trans (h x hx)

theorem Within.mono {m m' : ByteMem} {a n b k : Nat} (h : Within m m' b k)
    (hlo : a ≤ b) (hhi : b + k ≤ a + n) : Within m m' a n :=
  fun x hx => h x (by omega)

/-- A change inside one range is invisible to a disjoint one. -/
theorem Within.agree {m m' : ByteMem} {a n b k : Nat} (h : Within m m' a n)
    (hd : b + k ≤ a ∨ a + n ≤ b) : Agree m m' b k :=
  fun x h₁ h₂ => (h x (by omega)).symm

theorem Inside.refl (m : ByteMem) (P : Nat → Prop) : Inside m m P :=
  fun _ _ => rfl

theorem Inside.trans {m m' m'' : ByteMem} {P : Nat → Prop} (h : Inside m m' P)
    (h' : Inside m' m'' P) : Inside m m'' P :=
  fun x hx => (h' x hx).trans (h x hx)

theorem Within.inside {m m' : ByteMem} {P : Nat → Prop} {a n : Nat}
    (h : Within m m' a n) (hP : ∀ x, a ≤ x → x < a + n → P x) :
    Inside m m' P := by
  intro x hx
  refine h x ?_
  by_contra hin
  exact hx (hP x (by omega) (by omega))

/-- A change inside `P` is invisible to a range without an address of `P`. -/
theorem Inside.agree {m m' : ByteMem} {P : Nat → Prop} {a n : Nat}
    (h : Inside m m' P) (hP : ∀ x, a ≤ x → x < a + n → ¬ P x) :
    Agree m m' a n := fun x h₁ h₂ => (h x (hP x h₁ h₂)).symm

theorem write_apply_of_lt {m : ByteMem} {a x : Nat} {bs : List UInt8}
    (h : x < a) : m.write a bs x = m x := by
  rw [write, if_neg (by omega)]

theorem write_apply_of_ge {m : ByteMem} {a x : Nat} {bs : List UInt8}
    (h : a + bs.length ≤ x) : m.write a bs x = m x := by
  rw [write]
  split
  · rw [List.getD_eq_default _ _ (by omega)]
  · rfl

theorem write_apply_of_mem {m : ByteMem} {a x : Nat} {bs : List UInt8}
    (h₁ : a ≤ x) (h₂ : x - a < bs.length) :
    m.write a bs x = bs[x - a] := by
  rw [write, if_pos h₁, List.getD_eq_getElem _ _ h₂]

theorem within_write (m : ByteMem) (a : Nat) (bs : List UInt8) :
    Within m (m.write a bs) a bs.length := by
  intro x hx
  rcases hx with hx | hx
  · exact write_apply_of_lt hx
  · exact write_apply_of_ge hx

theorem read_write_same (m : ByteMem) (a : Nat) (bs : List UInt8) :
    (m.write a bs).read a bs.length = bs := by
  apply List.ext_getElem (length_read _ _ _)
  intro i h₁ h₂
  rw [getElem_read, write_apply_of_mem (by omega) (by omega)]
  congr 1
  omega

/-- A memory that differs from another by one range is that other with the
range overwritten. -/
theorem Within.eq_write {m m' : ByteMem} {a n : Nat} (h : Within m m' a n) :
    m' = m.write a (m'.read a n) := by
  funext x
  by_cases hx : x < a ∨ a + n ≤ x
  · rw [h x hx]
    rcases hx with hx | hx
    · rw [write_apply_of_lt hx]
    · rw [write_apply_of_ge (by rw [length_read]; exact hx)]
  · have hlen : x - a < (m'.read a n).length := by rw [length_read]; omega
    rw [write_apply_of_mem (by omega) hlen, getElem_read]
    congr 1
    omega

theorem write_nil (m : ByteMem) (a : Nat) : m.write a [] = m := by
  funext x
  rw [write]
  split <;> rfl

theorem write_append (m : ByteMem) (a : Nat) (bs cs : List UInt8) :
    (m.write a bs).write (a + bs.length) cs = m.write a (bs ++ cs) := by
  funext x
  by_cases h₁ : x < a
  · rw [write_apply_of_lt (by omega), write_apply_of_lt h₁, write_apply_of_lt h₁]
  · by_cases h₂ : x < a + bs.length
    · rw [write_apply_of_lt h₂, write_apply_of_mem (by omega) (by omega),
        write_apply_of_mem (by omega) (by simp only [List.length_append]; omega),
        List.getElem_append_left]
    · by_cases h₃ : x < a + bs.length + cs.length
      · rw [write_apply_of_mem (by omega) (by omega),
          write_apply_of_mem (by omega) (by simp only [List.length_append]; omega),
          List.getElem_append_right (by omega)]
        congr 1
        omega
      · rw [write_apply_of_ge (by omega), write_apply_of_ge (by omega),
          write_apply_of_ge (by simp only [List.length_append]; omega)]

end ByteMem

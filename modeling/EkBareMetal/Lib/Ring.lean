import Mathlib.Tactic.Common
import Mathlib.Data.Nat.ModEq

/-!
# A queue in a circular buffer

`n` cells, the index of the first queued element and the number of queued
elements. `contents` walks from the head, wrapping at the end of the cells, and
every operation is read through it: a push appends, a pop drops the first, a
change of every cell is a change of every element. The cells outside the queue
keep whatever was last in them, and nothing below depends on it.
-/

structure RingBuffer (n : Nat) (α : Type) where
  cells : Vector α n
  head : Fin n
  count : Nat
  count_le : count ≤ n
  deriving DecidableEq

namespace RingBuffer

variable {n : Nat} {α : Type}

/-- The cell `i` places behind the head. -/
def index (r : RingBuffer n α) (i : Nat) : Fin n :=
  ⟨(r.head + i) % n, Nat.mod_lt _ r.head.pos⟩

def cell (r : RingBuffer n α) (j : Fin n) : α := r.cells[j]

def contents (r : RingBuffer n α) : List α :=
  (List.range r.count).map fun i => r.cell (r.index i)

def front (r : RingBuffer n α) : α := r.cell r.head

def empty (h : 0 < n) (x : α) : RingBuffer n α :=
  ⟨Vector.replicate n x, ⟨0, h⟩, 0, Nat.zero_le n⟩

/-- Empty again, the cells left as they are. -/
def clear (r : RingBuffer n α) : RingBuffer n α :=
  { r with head := ⟨0, r.head.pos⟩, count := 0, count_le := Nat.zero_le n }

def push (r : RingBuffer n α) (x : α) (h : r.count < n) : RingBuffer n α :=
  { r with
    cells := r.cells.set (r.index r.count) x
    count := r.count + 1
    count_le := h }

def pop (r : RingBuffer n α) : RingBuffer n α :=
  { r with
    head := r.index 1
    count := r.count - 1
    count_le := Nat.le_trans (Nat.sub_le _ _) r.count_le }

def setFront (r : RingBuffer n α) (x : α) : RingBuffer n α :=
  { r with cells := r.cells.set r.head x }

def map (f : α → α) (r : RingBuffer n α) : RingBuffer n α :=
  { r with cells := r.cells.map f }

@[simp] theorem count_push (r : RingBuffer n α) (x : α) (h : r.count < n) :
    (r.push x h).count = r.count + 1 := rfl

@[simp] theorem count_pop (r : RingBuffer n α) : r.pop.count = r.count - 1 := rfl

@[simp] theorem count_setFront (r : RingBuffer n α) (x : α) :
    (r.setFront x).count = r.count := rfl

@[simp] theorem contents_clear (r : RingBuffer n α) : r.clear.contents = [] := rfl

@[simp] theorem length_contents (r : RingBuffer n α) :
    r.contents.length = r.count := by
  rw [contents, List.length_map, List.length_range]

/-- Fewer than `n` places apart, two places have different cells. -/
theorem index_inj {r : RingBuffer n α} {i j : Nat} (hi : i < n) (hj : j < n)
    (h : r.index i = r.index j) : i = j := by
  have hm : (r.head + i) % n = (r.head + j) % n := congrArg Fin.val h
  have hc : i ≡ j [MOD n] := Nat.ModEq.add_left_cancel' r.head.val hm
  rw [Nat.ModEq, Nat.mod_eq_of_lt hi, Nat.mod_eq_of_lt hj] at hc
  exact hc

theorem index_zero (r : RingBuffer n α) : r.index 0 = r.head := by
  apply Fin.ext
  show (r.head + 0) % n = r.head.val
  rw [Nat.add_zero, Nat.mod_eq_of_lt r.head.isLt]

theorem index_pop (r : RingBuffer n α) (i : Nat) :
    r.pop.index i = r.index (i + 1) := by
  apply Fin.ext
  show ((r.head + 1) % n + i) % n = (r.head + (i + 1)) % n
  rw [Nat.mod_add_mod]
  congr 1
  omega

/-- Writing one cell leaves the others. -/
theorem set_cell {cells : Vector α n} {j k : Fin n} {x : α} (h : j ≠ k) :
    (cells.set j x)[k] = cells[k] :=
  Vector.getElem_set_ne j.isLt k.isLt fun he => h (Fin.ext he)

theorem contents_push (r : RingBuffer n α) (x : α) (h : r.count < n) :
    (r.push x h).contents = r.contents ++ [x] := by
  have hold : ∀ i ∈ List.range r.count,
      (r.push x h).cell ((r.push x h).index i) = r.cell (r.index i) := by
    intro i hi
    have hlt := List.mem_range.mp hi
    refine set_cell fun he => ?_
    have := index_inj (by omega) (by omega) he
    omega
  have hnew : (r.push x h).cell ((r.push x h).index r.count) = x :=
    Vector.getElem_set_self (r.index r.count).isLt
  rw [contents, count_push, List.range_succ, List.map_append, contents,
    List.map_congr_left hold, List.map_singleton, hnew]

theorem contents_map (f : α → α) (r : RingBuffer n α) :
    (r.map f).contents = r.contents.map f := by
  rw [contents, contents, List.map_map]
  refine List.map_congr_left fun i _ => ?_
  exact Vector.getElem_map f (r.index i).isLt

/-- A queue that is not empty is its first element and what a pop leaves. -/
theorem contents_cons (r : RingBuffer n α) (h : r.count ≠ 0) :
    r.contents = r.front :: r.pop.contents := by
  obtain ⟨k, hk⟩ := Nat.exists_eq_succ_of_ne_zero h
  rw [contents, hk, List.range_succ_eq_map, List.map_cons, List.map_map, contents,
    count_pop, hk, Nat.succ_sub_one, index_zero]
  congr 1
  refine List.map_congr_left fun i _ => ?_
  rw [index_pop]
  rfl

theorem contents_setFront (r : RingBuffer n α) (x : α) (h : r.count ≠ 0) :
    (r.setFront x).contents = x :: r.pop.contents := by
  have hfront : (r.setFront x).front = x := Vector.getElem_set_self r.head.isLt
  rw [contents_cons (r.setFront x) h, hfront, contents, contents]
  congr 1
  refine List.map_congr_left fun i hi => ?_
  have hlt := List.mem_range.mp hi
  have hle := r.count_le
  simp only [count_pop, count_setFront] at hlt
  refine set_cell fun he => ?_
  rw [← index_zero] at he
  have := index_inj (by omega) (by omega) (he.trans (index_pop r i))
  omega

end RingBuffer

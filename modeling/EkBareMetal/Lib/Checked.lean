import Mathlib.Algebra.Group.Int.Defs
import Mathlib.Tactic.Common

/-!
# Arithmetic in integer types

An integer type of C holds a range of the integers. Every operation here gives
the mathematical result where its type can hold it and no result where it cannot,
so a computation that has a result has not overflowed on the way to it. A value
of a type is a number with the proof that it is one.

A bounded counter is what such arithmetic is often about: a number that moves by
whatever it is told to, unless that would take it out of its bounds.
-/

namespace Checked

structure IntType where
  min : Int
  max : Int

namespace IntType

def signed (bits : Nat) : IntType := ⟨-2 ^ (bits - 1), 2 ^ (bits - 1) - 1⟩

def unsigned (bits : Nat) : IntType := ⟨0, 2 ^ bits - 1⟩

variable (t : IntType)

abbrev Value : Type := { x : Int // t.min ≤ x ∧ x ≤ t.max }

/-- The conversion of a number that the type can hold. -/
def fit (x : Int) : Option Int := if t.min ≤ x ∧ x ≤ t.max then some x else none

def add (a b : Int) : Option Int := t.fit (a + b)

def sub (a b : Int) : Option Int := t.fit (a - b)

def neg (a : Int) : Option Int := t.fit (-a)

variable {t} {x a b : Int}

theorem fit_eq (hlo : t.min ≤ x) (hhi : x ≤ t.max) : t.fit x = some x := if_pos ⟨hlo, hhi⟩

theorem add_eq (hlo : t.min ≤ a + b) (hhi : a + b ≤ t.max) : t.add a b = some (a + b) :=
  fit_eq hlo hhi

theorem sub_eq (hlo : t.min ≤ a - b) (hhi : a - b ≤ t.max) : t.sub a b = some (a - b) :=
  fit_eq hlo hhi

theorem neg_eq (hlo : t.min ≤ -a) (hhi : -a ≤ t.max) : t.neg a = some (-a) := fit_eq hlo hhi

end IntType

/-! ## Counters between bounds -/

section Counter

variable {lo hi c d : Int}

/-- The counter after a move, if it stays within the bounds. -/
def move (lo hi c d : Int) : Option Int := if lo ≤ c + d ∧ c + d ≤ hi then some (c + d) else none

theorem move_eq (hlo : lo ≤ c + d) (hhi : c + d ≤ hi) : move lo hi c d = some (c + d) :=
  if_pos ⟨hlo, hhi⟩

theorem move_none (h : c + d < lo ∨ hi < c + d) : move lo hi c d = none := by
  refine if_neg fun hin => ?_
  omega

/-- A move that is made ends within the bounds. -/
theorem move_within {c' : Int} (h : move lo hi c d = some c') :
    c' = c + d ∧ lo ≤ c' ∧ c' ≤ hi := by
  unfold move at h
  split at h
  · next hin =>
      obtain rfl := Option.some.inj h
      exact ⟨rfl, hin⟩
  · cases h

end Counter

end Checked

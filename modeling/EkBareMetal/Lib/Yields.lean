import Mathlib.Data.List.Induction
import Mathlib.Tactic.Common

/-!
# Computations that may raise

`Yields E x Q`: the computation `x` returned a value that satisfies `Q`, or it
raised an exception that satisfies `E`. A function that checks as it goes is read
through its checks with these rules, and a loop with an invariant of what it has
done so far; that every exception is one of those announced comes out of the same
reading.
-/

namespace Interact

variable {ε α β σ ι : Type} {E : ε → Prop} {Q : α → Prop} {R : β → Prop}

def Yields (E : ε → Prop) (x : Except ε α) (Q : α → Prop) : Prop :=
  match x with
  | .ok a => Q a
  | .error e => E e

theorem yields_pure {a : α} (h : Q a) : Yields E (pure a : Except ε α) Q := h

theorem yields_bind {x : Except ε α} {f : α → Except ε β}
    (h : Yields E x fun a => Yields E (f a) R) : Yields E (x >>= f) R := by
  cases x with
  | ok a => exact h
  | error e => exact h

theorem yields_mono {x : Except ε α} {Q' : α → Prop} (h : Yields E x Q)
    (hq : ∀ a, Q a → Q' a) : Yields E x Q' := by
  cases x with
  | ok a => exact hq a h
  | error e => exact h

theorem yields_seq {x : Except ε α} {f : α → Except ε β} (h : Yields E x Q)
    (hf : ∀ a, Q a → Yields E (f a) R) : Yields E (x >>= f) R := yields_bind (yields_mono h hf)

/-- A branch of a computation, with its condition. -/
theorem yields_ite {c : Prop} [Decidable c] {x y : Except ε α} (hx : c → Yields E x Q)
    (hy : ¬ c → Yields E y Q) : Yields E (if c then x else y) Q := by
  split
  · next h => exact hx h
  · next h => exact hy h

/-- A loop over the first `n` numbers, with an invariant of how many are done. -/
theorem yields_range {f : σ → Nat → Except ε σ} {I : Nat → σ → Prop} (n : Nat)
    (h : ∀ i s, i < n → I i s → Yields E (f s i) (I (i + 1))) {s : σ} (h0 : I 0 s) :
    Yields E ((List.range n).foldlM f s) (I n) := by
  induction n with
  | zero => exact h0
  | succ n ih =>
      rw [List.range_succ, List.foldlM_append]
      refine yields_seq (ih fun i s hi => h i s (Nat.lt_succ_of_lt hi)) fun s' hs' => ?_
      rw [List.foldlM_cons]
      exact yields_seq (h n s' (Nat.lt_succ_self n) hs') fun _ hs'' => hs''

/-- A loop over a list, with an invariant of the part that is done. -/
theorem yields_foldlM {f : σ → ι → Except ε σ} {I : List ι → σ → Prop} (xs : List ι)
    (h : ∀ done x s, I done s → Yields E (f s x) (I (done ++ [x]))) {s : σ} (h0 : I [] s) :
    Yields E (xs.foldlM f s) (I xs) := by
  induction xs using List.reverseRecOn with
  | nil => exact h0
  | append_singleton xs x ih =>
      rw [List.foldlM_append]
      refine yields_seq ih fun s' hs' => ?_
      rw [List.foldlM_cons]
      exact yields_seq (h xs x s' hs') fun _ hs'' => hs''

/-- Checks made of every element. -/
theorem yields_forM {f : ι → Except ε PUnit} (xs : List ι) {P : ι → Prop}
    (h : ∀ x ∈ xs, Yields E (f x) fun _ => P x) :
    Yields E (xs.forM f) fun _ => ∀ x ∈ xs, P x := by
  induction xs with
  | nil => exact yields_pure nofun
  | cons x xs ih =>
      obtain ⟨hx, hxs⟩ := List.forall_mem_cons.mp h
      show Yields E (f x >>= fun _ => xs.forM f) _
      exact yields_seq hx fun _ hp => yields_mono (ih hxs) fun _ hps =>
        List.forall_mem_cons.mpr ⟨hp, hps⟩

end Interact

import EkBareMetal.Lib.Transition
import Mathlib.Logic.Function.Iterate

/-!
# Runs in any order, and one schedule

A system may be free in the order of its steps and still have only one way to
end. `next` is one schedule of it, a function. When every step leaves a state
whose orbit under `next` comes together with the orbit it left, all runs from
one state that end where `next` rests end in the same state, whatever their
order was.

Not every step need be so. A state may be lost, so that the end in question
cannot be reached from it any more, and then its steps may go anywhere.
-/

namespace Transition

variable {σ Label : Type} {step : σ → Label → σ → Prop} {next : σ → σ}
  {I lost : σ → Prop} {a b c s s₁ s₂ : σ} {tr tr₁ tr₂ : List (Label × σ)}

/-- The orbits of `a` and `b` come together. -/
def Rejoins (next : σ → σ) (a b : σ) : Prop := ∃ m n, next^[m] a = next^[n] b

theorem Rejoins.refl (a : σ) : Rejoins next a a := ⟨0, 0, rfl⟩

theorem rejoins_next (a : σ) : Rejoins next a (next a) := ⟨1, 0, rfl⟩

theorem Rejoins.symm (h : Rejoins next a b) : Rejoins next b a := by
  obtain ⟨m, n, hab⟩ := h
  exact ⟨n, m, hab.symm⟩

theorem Rejoins.trans (h : Rejoins next a b) (h' : Rejoins next b c) : Rejoins next a c := by
  obtain ⟨m, n, hab⟩ := h
  obtain ⟨m', n', hbc⟩ := h'
  refine ⟨m' + m, n + n', ?_⟩
  calc next^[m' + m] a = next^[m'] (next^[n] b) := by
        rw [Function.iterate_add_apply, hab]
    _ = next^[n] (next^[m'] b) := by
        rw [← Function.iterate_add_apply, ← Function.iterate_add_apply, Nat.add_comm]
    _ = next^[n + n'] c := by rw [hbc, Function.iterate_add_apply]

/-- A chain of turns of the schedule. -/
theorem rejoins_chain {f : ℕ → σ} {k : ℕ} (h : ∀ j < k, next (f j) = f (j + 1)) :
    Rejoins next (f 0) (f k) := by
  induction k with
  | zero => exact .refl _
  | succ k ih =>
      refine (ih fun j hj => h j (Nat.lt_succ_of_lt hj)).trans ?_
      rw [← h k (Nat.lt_succ_self k)]
      exact rejoins_next _

/-- An orbit that meets a state where the schedule rests gets there. -/
theorem Rejoins.reaches (h : Rejoins next a b) (hb : next b = b) : ∃ n, next^[n] a = b := by
  obtain ⟨m, n, hab⟩ := h
  rw [Function.iterate_fixed hb] at hab
  exact ⟨m, hab⟩

theorem Rejoins.rests (h : Rejoins next a b) (ha : next a = a) (hb : next b = b) : a = b := by
  obtain ⟨n, hn⟩ := h.reaches hb
  rw [Function.iterate_fixed ha] at hn
  exact hn

/-- What the steps of a system have to do with the schedule `next`, on the
states in `I`. -/
structure Scheduled (step : σ → Label → σ → Prop) (next : σ → σ) (I lost : σ → Prop) :
    Prop where
  keeps : ∀ {s l s'}, I s → step s l s' → I s'
  follows : ∀ {s l s'}, I s → step s l s' → lost s ∨ Rejoins next s s'
  stays : ∀ {s l s'}, lost s → step s l s' → lost s'
  next : ∀ {s}, lost s → lost (next s)

namespace Scheduled

theorem iterate (h : Scheduled step next I lost) (hs : lost s) (n : ℕ) :
    lost (next^[n] s) := by
  induction n with
  | zero => exact hs
  | succ n ih =>
      rw [Function.iterate_succ_apply']
      exact h.next ih

/-- A run stays with the schedule, or it is lost and so is the schedule. -/
theorem run (h : Scheduled step next I lost) (hr : Run step s tr s₁) (hI : I s) :
    Rejoins next s s₁ ∨ lost s₁ ∧ ∃ n, lost (next^[n] s) := by
  induction hr with
  | nil s => exact .inl (.refl s)
  | cons hs hr ih =>
      rcases h.follows hI hs with hl | hm
      · exact .inr ⟨hr.invariant h.stays (h.stays hl hs), 0, hl⟩
      rcases ih (h.keeps hI hs) with hm' | ⟨hl, n, hn⟩
      · exact .inl (hm.trans hm')
      · obtain ⟨j, k, hjk⟩ := hm
        refine .inr ⟨hl, n + j, ?_⟩
        rw [Function.iterate_add_apply, hjk, ← Function.iterate_add_apply, Nat.add_comm,
          Function.iterate_add_apply]
        exact h.iterate hn k

/-- Where the schedule rests is an end that is not lost, and the schedule gets there from
wherever a run has led. -/
theorem returns (h : Scheduled step next I lost) (hI : I s) (h₁ : Run step s tr₁ s₁)
    (h₂ : Run step s tr₂ s₂) (r₁ : next s₁ = s₁) (hn : ¬ lost s₁) :
    ∃ n, next^[n] s₂ = s₁ := by
  have hm₁ : Rejoins next s s₁ := (h.run h₁ hI).resolve_right fun hl => hn hl.1
  rcases h.run h₂ hI with hm₂ | ⟨-, n, hl⟩
  · exact (hm₂.symm.trans hm₁).reaches r₁
  · obtain ⟨m, hm⟩ := hm₁.reaches r₁
    have hlost := h.iterate hl m
    rw [← Function.iterate_add_apply, Nat.add_comm, Function.iterate_add_apply, hm,
      Function.iterate_fixed r₁] at hlost
    exact absurd hlost hn

/-- There is one such end. -/
theorem unique (h : Scheduled step next I lost) (hI : I s) (h₁ : Run step s tr₁ s₁)
    (h₂ : Run step s tr₂ s₂) (r₁ : next s₁ = s₁) (r₂ : next s₂ = s₂) (hn : ¬ lost s₁) :
    s₂ = s₁ := by
  obtain ⟨n, hreach⟩ := h.returns hI h₁ h₂ r₁ hn
  rwa [Function.iterate_fixed r₂] at hreach

end Scheduled

end Transition

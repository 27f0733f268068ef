import Mathlib.Tactic.Common

/-!
# Runs of a labelled transition relation

`Run step s tr s'` is a finite run from `s` to `s'`. Its trace records every
step as the label and the state it led to, so "at every moment of the run" is
a statement about the members of a list. The rules are the ones a safety
argument uses: an invariant needs only a step lemma, a relation between the
two ends needs only to compose, and any step of a run may be taken as the end
of one run and the beginning of another.
-/

namespace Transition

variable {σ Label : Type}

inductive Run (step : σ → Label → σ → Prop) : σ → List (Label × σ) → σ → Prop where
  | nil (s : σ) : Run step s [] s
  | cons {s s' s'' : σ} {l : Label} {tr : List (Label × σ)} (h : step s l s')
      (hr : Run step s' tr s'') : Run step s ((l, s') :: tr) s''

variable {step : σ → Label → σ → Prop} {s s' s'' : σ} {l : Label}
  {tr tr₁ tr₂ : List (Label × σ)}

theorem run_nil_iff : Run step s [] s' ↔ s' = s := by
  constructor
  · intro h; cases h; rfl
  · rintro rfl; exact .nil _

theorem run_cons_iff {x : Label × σ} :
    Run step s (x :: tr) s' ↔ step s x.1 x.2 ∧ Run step x.2 tr s' := by
  constructor
  · intro h; cases h with | cons h hr => exact ⟨h, hr⟩
  · rintro ⟨h, hr⟩; exact .cons h hr

theorem run_append_iff :
    Run step s (tr₁ ++ tr₂) s'' ↔
      ∃ s', Run step s tr₁ s' ∧ Run step s' tr₂ s'' := by
  induction tr₁ generalizing s with
  | nil => simp only [List.nil_append, run_nil_iff, exists_eq_left]
  | cons x tr₁ ih =>
      simp only [List.cons_append, run_cons_iff, ih]
      tauto

theorem Run.append (h₁ : Run step s tr₁ s') (h₂ : Run step s' tr₂ s'') :
    Run step s (tr₁ ++ tr₂) s'' := run_append_iff.mpr ⟨s', h₁, h₂⟩

theorem Run.snoc (h : Run step s tr s') (hs : step s' l s'') :
    Run step s (tr ++ [(l, s'')]) s'' := h.append (.cons hs (.nil _))

/-- What every step preserves, every run preserves. -/
theorem Run.invariant {I : σ → Prop}
    (hstep : ∀ {s l s'}, I s → step s l s' → I s') (h : Run step s tr s')
    (hI : I s) : I s' := by
  induction h with
  | nil => exact hI
  | cons hs _ ih => exact ih (hstep hI hs)

/-- The same for what is said of a state and of the run that led to it. -/
theorem Run.history {I : List (Label × σ) → σ → Prop}
    (hstep : ∀ {tr a l b}, Run step s tr a → I tr a → step a l b →
      I (tr ++ [(l, b)]) b)
    (h : Run step s tr s') (hI : I [] s) : I tr s' := by
  have hfrom : ∀ {a tr' b}, Run step a tr' b → ∀ tr₀, Run step s tr₀ a → I tr₀ a →
      I (tr₀ ++ tr') b := by
    intro a tr' b hr
    induction hr with
    | nil => intro tr₀ _ hi; rwa [List.append_nil]
    | cons hs _ ih =>
        intro tr₀ h₀ hi
        have hnext := ih _ (h₀.snoc hs) (hstep h₀ hi hs)
        rwa [List.append_assoc] at hnext
  exact hfrom h [] (.nil s) hI

/-- A reflexive and transitive relation that every step from an invariant
state respects relates the two ends of every run. -/
theorem Run.relates {I : σ → Prop} {R : σ → σ → Prop}
    (hrefl : ∀ s, R s s) (htrans : ∀ {a b c}, R a b → R b c → R a c)
    (hstep : ∀ {s l s'}, I s → step s l s' → I s' ∧ R s s')
    (h : Run step s tr s') (hI : I s) : R s s' := by
  induction h with
  | nil => exact hrefl _
  | cons hs _ ih => exact htrans (hstep hI hs).2 (ih (hstep hI hs).1)

/-- Every recorded step splits its run in two. -/
theorem Run.split {x : Label × σ} (h : Run step s tr s') (hx : x ∈ tr) :
    ∃ tr₁ tr₂ a, tr = tr₁ ++ x :: tr₂ ∧ Run step s tr₁ a ∧
      step a x.1 x.2 ∧ Run step x.2 tr₂ s' := by
  obtain ⟨tr₁, tr₂, rfl⟩ := List.append_of_mem hx
  obtain ⟨a, h₁, h₂⟩ := run_append_iff.mp h
  exact ⟨tr₁, tr₂, a, rfl, h₁, run_cons_iff.mp h₂⟩

/-- A run of one relation is a run of any larger one. -/
theorem Run.mono {step' : σ → Label → σ → Prop}
    (hsub : ∀ {s l s'}, step s l s' → step' s l s') (h : Run step s tr s') :
    Run step' s tr s' := by
  induction h with
  | nil => exact .nil _
  | cons hs _ ih => exact .cons (hsub hs) ih

/-- A map that respects the steps maps runs. -/
theorem Run.map {τ : Type} {step' : τ → Label → τ → Prop} {f : σ → τ}
    (hf : ∀ {s l s'}, step s l s' → step' (f s) l (f s')) (h : Run step s tr s') :
    Run step' (f s) (tr.map fun x => (x.1, f x.2)) (f s') := by
  induction h with
  | nil s => exact .nil (f s)
  | cons hs _ ih => exact .cons (hf hs) ih

/-! ## What some run leads to -/

/-- Some run leads from `s` to `s'`. -/
def Reaches (step : σ → Label → σ → Prop) (s s' : σ) : Prop := ∃ tr, Run step s tr s'

theorem Reaches.refl (s : σ) : Reaches step s s := ⟨[], .nil s⟩

theorem Reaches.trans (h₁ : Reaches step s s') (h₂ : Reaches step s' s'') :
    Reaches step s s'' := by
  obtain ⟨tr₁, h₁⟩ := h₁
  obtain ⟨tr₂, h₂⟩ := h₂
  exact ⟨tr₁ ++ tr₂, h₁.append h₂⟩

theorem Reaches.single (h : step s l s') : Reaches step s s' := ⟨[(l, s')], .cons h (.nil s')⟩

/-- A loop whose rounds can be made can be run to any of them. -/
theorem Reaches.loop {P : Nat → σ → Prop} {N : Nat}
    (hround : ∀ n < N, ∀ s, P n s → ∃ s', Reaches step s s' ∧ P (n + 1) s')
    (h : P 0 s) : ∀ n ≤ N, ∃ s', Reaches step s s' ∧ P n s' := by
  intro n
  induction n with
  | zero => exact fun _ => ⟨s, .refl s, h⟩
  | succ n ih =>
      intro hn
      obtain ⟨s₁, h₁, hp⟩ := ih (by omega)
      obtain ⟨s₂, h₂, hp'⟩ := hround n (by omega) s₁ hp
      exact ⟨s₂, h₁.trans h₂, hp'⟩

end Transition

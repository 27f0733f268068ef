import EkBareMetal.Lib.Transition

/-!
# Implementations of a specification that answers calls

A specification is a function: a call and a state give an answer and the next
state. An implementation is a transition relation together with `see`, which
says of each of its steps whether it is a call at all, and which call with
which answer an observer takes it for. A simulation relates the states, and
then the answers seen in a run are those that the specification gives to the
calls seen in it.
-/

namespace Transition

variable {σ τ Label C A : Type}

/-- The answers to calls made one after the other. -/
def answers (spec : C → τ → A × τ) : τ → List C → List A
  | _, [] => []
  | t, c :: cs => (spec c t).1 :: answers spec (spec c t).2 cs

def after (spec : C → τ → A × τ) : τ → List C → τ
  | t, [] => t
  | t, c :: cs => after spec (spec c t).2 cs

/-- The calls and answers seen in a run. -/
def observed (see : σ → Label → σ → Option (C × A)) : σ → List (Label × σ) → List (C × A)
  | _, [] => []
  | s, (l, s') :: tr => (see s l s').toList ++ observed see s' tr

/-- Steps from related states lead to related states, and the answer seen is the one
specified. -/
structure Simulates (step : σ → Label → σ → Prop) (see : σ → Label → σ → Option (C × A))
    (spec : C → τ → A × τ) (R : σ → τ → Prop) : Prop where
  call {s s' : σ} {t : τ} {l : Label} {c : C} {a : A} :
    R s t → step s l s' → see s l s' = some (c, a) → (spec c t).1 = a ∧ R s' (spec c t).2
  silent {s s' : σ} {t : τ} {l : Label} :
    R s t → step s l s' → see s l s' = none → R s' t

variable {step : σ → Label → σ → Prop} {see : σ → Label → σ → Option (C × A)}
  {spec : C → τ → A × τ} {R : σ → τ → Prop} {s s' : σ} {t : τ} {tr : List (Label × σ)}

theorem Run.simulates (h : Run step s tr s') (hsim : Simulates step see spec R) (hR : R s t) :
    answers spec t ((observed see s tr).map Prod.fst) = (observed see s tr).map Prod.snd ∧
      R s' (after spec t ((observed see s tr).map Prod.fst)) := by
  induction h generalizing t with
  | nil => exact ⟨rfl, hR⟩
  | @cons s s₁ s' l tr hs _ ih =>
      unfold observed
      cases hsee : see s l s₁ with
      | none => exact ih (hsim.silent hR hs hsee)
      | some x =>
          obtain ⟨hanswer, hR'⟩ := hsim.call hR hs hsee
          obtain ⟨hrest, hlast⟩ := ih hR'
          exact ⟨by simp only [Option.toList_some, List.singleton_append, List.map_cons, answers,
            hanswer, hrest], hlast⟩

end Transition

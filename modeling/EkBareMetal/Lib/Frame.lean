import EkBareMetal.Lib.Reentry

/-!
# What a program leaves of its object

`Frames R p`: run with the object in its hands, `p` takes it to one that is
related to it by `R`, whatever it is answered. For a relation that is reflexive
and transitive there is one rule for each way of making a program, so the frame
of a function is read off its text.
-/

namespace Interact

variable {S : Sig} {σ α β : Type} {R : σ → σ → Prop}

/-- What a relation must be for a frame rule. -/
structure Preserving (R : σ → σ → Prop) : Prop where
  refl (s : σ) : R s s
  trans {s s₁ s' : σ} : R s s₁ → R s₁ s' → R s s'

def Frames (R : σ → σ → Prop) (p : Prog (ObjSig σ S) α) : Prop :=
  ∀ s tr a s', Runs (p.held s) tr (a, s') → R s s'

theorem preserving_eq : Preserving (Eq : σ → σ → Prop) := ⟨fun _ => rfl, Eq.trans⟩

variable {p q : Prog (ObjSig σ S) α}

theorem frames_pure (hR : Preserving R) (a : α) :
    Frames R (pure a : Prog (ObjSig σ S) α) := by
  intro s tr b s' h
  obtain ⟨-, he⟩ := runs_pure_iff.mp h
  cases he
  exact hR.refl s

theorem frames_load {f : σ → Prog (ObjSig σ S) β} (h : ∀ s, Frames R (f s)) :
    Frames R (Prog.loadObj >>= f) := fun s tr a s' hr => h s s tr a s' hr

theorem frames_modify (hR : Preserving R) {g : σ → σ} (hg : ∀ s, R s (g s))
    {f : Unit → Prog (ObjSig σ S) β} (h : Frames R (f ())) :
    Frames R (Prog.modifyObj g >>= f) :=
  fun s tr a s' hr => hR.trans (hg s) (h (g s) tr a s' hr)

theorem frames_ask {op : S.Op} {f : S.Ans op → Prog (ObjSig σ S) β}
    (h : ∀ r, Frames R (f r)) :
    Frames R (Prog.ask (S := ObjSig σ S) (.outside op) >>= f) := by
  intro s tr a s' hr
  rw [held_ask] at hr
  obtain ⟨r, rest, rfl, hk⟩ := runs_ask_iff.mp hr
  exact h r s rest a s' hk

theorem frames_bind (hR : Preserving R) {f : α → Prog (ObjSig σ S) β} (hp : Frames R p)
    (hf : ∀ a, Frames R (f a)) : Frames R (p >>= f) := by
  intro s tr b s' hr
  rw [held_bind] at hr
  obtain ⟨tr₁, ⟨a, s₁⟩, tr₂, rfl, h₁, h₂⟩ := runs_bind_iff'.mp hr
  exact hR.trans (hp s tr₁ a s₁ h₁) (hf a s₁ tr₂ b s' h₂)

theorem frames_ite {c : Prop} [Decidable c] (hp : Frames R p) (hq : Frames R q) :
    Frames R (if c then p else q) := by
  split
  · exact hp
  · exact hq

theorem frames_every (hR : Preserving R) {ps : List (Prog (ObjSig σ S) Bool)}
    (h : ∀ p ∈ ps, Frames R p) : Frames R (Prog.every ps) := by
  induction ps with
  | nil => exact frames_pure hR true
  | cons p ps ih =>
      obtain ⟨hp, hps⟩ := List.forall_mem_cons.mp h
      exact frames_bind hR hp fun ok => frames_ite (ih hps) (frames_pure hR false)

end Interact

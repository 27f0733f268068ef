import Mathlib.Tactic.Common

/-!
# Programs that leave an object behind

A method returns or raises, and either way it leaves its object as it is then:
what was changed before an exception stays changed. `Leads p s Q G` reads such a
method. From `s` it either returns a value and leaves what `Q` says, or it
raises and leaves what `G` says; a method does one of the two, so `Leads` is
about every call.

What a method holds in its local variables is no part of the object. A method
may make a note of it, which stays beside the object as it is at that moment, and
nothing that a method computes depends on the notes.
-/

namespace Leaving

variable {ε σ μ α β : Type}

/-- An object, and what was held with it, the last note first. -/
structure Noted (σ μ : Type) where
  now : σ
  notes : List (μ × σ)

abbrev Method (ε σ μ : Type) : Type → Type := ExceptT ε (StateM (Noted σ μ))

namespace Method

def call (p : Method ε σ μ α) (s : Noted σ μ) : Except ε α × Noted σ μ := (p.run.run s).run

def object : Method ε σ μ σ := do return (← get).now

def change (f : σ → σ) : Method ε σ μ Unit := modify fun s => { s with now := f s.now }

def note (m : μ) : Method ε σ μ Unit := modify fun s => { s with notes := (m, s.now) :: s.notes }

end Method

def Leads (p : Method ε σ μ α) (s : Noted σ μ) (Q : α → Noted σ μ → Prop)
    (G : ε → Noted σ μ → Prop) : Prop :=
  match p.call s with
  | (.ok a, s') => Q a s'
  | (.error e, s') => G e s'

section Calls

variable {p : Method ε σ μ α} {s : Noted σ μ}

theorem call_bind {f : α → Method ε σ μ β} :
    (p >>= f).call s = match p.call s with
      | (.ok a, s') => (f a).call s'
      | (.error e, s') => (.error e, s') := by
  show (ExceptT.bindCont f (p.call s).1).run (p.call s).2 = _
  rcases p.call s with ⟨e | a, s'⟩ <;> rfl

theorem call_tryCatch {handler : ε → Method ε σ μ α} :
    (tryCatch p handler).call s = match p.call s with
      | (.ok a, s') => (.ok a, s')
      | (.error e, s') => (handler e).call s' := by
  have hrun : (tryCatch p handler).call s =
      ((match (p.call s).1 with
        | .ok a => pure (.ok a)
        | .error e => (handler e).run : StateM (Noted σ μ) (Except ε α)).run (p.call s).2).run := rfl
  rw [hrun]
  rcases p.call s with ⟨e | a, s'⟩ <;> rfl

theorem call_finally {g : σ → σ} :
    (tryFinally p (Method.change g)).call s =
      ((p.call s).1, { (p.call s).2 with now := g (p.call s).2.now }) := by
  generalize hout : p.call s = out
  have hp : p s = out := hout
  show (tryFinally p (Method.change g) : Method ε σ μ α) s = _
  simp only [tryFinally, tryFinally', Functor.map, ExceptT.map, ExceptT.mk, bind, StateT.bind, hp]
  rcases out with ⟨e | a, s'⟩ <;> rfl

end Calls

section Rules

variable {p : Method ε σ μ α} {s : Noted σ μ} {Q Q' : α → Noted σ μ → Prop}
  {R : β → Noted σ μ → Prop} {G G' : ε → Noted σ μ → Prop}

theorem leads_pure {a : α} (h : Q a s) : Leads (pure a : Method ε σ μ α) s Q G := h

theorem leads_throw {e : ε} (h : G e s) : Leads (throw e : Method ε σ μ α) s Q G := h

theorem leads_bind {f : α → Method ε σ μ β}
    (h : Leads p s (fun a s' => Leads (f a) s' R G) G) : Leads (p >>= f) s R G := by
  unfold Leads at h
  rw [Leads, call_bind]
  generalize p.call s = out at h ⊢
  rcases out with ⟨e | a, s'⟩
  · exact h
  · exact h

theorem leads_object {f : σ → Method ε σ μ β} (h : Leads (f s.now) s R G) :
    Leads (Method.object >>= f) s R G := h

theorem leads_change {g : σ → σ} {f : Unit → Method ε σ μ β}
    (h : Leads (f ()) { s with now := g s.now } R G) : Leads (Method.change g >>= f) s R G := h

theorem leads_note {m : μ} {f : Unit → Method ε σ μ β}
    (h : Leads (f ()) { s with notes := (m, s.now) :: s.notes } R G) :
    Leads (Method.note m >>= f) s R G := h

theorem leads_mono (h : Leads p s Q G) (hQ : ∀ a s', Q a s' → Q' a s')
    (hG : ∀ e s', G e s' → G' e s') : Leads p s Q' G' := by
  unfold Leads at h ⊢
  generalize p.call s = out at h ⊢
  rcases out with ⟨e | a, s'⟩
  · exact hG e s' h
  · exact hQ a s' h

/-- The handler takes over where the method has raised. -/
theorem leads_tryCatch {handler : ε → Method ε σ μ α}
    (h : Leads p s Q fun e s' => Leads (handler e) s' Q G) :
    Leads (tryCatch p handler) s Q G := by
  unfold Leads at h
  rw [Leads, call_tryCatch]
  generalize p.call s = out at h ⊢
  rcases out with ⟨e | a, s'⟩
  · exact h
  · exact h

/-- What is changed at the end is changed however the method ends. -/
theorem leads_finally {g : σ → σ}
    (h : Leads p s (fun a s' => Q a { s' with now := g s'.now })
      fun e s' => G e { s' with now := g s'.now }) :
    Leads (tryFinally p (Method.change g)) s Q G := by
  unfold Leads at h
  rw [Leads, call_finally]
  generalize p.call s = out at h ⊢
  rcases out with ⟨e | a, s'⟩
  · exact h
  · exact h

/-- A method that leads somewhere has returned or raised there. -/
theorem Leads.cases (h : Leads p s Q G) :
    (∃ a s', p.call s = (.ok a, s') ∧ Q a s') ∨ ∃ e s', p.call s = (.error e, s') ∧ G e s' := by
  unfold Leads at h
  generalize p.call s = out at h ⊢
  rcases out with ⟨e | a, s'⟩
  · exact .inr ⟨e, s', rfl, h⟩
  · exact .inl ⟨a, s', rfl, h⟩

end Rules

end Leaving

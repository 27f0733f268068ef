import EkBareMetal.Lib.Interact
import Mathlib.Data.List.Induction

/-!
# Programs that raise, and what every request has behind it

A program in a language with exceptions is a program that returns either its
value or the exception. `Ensures` reads such a program over its history, the
requests of the whole session so far: from the history `h`, the program either
returns `a` and leaves a history that satisfies `Q a`, or it raises and leaves
one that satisfies `G`. So the caller of a function that may raise anywhere has
one thing to show about all the places where it does.

What is said of a session is mostly of the form "whenever this is requested,
that has happened before". `Each P` is the shape of these statements: `P` holds
of every request and the history in front of it.
-/

namespace Interact

variable {S : Sig} {ε α β σ : Type}

abbrev Raising (S : Sig) (ε : Type) : Type → Type := ExceptT ε (Prog S)

namespace Raising

def ofProg (p : Prog S (Except ε α)) : Raising S ε α := ExceptT.mk p

def ofExcept (x : Except ε α) : Raising S ε α := ofProg (pure x)

/-- At most `n` turns of a loop, each of which goes on or returns. -/
def turns (body : σ → Raising S ε (σ ⊕ β)) : Nat → σ → Raising S ε (σ ⊕ β)
  | 0, s => pure (.inl s)
  | n + 1, s => do
      match ← body s with
      | .inl s => turns body n s
      | .inr b => pure (.inr b)

end Raising

/-- One history is good, or a value came with one. -/
def Ends (G : List (Event S) → Prop) (Q : α → List (Event S) → Prop)
    (h : List (Event S)) : Except ε α → Prop
  | .error _ => G h
  | .ok a => Q a h

def Ensures (G : List (Event S) → Prop) (p : Raising S ε α)
    (Q : α → List (Event S) → Prop) (h : List (Event S)) : Prop :=
  ∀ tr r, Runs p.run tr r → Ends G Q (h ++ tr) r

section Rules

variable {G : List (Event S) → Prop} {Q : α → List (Event S) → Prop}
  {R : β → List (Event S) → Prop} {h : List (Event S)}

theorem ensures_pure {a : α} (hq : Q a h) : Ensures G (pure a : Raising S ε α) Q h := by
  intro tr r hr
  obtain ⟨rfl, rfl⟩ := runs_pure_iff.mp hr
  rw [List.append_nil]
  exact hq

theorem ensures_ofExcept {x : Except ε α} (hx : Ends G Q h x) :
    Ensures G (Raising.ofExcept x : Raising S ε α) Q h := by
  intro tr r hr
  obtain ⟨rfl, rfl⟩ := runs_pure_iff.mp hr
  rw [List.append_nil]
  exact hx

theorem ensures_bind {p : Raising S ε α} {f : α → Raising S ε β}
    (hp : Ensures G p (fun a h' => Ensures G (f a) R h') h) : Ensures G (p >>= f) R h := by
  intro tr r hr
  obtain ⟨tr₁, x, tr₂, rfl, h₁, h₂⟩ := runs_bind_iff.mp hr
  have hx := hp tr₁ x h₁
  rw [← List.append_assoc]
  cases x with
  | error e =>
      obtain ⟨rfl, rfl⟩ := runs_pure_iff.mp h₂
      rw [List.append_nil]
      exact hx
  | ok a => exact hx tr₂ r h₂

theorem ensures_mono {p : Raising S ε α} {Q' : α → List (Event S) → Prop}
    (hp : Ensures G p Q h) (hq : ∀ a h', Q a h' → Q' a h') : Ensures G p Q' h := by
  intro tr r hr
  have hx := hp tr r hr
  cases r with
  | error e => exact hx
  | ok a => exact hq a _ hx

/-- What every turn keeps holds after any number of turns. -/
theorem ensures_turns {body : σ → Raising S ε (σ ⊕ β)} {I : σ → List (Event S) → Prop}
    (hbody : ∀ s h, I s h → Ensures G (body s) (fun x h' => x.elim (I · h') (R · h')) h)
    (n : Nat) {s : σ} (hI : I s h) :
    Ensures G (Raising.turns body n s) (fun x h' => x.elim (I · h') (R · h')) h := by
  induction n generalizing s h with
  | zero => exact ensures_pure hI
  | succ n ih =>
      refine ensures_bind (ensures_mono (hbody s h hI) ?_)
      intro x h' hx
      cases x with
      | inl s' => exact ih hx
      | inr b => exact ensures_pure hx

end Rules

/-! ## Requests with their past -/

/-- `P` holds of every request and of the history in front of it. -/
def Each (P : List (Event S) → Event S → Prop) (h : List (Event S)) : Prop :=
  ∀ front e back, h = front ++ e :: back → P front e

section Each

variable {P : List (Event S) → Event S → Prop} {h tr : List (Event S)}

theorem each_nil : Each P [] := by
  intro front e back he
  simp at he

theorem each_append (hh : Each P h)
    (htr : ∀ front e back, tr = front ++ e :: back → P (h ++ front) e) : Each P (h ++ tr) := by
  intro front e back he
  rcases List.append_eq_append_iff.mp he with ⟨mid, rfl, hmid⟩ | ⟨mid, rfl, hmid⟩
  · exact htr mid e back hmid
  · cases mid with
    | nil =>
        have hp := htr [] e back hmid.symm
        rwa [List.append_nil, List.append_nil] at hp
    | cons d mid =>
        injection hmid with hd _
        subst hd
        exact hh front _ mid rfl

/-- Requests of which `P` asks nothing may follow. -/
theorem each_quiet (hh : Each P h) (htr : ∀ e ∈ tr, ∀ past, P past e) : Each P (h ++ tr) :=
  each_append hh fun _ e _ he => htr e (he ▸ List.mem_append_right _ List.mem_cons_self) _

theorem each_concat {e : Event S} (hh : Each P h) (he : P h e) : Each P (h ++ [e]) := by
  refine each_append hh ?_
  intro front e' back hf
  cases front with
  | nil =>
      injection hf with hf _
      subst hf
      rwa [List.append_nil]
  | cons d front => simp at hf

/-- Where a request finds none of its kind behind it, there is at most one. -/
theorem countP_le_one {q : Event S → Bool}
    (hh : Each (fun past e => q e = true → ∀ e' ∈ past, q e' = false) h) :
    h.countP q ≤ 1 := by
  induction h using List.reverseRecOn with
  | nil => exact Nat.zero_le 1
  | append_singleton h e ih =>
      rw [List.countP_append, List.countP_singleton]
      split
      · next hq =>
          have hnone := hh h e [] rfl hq
          have hzero : h.countP q = 0 := by
            rw [List.countP_eq_zero]
            intro e' he'
            rw [hnone e' he']
            decide
          omega
      · refine Nat.le_trans (ih fun front e' back he => ?_) (Nat.le_refl 1)
        exact hh front e' (back ++ [e]) (by rw [he, List.append_assoc]; rfl)

end Each

end Interact

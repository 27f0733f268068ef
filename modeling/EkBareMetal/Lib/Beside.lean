import EkBareMetal.Lib.Reentry

/-!
# A device beside an object

A driver works on its own statics and on a device. Nothing but the program
touches the object, so together they are one machine, and the rules of `wp` for
the accesses of the object only move it along.
-/

namespace Interact

variable {S : Sig} {ρ σ α β : Type}

def Handler.beside (H : Handler S σ) (ρ : Type) : Handler (ObjSig ρ S) (ρ × σ) where
  step
    | .load, x, r, y => r = x.1 ∧ y = x
    | .store v, x, _, y => y = (v, x.2)
    | .outside op, x, r, y => y.1 = x.1 ∧ H.step op x.2 r y.2
  cut
    | .load, _, _ => False
    | .store _, _, _ => False
    | .outside op, x, y => y.1 = x.1 ∧ H.cut op x.2 y.2

/-- The machine with one answer to each request. -/
def besideRun (h : (op : S.Op) → σ → S.Ans op × σ) :
    (op : (ObjSig ρ S).Op) → ρ × σ → (ObjSig ρ S).Ans op × (ρ × σ)
  | .load, x => (x.1, x)
  | .store v, x => ((), (v, x.2))
  | .outside op, x => ((h op x.2).1, (x.1, (h op x.2).2))

theorem besideRun_steps {H : Handler S σ} {h : (op : S.Op) → σ → S.Ans op × σ}
    (hh : ∀ op m, H.step op m (h op m).1 (h op m).2) (op : (ObjSig ρ S).Op) (x : ρ × σ) :
    (H.beside ρ).step op x (besideRun h op x).1 (besideRun h op x).2 := by
  cases op with
  | load => exact ⟨rfl, rfl⟩
  | store v => rfl
  | outside op => exact ⟨rfl, hh op x.2⟩

section Rules

variable {H : Handler S σ} {K : ρ × σ → Prop} {Q : β → ρ × σ → Prop} {o : ρ} {m : σ}

theorem wp_load {f : ρ → Prog (ObjSig ρ S) β} (h : wp (H.beside ρ) K (f o) Q (o, m)) :
    wp (H.beside ρ) K (Prog.loadObj >>= f) Q (o, m) := by
  refine ⟨nofun, fun r y hy => ?_⟩
  obtain ⟨rfl, rfl⟩ := hy
  exact h

theorem wp_store {v : ρ} {f : Unit → Prog (ObjSig ρ S) β}
    (h : wp (H.beside ρ) K (f ()) Q (v, m)) :
    wp (H.beside ρ) K (Prog.storeObj v >>= f) Q (o, m) := by
  refine ⟨nofun, fun r y hy => ?_⟩
  obtain rfl : y = (v, m) := hy
  exact h

theorem wp_modify {g : ρ → ρ} {f : Unit → Prog (ObjSig ρ S) β}
    (h : wp (H.beside ρ) K (f ()) Q (g o, m)) :
    wp (H.beside ρ) K (Prog.modifyObj g >>= f) Q (o, m) := wp_load (wp_store h)

/-- A request of a device that is never cut. -/
theorem wp_outside {op : S.Op} {f : S.Ans op → Prog (ObjSig ρ S) β}
    (hcut : ∀ m', ¬ H.cut op m m')
    (h : ∀ r m', H.step op m r m' → wp (H.beside ρ) K (f r) Q (o, m')) :
    wp (H.beside ρ) K (Prog.ask (S := ObjSig ρ S) (.outside op) >>= f) Q (o, m) := by
  refine ⟨fun y hy => absurd hy.2 (hcut y.2), fun r y hy => ?_⟩
  obtain ⟨o', m'⟩ := y
  obtain ⟨rfl, hs⟩ : o' = o ∧ H.step op m r m' := hy
  exact h r m' hs

end Rules

end Interact

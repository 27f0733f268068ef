import EkBareMetal.Lib.Interact

/-!
# Two programs that ask the same

`Alike Q p q` relates two programs over one signature: whatever is answered,
both make the same requests in the same order, and their results are related by
`Q`. A statement about two runs of one function from states that differ where
it must not matter is of this form. The rules follow the program: a bind, a
request and a branch each relate their parts.
-/

namespace Interact

variable {S : Sig} {α α' β β' σ : Type}

inductive Alike (Q : α → α' → Prop) : Prog S α → Prog S α' → Prop where
  | ret {a : α} {b : α'} (h : Q a b) : Alike Q (.ret a) (.ret b)
  | call {op : S.Op} {k : S.Ans op → Prog S α} {k' : S.Ans op → Prog S α'}
      (h : ∀ r, Alike Q (k r) (k' r)) : Alike Q (.call op k) (.call op k')

variable {Q : α → α' → Prop} {Q' : β → β' → Prop} {p p' : Prog S α} {q q' : Prog S α'}

theorem alike_pure {a : α} {b : α'} (h : Q a b) :
    Alike Q (pure a : Prog S α) (pure b) := .ret h

theorem alike_refl (p : Prog S α) : Alike Eq p p := by
  induction p with
  | ret a => exact .ret rfl
  | call op k ih => exact .call ih

/-- What follows the two need only be alike behind the results that they have. -/
theorem alike_bind_runs {f : α → Prog S β} {g : α' → Prog S β'} (h : Alike Q p q)
    (hk : ∀ tr a b, Runs p tr a → Q a b → Alike Q' (f a) (g b)) :
    Alike Q' (p >>= f) (q >>= g) := by
  induction h with
  | ret h => exact hk [] _ _ (.ret _) h
  | call _ ih => exact .call fun r => ih r fun tr a b hr => hk _ a b (.call r hr)

theorem alike_bind {f : α → Prog S β} {g : α' → Prog S β'} (h : Alike Q p q)
    (hk : ∀ a b, Q a b → Alike Q' (f a) (g b)) : Alike Q' (p >>= f) (q >>= g) :=
  alike_bind_runs h fun _ a b _ => hk a b

theorem alike_ask {op : S.Op} {f : S.Ans op → Prog S β} {g : S.Ans op → Prog S β'}
    (h : ∀ r, Alike Q' (f r) (g r)) : Alike Q' (Prog.ask op >>= f) (Prog.ask op >>= g) :=
  .call h

theorem alike_ite {c c' : Prop} [Decidable c] [Decidable c'] (hc : c ↔ c')
    (h : c → Alike Q p q) (h' : ¬ c → Alike Q p' q') :
    Alike Q (if c then p else p') (if c' then q else q') := by
  by_cases hcond : c
  · rw [if_pos hcond, if_pos (hc.mp hcond)]
    exact h hcond
  · rw [if_neg hcond, if_neg (fun hn => hcond (hc.mpr hn))]
    exact h' hcond

/-- Every transcript of the one is a transcript of the other. -/
theorem Alike.runs {tr : List (Event S)} {a : α} (h : Alike Q p q) (hr : Runs p tr a) :
    ∃ b, Runs q tr b ∧ Q a b := by
  induction h generalizing tr with
  | ret h =>
      obtain ⟨rfl, rfl⟩ := runs_ret_iff.mp hr
      exact ⟨_, .ret _, h⟩
  | call _ ih =>
      obtain ⟨r, rest, rfl, hk⟩ := runs_call_iff.mp hr
      obtain ⟨b, hb, hq⟩ := ih r hk
      exact ⟨b, .call r hb, hq⟩

/-- Against one device both have one transcript, and leave the device in one
state. -/
theorem Alike.device (h : Alike Q p q) (d : (op : S.Op) → σ → S.Ans op × σ) (s : σ) :
    q.trace d s = p.trace d s ∧ (q.run d s).2 = (p.run d s).2 ∧
      Q (p.run d s).1 (q.run d s).1 := by
  induction h generalizing s with
  | ret h => exact ⟨rfl, rfl, h⟩
  | call _ ih =>
      obtain ⟨htrace, hstate, hq⟩ := ih _ _
      refine ⟨?_, hstate, hq⟩
      rw [Prog.trace, Prog.trace, htrace]

end Interact

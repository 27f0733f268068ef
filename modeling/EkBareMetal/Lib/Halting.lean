import EkBareMetal.Lib.Interact

/-!
# Programs that stop when a request fails

`Halts F R p Q`: behind an answer in `F` the program `p` goes on with a
transcript in `R` only, and what it returns then is in `Q`. With the empty
transcript for `R` nothing is asked any more; a cleanup is a larger `R`. The
rules follow the ways of composing programs. Only the last part of a composite
may have a cleanup: what stands behind it has to be silent.
-/

namespace Interact

variable {S T : Sig} {α β ρ : Type}

/-- Every run of `p` has a transcript in `R` and a result in `Q`. -/
def Tail (R : List (Event S) → Prop) (p : Prog S α) (Q : α → Prop) : Prop :=
  ∀ tr a, Runs p tr a → R tr ∧ Q a

/-- Nothing is asked. -/
abbrev Silent (tr : List (Event S)) : Prop := tr = []

theorem silent_nil : Silent ([] : List (Event S)) := rfl

def Halts (F : Event S → Prop) (R : List (Event S) → Prop) :
    Prog S α → (α → Prop) → Prop
  | .ret _, _ => True
  | .call op k, Q => ∀ r, (F ⟨op, r⟩ → Tail R (k r) Q) ∧ Halts F R (k r) Q

section Rules

variable {F : Event S → Prop} {R : List (Event S) → Prop} {Q : α → Prop}

theorem tail_pure {a : α} (hR : R []) (h : Q a) : Tail R (pure a : Prog S α) Q := by
  intro tr b hr
  obtain ⟨rfl, rfl⟩ := runs_pure_iff.mp hr
  exact ⟨hR, h⟩

theorem Tail.mono {R' : List (Event S) → Prop} {Q' : α → Prop} {p : Prog S α}
    (h : Tail R p Q) (hR : ∀ tr, R tr → R' tr) (hQ : ∀ a, Q a → Q' a) : Tail R' p Q' :=
  fun tr a hr => ⟨hR tr (h tr a hr).1, hQ a (h tr a hr).2⟩

/-- What the definition says of a transcript. -/
theorem Halts.runs {p : Prog S α} (h : Halts F R p Q) {front back : List (Event S)}
    {e : Event S} {a : α} (hr : Runs p (front ++ e :: back) a) (he : F e) :
    R back ∧ Q a := by
  induction front generalizing p with
  | nil =>
      cases hr with
      | call r hk => exact (h r).1 he _ _ hk
  | cons x front ih =>
      cases hr with
      | call r hk => exact ih (h r).2 hk

theorem halts_of_runs {p : Prog S α}
    (h : ∀ front e back a, Runs p (front ++ e :: back) a → F e → R back ∧ Q a) :
    Halts F R p Q := by
  induction p with
  | ret a => trivial
  | call op k ih =>
      refine fun r => ⟨fun he tr a hr => h [] _ tr a (.call r hr) he, ih r ?_⟩
      exact fun front e back a hr => h (⟨op, r⟩ :: front) e back a (.call r hr)

theorem halts_pure (a : α) : Halts F R (pure a : Prog S α) Q := trivial

theorem halts_ask (hR : R []) (op : S.Op) :
    Halts F R (Prog.ask op) fun r => F ⟨op, r⟩ :=
  fun _ => ⟨fun he => tail_pure hR he, trivial⟩

theorem halts_ask_bind {op : S.Op} {f : S.Ans op → Prog S α}
    (h : ∀ r, (F ⟨op, r⟩ → Tail R (f r) Q) ∧ Halts F R (f r) Q) :
    Halts F R (Prog.ask op >>= f) Q := h

theorem Halts.mono {R' : List (Event S) → Prop} {Q' : α → Prop} {p : Prog S α}
    (h : Halts F R p Q) (hR : ∀ tr, R tr → R' tr) (hQ : ∀ a, Q a → Q' a) :
    Halts F R' p Q' := by
  induction p with
  | ret a => trivial
  | call op k ih => exact fun r => ⟨fun he => ((h r).1 he).mono hR hQ, ih r (h r).2⟩

/-- The answer is followed by nothing but a return in `Q`. -/
theorem stops_here {P : Prop} {a : α} (hR : R []) (h : Q a) :
    (P → Tail R (pure a : Prog S α) Q) ∧ Halts F R (pure a : Prog S α) Q :=
  ⟨fun _ => tail_pure hR h, trivial⟩

/-- The answer is no failure. -/
theorem goes_on {P : Prop} {p : Prog S α} (hP : ¬ P) (h : Halts F R p Q) :
    (P → Tail R p Q) ∧ Halts F R p Q := ⟨fun hp => absurd hp hP, h⟩

/-- The first part fails with a transcript in `M`, the second one adds its own. -/
theorem halts_bind' {M : List (Event S) → Prop} {P : α → Prop} {Q : β → Prop}
    {p : Prog S α} {f : α → Prog S β} (hp : Halts F M p P)
    (hfail : ∀ tr a, M tr → P a → Tail (fun tr' => R (tr ++ tr')) (f a) Q)
    (hf : ∀ a, Halts F R (f a) Q) : Halts F R (p >>= f) Q := by
  induction p with
  | ret a => exact hf a
  | call op k ih =>
      refine fun r => ⟨fun he tr b hr => ?_, ih r (hp r).2⟩
      obtain ⟨tr₁, a, tr₂, rfl, h₁, h₂⟩ := runs_bind_iff.mp hr
      obtain ⟨hM, hP⟩ := (hp r).1 he tr₁ a h₁
      exact hfail tr₁ a hM hP tr₂ b h₂

/-- What failed before the second part is all there is to clean up. -/
theorem halts_bind {P : α → Prop} {Q : β → Prop} {p : Prog S α} {f : α → Prog S β}
    (hp : Halts F Silent p P) (hfail : ∀ a, P a → Tail R (f a) Q)
    (hf : ∀ a, Halts F R (f a) Q) : Halts F R (p >>= f) Q := by
  refine halts_bind' hp (fun tr a htr ha => ?_) hf
  subst htr
  exact hfail a ha

/-- The first part has cleaned up, and the second one only passes the failure on. -/
theorem halts_then {P : α → Prop} {Q : β → Prop} {p : Prog S α} {f : α → Prog S β}
    (hp : Halts F R p P) (hfail : ∀ a, P a → Tail Silent (f a) Q)
    (hf : ∀ a, Halts F R (f a) Q) : Halts F R (p >>= f) Q := by
  refine halts_bind' hp (fun tr a htr ha => ?_) hf
  refine (hfail a ha).mono (fun tr' htr' => ?_) fun _ h => h
  rw [htr', List.append_nil]
  exact htr

end Rules

/-- What may be said of an event of a sum, a predicate for each half. -/
def OnSum (F : Event S → Prop) (G : Event T → Prop) : Event (S.sum T) → Prop
  | ⟨.inl op, r⟩ => F ⟨op, r⟩
  | ⟨.inr op, r⟩ => G ⟨op, r⟩

/-! ## Substitution -/

section Substitution

variable {F : Event S → Prop} {G : Event T → Prop} {R : List (Event T) → Prop}
  {Q : α → Prop}

/-- A program that asks nothing asks nothing however it is served. -/
theorem tail_interp {h : (op : S.Op) → ρ → Prog T (S.Ans op × ρ)} {p : Prog S α}
    (hp : Tail Silent p Q) (s : ρ) :
    Tail Silent (p.interp h s) fun x => Q x.1 := by
  cases p with
  | ret a => exact tail_pure rfl (hp [] a (.ret a)).2
  | call op k =>
      rintro tr ⟨a, s'⟩ hr
      obtain ⟨tr', h'⟩ := runs_of_interp hr
      obtain ⟨r, rest, rfl, -⟩ := runs_call_iff.mp h'
      exact absurd (hp _ _ h').1 (List.cons_ne_nil _ _)

/-- A request that fails behind the scenes is a request that fails. -/
theorem halts_interp {h : (op : S.Op) → ρ → Prog T (S.Ans op × ρ)} {p : Prog S α}
    (hh : ∀ op s, Halts G R (h op s) fun x => F ⟨op, x.1⟩)
    (hp : Halts F Silent p Q) (s : ρ) :
    Halts G R (p.interp h s) fun x => Q x.1 := by
  induction p generalizing s with
  | ret a => trivial
  | call op k ih =>
      exact halts_then (hh op s) (fun x he => tail_interp ((hp x.1).1 he) x.2)
        fun x => ih x.1 (hp x.1).2 x.2

theorem tail_inline {h : (op : S.Op) → Prog T (S.Ans op)} {p : Prog S α}
    (hp : Tail Silent p Q) : Tail Silent (p.inline h) Q := by
  cases p with
  | ret a => exact tail_pure rfl (hp [] a (.ret a)).2
  | call op k =>
      intro tr a hr
      obtain ⟨calls, -, h'⟩ := runs_inline hr
      obtain ⟨r, rest, hmap, -⟩ := runs_call_iff.mp h'
      rw [hmap] at h'
      exact absurd (hp _ _ h').1 (List.cons_ne_nil _ _)

theorem halts_inline {h : (op : S.Op) → Prog T (S.Ans op)} {p : Prog S α}
    (hh : ∀ op, Halts G R (h op) fun r => F ⟨op, r⟩) (hp : Halts F Silent p Q) :
    Halts G R (p.inline h) Q := by
  induction p with
  | ret a => trivial
  | call op k ih =>
      exact halts_then (hh op) (fun r he => tail_inline ((hp r).1 he))
        fun r => ih r (hp r).2

/-- A program that uses one of two signatures fails with that one. -/
theorem halts_left {F' : Event T → Prop} {p : Prog S α} (hp : Halts F Silent p Q) :
    Halts (OnSum F F') Silent (p.left : Prog (S.sum T) α) Q :=
  halts_inline (fun op => halts_ask (F := OnSum F F') silent_nil (.inl op)) hp

theorem halts_right {F' : Event T → Prop} {p : Prog T α}
    (hp : Halts F' Silent p Q) :
    Halts (OnSum F F') Silent (p.right : Prog (S.sum T) α) Q :=
  halts_inline (fun op => halts_ask (F := OnSum F F') silent_nil (.inr op)) hp

end Substitution

/-- The cleanup of a program whose requests are asked as they are. -/
theorem halts_embed {h : (op : S.Op) → Prog T (S.Ans op)} {lift : Event S → Event T}
    (hh : Embeds h lift) {F : Event S → Prop} {G : Event T → Prop}
    (hF : ∀ e, G (lift e) → F e) {R : List (Event S) → Prop}
    {R' : List (Event T) → Prop} (hR : ∀ tr, R tr → R' (tr.map lift)) {p : Prog S α}
    {Q : α → Prop} (hp : Halts F R p Q) : Halts G R' (p.inline h) Q := by
  refine halts_of_runs fun front e back a hr he => ?_
  obtain ⟨tr', htr, h'⟩ := runs_embed hh hr
  obtain ⟨front', rest, rfl, -, hrest⟩ := List.map_eq_append_iff.mp htr.symm
  obtain ⟨e', back', rfl, rfl, rfl⟩ := List.map_eq_cons_iff.mp hrest
  obtain ⟨hback, ha⟩ := hp.runs h' (hF e' he)
  exact ⟨hR back' hback, ha⟩

end Interact

import EkBareMetal.Lib.Interact

/-!
# Callbacks that call back

An object whose operations invoke callbacks may be entered again from inside
one of them. `ObjSig σ S` is the signature of code that works on an object of
type `σ`: it loads and stores the object, and it makes the requests of `S`. An
interface is one such program for each call, and `Reenters` runs a program
where every request may be answered after any number of calls of the
interface, each of which may be re-entered in turn.

The usual protection is a flag that a call sets before its first callback and
that every call looks at first. On an object in such a state a call changes
nothing and asks for nothing, and then the whole question disappears: a
program is re-entered exactly as if it were not (`reenters_outside`).
-/

namespace Interact

variable {S : Sig} {σ α β ρ : Type} {κ : Type}

inductive ObjOp (σ : Type) (S : Sig) where
  | load
  | store (value : σ)
  | outside (op : S.Op)

abbrev ObjSig (σ : Type) (S : Sig) : Sig where
  Op := ObjOp σ S
  Ans
    | .load => σ
    | .store _ => Unit
    | .outside op => S.Ans op

namespace Prog

def loadObj : Prog (ObjSig σ S) σ := ask (S := ObjSig σ S) .load

def storeObj (value : σ) : Prog (ObjSig σ S) Unit := ask (S := ObjSig σ S) (.store value)

/-- The update of some fields of the object. -/
def modifyObj (f : σ → σ) : Prog (ObjSig σ S) Unit := do
  let s ← loadObj
  storeObj (f s)

/-- A program that leaves the object alone. -/
def outside (p : Prog S α) : Prog (ObjSig σ S) α :=
  p.inline fun op => ask (S := ObjSig σ S) (.outside op)

/-- Conditions with effects joined by `&&`. -/
def every {S : Sig} : List (Prog S Bool) → Prog S Bool
  | [] => pure true
  | p :: ps => do
      let ok ← p
      if ok then every ps else pure false

/-- Calls one after the other, with what they return. -/
def calls (api : κ → Prog (ObjSig σ S) ρ) : List κ → Prog (ObjSig σ S) (List ρ)
  | [] => pure []
  | c :: cs => do
      let r ← api c
      let rs ← calls api cs
      pure (r :: rs)

end Prog

open Prog

/-- `Reenters api p s tr a s'`: from the object `s` the program `p` returns `a`
and leaves `s'`, and `tr` is all that was asked outside, by `p` or by a call
made while one of its requests was served. -/
inductive Reenters (api : κ → Prog (ObjSig σ S) ρ) :
    {α : Type} → Prog (ObjSig σ S) α → σ → List (Event S) → α → σ → Prop where
  | ret {α : Type} (a : α) (s : σ) : Reenters api (.ret a) s [] a s
  | load {α : Type} {k : σ → Prog (ObjSig σ S) α} {s s' : σ} {tr : List (Event S)} {a : α}
      (h : Reenters api (k s) s tr a s') : Reenters api (.call .load k) s tr a s'
  | store {α : Type} {k : Unit → Prog (ObjSig σ S) α} {s v s' : σ} {tr : List (Event S)}
      {a : α} (h : Reenters api (k ()) v tr a s') :
      Reenters api (.call (.store v) k) s tr a s'
  | outside {α : Type} {op : S.Op} {k : S.Ans op → Prog (ObjSig σ S) α} {s s₁ s' : σ}
      {nested tr : List (Event S)} {a : α} (r : S.Ans op) (cs : List κ) {rs : List ρ}
      (hn : Reenters api (calls api cs) s nested rs s₁)
      (h : Reenters api (k r) s₁ tr a s') :
      Reenters api (.call (.outside op) k) s (⟨op, r⟩ :: (nested ++ tr)) a s'

section Rules

variable {api : κ → Prog (ObjSig σ S) ρ} {s s' : σ} {tr : List (Event S)}

theorem reenters_ret_iff {a b : α} :
    Reenters api (.ret a) s tr b s' ↔ tr = [] ∧ b = a ∧ s' = s := by
  constructor
  · intro h
    cases h
    exact ⟨rfl, rfl, rfl⟩
  · rintro ⟨rfl, rfl, rfl⟩
    exact .ret _ _

theorem reenters_pure_iff {a b : α} :
    Reenters api (pure a) s tr b s' ↔ tr = [] ∧ b = a ∧ s' = s := reenters_ret_iff

theorem reenters_load_iff {f : σ → Prog (ObjSig σ S) β} {b : β} :
    Reenters api (loadObj >>= f) s tr b s' ↔ Reenters api (f s) s tr b s' := by
  constructor
  · intro h
    cases h with | load h => exact h
  · exact .load

theorem reenters_modify_iff {g : σ → σ} {f : Unit → Prog (ObjSig σ S) β} {b : β} :
    Reenters api (modifyObj g >>= f) s tr b s' ↔ Reenters api (f ()) (g s) tr b s' := by
  constructor
  · intro h
    cases h with | load h => cases h with | store h => exact h
  · intro h
    exact .load (.store h)

theorem reenters_bind_iff {p : Prog (ObjSig σ S) α} {f : α → Prog (ObjSig σ S) β} {b : β} :
    Reenters api (p >>= f) s tr b s' ↔
      ∃ tr₁ a s₁ tr₂, tr = tr₁ ++ tr₂ ∧ Reenters api p s tr₁ a s₁ ∧
        Reenters api (f a) s₁ tr₂ b s' := by
  rw [bind_def]
  induction p generalizing s tr with
  | ret a =>
      constructor
      · intro h
        exact ⟨[], a, s, tr, rfl, .ret a s, h⟩
      · rintro ⟨tr₁, a', s₁, tr₂, rfl, h₁, h₂⟩
        obtain ⟨rfl, rfl, rfl⟩ := reenters_ret_iff.mp h₁
        exact h₂
  | call op k ih =>
      constructor
      · intro h
        cases h with
        | load h =>
            obtain ⟨tr₁, a, s₁, tr₂, rfl, h₁, h₂⟩ := (ih _).mp h
            exact ⟨tr₁, a, s₁, tr₂, rfl, .load h₁, h₂⟩
        | store h =>
            obtain ⟨tr₁, a, s₁, tr₂, rfl, h₁, h₂⟩ := (ih _).mp h
            exact ⟨tr₁, a, s₁, tr₂, rfl, .store h₁, h₂⟩
        | outside r cs hn h =>
            obtain ⟨tr₁, a, s₁, tr₂, rfl, h₁, h₂⟩ := (ih _).mp h
            exact ⟨_, a, s₁, tr₂, by simp, .outside r cs hn h₁, h₂⟩
      · rintro ⟨tr₁, a, s₁, tr₂, rfl, h₁, h₂⟩
        cases h₁ with
        | load h => exact .load ((ih _).mpr ⟨_, a, s₁, tr₂, rfl, h, h₂⟩)
        | store h => exact .store ((ih _).mpr ⟨_, a, s₁, tr₂, rfl, h, h₂⟩)
        | outside r cs hn h =>
            have hk := (ih r).mpr ⟨_, a, s₁, tr₂, rfl, h, h₂⟩
            rw [List.cons_append, List.append_assoc]
            exact .outside r cs hn hk

/-- A call on the object returns at once and leaves it alone. -/
def Closed (api : κ → Prog (ObjSig σ S) ρ) (s : σ) : Prop :=
  ∀ c tr r s', Reenters api (api c) s tr r s' → tr = [] ∧ s' = s

theorem Closed.calls (hs : Closed api s) {cs : List κ} {rs : List ρ}
    (h : Reenters api (calls api cs) s tr rs s') : tr = [] ∧ s' = s := by
  induction cs generalizing tr rs s' with
  | nil =>
      obtain ⟨rfl, -, rfl⟩ := reenters_pure_iff.mp h
      exact ⟨rfl, rfl⟩
  | cons c cs ih =>
      obtain ⟨tr₁, r, s₁, tr₂, rfl, hc, hk⟩ := reenters_bind_iff.mp h
      obtain ⟨rfl, rfl⟩ := hs c tr₁ r s₁ hc
      obtain ⟨tr₃, rs', s₂, tr₄, rfl, hcs, hret⟩ := reenters_bind_iff.mp hk
      obtain ⟨rfl, rfl⟩ := ih hcs
      obtain ⟨rfl, -, rfl⟩ := reenters_pure_iff.mp hret
      exact ⟨rfl, rfl⟩

/-- On a closed object re-entry does not show. -/
theorem reenters_outside (hs : Closed api s) {p : Prog S α} {a : α} :
    Reenters api p.outside s tr a s' ↔ Runs p tr a ∧ s' = s := by
  induction p generalizing tr with
  | ret b =>
      constructor
      · intro h
        obtain ⟨rfl, rfl, rfl⟩ := reenters_ret_iff.mp h
        exact ⟨.ret _, rfl⟩
      · rintro ⟨h, rfl⟩
        obtain ⟨rfl, rfl⟩ := runs_ret_iff.mp h
        exact .ret _ _
  | call op k ih =>
      constructor
      · intro h
        cases h with
        | outside r cs hn h =>
            obtain ⟨rfl, rfl⟩ := hs.calls hn
            obtain ⟨h', rfl⟩ := (ih r).mp h
            exact ⟨.call r h', rfl⟩
      · rintro ⟨h, rfl⟩
        obtain ⟨r, rest, rfl, h'⟩ := runs_call_iff.mp h
        exact .outside r [] (.ret [] _) ((ih r).mpr ⟨h', rfl⟩)

/-- What every call keeps, any number of calls keep. -/
theorem calls_inv {I : σ → Prop} {E : Event S → Prop} {R : ρ → Prop}
    (hstep : ∀ c s tr r s', I s → Reenters api (api c) s tr r s' →
      I s' ∧ (∀ e ∈ tr, E e) ∧ R r) {cs : List κ} {rs : List ρ} (hI : I s)
    (h : Reenters api (calls api cs) s tr rs s') :
    I s' ∧ (∀ e ∈ tr, E e) ∧ ∀ r ∈ rs, R r := by
  induction cs generalizing s tr rs s' with
  | nil =>
      obtain ⟨rfl, rfl, rfl⟩ := reenters_pure_iff.mp h
      exact ⟨hI, nofun, nofun⟩
  | cons c cs ih =>
      obtain ⟨tr₁, r, s₁, tr₂, rfl, hc, hk⟩ := reenters_bind_iff.mp h
      obtain ⟨hI₁, he₁, hr⟩ := hstep c s tr₁ r s₁ hI hc
      obtain ⟨tr₃, rs', s₂, tr₄, rfl, hcs, hret⟩ := reenters_bind_iff.mp hk
      obtain ⟨hI₂, he₂, hrs⟩ := ih hI₁ hcs
      obtain ⟨rfl, rfl, rfl⟩ := reenters_pure_iff.mp hret
      rw [List.append_nil]
      refine ⟨hI₂, fun e he => (List.mem_append.mp he).elim (he₁ e) (he₂ e), ?_⟩
      intro x hx
      rcases List.mem_cons.mp hx with rfl | hx
      · exact hr
      · exact hrs x hx

end Rules

/-! ## Programs that hold a guard -/

namespace Prog

/-- The program with the object in its hands: nobody else touches it. -/
def held : Prog (ObjSig σ S) α → σ → Prog S (α × σ)
  | .ret a, s => .ret (a, s)
  | .call .load k, s => (k s).held s
  | .call (.store v) k, _ => (k ()).held v
  | .call (.outside op) k, s => .call op fun r => (k r).held s

/-- Every request to the outside is made on an object that satisfies `P`, and
what is returned satisfies `Q`. -/
def Guarded (P : σ → Prop) (Q : α → σ → Prop) : Prog (ObjSig σ S) α → σ → Prop
  | .ret a, s => Q a s
  | .call .load k, s => (k s).Guarded P Q s
  | .call (.store v) k, _ => (k ()).Guarded P Q v
  | .call (.outside _) k, s => P s ∧ ∀ r, (k r).Guarded P Q s

end Prog

section Held

variable {p : Prog (ObjSig σ S) α} {s s' : σ} {tr : List (Event S)}

theorem held_load {f : σ → Prog (ObjSig σ S) β} :
    (loadObj >>= f).held s = (f s).held s := rfl

theorem held_modify {g : σ → σ} {f : Unit → Prog (ObjSig σ S) β} :
    (modifyObj g >>= f).held s = (f ()).held (g s) := rfl

theorem held_ask {op : S.Op} {f : S.Ans op → Prog (ObjSig σ S) β} :
    (ask (S := ObjSig σ S) (.outside op) >>= f).held s =
      ask op >>= fun r => (f r).held s := rfl

theorem held_bind {f : α → Prog (ObjSig σ S) β} :
    (p >>= f).held s = p.held s >>= fun x => (f x.1).held x.2 := by
  rw [bind_def, bind_def]
  induction p generalizing s with
  | ret a => rfl
  | call op k ih =>
      cases op with
      | load => exact ih s
      | store v => exact ih ()
      | outside op => exact congrArg (Prog.call op) (funext fun r => ih r)

section Guarded

variable {P : σ → Prop} {Q : α → σ → Prop} {R : β → σ → Prop}

theorem guarded_load {f : σ → Prog (ObjSig σ S) β} :
    (loadObj >>= f).Guarded P R s ↔ (f s).Guarded P R s := Iff.rfl

theorem guarded_modify {g : σ → σ} {f : Unit → Prog (ObjSig σ S) β} :
    (modifyObj g >>= f).Guarded P R s ↔ (f ()).Guarded P R (g s) := Iff.rfl

theorem guarded_ask {op : S.Op} {f : S.Ans op → Prog (ObjSig σ S) β} :
    (ask (S := ObjSig σ S) (.outside op) >>= f).Guarded P R s ↔
      P s ∧ ∀ r, (f r).Guarded P R s := Iff.rfl

theorem guarded_bind {f : α → Prog (ObjSig σ S) β} (hp : p.Guarded P Q s)
    (hf : ∀ a s', Q a s' → (f a).Guarded P R s') : (p >>= f).Guarded P R s := by
  rw [bind_def]
  induction p generalizing s with
  | ret a => exact hf a s hp
  | call op k ih =>
      cases op with
      | load => exact ih s hp
      | store v => exact ih () hp
      | outside op => exact ⟨hp.1, fun r => ih r (hp.2 r)⟩

end Guarded

/-- A program whose requests are all made on closed objects is not disturbed. -/
theorem reenters_held {api : κ → Prog (ObjSig σ S) ρ} {P : σ → Prop}
    {Q : α → σ → Prop} {a : α} (hP : ∀ s, P s → Closed api s) (hg : p.Guarded P Q s) :
    Reenters api p s tr a s' ↔ Runs (p.held s) tr (a, s') := by
  induction p generalizing s tr with
  | ret b =>
      rw [reenters_ret_iff, Prog.held, runs_ret_iff, Prod.mk.injEq]
  | call op k ih =>
      constructor
      · intro h
        cases h with
        | load h => exact (ih s hg).mp h
        | store h => exact (ih () hg).mp h
        | outside r cs hn h =>
            obtain ⟨rfl, rfl⟩ := (hP _ hg.1).calls hn
            exact .call r ((ih r (hg.2 r)).mp h)
      · intro h
        cases op with
        | load => exact .load ((ih s hg).mpr h)
        | store v => exact .store ((ih () hg).mpr h)
        | outside op =>
            obtain ⟨r, rest, rfl, h'⟩ := runs_call_iff.mp h
            exact .outside r [] (.ret [] _) ((ih r (hg.2 r)).mpr h')

end Held

end Interact

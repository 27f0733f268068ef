import EkBareMetal.Lib.Reentry

/-!
# What an observer of the calls sees

A call of an interface is seen when it begins and when it ends, and so is every
request it makes, each time with the object as it is then. What happens while a
call or a request is open stands between its two moments, so the moments of a
history are in the order of time at every depth.

`Passes H` runs one program where `H` is what may happen to the object during a
request, and `History` is the case in which that is again a history. A property
of all histories is proved about one call whose requests are already known to
have it (`History.along`).
-/

namespace Interact

open Prog

inductive Moment (S : Sig) (κ ρ σ : Type) where
  | enter (c : κ) (s : σ)
  | leave (c : κ) (r : ρ) (s : σ)
  | ask (op : S.Op) (s : σ)
  | answer (e : Event S) (s : σ)

namespace Moment

variable {S : Sig} {κ ρ σ : Type}

def object : Moment S κ ρ σ → σ
  | enter _ s => s
  | leave _ _ s => s
  | ask _ s => s
  | answer _ s => s

end Moment

variable {S : Sig} {σ α β γ ρ κ : Type}

/-- `Passes H p s ms a s'`: from the object `s` the program `p` returns `a` and
leaves `s'`, and `ms` is what was seen while its requests were served. -/
inductive Passes (H : σ → List (Moment S κ ρ σ) → σ → Prop) :
    {α : Type} → Prog (ObjSig σ S) α → σ → List (Moment S κ ρ σ) → α → σ → Prop where
  | ret {α : Type} (a : α) (s : σ) : Passes H (.ret a) s [] a s
  | load {α : Type} {k : σ → Prog (ObjSig σ S) α} {s s' : σ} {ms : List (Moment S κ ρ σ)}
      {a : α} (h : Passes H (k s) s ms a s') : Passes H (.call .load k) s ms a s'
  | store {α : Type} {k : Unit → Prog (ObjSig σ S) α} {s v s' : σ}
      {ms : List (Moment S κ ρ σ)} {a : α} (h : Passes H (k ()) v ms a s') :
      Passes H (.call (.store v) k) s ms a s'
  | outside {α : Type} {op : S.Op} {k : S.Ans op → Prog (ObjSig σ S) α} {s s₁ s' : σ}
      {ns ms : List (Moment S κ ρ σ)} {a : α} (r : S.Ans op) (hn : H s ns s₁)
      (h : Passes H (k r) s₁ ms a s') :
      Passes H (.call (.outside op) k) s (.ask op s :: (ns ++ .answer ⟨op, r⟩ s₁ :: ms)) a s'

section Passes

variable {H : σ → List (Moment S κ ρ σ) → σ → Prop} {s s' : σ} {ms : List (Moment S κ ρ σ)}

theorem passes_ret_iff {a b : α} :
    Passes H (.ret a) s ms b s' ↔ ms = [] ∧ b = a ∧ s' = s := by
  constructor
  · intro h
    cases h
    exact ⟨rfl, rfl, rfl⟩
  · rintro ⟨rfl, rfl, rfl⟩
    exact .ret _ _

theorem passes_pure_iff {a b : α} :
    Passes H (pure a) s ms b s' ↔ ms = [] ∧ b = a ∧ s' = s := passes_ret_iff

theorem passes_load_iff {f : σ → Prog (ObjSig σ S) β} {b : β} :
    Passes H (loadObj >>= f) s ms b s' ↔ Passes H (f s) s ms b s' := by
  constructor
  · intro h
    cases h with | load h => exact h
  · exact .load

theorem passes_modify_iff {g : σ → σ} {f : Unit → Prog (ObjSig σ S) β} {b : β} :
    Passes H (modifyObj g >>= f) s ms b s' ↔ Passes H (f ()) (g s) ms b s' := by
  constructor
  · intro h
    cases h with | load h => cases h with | store h => exact h
  · intro h
    exact .load (.store h)

theorem passes_ask_iff {op : S.Op} {f : S.Ans op → Prog (ObjSig σ S) β} {b : β} :
    Passes H (ask (S := ObjSig σ S) (.outside op) >>= f) s ms b s' ↔
      ∃ r ns s₁ ks, ms = .ask op s :: (ns ++ .answer ⟨op, r⟩ s₁ :: ks) ∧ H s ns s₁ ∧
        Passes H (f r) s₁ ks b s' := by
  constructor
  · intro h
    cases h with | outside r hn h => exact ⟨r, _, _, _, rfl, hn, h⟩
  · rintro ⟨r, ns, s₁, ks, rfl, hn, h⟩
    exact .outside r hn h

theorem passes_bind_iff {p : Prog (ObjSig σ S) α} {f : α → Prog (ObjSig σ S) β} {b : β} :
    Passes H (p >>= f) s ms b s' ↔
      ∃ ns a s₁ ks, ms = ns ++ ks ∧ Passes H p s ns a s₁ ∧ Passes H (f a) s₁ ks b s' := by
  rw [bind_def]
  induction p generalizing s ms with
  | ret a =>
      constructor
      · intro h
        exact ⟨[], a, s, ms, rfl, .ret a s, h⟩
      · rintro ⟨ns, a', s₁, ks, rfl, h₁, h₂⟩
        obtain ⟨rfl, rfl, rfl⟩ := passes_ret_iff.mp h₁
        exact h₂
  | call op k ih =>
      constructor
      · intro h
        cases h with
        | load h =>
            obtain ⟨ns, a, s₁, ks, rfl, h₁, h₂⟩ := (ih _).mp h
            exact ⟨ns, a, s₁, ks, rfl, .load h₁, h₂⟩
        | store h =>
            obtain ⟨ns, a, s₁, ks, rfl, h₁, h₂⟩ := (ih _).mp h
            exact ⟨ns, a, s₁, ks, rfl, .store h₁, h₂⟩
        | outside r hn h =>
            obtain ⟨ns, a, s₁, ks, rfl, h₁, h₂⟩ := (ih _).mp h
            exact ⟨_, a, s₁, ks, by simp, .outside r hn h₁, h₂⟩
      · rintro ⟨ns, a, s₁, ks, rfl, h₁, h₂⟩
        cases h₁ with
        | load h => exact .load ((ih _).mpr ⟨_, a, s₁, ks, rfl, h, h₂⟩)
        | store h => exact .store ((ih _).mpr ⟨_, a, s₁, ks, rfl, h, h₂⟩)
        | outside r hn h =>
            have hk := (ih r).mpr ⟨_, a, s₁, ks, rfl, h, h₂⟩
            rw [List.cons_append, List.append_assoc, List.cons_append]
            exact .outside r hn hk

/-- Conditions that all hold: the last one was the last thing looked at. -/
theorem passes_every_last {ps : List (Prog (ObjSig σ S) Bool)} {p : Prog (ObjSig σ S) Bool}
    (h : Passes H (every (ps ++ [p])) s ms true s') :
    ∃ ns s₁ ks, ms = ns ++ ks ∧ Passes H p s₁ ks true s' := by
  induction ps generalizing s ms with
  | nil =>
      obtain ⟨ns, ok, s₁, ks, rfl, hp, hk⟩ := passes_bind_iff.mp h
      split at hk
      · rename_i hok
        obtain ⟨rfl, -, rfl⟩ := passes_pure_iff.mp hk
        rw [hok] at hp
        exact ⟨[], s, ns, List.append_nil _, hp⟩
      · obtain ⟨-, hbad, -⟩ := passes_pure_iff.mp hk
        cases hbad
  | cons q ps ih =>
      obtain ⟨ns, ok, s₁, ks, rfl, -, hk⟩ := passes_bind_iff.mp h
      split at hk
      · obtain ⟨ns', s₂, ks', rfl, hp⟩ := ih hk
        exact ⟨ns ++ ns', s₂, ks', (List.append_assoc _ _ _).symm, hp⟩
      · obtain ⟨-, hbad, -⟩ := passes_pure_iff.mp hk
        cases hbad

theorem Passes.mono {K : σ → List (Moment S κ ρ σ) → σ → Prop} {p : Prog (ObjSig σ S) α} {a : α}
    (hHK : ∀ t ks t', H t ks t' → K t ks t') (h : Passes H p s ms a s') :
    Passes K p s ms a s' := by
  induction h with
  | ret a s => exact .ret a s
  | load _ ih => exact .load ih
  | store _ ih => exact .store ih
  | outside r hn _ ih => exact .outside r (hHK _ _ _ hn) ih

end Passes

/-! ## Histories -/

/-- Calls one after the other, each of them as `P` has it. -/
inductive Sequence (P : κ → σ → List (Moment S κ ρ σ) → ρ → σ → Prop) :
    σ → List (Moment S κ ρ σ) → σ → Prop where
  | nil (s : σ) : Sequence P s [] s
  | call {c : κ} {s s₁ s' : σ} {ns ms : List (Moment S κ ρ σ)} {r : ρ} (hc : P c s ns r s₁)
      (h : Sequence P s₁ ms s') :
      Sequence P s (.enter c s :: (ns ++ .leave c r s₁ :: ms)) s'

/-- The histories in which no more than `n` calls are open at once. -/
def Histories (api : κ → Prog (ObjSig σ S) ρ) : Nat → σ → List (Moment S κ ρ σ) → σ → Prop
  | 0 => fun s ms s' => ms = [] ∧ s' = s
  | n + 1 => Sequence fun c => Passes (Histories api n) (api c)

/-- Calls one after the other, where others are made from inside at any depth. -/
def History (api : κ → Prog (ObjSig σ S) ρ) (s : σ) (ms : List (Moment S κ ρ σ)) (s' : σ) :
    Prop := ∃ n, Histories api n s ms s'

section History

variable {api : κ → Prog (ObjSig σ S) ρ} {s s' : σ} {ms : List (Moment S κ ρ σ)}

theorem Sequence.mono {P Q : κ → σ → List (Moment S κ ρ σ) → ρ → σ → Prop}
    (hPQ : ∀ c t ks r t', P c t ks r t' → Q c t ks r t') (h : Sequence P s ms s') :
    Sequence Q s ms s' := by
  induction h with
  | nil s => exact .nil s
  | call hc _ ih => exact .call (hPQ _ _ _ _ _ hc) ih

theorem Histories.nil (n : Nat) (s : σ) : Histories api n s [] s := by
  cases n with
  | zero => exact ⟨rfl, rfl⟩
  | succ n => exact Sequence.nil s

theorem Histories.succ {n : Nat} (h : Histories api n s ms s') :
    Histories api (n + 1) s ms s' := by
  induction n generalizing s ms s' with
  | zero =>
      obtain ⟨rfl, rfl⟩ := h
      exact Histories.nil 1 _
  | succ n ih => exact Sequence.mono (fun c t ks r t' hc => hc.mono fun _ _ _ => ih) h

theorem Histories.mono {n m : Nat} (hnm : n ≤ m) (h : Histories api n s ms s') :
    Histories api m s ms s' := by
  induction hnm with
  | refl => exact h
  | step _ ih => exact ih.succ

theorem History.nil (s : σ) : History api s [] s := ⟨0, Histories.nil 0 s⟩

/-- What follows for a sequence of calls from what the requests of each satisfy
holds of every history. -/
theorem History.relates {R : σ → List (Moment S κ ρ σ) → σ → Prop} (hnil : ∀ s, R s [] s)
    (hcall : ∀ {c s ns r s₁ ms s'},
      Passes (fun t ks t' => History api t ks t' ∧ R t ks t') (api c) s ns r s₁ → R s₁ ms s' →
      R s (.enter c s :: (ns ++ .leave c r s₁ :: ms)) s') (h : History api s ms s') :
    R s ms s' := by
  obtain ⟨n, h⟩ := h
  induction n generalizing s ms s' with
  | zero =>
      obtain ⟨rfl, rfl⟩ := h
      exact hnil _
  | succ n ih =>
      induction h with
      | nil s => exact hnil s
      | call hc _ ihs => exact hcall (hc.mono fun t ks t' hk => ⟨⟨n, hk⟩, ih hk⟩) ihs

end History

/-! ## A summary of the past -/

/-- `P` at every moment, of the summary of the moments before it. -/
def Along {μ : Type} (next : γ → μ → γ) (P : γ → μ → Prop) : γ → List μ → Prop
  | _, [] => True
  | g, m :: ms => P g m ∧ Along next P (next g m) ms

theorem along_append {μ : Type} {next : γ → μ → γ} {P : γ → μ → Prop} {g : γ}
    {ms ns : List μ} :
    Along next P g (ms ++ ns) ↔
      Along next P g ms ∧ Along next P (ms.foldl next g) ns := by
  induction ms generalizing g with
  | nil => exact ⟨fun h => ⟨trivial, h⟩, fun h => h.2⟩
  | cons m ms ih =>
      rw [List.cons_append, Along, ih, Along, List.foldl_cons, and_assoc]

theorem Along.mono {μ : Type} {next : γ → μ → γ} {P Q : γ → μ → Prop} {g : γ} {ms : List μ}
    (hPQ : ∀ g m, P g m → Q g m) (h : Along next P g ms) : Along next Q g ms := by
  induction ms generalizing g with
  | nil => trivial
  | cons m ms ih => exact ⟨hPQ g m h.1, ih h.2⟩

instance decidableAlong {μ : Type} {next : γ → μ → γ} {P : γ → μ → Prop} [∀ g m, Decidable (P g m)] :
    ∀ g ms, Decidable (Along next P g ms)
  | _, [] => .isTrue trivial
  | g, m :: ms => @instDecidableAnd _ _ inferInstance (decidableAlong (next g m) ms)

section Along

variable {api : κ → Prog (ObjSig σ S) ρ} {next : γ → Moment S κ ρ σ → γ}
variable {P : γ → Moment S κ ρ σ → Prop} {I : γ → σ → Prop}

/-- From a summary that fits the object, the moments are as they should and the
summary after them fits again. -/
def Keeping (next : γ → Moment S κ ρ σ → γ) (P : γ → Moment S κ ρ σ → Prop) (I : γ → σ → Prop)
    (s : σ) (ms : List (Moment S κ ρ σ)) (s' : σ) : Prop :=
  ∀ g, I g s → Along next P g ms ∧ I (ms.foldl next g) s'

theorem Keeping.nil (s : σ) : Keeping next P I s [] s := fun _ hI => ⟨trivial, hI⟩

theorem Keeping.append {s s₁ s' : σ} {ms ns : List (Moment S κ ρ σ)}
    (h₁ : Keeping next P I s ms s₁) (h₂ : Keeping next P I s₁ ns s') :
    Keeping next P I s (ms ++ ns) s' := by
  intro g hI
  obtain ⟨ha, hI₁⟩ := h₁ g hI
  obtain ⟨hb, hI₂⟩ := h₂ _ hI₁
  rw [List.foldl_append]
  exact ⟨along_append.mpr ⟨ha, hb⟩, hI₂⟩

theorem Keeping.one {m : Moment S κ ρ σ} {s : σ}
    (h : ∀ g, I g s → P g m ∧ I (next g m) s) : Keeping next P I s [m] s := by
  intro g hI
  obtain ⟨hm, hI'⟩ := h g hI
  exact ⟨⟨hm, trivial⟩, hI'⟩

theorem Keeping.call {c : κ} {r : ρ} {s s' : σ} {ns : List (Moment S κ ρ σ)}
    (h : ∀ g, I g s → P g (.enter c s) ∧ Along next P (next g (.enter c s)) ns ∧
      P (ns.foldl next (next g (.enter c s))) (.leave c r s') ∧
      I (next (ns.foldl next (next g (.enter c s))) (.leave c r s')) s') :
    Keeping next P I s (.enter c s :: (ns ++ [.leave c r s'])) s' := by
  intro g hI
  obtain ⟨hin, hns, hout, hI'⟩ := h g hI
  rw [List.foldl_cons, List.foldl_append]
  exact ⟨⟨hin, along_append.mpr ⟨hns, hout, trivial⟩⟩, hI'⟩

/-- The rule for one call, whose requests are known to keep the summary. -/
theorem History.along
    (hcall : ∀ {c s ns r s'},
      Passes (fun t ks t' => History api t ks t' ∧ Keeping next P I t ks t') (api c) s ns r s' →
      Keeping next P I s (.enter c s :: (ns ++ [.leave c r s'])) s')
    {s s' : σ} {ms : List (Moment S κ ρ σ)} (h : History api s ms s') :
    Keeping next P I s ms s' := by
  refine h.relates Keeping.nil ?_
  intro c s ns r s₁ ms s' hc hms
  have hall := (hcall hc).append hms
  rwa [List.cons_append, List.append_assoc, List.singleton_append] at hall

end Along

/-! ## Scripts -/

/-- Calls one after the other: what is answered to the requests of each, and
the calls made meanwhile. -/
inductive Script (S : Sig) (κ : Type) where
  | done
  | turn (call : κ) (answer : (op : S.Op) → S.Ans op) (inside rest : Script S κ)

/-- A program whose requests are answered, each after what `inside` does. -/
def Prog.meanwhile (answer : (op : S.Op) → S.Ans op)
    (inside : σ → List (Moment S κ ρ σ) × σ) :
    Prog (ObjSig σ S) α → σ → List (Moment S κ ρ σ) × α × σ
  | .ret a, s => ([], a, s)
  | .call .load k, s => (k s).meanwhile answer inside s
  | .call (.store v) k, _ => (k ()).meanwhile answer inside v
  | .call (.outside op) k, s =>
      let seen := inside s
      let rest := (k (answer op)).meanwhile answer inside seen.2
      (.ask op s :: (seen.1 ++ .answer ⟨op, answer op⟩ seen.2 :: rest.1), rest.2)

def plays (api : κ → Prog (ObjSig σ S) ρ) :
    Script S κ → σ → List (Moment S κ ρ σ) × σ
  | .done, s => ([], s)
  | .turn c answer inside rest, s =>
      let one := (api c).meanwhile answer (plays api inside) s
      let later := plays api rest one.2.2
      (.enter c s :: (one.1 ++ .leave c one.2.1 one.2.2 :: later.1), later.2)

theorem passes_meanwhile {H : σ → List (Moment S κ ρ σ) → σ → Prop}
    (answer : (op : S.Op) → S.Ans op) {inside : σ → List (Moment S κ ρ σ) × σ}
    (hH : ∀ s, H s (inside s).1 (inside s).2) (p : Prog (ObjSig σ S) α) (s : σ) :
    Passes H p s (p.meanwhile answer inside s).1 (p.meanwhile answer inside s).2.1
      (p.meanwhile answer inside s).2.2 := by
  induction p generalizing s with
  | ret a => exact .ret a s
  | call op k ih =>
      cases op with
      | load => exact .load (ih s s)
      | store v => exact .store (ih () v)
      | outside op => exact .outside (answer op) (hH s) (ih _ _)

theorem histories_plays (api : κ → Prog (ObjSig σ S) ρ) (script : Script S κ) :
    ∃ n, ∀ s, Histories api n s (plays api script s).1 (plays api script s).2 := by
  induction script with
  | done => exact ⟨0, fun _ => ⟨rfl, rfl⟩⟩
  | turn c answer inside rest ihi ihr =>
      obtain ⟨n, hn⟩ := ihi
      obtain ⟨m, hm⟩ := ihr
      refine ⟨max n m + 1, fun s => ?_⟩
      have hone := passes_meanwhile answer
        (fun s => (hn s).mono (Nat.le_max_left n m)) (api c) s
      exact Sequence.call hone ((hm _).mono (Nat.le_succ_of_le (Nat.le_max_right n m)))

/-- A script is a history. -/
theorem history_plays (api : κ → Prog (ObjSig σ S) ρ) (script : Script S κ) (s : σ) :
    History api s (plays api script s).1 (plays api script s).2 := by
  obtain ⟨n, hn⟩ := histories_plays api script
  exact ⟨n, hn s⟩

end Interact

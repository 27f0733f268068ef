import Mathlib.Tactic.Common

/-!
# Programs that call back, and what may be said about every answer

A function that takes callbacks cannot be run on its own: what it does next
depends on what its caller's code answers. `Prog S α` is such a function cut
at its callbacks. It either returns, or it makes a request of the signature
`S` and goes on with whatever comes back, so a program is a tree with one
branch for each possible answer and every claim that quantifies over "every
behaviour of the callbacks" is a claim about all of its branches.

Three readings of the same tree are used. `Runs` is the transcript reading:
which lists of requests and answers lead to which result. `wp` is the
state-machine reading: a `Handler` says how a device may answer and move, and
also where it may be left when the power goes, so a specification has two
postconditions, one for the return and one for the cut. `run` is the
executable reading, for a device that has only one answer.

Passing callbacks to a function is substitution: `inline` and `interp` replace
every request by the program that serves it, and the rules below say what
each reading of the composite is.
-/

namespace Interact

/-- The requests a program may make, and the type of the answer to each. -/
structure Sig where
  Op : Type
  Ans : Op → Type

/-- One request together with the answer it got. -/
structure Event (S : Sig) where
  op : S.Op
  ans : S.Ans op

inductive Prog (S : Sig) (α : Type) : Type where
  | ret (a : α)
  | call (op : S.Op) (k : S.Ans op → Prog S α)

/-- The requests of two signatures together. -/
def Sig.sum (S T : Sig) : Sig where
  Op := S.Op ⊕ T.Op
  Ans
    | .inl op => S.Ans op
    | .inr op => T.Ans op

namespace Prog

variable {S T : Sig} {α β γ ρ σ τ : Type}

def bind : Prog S α → (α → Prog S β) → Prog S β
  | .ret a, f => f a
  | .call op k, f => .call op fun r => (k r).bind f

instance : Monad (Prog S) where
  pure := .ret
  bind := bind

/-- The single request `op`. -/
def ask (op : S.Op) : Prog S (S.Ans op) := .call op .ret

theorem bind_def (p : Prog S α) (f : α → Prog S β) : p >>= f = p.bind f := rfl

@[simp] theorem ret_bind (a : α) (f : α → Prog S β) :
    (Prog.ret a).bind f = f a := rfl

@[simp] theorem call_bind (op : S.Op) (k : S.Ans op → Prog S α)
    (f : α → Prog S β) :
    (Prog.call op k).bind f = .call op fun r => (k r).bind f := rfl

theorem bind_assoc (p : Prog S α) (f : α → Prog S β) (g : β → Prog S γ) :
    (p.bind f).bind g = p.bind fun a => (f a).bind g := by
  induction p with
  | ret a => rfl
  | call op k ih => simp only [call_bind, ih]

/-! ## Substituting programs for requests -/

/-- Serve every request of `p` with a program of another signature. -/
def inline (h : (op : S.Op) → Prog T (S.Ans op)) : Prog S α → Prog T α
  | .ret a => .ret a
  | .call op k => (h op).bind fun r => (k r).inline h

/-- A program as one that may also make other requests. -/
def left (p : Prog S α) : Prog (S.sum T) α :=
  p.inline fun op => ask (S := S.sum T) (.inl op)

def right (p : Prog T α) : Prog (S.sum T) α :=
  p.inline fun op => ask (S := S.sum T) (.inr op)

/-- The same with a state that the serving code keeps between requests. -/
def interp (h : (op : S.Op) → ρ → Prog T (S.Ans op × ρ)) :
    Prog S α → ρ → Prog T (α × ρ)
  | .ret a, s => .ret (a, s)
  | .call op k, s => (h op s).bind fun x => (k x.1).interp h x.2

/-- Run a program against a device with exactly one answer to each request. -/
def run (h : (op : S.Op) → σ → S.Ans op × σ) : Prog S α → σ → α × σ
  | .ret a, s => (a, s)
  | .call op k, s => (k (h op s).1).run h (h op s).2

/-- The transcript of that run. -/
def trace (h : (op : S.Op) → σ → S.Ans op × σ) : Prog S α → σ → List (Event S)
  | .ret _, _ => []
  | .call op k, s => ⟨op, (h op s).1⟩ :: (k (h op s).1).trace h (h op s).2

/-- The value of a program whose requests are answered by a function. -/
def eval (f : (op : S.Op) → S.Ans op) : Prog S α → α
  | .ret a => a
  | .call op k => (k (f op)).eval f

@[simp] theorem eval_pure (f : (op : S.Op) → S.Ans op) (a : α) :
    (pure a : Prog S α).eval f = a := rfl

theorem eval_bind' (f : (op : S.Op) → S.Ans op) (p : Prog S α)
    (g : α → Prog S β) : (p.bind g).eval f = (g (p.eval f)).eval f := by
  induction p with
  | ret a => rfl
  | call op k ih => exact ih (f op)

@[simp] theorem eval_bind (f : (op : S.Op) → S.Ans op) (p : Prog S α)
    (g : α → Prog S β) : (p >>= g).eval f = (g (p.eval f)).eval f :=
  eval_bind' f p g

theorem eval_inline (f : (op : T.Op) → T.Ans op)
    (h : (op : S.Op) → Prog T (S.Ans op)) (p : Prog S α) :
    (p.inline h).eval f = p.eval fun op => (h op).eval f := by
  induction p with
  | ret a => rfl
  | call op k ih => rw [inline, eval_bind', ih]; rfl

/-- Answers to a sum from answers to its two halves. -/
def answerSum (f : (op : S.Op) → S.Ans op) (g : (op : T.Op) → T.Ans op) :
    (op : (S.sum T).Op) → (S.sum T).Ans op
  | .inl op => f op
  | .inr op => g op

theorem eval_left (f : (op : S.Op) → S.Ans op) (g : (op : T.Op) → T.Ans op)
    (p : Prog S α) : (p.left : Prog (S.sum T) α).eval (answerSum f g) = p.eval f :=
  eval_inline _ _ p

theorem eval_right (f : (op : S.Op) → S.Ans op) (g : (op : T.Op) → T.Ans op)
    (p : Prog T α) : (p.right : Prog (S.sum T) α).eval (answerSum f g) = p.eval g :=
  eval_inline _ _ p

theorem inline_bind (h : (op : S.Op) → Prog T (S.Ans op)) (p : Prog S α)
    (f : α → Prog S β) :
    (p.bind f).inline h = (p.inline h).bind fun a => (f a).inline h := by
  induction p with
  | ret a => rfl
  | call op k ih => simp only [call_bind, inline, bind_assoc, ih]

theorem inline_ask_bind (h : (op : S.Op) → Prog T (S.Ans op)) (op : S.Op)
    (f : S.Ans op → Prog S β) :
    (ask op >>= f).inline h = h op >>= fun r => (f r).inline h := rfl

theorem interp_bind (h : (op : S.Op) → ρ → Prog T (S.Ans op × ρ))
    (p : Prog S α) (f : α → Prog S β) (s : ρ) :
    (p.bind f).interp h s =
      (p.interp h s).bind fun x => (f x.1).interp h x.2 := by
  induction p generalizing s with
  | ret a => rfl
  | call op k ih => simp only [call_bind, interp, bind_assoc, ih]

theorem run_bind (h : (op : S.Op) → σ → S.Ans op × σ) (p : Prog S α)
    (f : α → Prog S β) (s : σ) :
    (p.bind f).run h s = (f (p.run h s).1).run h (p.run h s).2 := by
  induction p generalizing s with
  | ret a => rfl
  | call op k ih => exact ih _ _

end Prog

/-! ## Transcripts -/

variable {S T : Sig} {α β ρ σ τ : Type}

/-- `Runs p tr a`: answered as in `tr`, the program `p` makes exactly the
requests of `tr` and returns `a`. -/
inductive Runs : Prog S α → List (Event S) → α → Prop where
  | ret (a : α) : Runs (.ret a) [] a
  | call {op : S.Op} {k : S.Ans op → Prog S α} {tr : List (Event S)} {a : α}
      (r : S.Ans op) (h : Runs (k r) tr a) : Runs (.call op k) (⟨op, r⟩ :: tr) a

theorem runs_ret_iff {a b : α} {tr : List (Event S)} :
    Runs (.ret a) tr b ↔ tr = [] ∧ b = a := by
  constructor
  · intro h; cases h; exact ⟨rfl, rfl⟩
  · rintro ⟨rfl, rfl⟩; exact .ret _

theorem runs_call_iff {op : S.Op} {k : S.Ans op → Prog S α}
    {tr : List (Event S)} {a : α} :
    Runs (.call op k) tr a ↔
      ∃ r rest, tr = ⟨op, r⟩ :: rest ∧ Runs (k r) rest a := by
  constructor
  · intro h; cases h with | call r h => exact ⟨r, _, rfl, h⟩
  · rintro ⟨r, rest, rfl, h⟩; exact .call r h

theorem runs_bind_iff {p : Prog S α} {f : α → Prog S β}
    {tr : List (Event S)} {b : β} :
    Runs (p.bind f) tr b ↔
      ∃ tr₁ a tr₂, tr = tr₁ ++ tr₂ ∧ Runs p tr₁ a ∧ Runs (f a) tr₂ b := by
  induction p generalizing tr with
  | ret a =>
      constructor
      · intro h; exact ⟨[], a, tr, rfl, .ret a, h⟩
      · rintro ⟨tr₁, a', tr₂, rfl, h₁, h₂⟩
        obtain ⟨rfl, rfl⟩ := runs_ret_iff.mp h₁
        exact h₂
  | call op k ih =>
      simp only [Prog.call_bind, runs_call_iff, ih]
      constructor
      · rintro ⟨r, _, rfl, tr₁, a, tr₂, rfl, h₁, h₂⟩
        exact ⟨⟨op, r⟩ :: tr₁, a, tr₂, rfl, ⟨r, tr₁, rfl, h₁⟩, h₂⟩
      · rintro ⟨_, a, tr₂, rfl, ⟨r, rest, rfl, h₁⟩, h₂⟩
        exact ⟨r, rest ++ tr₂, rfl, rest, a, tr₂, rfl, h₁, h₂⟩

theorem runs_trace (h : (op : S.Op) → σ → S.Ans op × σ) (p : Prog S α) (s : σ) :
    Runs p (p.trace h s) (p.run h s).1 := by
  induction p generalizing s with
  | ret a => exact .ret a
  | call op k ih => exact .call _ (ih _ _)

theorem runs_ask_iff {op : S.Op} {f : S.Ans op → Prog S β}
    {tr : List (Event S)} {b : β} :
    Runs (Prog.ask op >>= f) tr b ↔
      ∃ r rest, tr = ⟨op, r⟩ :: rest ∧ Runs (f r) rest b := runs_call_iff

theorem runs_pure_iff {a b : α} {tr : List (Event S)} :
    Runs (pure a) tr b ↔ tr = [] ∧ b = a := runs_ret_iff

theorem runs_bind_iff' {p : Prog S α} {f : α → Prog S β}
    {tr : List (Event S)} {b : β} :
    Runs (p >>= f) tr b ↔
      ∃ tr₁ a tr₂, tr = tr₁ ++ tr₂ ∧ Runs p tr₁ a ∧ Runs (f a) tr₂ b :=
  runs_bind_iff

/-- Two runs of a program whose transcripts agree as far as they go are one. -/
theorem runs_prefix {p : Prog S α} {tr₁ tr₂ x y : List (Event S)} {a b : α}
    (h₁ : Runs p tr₁ a) (h₂ : Runs p tr₂ b) (h : tr₁ ++ x = tr₂ ++ y) :
    tr₁ = tr₂ ∧ a = b ∧ x = y := by
  induction p generalizing tr₁ tr₂ with
  | ret c =>
      obtain ⟨rfl, rfl⟩ := runs_ret_iff.mp h₁
      obtain ⟨rfl, rfl⟩ := runs_ret_iff.mp h₂
      exact ⟨rfl, rfl, h⟩
  | call op k ih =>
      obtain ⟨r₁, rest₁, rfl, hk₁⟩ := runs_call_iff.mp h₁
      obtain ⟨r₂, rest₂, rfl, hk₂⟩ := runs_call_iff.mp h₂
      rw [List.cons_append, List.cons_append] at h
      injection h with he hrest
      injection he with _ hr
      subst hr
      obtain ⟨rfl, rfl, rfl⟩ := ih r₁ hk₁ hk₂ hrest
      exact ⟨rfl, rfl, rfl⟩

/-- A request that was served by running a program, with the transcript of
that run. The record cannot be built around a transcript the serving program
does not have. -/
structure Served (h : (op : S.Op) → Prog T (S.Ans op)) where
  op : S.Op
  ans : S.Ans op
  sub : List (Event T)
  runs : Runs (h op) sub ans

def Served.event {h : (op : S.Op) → Prog T (S.Ans op)} (c : Served h) :
    Event S := ⟨c.op, c.ans⟩

/-- Every transcript of a composite program is the concatenation of the
transcripts of the requests its outer program made. -/
theorem runs_inline {h : (op : S.Op) → Prog T (S.Ans op)} {p : Prog S α}
    {tr : List (Event T)} {a : α} (hr : Runs (p.inline h) tr a) :
    ∃ calls : List (Served h),
      tr = calls.flatMap Served.sub ∧ Runs p (calls.map Served.event) a := by
  induction p generalizing tr with
  | ret b =>
      obtain ⟨rfl, rfl⟩ := runs_ret_iff.mp hr
      exact ⟨[], rfl, .ret _⟩
  | call op k ih =>
      obtain ⟨tr₁, r, tr₂, rfl, h₁, h₂⟩ := runs_bind_iff.mp hr
      obtain ⟨calls, rfl, hcalls⟩ := ih r h₂
      exact ⟨⟨op, r, tr₁, h₁⟩ :: calls, rfl, .call r hcalls⟩

/-- The converse: a transcript of the outer program, each request of which can be
served with the answer it got. -/
theorem runs_served {h : (op : S.Op) → Prog T (S.Ans op)} {p : Prog S α}
    {evs : List (Event S)} {a : α} (hr : Runs p evs a)
    (hs : ∀ e ∈ evs, ∃ sub, Runs (h e.op) sub e.ans) :
    ∃ calls : List (Served h), calls.map Served.event = evs ∧
      Runs (p.inline h) (calls.flatMap Served.sub) a := by
  induction hr with
  | ret a => exact ⟨[], rfl, .ret a⟩
  | @call op k rest a r _ ih =>
      obtain ⟨sub, hsub⟩ := hs ⟨op, r⟩ List.mem_cons_self
      obtain ⟨calls, hevs, hruns⟩ := ih fun e he => hs e (List.mem_cons_of_mem _ he)
      refine ⟨⟨op, r, sub, hsub⟩ :: calls, by rw [List.map_cons, hevs]; rfl, ?_⟩
      exact runs_bind_iff.mpr ⟨sub, r, _, rfl, hsub, hruns⟩

/-- The transcript of a request a composite made is a part of its own. -/
theorem served_infix {h : (op : S.Op) → Prog T (S.Ans op)}
    {calls : List (Served h)} {e : Event S}
    (he : e ∈ calls.map Served.event) :
    ∃ front sub back, calls.flatMap Served.sub = front ++ sub ++ back ∧
      Runs (h e.op) sub e.ans := by
  obtain ⟨c, hc, rfl⟩ := List.mem_map.mp he
  obtain ⟨front, back, rfl⟩ := List.append_of_mem hc
  refine ⟨front.flatMap Served.sub, c.sub, back.flatMap Served.sub, ?_, c.runs⟩
  simp only [List.flatMap_append, List.flatMap_cons, List.append_assoc]

/-- The transcript of the last request is the end of it. -/
theorem served_suffix {h : (op : S.Op) → Prog T (S.Ans op)}
    {calls : List (Served h)} {evs : List (Event S)} {e : Event S}
    (he : calls.map Served.event = evs ++ [e]) :
    ∃ front sub, calls.flatMap Served.sub = front ++ sub ∧
      Runs (h e.op) sub e.ans := by
  obtain ⟨front, last, rfl, -, hlast⟩ := List.map_eq_append_iff.mp he
  obtain ⟨c, rfl, rfl⟩ := List.map_eq_singleton_iff.mp hlast
  refine ⟨front.flatMap Served.sub, c.sub, ?_, c.runs⟩
  simp only [List.flatMap_append, List.flatMap_cons, List.flatMap_nil,
    List.append_nil]

/-- A composite with serving state, taken apart at a bind of the program it
serves. -/
theorem runs_interp_bind_iff {h : (op : S.Op) → ρ → Prog T (S.Ans op × ρ)}
    {p : Prog S α} {f : α → Prog S β} {s s' : ρ} {tr : List (Event T)} {b : β} :
    Runs ((p >>= f).interp h s) tr (b, s') ↔
      ∃ tr₁ a s₁ tr₂, tr = tr₁ ++ tr₂ ∧ Runs (p.interp h s) tr₁ (a, s₁) ∧
        Runs ((f a).interp h s₁) tr₂ (b, s') := by
  rw [Prog.bind_def, Prog.interp_bind, runs_bind_iff]
  constructor
  · rintro ⟨tr₁, ⟨a, s₁⟩, tr₂, htr, h₁, h₂⟩
    exact ⟨tr₁, a, s₁, tr₂, htr, h₁, h₂⟩
  · rintro ⟨tr₁, a, s₁, tr₂, htr, h₁, h₂⟩
    exact ⟨tr₁, ⟨a, s₁⟩, tr₂, htr, h₁, h₂⟩

/-- `ServedBy h s evs tr s'`: from the state `s` the requests of `evs` are
served in turn, with the transcript `tr`. -/
inductive ServedBy (h : (op : S.Op) → ρ → Prog T (S.Ans op × ρ)) :
    ρ → List (Event S) → List (Event T) → ρ → Prop where
  | nil (s : ρ) : ServedBy h s [] [] s
  | cons {s s₁ s' : ρ} {e : Event S} {evs : List (Event S)} {sub tr : List (Event T)}
      (hop : Runs (h e.op s) sub (e.ans, s₁)) (hrest : ServedBy h s₁ evs tr s') :
      ServedBy h s (e :: evs) (sub ++ tr) s'

/-- A served program is a program that was answered somehow. -/
theorem runs_interp {h : (op : S.Op) → ρ → Prog T (S.Ans op × ρ)}
    {p : Prog S α} {s s' : ρ} {tr : List (Event T)} {a : α}
    (hr : Runs (p.interp h s) tr (a, s')) :
    ∃ evs, Runs p evs a ∧ ServedBy h s evs tr s' := by
  induction p generalizing s tr with
  | ret b =>
      obtain ⟨rfl, he⟩ := runs_ret_iff.mp hr
      cases he
      exact ⟨[], .ret _, .nil _⟩
  | call op k ih =>
      obtain ⟨sub, x, tr', rfl, h₁, h₂⟩ := runs_bind_iff.mp hr
      obtain ⟨evs, hk, hs⟩ := ih x.1 h₂
      exact ⟨⟨op, x.1⟩ :: evs, .call x.1 hk, .cons h₁ hs⟩

theorem ServedBy.split {h : (op : S.Op) → ρ → Prog T (S.Ans op × ρ)}
    {evs₁ evs₂ : List (Event S)} {s s' : ρ} {tr : List (Event T)}
    (hs : ServedBy h s (evs₁ ++ evs₂) tr s') :
    ∃ tr₁ s₁ tr₂, tr = tr₁ ++ tr₂ ∧ ServedBy h s evs₁ tr₁ s₁ ∧
      ServedBy h s₁ evs₂ tr₂ s' := by
  induction evs₁ generalizing s tr with
  | nil => exact ⟨[], s, tr, rfl, .nil s, hs⟩
  | cons e evs₁ ih =>
      cases hs with
      | cons hop hrest =>
          obtain ⟨tr₁, s₁, tr₂, rfl, h₁, h₂⟩ := ih hrest
          exact ⟨_, s₁, tr₂, (List.append_assoc _ _ _).symm, .cons hop h₁, h₂⟩

theorem runs_of_interp {h : (op : S.Op) → ρ → Prog T (S.Ans op × ρ)}
    {p : Prog S α} {s s' : ρ} {tr : List (Event T)} {a : α}
    (hr : Runs (p.interp h s) tr (a, s')) : ∃ tr', Runs p tr' a := by
  obtain ⟨evs, hp, -⟩ := runs_interp hr
  exact ⟨evs, hp⟩

/-- The requests of one signature are asked as they are in another one, where
the event of a request is its `lift`. -/
def Embeds (h : (op : S.Op) → Prog T (S.Ans op)) (lift : Event S → Event T) : Prop :=
  ∀ op tr r, Runs (h op) tr r → tr = [lift ⟨op, r⟩]

theorem runs_embed {h : (op : S.Op) → Prog T (S.Ans op)} {lift : Event S → Event T}
    (hh : Embeds h lift) {p : Prog S α} {tr : List (Event T)} {a : α}
    (hr : Runs (p.inline h) tr a) : ∃ tr', tr = tr'.map lift ∧ Runs p tr' a := by
  induction p generalizing tr with
  | ret b =>
      obtain ⟨rfl, rfl⟩ := runs_ret_iff.mp hr
      exact ⟨[], rfl, .ret _⟩
  | call op k ih =>
      obtain ⟨tr₁, r, tr₂, rfl, h₁, h₂⟩ := runs_bind_iff.mp hr
      obtain ⟨tr', rfl, h'⟩ := ih r h₂
      rw [hh op tr₁ r h₁]
      exact ⟨⟨op, r⟩ :: tr', rfl, .call r h'⟩

/-- A request of the left signature seen in a sum. -/
def Event.left (e : Event S) : Event (S.sum T) := ⟨.inl e.op, e.ans⟩

def Event.right (e : Event T) : Event (S.sum T) := ⟨.inr e.op, e.ans⟩

theorem embeds_left : Embeds (fun op => Prog.ask (S := S.sum T) (.inl op)) Event.left := by
  intro op tr r hr
  obtain ⟨r', rest, rfl, h⟩ := runs_call_iff.mp hr
  obtain ⟨rfl, rfl⟩ := runs_ret_iff.mp h
  rfl

theorem embeds_right :
    Embeds (fun op => Prog.ask (S := S.sum T) (.inr op)) Event.right := by
  intro op tr r hr
  obtain ⟨r', rest, rfl, h⟩ := runs_call_iff.mp hr
  obtain ⟨rfl, rfl⟩ := runs_ret_iff.mp h
  rfl

theorem runs_left {p : Prog S α} {tr : List (Event (S.sum T))} {a : α}
    (h : Runs (p.left) tr a) :
    ∃ tr', tr = tr'.map Event.left ∧ Runs p tr' a := runs_embed embeds_left h

theorem runs_right {p : Prog T α} {tr : List (Event (S.sum T))} {a : α}
    (h : Runs (p.right) tr a) :
    ∃ tr', tr = tr'.map Event.right ∧ Runs p tr' a := runs_embed embeds_right h

theorem Runs.left {p : Prog S α} {tr : List (Event S)} {a : α} (h : Runs p tr a) :
    Runs (S := S.sum T) p.left (tr.map Event.left) a := by
  induction h with
  | ret a => exact .ret a
  | call r _ ih => exact runs_call_iff.mpr ⟨r, _, rfl, ih⟩

theorem Runs.right {p : Prog T α} {tr : List (Event T)} {a : α} (h : Runs p tr a) :
    Runs (S := S.sum T) p.right (tr.map Event.right) a := by
  induction h with
  | ret a => exact .ret a
  | call r _ ih => exact runs_call_iff.mpr ⟨r, _, rfl, ih⟩

/-! ## Safety of every transcript

`Safe E p Q` holds when every request `p` can make, together with the answer
to it, satisfies `E`, and everything it can return satisfies `Q`. -/

def Safe (E : Event S → Prop) (p : Prog S α) (Q : α → Prop) : Prop :=
  ∀ tr a, Runs p tr a → (∀ e ∈ tr, E e) ∧ Q a

section Safe

variable {E : Event S → Prop}

theorem safe_pure {a : α} {Q : α → Prop} (h : Q a) :
    Safe E (pure a : Prog S α) Q := by
  intro tr b hr
  obtain ⟨rfl, rfl⟩ := runs_pure_iff.mp hr
  exact ⟨fun e he => absurd he List.not_mem_nil, h⟩

theorem safe_bind {p : Prog S α} {f : α → Prog S β} {R : α → Prop}
    {Q : β → Prop} (hp : Safe E p R) (hf : ∀ a, R a → Safe E (f a) Q) :
    Safe E (p >>= f) Q := by
  intro tr b hr
  obtain ⟨tr₁, a, tr₂, rfl, h₁, h₂⟩ := runs_bind_iff'.mp hr
  obtain ⟨he₁, ha⟩ := hp tr₁ a h₁
  obtain ⟨he₂, hb⟩ := hf a ha tr₂ b h₂
  exact ⟨fun e he => (List.mem_append.mp he).elim (he₁ e) (he₂ e), hb⟩

theorem safe_ask {op : S.Op} {f : S.Ans op → Prog S β} {Q : β → Prop}
    (h : ∀ r, E ⟨op, r⟩ ∧ Safe E (f r) Q) : Safe E (Prog.ask op >>= f) Q := by
  intro tr b hr
  obtain ⟨r, rest, rfl, h'⟩ := runs_ask_iff.mp hr
  obtain ⟨he, hb⟩ := (h r).2 rest b h'
  refine ⟨fun e hm => ?_, hb⟩
  rcases List.mem_cons.mp hm with rfl | hm
  · exact (h r).1
  · exact he e hm

theorem Safe.mono {E' : Event S → Prop} {p : Prog S α} {Q Q' : α → Prop}
    (h : Safe E p Q) (hE : ∀ e, E e → E' e) (hQ : ∀ a, Q a → Q' a) :
    Safe E' p Q' := fun tr a hr =>
  ⟨fun e he => hE e ((h tr a hr).1 e he), hQ a (h tr a hr).2⟩

end Safe

/-! ## What a program asks for -/

namespace Prog

/-- Every request `p` can make, whatever it is answered, is in `A`. -/
def Only (A : S.Op → Prop) : Prog S α → Prop
  | .ret _ => True
  | .call op k => A op ∧ ∀ r, (k r).Only A

theorem only_bind {A : S.Op → Prop} {p : Prog S α} {f : α → Prog S β}
    (hp : p.Only A) (hf : ∀ a, (f a).Only A) : (p.bind f).Only A := by
  induction p with
  | ret a => exact hf a
  | call op k ih => exact ⟨hp.1, fun r => ih r (hp.2 r)⟩

theorem only_true (p : Prog S α) : p.Only fun _ => True := by
  induction p with
  | ret a => trivial
  | call op k ih => exact ⟨trivial, ih⟩

/-- What serves the requests of a program makes all of its own. -/
theorem only_inline {A : S.Op → Prop} {B : T.Op → Prop}
    {h : (op : S.Op) → Prog T (S.Ans op)} (hh : ∀ op, A op → (h op).Only B)
    {p : Prog S α} (hp : p.Only A) : (p.inline h).Only B := by
  induction p with
  | ret a => trivial
  | call op k ih => exact only_bind (hh op hp.1) fun r => ih r (hp.2 r)

theorem only_interp {A : S.Op → Prop} {B : T.Op → Prop}
    {h : (op : S.Op) → ρ → Prog T (S.Ans op × ρ)}
    (hh : ∀ op s, A op → (h op s).Only B) {p : Prog S α} (hp : p.Only A)
    (s : ρ) : (p.interp h s).Only B := by
  induction p generalizing s with
  | ret a => trivial
  | call op k ih => exact only_bind (hh op s hp.1) fun x => ih x.1 (hp.2 x.1) x.2

end Prog

/-- What every request of the program leaves of the serving state and asks in
turn is what the program leaves and asks. -/
theorem runs_interp_inv {A : S.Op → Prop} {I : ρ → Prop} {E : Event T → Prop}
    {h : (op : S.Op) → ρ → Prog T (S.Ans op × ρ)}
    (hh : ∀ op s tr r s', A op → I s → Runs (h op s) tr (r, s') →
      I s' ∧ ∀ e ∈ tr, E e) {p : Prog S α} (hp : p.Only A)
    {s s' : ρ} {tr : List (Event T)} {a : α} (hI : I s)
    (hr : Runs (p.interp h s) tr (a, s')) : I s' ∧ ∀ e ∈ tr, E e := by
  induction p generalizing s tr with
  | ret b =>
      obtain ⟨rfl, he⟩ := runs_ret_iff.mp hr
      cases he
      exact ⟨hI, fun e he => absurd he List.not_mem_nil⟩
  | call op k ih =>
      obtain ⟨tr₁, ⟨r, s₁⟩, tr₂, rfl, h₁, h₂⟩ := runs_bind_iff.mp hr
      obtain ⟨hI₁, he₁⟩ := hh op s tr₁ r s₁ hp.1 hI h₁
      obtain ⟨hI', he₂⟩ := ih r (hp.2 r) hI₁ h₂
      exact ⟨hI', fun e he => (List.mem_append.mp he).elim (he₁ e) (he₂ e)⟩

theorem exists_runs (hne : ∀ op, Nonempty (S.Ans op)) (p : Prog S α) :
    ∃ tr a, Runs p tr a := by
  induction p with
  | ret a => exact ⟨[], a, .ret a⟩
  | call op k ih =>
      obtain ⟨r⟩ := hne op
      obtain ⟨tr, a, h⟩ := ih r
      exact ⟨_, a, .call r h⟩

/-- What holds of the requests of every transcript holds of the requests of
the program, when no request is without an answer. -/
theorem Safe.only (hne : ∀ op, Nonempty (S.Ans op)) {A : S.Op → Prop}
    {p : Prog S α} {Q : α → Prop} (h : Safe (fun e => A e.op) p Q) :
    p.Only A := by
  induction p with
  | ret a => trivial
  | call op k ih =>
      refine ⟨?_, fun r => ih r fun tr a hr => ?_⟩
      · obtain ⟨r⟩ := hne op
        obtain ⟨tr, a, hr⟩ := exists_runs hne (k r)
        exact (h _ a (.call r hr)).1 _ List.mem_cons_self
      · obtain ⟨he, ha⟩ := h _ a (.call r hr)
        exact ⟨fun e hm => he e (List.mem_cons_of_mem _ hm), ha⟩

/-! ## What follows from trusted answers

`Given E p Q` holds when `p` returns in `Q` as long as every answer it gets
satisfies `E`. -/

def Given (E : Event S → Prop) (p : Prog S α) (Q : α → Prop) : Prop :=
  ∀ tr a, Runs p tr a → (∀ e ∈ tr, E e) → Q a

section Given

variable {E : Event S → Prop}

theorem given_pure {a : α} {Q : α → Prop} (h : Q a) :
    Given E (pure a : Prog S α) Q := by
  intro tr b hr _
  obtain ⟨rfl, rfl⟩ := runs_pure_iff.mp hr
  exact h

theorem given_bind {p : Prog S α} {f : α → Prog S β} {R : α → Prop}
    {Q : β → Prop} (hp : Given E p R) (hf : ∀ a, R a → Given E (f a) Q) :
    Given E (p >>= f) Q := by
  intro tr b hr he
  obtain ⟨tr₁, a, tr₂, rfl, h₁, h₂⟩ := runs_bind_iff'.mp hr
  refine hf a (hp tr₁ a h₁ fun e hm => ?_) tr₂ b h₂ fun e hm => ?_
  · exact he e (List.mem_append_left _ hm)
  · exact he e (List.mem_append_right _ hm)

theorem given_ask {op : S.Op} {f : S.Ans op → Prog S β} {Q : β → Prop}
    (h : ∀ r, E ⟨op, r⟩ → Given E (f r) Q) : Given E (Prog.ask op >>= f) Q := by
  intro tr b hr he
  obtain ⟨r, rest, rfl, h'⟩ := runs_ask_iff.mp hr
  exact h r (he _ List.mem_cons_self) rest b h' fun e hm =>
    he e (List.mem_cons_of_mem _ hm)

theorem Given.mono {p : Prog S α} {Q Q' : α → Prop} (h : Given E p Q)
    (hQ : ∀ a, Q a → Q' a) : Given E p Q' :=
  fun tr a hr he => hQ a (h tr a hr he)

end Given

/-- The transcript of a program whose requests are answered by a function. -/
theorem runs_eval (f : (op : S.Op) → S.Ans op) (p : Prog S α) :
    ∃ tr, Runs p tr (p.eval f) ∧ ∀ e ∈ tr, e.ans = f e.op := by
  induction p with
  | ret a => exact ⟨[], .ret a, fun e he => absurd he List.not_mem_nil⟩
  | call op k ih =>
      obtain ⟨tr, hr, he⟩ := ih (f op)
      refine ⟨⟨op, f op⟩ :: tr, .call (f op) hr, fun e hm => ?_⟩
      rcases List.mem_cons.mp hm with rfl | hm
      · rfl
      · exact he e hm

theorem Given.eval {E : Event S → Prop} {p : Prog S α} {Q : α → Prop}
    (h : Given E p Q) {f : (op : S.Op) → S.Ans op} (hf : ∀ op, E ⟨op, f op⟩) :
    Q (p.eval f) := by
  obtain ⟨tr, hr, he⟩ := runs_eval f p
  refine h tr _ hr fun e hm => ?_
  obtain ⟨op, ans⟩ := e
  have hans : ans = f op := he _ hm
  rw [hans]
  exact hf op

/-! ## Devices that may fail, and may be switched off -/

/-- How a device of state `σ` may answer a request, and where the request may
leave it when it is cut before answering. -/
structure Handler (S : Sig) (σ : Type) where
  step : (op : S.Op) → σ → S.Ans op → σ → Prop
  cut : (op : S.Op) → σ → σ → Prop

/-- Two devices over one state, side by side. -/
def Handler.sum (H : Handler S σ) (G : Handler T σ) : Handler (S.sum T) σ where
  step
    | .inl op => H.step op
    | .inr op => G.step op
  cut
    | .inl op => H.cut op
    | .inr op => G.cut op

/-- One execution against a device. The result is `none` when the power went
during a request. -/
inductive Exec (H : Handler S σ) : Prog S α → σ → Option α → σ → Prop where
  | ret (a : α) (s : σ) : Exec H (.ret a) s (some a) s
  | call {op : S.Op} {k : S.Ans op → Prog S α} {s s' s'' : σ} {r : S.Ans op}
      {o : Option α} (hs : H.step op s r s') (h : Exec H (k r) s' o s'') :
      Exec H (.call op k) s o s''
  | cut {op : S.Op} {k : S.Ans op → Prog S α} {s s' : σ}
      (hc : H.cut op s s') : Exec H (.call op k) s none s'

/-- The weakest precondition of a program: every answer leads to a return in
`Q`, and every cut leaves a state in `K`. -/
def wp (H : Handler S σ) (K : σ → Prop) :
    Prog S α → (α → σ → Prop) → σ → Prop
  | .ret a, Q, s => Q a s
  | .call op k, Q, s =>
      (∀ s', H.cut op s s' → K s') ∧
        ∀ r s', H.step op s r s' → wp H K (k r) Q s'

section Rules

variable {H : Handler S σ} {K : σ → Prop}

@[simp] theorem wp_pure {a : α} {Q : α → σ → Prop} {s : σ} :
    wp H K (pure a : Prog S α) Q s ↔ Q a s := Iff.rfl

theorem wp_call {op : S.Op} {k : S.Ans op → Prog S α} {Q : α → σ → Prop}
    {s : σ} :
    wp H K (.call op k) Q s ↔
      (∀ s', H.cut op s s' → K s') ∧
        ∀ r s', H.step op s r s' → wp H K (k r) Q s' := Iff.rfl

theorem wp_ask {op : S.Op} {Q : S.Ans op → σ → Prop} {s : σ} :
    wp H K (Prog.ask op) Q s ↔
      (∀ s', H.cut op s s' → K s') ∧ ∀ r s', H.step op s r s' → Q r s' :=
  Iff.rfl

theorem wp_bind {p : Prog S α} {f : α → Prog S β} {Q : β → σ → Prop} {s : σ} :
    wp H K (p.bind f) Q s ↔ wp H K p (fun a => wp H K (f a) Q) s := by
  induction p generalizing s with
  | ret a => exact Iff.rfl
  | call op k ih => simp only [Prog.call_bind, wp_call, ih]

theorem wp_bind' {p : Prog S α} {f : α → Prog S β} {Q : β → σ → Prop} {s : σ} :
    wp H K (p >>= f) Q s ↔ wp H K p (fun a => wp H K (f a) Q) s := wp_bind

theorem wp_ask_bind {op : S.Op} {f : S.Ans op → Prog S β} {Q : β → σ → Prop}
    {s : σ} :
    wp H K (Prog.ask op >>= f) Q s ↔
      (∀ s', H.cut op s s' → K s') ∧
        ∀ r s', H.step op s r s' → wp H K (f r) Q s' := Iff.rfl

theorem wp_mono {K' : σ → Prop} {p : Prog S α} {Q Q' : α → σ → Prop} {s : σ}
    (h : wp H K p Q s) (hK : ∀ s, K s → K' s) (hQ : ∀ a s, Q a s → Q' a s) :
    wp H K' p Q' s := by
  induction p generalizing s with
  | ret a => exact hQ a s h
  | call op k ih =>
      exact ⟨fun s' hc => hK s' (h.1 s' hc), fun r s' hs => ih r (h.2 r s' hs)⟩

theorem wp_post {p : Prog S α} {Q Q' : α → σ → Prop} {s : σ}
    (h : wp H K p Q s) (hQ : ∀ a s, Q a s → Q' a s) : wp H K p Q' s :=
  wp_mono h (fun _ hk => hk) hQ

theorem wp_and {K' : σ → Prop} {p : Prog S α} {Q Q' : α → σ → Prop} {s : σ}
    (h : wp H K p Q s) (h' : wp H K' p Q' s) :
    wp H (fun s => K s ∧ K' s) p (fun a s => Q a s ∧ Q' a s) s := by
  induction p generalizing s with
  | ret a => exact ⟨h, h'⟩
  | call op k ih =>
      exact ⟨fun s' hc => ⟨h.1 s' hc, h'.1 s' hc⟩,
        fun r s' hs => ih r (h.2 r s' hs) (h'.2 r s' hs)⟩

/-- A program that uses one of two devices sees only that one. -/
theorem wp_left {G : Handler T σ} {p : Prog S α} {Q : α → σ → Prop} {s : σ} :
    wp (H.sum G) K p.left Q s ↔ wp H K p Q s := by
  induction p generalizing s with
  | ret a => exact Iff.rfl
  | call op k ih =>
      exact and_congr Iff.rfl (forall_congr' fun r => forall_congr' fun s' =>
        imp_congr Iff.rfl (ih r))

theorem wp_right {G : Handler T σ} {p : Prog T α} {Q : α → σ → Prop} {s : σ} :
    wp (H.sum G) K p.right Q s ↔ wp G K p Q s := by
  induction p generalizing s with
  | ret a => exact Iff.rfl
  | call op k ih =>
      exact and_congr Iff.rfl (forall_congr' fun r => forall_congr' fun s' =>
        imp_congr Iff.rfl (ih r))

/-- The weakest precondition is what it is called: it holds exactly when every
execution ends well, returning or cut. -/
theorem wp_iff_exec {p : Prog S α} {Q : α → σ → Prop} {s : σ} :
    wp H K p Q s ↔
      (∀ a s', Exec H p s (some a) s' → Q a s') ∧
        ∀ s', Exec H p s none s' → K s' := by
  induction p generalizing s with
  | ret a =>
      constructor
      · intro h
        constructor
        · intro b s' he; cases he; exact h
        · intro s' he; cases he
      · intro h; exact h.1 a s (.ret a s)
  | call op k ih =>
      simp only [wp_call, ih]
      constructor
      · intro h
        constructor
        · intro a s' he
          cases he with | call hs he => exact (h.2 _ _ hs).1 a s' he
        · intro s' he
          cases he with
          | call hs he => exact (h.2 _ _ hs).2 s' he
          | cut hc => exact h.1 s' hc
      · intro h
        exact ⟨fun s' hc => h.2 s' (.cut hc), fun r s' hs =>
          ⟨fun a s'' he => h.1 a s'' (.call hs he),
            fun s'' he => h.2 s'' (.call hs he)⟩⟩

theorem Exec.post {p : Prog S α} {Q : α → σ → Prop} {s s' : σ} {a : α}
    (he : Exec H p s (some a) s') (h : wp H K p Q s) : Q a s' :=
  (wp_iff_exec.mp h).1 a s' he

theorem Exec.crash {p : Prog S α} {Q : α → σ → Prop} {s s' : σ}
    (he : Exec H p s none s') (h : wp H K p Q s) : K s' :=
  (wp_iff_exec.mp h).2 s' he

/-- A device that may answer as `h` does executes what `h` runs. -/
theorem exec_run {h : (op : S.Op) → σ → S.Ans op × σ}
    (hh : ∀ op s, H.step op s (h op s).1 (h op s).2) (p : Prog S α) (s : σ) :
    Exec H p s (some (p.run h s).1) (p.run h s).2 := by
  induction p generalizing s with
  | ret a => exact .ret a s
  | call op k ih => exact .call (hh op s) (ih (h op s).1 (h op s).2)

/-- Seen through `π`, the device `H` does no more than the device `G` may do. -/
structure Handler.Views (H : Handler S σ) (G : Handler S τ) (π : σ → τ) : Prop where
  step : ∀ op s r s', H.step op s r s' → G.step op (π s) r (π s')
  cut : ∀ op s s', H.cut op s s' → G.cut op (π s) (π s')

theorem Exec.view {G : Handler S τ} {π : σ → τ} (hv : H.Views G π)
    {p : Prog S α} {s s' : σ} {o : Option α} (he : Exec H p s o s') :
    Exec G p (π s) o (π s') := by
  induction he with
  | ret a s => exact .ret a (π s)
  | call hs _ ih => exact .call (hv.step _ _ _ _ hs) ih
  | cut hc => exact .cut (hv.cut _ _ _ hc)

/-- Passing callbacks. If on every state in `I` the serving code does, seen
through the view `π`, no more than the device `G` may do, and stays in `I`,
then a specification against `G` holds of the composite. -/
theorem wp_interp {G : Handler T σ} {J : Handler S τ}
    {h : (op : S.Op) → ρ → Prog T (S.Ans op × ρ)} {I : ρ → σ → Prop}
    {π : σ → τ} {K' : τ → Prop}
    (hserve : ∀ op r s, I r s →
      wp G (fun s' => J.cut op (π s) (π s'))
        (h op r) (fun x s' => J.step op (π s) x.1 (π s') ∧ I x.2 s') s)
    {p : Prog S α} {Q : α → τ → Prop} {r : ρ} {s : σ} (hI : I r s)
    (hp : wp J K' p Q (π s)) :
    wp G (fun s' => K' (π s')) (p.interp h r)
      (fun x s' => Q x.1 (π s') ∧ I x.2 s') s := by
  induction p generalizing r s with
  | ret a => exact ⟨hp, hI⟩
  | call op k ih =>
      rw [Prog.interp, wp_bind]
      exact wp_mono (hserve op r s hI) (fun s' hc => hp.1 _ hc)
        (fun x s' hx => ih x.1 hx.2 (hp.2 _ _ hx.1))

/-- What every request of a program preserves, the program preserves. -/
theorem wp_only {A : S.Op → Prop} {I : σ → Prop}
    (hstep : ∀ op s r s', A op → I s → H.step op s r s' → I s')
    (hcut : ∀ op s s', A op → I s → H.cut op s s' → K s') {p : Prog S α}
    (hp : p.Only A) {s : σ} (hI : I s) : wp H K p (fun _ s' => I s') s := by
  induction p generalizing s with
  | ret a => exact hI
  | call op k ih =>
      exact ⟨fun s' hc => hcut op s s' hp.1 hI hc, fun r s' hs =>
        ih r (hp.2 r) (hstep op s r s' hp.1 hI hs)⟩

end Rules

/-- A device all of whose answers are trusted, as long as it stays in `I`. -/
theorem wp_of_given {H : Handler S σ} {K : σ → Prop} {E : Event S → Prop}
    {I : σ → Prop}
    (hstep : ∀ op s r s', I s → H.step op s r s' → E ⟨op, r⟩ ∧ I s')
    (hcut : ∀ op s s', I s → H.cut op s s' → K s') {p : Prog S α}
    {Q : α → Prop} (h : Given E p Q) {s : σ} (hI : I s) :
    wp H K p (fun a s' => Q a ∧ I s') s := by
  induction p generalizing s with
  | ret a => exact ⟨h [] a (.ret a) fun e he => absurd he List.not_mem_nil, hI⟩
  | call op k ih =>
      refine ⟨fun s' hc => hcut op s s' hI hc, fun r s' hs => ?_⟩
      obtain ⟨he, hI'⟩ := hstep op s r s' hI hs
      refine ih r (fun tr a hr htr => h (⟨op, r⟩ :: tr) a (.call r hr) ?_) hI'
      intro e hm
      rcases List.mem_cons.mp hm with rfl | hm
      · exact he
      · exact htr e hm

/-- A device that may answer anything, and never moves. -/
def Handler.any : Handler S σ where
  step _ s _ s' := s' = s
  cut _ _ _ := False

theorem wp_any {K : σ → Prop} {E : Event S → Prop} {p : Prog S α} {P : α → Prop}
    {Q : α → σ → Prop} {s : σ} (h : Safe E p P) (hQ : ∀ a, P a → Q a s) :
    wp .any K p Q s := by
  have hall : ∀ tr a, Runs p tr a → Q a s := fun tr a hr => hQ a (h tr a hr).2
  clear h hQ
  induction p with
  | ret a => exact hall [] a (.ret a)
  | call op k ih =>
      refine ⟨fun _ hc => hc.elim, fun r s' hs => ?_⟩
      obtain rfl : s' = s := hs
      exact ih r fun tr a hr => hall _ a (.call r hr)

/-! ## Devices with one answer -/

/-- The device that always answers as `h` does and is never cut. -/
def Handler.ofFun (h : (op : S.Op) → σ → S.Ans op × σ) : Handler S σ where
  step op s r s' := h op s = (r, s')
  cut _ _ _ := False

/-- The device that answers as `h` does whatever is `fit`, and anything else as
it likes. -/
def Handler.obliging (fit : S.Op → σ → Prop)
    (h : (op : S.Op) → σ → S.Ans op × σ) : Handler S σ where
  step op s r s' := fit op s → h op s = (r, s')
  cut _ _ _ := False

section Obliging

variable {fit : S.Op → σ → Prop} {h : (op : S.Op) → σ → S.Ans op × σ} {K : σ → Prop}

theorem wp_obliging {op : S.Op} {f : S.Ans op → Prog S β} {Q : β → σ → Prop} {s : σ}
    (hf : fit op s) (hk : wp (.obliging fit h) K (f (h op s).1) Q (h op s).2) :
    wp (.obliging fit h) K (Prog.ask op >>= f) Q s := by
  refine wp_ask_bind.mpr ⟨fun _ hc => hc.elim, fun r s' hs => ?_⟩
  have hr := hs hf
  rwa [hr] at hk

/-- A program that asks for fit things only, on a device that never moves. -/
theorem wp_obliging_only {A : S.Op → Prop} {f : σ → (op : S.Op) → S.Ans op}
    {p : Prog S α} (hp : p.Only A) {s : σ} :
    wp (.obliging (fun op _ => A op) fun op s => (f s op, s)) K p
      (fun a s' => s' = s ∧ a = p.eval (f s)) s := by
  induction p with
  | ret a => exact ⟨rfl, rfl⟩
  | call op k ih => exact wp_obliging hp.1 (ih _ (hp.2 _))

theorem wp_answer {op : S.Op} {f : S.Ans op → Prog S β} {Q : β → σ → Prop} {s : σ}
    (hk : wp (.ofFun h) K (f (h op s).1) Q (h op s).2) :
    wp (.ofFun h) K (Prog.ask op >>= f) Q s := by
  refine wp_ask_bind.mpr ⟨fun _ hc => hc.elim, fun r s' hs => ?_⟩
  have hr : h op s = (r, s') := hs
  rwa [hr] at hk

end Obliging

/-- Wherever a run moves its device it may be cut: there is a last request that
did, and it may be the one the power goes in. -/
theorem exec_cut_last {H : Handler S σ} {h : (op : S.Op) → σ → S.Ans op × σ}
    (hh : ∀ op s, H.step op s (h op s).1 (h op s).2) {p : Prog S α} {s : σ}
    (hmoved : (p.run h s).2 ≠ s) :
    ∃ op s₁, (h op s₁).2 = (p.run h s).2 ∧
      ∀ s', H.cut op s₁ s' → Exec H p s none s' := by
  induction p generalizing s with
  | ret a => exact absurd rfl hmoved
  | call op k ih =>
      by_cases hrest : ((k (h op s).1).run h (h op s).2).2 = (h op s).2
      · exact ⟨op, s, hrest.symm, fun s' hc => .cut hc⟩
      · obtain ⟨op', s₁, hs₁, hcut⟩ := ih _ hrest
        exact ⟨op', s₁, hs₁, fun s' hc => .call (hh op s) (hcut s' hc)⟩

/-- A run of a device all of whose answers are allowed where they are given. -/
def Prog.allowed (ok : S.Op → σ → Bool)
    (h : (op : S.Op) → σ → S.Ans op × σ) : Prog S α → σ → Bool
  | .ret _, _ => true
  | .call op k, s => ok op s && (k (h op s).1).allowed ok h (h op s).2

theorem exec_allowed {H : Handler S σ} {ok : S.Op → σ → Bool}
    {h : (op : S.Op) → σ → S.Ans op × σ}
    (hh : ∀ op s, ok op s = true → H.step op s (h op s).1 (h op s).2) {p : Prog S α} {s : σ}
    (hp : p.allowed ok h s = true) : Exec H p s (some (p.run h s).1) (p.run h s).2 := by
  induction p generalizing s with
  | ret a => exact .ret a s
  | call op k ih =>
      rw [Prog.allowed, Bool.and_eq_true] at hp
      exact .call (hh op s hp.1) (ih (h op s).1 hp.2)

end Interact

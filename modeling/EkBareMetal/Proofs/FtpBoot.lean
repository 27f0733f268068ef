import EkBareMetal.Ftp.Boot
import EkBareMetal.Proofs.Phases
import EkBareMetal.Proofs.FtpPairing
import EkBareMetal.Proofs.Reachable

/-!
# The firmware operation

The object behind the operation interface is called by a core that may end a
session at any moment, and its services call back into it. `entered` makes the
second harmless: every request is made while it is set, and a call that finds
it set returns at once. What is left is the order of the calls from the
outside, and `Bound` is what holds between two of them: how the flags of the
object, the phase of the receiver and what the caller has been told agree.
-/

namespace EkBareMetal.Ftp

open Words Interact Boot Transition

/-! ## The guard -/

/-- The answer of a call that is turned away. -/
def Refuses : (op : OperationOp) → OperationSig.Ans op → Prop
  | .matchesName _ _, _ => True
  | .begin _ _, r => r = none
  | .feed _, r => r = (.error, 0)
  | .eof, r => r = false
  | .step, r => r = .error
  | .finish, _ => True

/-- A call is inside. -/
def Entered (b : FtpBoot) : Prop := b.entered = true

section Guard

variable {b b' : FtpBoot} {tr : List (Event ServiceSig)} {op : OperationOp}

theorem entered_refuses (hb : Entered b) {r : OperationSig.Ans op}
    (h : Reenters FtpBoot.api (FtpBoot.ops op) b tr r b') :
    tr = [] ∧ b' = b ∧ Refuses op r := by
  cases op with
  | matchesName path upload =>
      obtain ⟨rfl, -, rfl⟩ := reenters_pure_iff.mp h
      exact ⟨rfl, rfl, trivial⟩
  | begin path upload =>
      have h := reenters_load_iff.mp h
      rw [if_pos (.inl hb)] at h
      obtain ⟨rfl, rfl, rfl⟩ := reenters_pure_iff.mp h
      exact ⟨rfl, rfl, rfl⟩
  | feed bytes =>
      have h := reenters_load_iff.mp h
      rw [if_pos (.inl hb)] at h
      obtain ⟨rfl, rfl, rfl⟩ := reenters_pure_iff.mp h
      exact ⟨rfl, rfl, rfl⟩
  | eof =>
      have h := reenters_load_iff.mp h
      rw [if_pos (.inl hb)] at h
      obtain ⟨rfl, rfl, rfl⟩ := reenters_pure_iff.mp h
      exact ⟨rfl, rfl, rfl⟩
  | step =>
      have h := reenters_load_iff.mp h
      rw [if_pos (.inl hb)] at h
      obtain ⟨rfl, rfl, rfl⟩ := reenters_pure_iff.mp h
      exact ⟨rfl, rfl, rfl⟩
  | finish =>
      have h := reenters_load_iff.mp h
      rw [if_pos (.inl hb)] at h
      obtain ⟨rfl, -, rfl⟩ := reenters_pure_iff.mp h
      exact ⟨rfl, rfl, trivial⟩

theorem closed_entered (hb : Entered b) : Closed FtpBoot.api b := by
  intro op tr r b' h
  obtain ⟨tr₁, a, b₁, tr₂, rfl, hop, hret⟩ := reenters_bind_iff.mp h
  obtain ⟨rfl, rfl, -⟩ := entered_refuses hb hop
  obtain ⟨rfl, -, rfl⟩ := reenters_pure_iff.mp hret
  exact ⟨rfl, rfl⟩

/-- Every request of the program is made inside, and it returns inside. -/
abbrev Inside {α : Type} (p : BindingProg α) (b : FtpBoot) : Prop :=
  p.Guarded Entered (fun _ => Entered) b

theorem entered_enter (b : FtpBoot) : Entered { b with entered := true } := rfl

theorem inside_receiveResult (hb : Entered b) {r : BootReceiveResult} :
    Inside (Binding.receiveResult r) b := hb

theorem inside_beginText (hb : Entered b) {k : FtpBootKind} :
    Inside (Binding.beginText k) b := by
  refine guarded_load.mpr ?_
  split
  · exact hb
  refine guarded_ask.mpr ⟨hb, fun captured => ?_⟩
  cases captured with
  | error e => exact hb
  | ok snapshot =>
      dsimp only
      split
      · exact hb
      · exact hb

theorem inside_beginKind (hb : Entered b) {k : FtpBootKind} :
    Inside (Binding.beginKind k) b := by
  cases k with
  | firmware => exact ⟨hb, fun reply => hb⟩
  | confirm => exact hb
  | none => exact inside_beginText hb
  | status => exact inside_beginText hb
  | report => exact inside_beginText hb

theorem inside_feedActive (hb : Entered b) {bytes : List UInt8} :
    Inside (Binding.feedActive bytes) b := by
  refine guarded_load.mpr ?_
  split
  · refine guarded_ask.mpr ⟨hb, fun reply => ?_⟩
    exact guarded_bind (inside_receiveResult hb) fun r b' hb' => hb'
  split
  · exact hb
  · exact hb

theorem inside_eofActive (hb : Entered b) : Inside Binding.eofActive b := by
  refine guarded_load.mpr ?_
  split
  · refine guarded_ask.mpr ⟨hb, fun reply => ?_⟩
    exact guarded_bind (inside_receiveResult hb) fun r b' hb' => hb'
  · exact hb

theorem inside_stepActive (hb : Entered b) : Inside Binding.stepActive b := by
  refine guarded_load.mpr ?_
  split
  · refine guarded_ask.mpr ⟨hb, fun reply => guarded_modify.mpr ?_⟩
    split
    · exact hb
    · exact inside_receiveResult (r := reply.result) (b := { b with acceptance := _ }) hb
  split
  · refine guarded_load.mpr (guarded_modify.mpr ?_)
    split
    · exact hb
    · refine guarded_ask.mpr ⟨hb, fun result => guarded_ask.mpr ⟨hb, fun blocked => ?_⟩⟩
      refine guarded_modify.mpr ?_
      split
      · exact hb
      · exact hb
  · exact hb

theorem inside_finishActive (hb : Entered b) : Inside Binding.finishActive b := by
  refine guarded_load.mpr ?_
  split
  · exact ⟨hb, fun reply => hb⟩
  · exact hb

/-- Whatever a call asks for, it asks while it is inside. -/
theorem ops_guarded (op : OperationOp) (b : FtpBoot) :
    (FtpBoot.ops op).Guarded Entered (fun _ _ => True) b := by
  cases op with
  | matchesName path upload => trivial
  | begin path upload =>
      refine guarded_load.mpr ?_
      split
      · trivial
      split
      · trivial
      refine guarded_modify.mpr (guarded_modify.mpr ?_)
      refine guarded_bind (inside_beginKind (entered_enter { b with
        active := kind path upload, accepted := false, eof := false })) fun view b' hb' => ?_
      exact guarded_ask.mpr ⟨hb', fun blocked => trivial⟩
  | feed bytes =>
      refine guarded_load.mpr ?_
      split
      · trivial
      · exact guarded_modify.mpr
          (guarded_bind (inside_feedActive (entered_enter b)) fun r b' _ => trivial)
  | eof =>
      refine guarded_load.mpr ?_
      split
      · trivial
      · exact guarded_modify.mpr (guarded_modify.mpr
          (guarded_bind (inside_eofActive (entered_enter { b with eof := true })) fun r b' _ => trivial))
  | step =>
      refine guarded_load.mpr ?_
      split
      · trivial
      split
      · trivial
      · exact guarded_modify.mpr
          (guarded_bind (inside_stepActive (entered_enter b)) fun r b' _ => trivial)
  | finish =>
      refine guarded_load.mpr ?_
      split
      · trivial
      · exact guarded_modify.mpr
          (guarded_bind (inside_finishActive (entered_enter b)) fun r b' _ => trivial)

/-- Calls from inside do not show. -/
theorem reenters_ops {r : OperationSig.Ans op} :
    Reenters FtpBoot.api (FtpBoot.ops op) b tr r b' ↔
      Runs ((FtpBoot.ops op).held b) tr (r, b') :=
  reenters_held (fun _ => closed_entered) (ops_guarded op b)

end Guard

/-! ## The object and its receiver -/

/-- What the caller knows of a firmware upload under way: whether its end of
file was taken, and whether a step accepted it. -/
structure Upload where
  ended : Bool
  accepted : Bool
  deriving DecidableEq

/-- The upload under way after a call. -/
def uploadNext (m : Option Upload) (e : Event OperationSig) : Option Upload :=
  match e with
  | ⟨.begin path upload, view⟩ =>
      if kind path upload = .firmware ∧ Option.isSome (α := FtpStorageView) view then
        some ⟨false, false⟩
      else m
  | ⟨.eof, done⟩ => m.map fun u => { u with ended := u.ended || done }
  | ⟨.step, r⟩ =>
      m.map fun u => { u with accepted := u.accepted || r == FtpOperationResult.accepted }
  | ⟨.finish, _⟩ => none
  | _ => m

def aborts (e : Event ServiceSig) : Bool :=
  match e with
  | ⟨.receive .abort, _⟩ => true
  | _ => false

/-- Between two calls. -/
structure Bound (b : FtpBoot) (r : BootReceive) (m : Option Upload) : Prop where
  outside : b.entered = false
  active : b.active = .firmware ↔ m ≠ none
  used : m ≠ none → b.firmwareUsed = true
  fresh : b.firmwareUsed = false → r.phase = .new ∧ r.eof = false
  ended : Ended r
  accepted : b.accepted = true → b.active ≠ .none → b.eof = true
  upload : ∀ u ∈ m, b.accepted = u.accepted ∧ (r.eof = true → u.ended = true) ∧
    (u.ended = true → b.eof = true) ∧ (u.accepted = true → u.ended = true)
  dormant : (∀ u ∈ m, u.accepted = true) → Dormant r

/-- What a call was and did, seen from the object. -/
def Answered (b b' : FtpBoot) (m : Option Upload) (e : Event OperationSig) : Prop :=
  match e with
  | ⟨.matchesName _ _, _⟩ => b' = b
  | ⟨.begin path upload, view⟩ =>
      (view = (none : Option FtpStorageView) → b'.active = b.active) ∧
      (Option.isSome (α := FtpStorageView) view = true →
        b.active = .none ∧ b.quarantine = false ∧ b'.active ≠ .none ∧ b'.eof = false ∧
        (kind path upload = .firmware →
          b.firmwareUsed = false ∧ b'.firmwareUsed = true))
  | ⟨.feed _, _⟩ => b'.active = b.active ∧ b'.eof = b.eof
  | ⟨.eof, _⟩ => b'.active = b.active
  | ⟨.step, r⟩ => b'.active = b.active ∧ b'.eof = b.eof ∧
      (b.quarantine = true → r = FtpOperationResult.error) ∧
      (r = FtpOperationResult.accepted →
        b.active ≠ .none ∧ b.eof = true ∧ ∀ u ∈ m, u.ended = true)
  | ⟨.finish, _⟩ => b'.active = .none

/-- What a call leaves, and how often it aborts the receiver. -/
structure Advanced (b : FtpBoot) (m : Option Upload) (e : Event OperationSig) (n : Nat)
    (b' : FtpBoot) (r' : BootReceive) : Prop where
  bound : Bound b' r' (uploadNext m e)
  quarantine : b.quarantine = true → b'.quarantine = true
  reset : b.resetRequested = true → b'.resetRequested = true
  used : b.firmwareUsed = true → b'.firmwareUsed = true
  aborts : n = if e.op = .finish ∧ m.any (!·.accepted) then 1 else 0
  answered : Answered b b' m e

/-- Every run of the program on the object, the receiver answering as it does,
ends in `Q`, which is also told the number of aborts. -/
def Serves (C : Crypto) {α : Type} (p : BindingProg α) (b : FtpBoot) (r : BootReceive)
    (Q : Nat → α → FtpBoot → BootReceive → Prop) : Prop :=
  ∀ tr a b' r', Runs (p.held b) tr (a, b') → Receives C r tr r' →
    Q (tr.countP aborts) a b' r'

section Serves

variable {C : Crypto} {b b' : FtpBoot} {r r' : BootReceive} {α β : Type}
  {Q : Nat → β → FtpBoot → BootReceive → Prop}

theorem receives_nil_iff : Receives C r [] r' ↔ r' = r := by
  constructor
  · intro h
    cases h
    rfl
  · rintro rfl
    exact .nil _

theorem receives_append_iff {tr₁ tr₂ : List (Event ServiceSig)} :
    Receives C r (tr₁ ++ tr₂) r' ↔
      ∃ r₁, Receives C r tr₁ r₁ ∧ Receives C r₁ tr₂ r' := by
  induction tr₁ generalizing r with
  | nil =>
      constructor
      · exact fun h => ⟨r, .nil r, h⟩
      · rintro ⟨r₁, h₁, h₂⟩
        obtain rfl := receives_nil_iff.mp h₁
        exact h₂
  | cons e tr₁ ih =>
      constructor
      · intro h
        cases h with
        | other he h =>
            obtain ⟨r₁, h₁, h₂⟩ := ih.mp h
            exact ⟨r₁, .other he h₁, h₂⟩
        | call hc h =>
            obtain ⟨r₁, h₁, h₂⟩ := ih.mp h
            exact ⟨r₁, .call hc h₁, h₂⟩
      · rintro ⟨r₁, h₁, h₂⟩
        cases h₁ with
        | other he h => exact .other he (ih.mpr ⟨r₁, h, h₂⟩)
        | call hc h => exact .call hc (ih.mpr ⟨r₁, h, h₂⟩)

theorem serves_pure {a : β} (h : Q 0 a b r) : Serves C (pure a) b r Q := by
  intro tr a' b' r' hr hrecv
  obtain ⟨rfl, he⟩ := runs_pure_iff.mp hr
  cases he
  obtain rfl := receives_nil_iff.mp hrecv
  exact h

theorem serves_load {f : FtpBoot → BindingProg β} :
    Serves C (Prog.loadObj >>= f) b r Q ↔ Serves C (f b) b r Q := Iff.rfl

theorem serves_modify {g : FtpBoot → FtpBoot} {f : Unit → BindingProg β} :
    Serves C (Prog.modifyObj g >>= f) b r Q ↔ Serves C (f ()) (g b) r Q := Iff.rfl

theorem serves_receive {call : ReceiveCall} {f : ReceiveReply → BindingProg β}
    (h : ∀ reply sub, Runs (call.calls C r) sub reply →
      Serves C (f reply) b reply.receiver fun n =>
        Q (n + if aborts ⟨.receive call, reply⟩ then 1 else 0)) :
    Serves C (callService (.receive call) >>= f) b r Q := by
  intro tr a b' r' hr hrecv
  obtain ⟨reply, rest, rfl, hk⟩ := runs_ask_iff.mp hr
  cases hrecv with
  | other he _ => exact absurd rfl (he call)
  | call hc hrest =>
      have hq := h reply _ hc rest a b' r' hk hrest
      rw [List.countP_cons]
      exact hq

theorem serves_other {op : ServiceOp} {f : ServiceSig.Ans op → BindingProg β}
    (hop : ∀ call, op ≠ .receive call) (h : ∀ ans, Serves C (f ans) b r Q) :
    Serves C (callService op >>= f) b r Q := by
  intro tr a b' r' hr hrecv
  obtain ⟨ans, rest, rfl, hk⟩ := runs_ask_iff.mp hr
  cases hrecv with
  | call hc hrest => exact absurd rfl (hop _)
  | other he hrest =>
      have hq := h ans rest a b' r' hk hrest
      have hno : aborts ⟨op, ans⟩ = false := by
        cases op with
        | receive call => exact absurd rfl (hop call)
        | _ => rfl
      rw [List.countP_cons_of_neg (by rw [hno]; decide)]
      exact hq

theorem serves_bind {p : BindingProg α} {f : α → BindingProg β}
    (h : Serves C p b r fun n a b' r' => Serves C (f a) b' r' fun n' => Q (n + n')) :
    Serves C (p >>= f) b r Q := by
  intro tr a b' r' hr hrecv
  rw [held_bind] at hr
  obtain ⟨tr₁, ⟨a₁, b₁⟩, tr₂, rfl, h₁, h₂⟩ := runs_bind_iff'.mp hr
  obtain ⟨r₁, hr₁, hr₂⟩ := receives_append_iff.mp hrecv
  have hq := h tr₁ a₁ b₁ r₁ h₁ hr₁ tr₂ a b' r' h₂ hr₂
  rw [List.countP_append]
  exact hq

theorem Serves.mono {p : BindingProg β} {Q' : Nat → β → FtpBoot → BootReceive → Prop}
    (h : Serves C p b r Q') (hQ : ∀ n a b' r', Q' n a b' r' → Q n a b' r') :
    Serves C p b r Q := fun tr a b' r' hr hrecv => hQ _ a b' r' (h tr a b' r' hr hrecv)

end Serves

/-! ## One call -/

section Call

variable {C : Crypto} {b b' : FtpBoot} {r r' : BootReceive} {m : Option Upload}

/-- Five flags are all that `Bound` looks at. -/
theorem Bound.same (h : Bound b r m) (hentered : b'.entered = false)
    (hactive : b'.active = b.active) (hused : b'.firmwareUsed = b.firmwareUsed)
    (haccepted : b'.accepted = b.accepted) (heof : b'.eof = b.eof) : Bound b' r m where
  outside := hentered
  active := hactive ▸ h.active
  used := hused ▸ h.used
  fresh := hused ▸ h.fresh
  ended := h.ended
  accepted := by
    rw [haccepted, hactive, heof]
    exact h.accepted
  upload := by
    rw [haccepted, heof]
    exact h.upload
  dormant := h.dormant

/-- With nothing active there is no upload, and nothing is live. -/
theorem Bound.none (h : Bound b r m) (ha : b.active ≠ .firmware) :
    m = none ∧ Dormant r := by
  have hm : m = Option.none := by
    by_contra hne
    exact ha (h.active.mpr hne)
  refine ⟨hm, h.dormant ?_⟩
  rw [hm]
  nofun

/-- The upload that an active firmware operation is. -/
theorem Bound.some (h : Bound b r m) (ha : b.active = .firmware) : ∃ u, m = some u :=
  Option.ne_none_iff_exists'.mp (h.active.mp ha)

/-- A refused call. -/
theorem Advanced.refused {e : Event OperationSig} (h : Bound b r m)
    (hm : uploadNext m e = m) (hop : e.op ≠ .finish) (ha : Answered b b m e) :
    Advanced b m e 0 b r where
  bound := by rw [hm]; exact h
  quarantine := id
  reset := id
  used := id
  aborts := by rw [if_neg fun hc => hop hc.1]
  answered := ha

theorem uploadNext_eof : uploadNext m ⟨.eof, false⟩ = m := by
  cases m with
  | none => rfl
  | some u => exact congrArg (fun x => Option.some (Upload.mk x u.accepted)) (Bool.or_false _)

theorem uploadNext_step {a : FtpOperationResult} (ha : a ≠ .accepted) :
    uploadNext m ⟨.step, a⟩ = m := by
  cases m with
  | none => rfl
  | some u =>
      show Option.some (Upload.mk u.ended (u.accepted || a == .accepted)) = _
      rw [beq_eq_false_iff_ne.mpr ha, Bool.or_false]

/-- An accepted upload is accepted once more. -/
theorem uploadNext_again (h : ∀ u ∈ m, u.accepted = true) :
    uploadNext m ⟨.step, .accepted⟩ = m := by
  cases m with
  | none => rfl
  | some u =>
      obtain ⟨ended, accepted⟩ := u
      obtain rfl : accepted = true := h _ rfl
      rfl

theorem matchesName_serves {path : List UInt8} {upload : Bool} (h : Bound b r m) :
    Serves C (Binding.matchesName path upload) b r fun n a b' r' =>
      Advanced b m ⟨.matchesName path upload, a⟩ n b' r' :=
  serves_pure (.refused h rfl nofun rfl)

theorem beginText_serves {k : FtpBootKind} :
    Serves C (Binding.beginText k) b r fun n _ b' r' =>
      n = 0 ∧ r' = r ∧ ∃ text, b' = { b with status := text } := by
  refine serves_load.mpr ?_
  split
  · exact serves_pure ⟨rfl, rfl, b.status, rfl⟩
  refine serves_other nofun fun captured => ?_
  cases captured with
  | error e => exact serves_pure ⟨rfl, rfl, b.status, rfl⟩
  | ok snapshot =>
      dsimp only
      split
      · exact serves_pure ⟨rfl, rfl, b.status, rfl⟩
      · exact serves_modify.mpr (serves_pure ⟨rfl, rfl, _, rfl⟩)

theorem beginFirmware_serves (hphase : r.phase = .new) (heof : r.eof = false) :
    Serves C Binding.beginFirmware b r fun n view b' r' =>
      n = 0 ∧ r'.eof = false ∧ Ended r' ∧ (view = none → Dormant r') ∧
        ∃ q, b' = { b with firmwareUsed := true, quarantine := b.quarantine || q } := by
  refine serves_modify.mpr (serves_load.mpr (serves_receive fun reply sub hc => ?_))
  obtain ⟨-, heof', hended, hdormant⟩ := begin_phased hphase sub reply hc
  refine serves_modify.mpr (serves_pure ⟨rfl, heof'.trans heof, hended, ?_, _, rfl⟩)
  intro hview
  refine hdormant.resolve_left fun hok => ?_
  rw [if_pos hok] at hview
  cases hview

/-- What a begin leaves that was let in. -/
structure Begun (k : FtpBootKind) (b : FtpBoot) (view : Option FtpStorageView)
    (b' : FtpBoot) : Prop where
  entered : b'.entered = false
  active : b'.active = if view = none then .none else k
  used : b'.firmwareUsed = (b.firmwareUsed || k == .firmware)
  accepted : b'.accepted = false
  eof : b'.eof = false
  reset : b'.resetRequested = b.resetRequested
  quarantine : b.quarantine = true → b'.quarantine = true

theorem begin_let_in {path : List UInt8} {upload : Bool} (h : Bound b r m)
    (hused : kind path upload = .firmware → b.firmwareUsed = false) :
    Serves C (Binding.beginKind (kind path upload))
      { b with entered := true, active := kind path upload, accepted := false, eof := false }
      r fun n view b' r' =>
        n = 0 ∧ Begun (kind path upload) b view
          { b' with active := if view = none then .none else b'.active, entered := false } ∧
        Ended r' ∧
        (kind path upload = .firmware → r'.eof = false ∧ (view = none → Dormant r')) ∧
        (kind path upload ≠ .firmware → r' = r) := by
  cases hk : kind path upload with
  | firmware =>
      obtain ⟨hphase, heof⟩ := h.fresh (hused hk)
      intro tr view b' r' hr hrecv
      obtain ⟨hn, heof', hended, hdormant, q, rfl⟩ :=
        beginFirmware_serves hphase heof tr view b' r' hr hrecv
      refine ⟨hn, ⟨rfl, rfl, ?_, rfl, rfl, rfl, ?_⟩, hended, fun _ => ⟨heof', hdormant⟩,
        fun hne => absurd rfl hne⟩
      · exact (Bool.or_true _).symm
      · intro hq
        exact Bool.or_eq_true_iff.mpr (.inl hq)
  | confirm =>
      refine serves_modify.mpr (serves_pure ?_)
      exact ⟨rfl, ⟨rfl, rfl, (Bool.or_false _).symm, rfl, rfl, rfl, id⟩, h.ended, nofun,
        fun _ => rfl⟩
  | none | status | report =>
      intro tr view b' r' hr hrecv
      obtain ⟨hn, rfl, text, rfl⟩ := beginText_serves tr view b' r' hr hrecv
      exact ⟨hn, ⟨rfl, rfl, (Bool.or_false _).symm, rfl, rfl, rfl, id⟩, h.ended, nofun,
        fun _ => rfl⟩

/-- What agrees after a begin that was let in. -/
theorem Begun.bound {path : List UInt8} {upload : Bool} {view : Option FtpStorageView}
    (h : Bound b r m) (hactive : b.active = .none)
    (hb : Begun (kind path upload) b view b') (hended : Ended r')
    (hfirmware : kind path upload = .firmware →
      r'.eof = false ∧ (view = none → Dormant r'))
    (hother : kind path upload ≠ .firmware → r' = r) :
    Bound b' r' (uploadNext m ⟨.begin path upload, view⟩) := by
  obtain ⟨rfl, hdormant⟩ := h.none (by rw [hactive]; nofun)
  have haccepted {p : Prop} (hc : b'.accepted = true) : p := by
    rw [hb.accepted] at hc
    cases hc
  by_cases hk : kind path upload = .firmware
  · obtain ⟨heof, hstopped⟩ := hfirmware hk
    have hused : b'.firmwareUsed = true := by
      rw [hb.used, hk]
      exact Bool.or_true _
    have hfresh {p : Prop} (hc : b'.firmwareUsed = false) : p := by
      rw [hused] at hc
      cases hc
    cases view with
    | none =>
        have hnext : uploadNext none ⟨.begin path upload, none⟩ = none :=
          if_neg fun hc => nomatch hc.2
        rw [hnext]
        refine ⟨hb.entered, ?_, fun _ => hused, hfresh, hended, haccepted, nofun,
          fun _ => hstopped rfl⟩
        rw [hb.active, if_pos rfl]
        exact ⟨nofun, fun hne => absurd rfl hne⟩
    | some view =>
        have hnext : uploadNext none ⟨.begin path upload, some view⟩ =
            some ⟨false, false⟩ := if_pos ⟨hk, rfl⟩
        rw [hnext]
        refine ⟨hb.entered, ?_, fun _ => hused, hfresh, hended, haccepted, ?_, ?_⟩
        · rw [hb.active, if_neg nofun, hk]
          exact ⟨fun _ => nofun, fun _ => rfl⟩
        · intro u hu
          cases hu
          refine ⟨hb.accepted, fun hc => ?_, nofun, nofun⟩
          rw [heof] at hc
          cases hc
        · intro hall
          exact nomatch hall ⟨false, false⟩ rfl
  · have hnext : uploadNext none ⟨.begin path upload, view⟩ = none :=
      if_neg fun hc => hk hc.1
    obtain rfl := hother hk
    rw [hnext]
    refine ⟨hb.entered, ?_, nofun, ?_, hended, haccepted, nofun, fun _ => hdormant⟩
    · rw [hb.active]
      refine ⟨fun hc => ?_, fun hne => absurd rfl hne⟩
      split at hc
      · cases hc
      · exact absurd hc hk
    · intro hc
      rw [hb.used] at hc
      exact h.fresh (Bool.or_eq_false_iff.mp hc).1

theorem begin_serves {path : List UInt8} {upload : Bool} (h : Bound b r m) :
    Serves C (Binding.begin path upload) b r fun n a b' r' =>
      Advanced b m ⟨.begin path upload, a⟩ n b' r' := by
  have hrefused : Advanced b m ⟨.begin path upload, none⟩ 0 b r :=
    .refused h (if_neg fun hc => nomatch hc.2) nofun ⟨fun _ => rfl, nofun⟩
  refine serves_load.mpr ?_
  split
  · exact serves_pure hrefused
  next hguard =>
  split
  · exact serves_pure hrefused
  next hkind =>
  rw [not_or, not_or, not_not] at hguard
  obtain ⟨-, hactive, hquarantine⟩ := hguard
  rw [not_or, not_and] at hkind
  have hused (hk : kind path upload = .firmware) : b.firmwareUsed = false :=
    Bool.eq_false_iff.mpr (hkind.2 hk)
  refine serves_modify.mpr (serves_modify.mpr (serves_bind ?_))
  refine (begin_let_in h hused).mono fun n view b₁ r₁ hbody => ?_
  obtain ⟨rfl, hbegun, hended, hfirmware, hother⟩ := hbody
  refine serves_other nofun fun blocked => ?_
  refine serves_modify.mpr (serves_modify.mpr (serves_modify.mpr (serves_pure ?_)))
  have hb : Begun (kind path upload) b view { b₁ with
      quarantine := b₁.quarantine || blocked
      active := if view = none then .none else b₁.active
      entered := false } :=
    ⟨rfl, hbegun.active, hbegun.used, hbegun.accepted, hbegun.eof, hbegun.reset,
      fun hq => Bool.or_eq_true_iff.mpr (.inl (hbegun.quarantine hq))⟩
  refine ⟨hb.bound h hactive hended hfirmware hother, hb.quarantine, ?_, ?_,
    (if_neg fun hc => nomatch hc.1).symm, ?_, ?_⟩
  · intro hr
    rw [hb.reset]
    exact hr
  · intro hu
    rw [hb.used, hu]
    exact Bool.true_or _
  · intro hview
    rw [hb.active, if_pos hview, hactive]
  · intro hview
    have hsome : view ≠ none := Option.isSome_iff_ne_none.mp hview
    refine ⟨hactive, Bool.eq_false_iff.mpr hquarantine, ?_, hb.eof, fun hk => ⟨hused hk, ?_⟩⟩
    · rw [hb.active, if_neg hsome]
      exact hkind.1
    · rw [hb.used, hk]
      exact Bool.or_true _

/-- A call of the receiver that keeps its end of file, while an upload is live. -/
theorem Bound.moved (h : Bound b r m) (hentered : b'.entered = false)
    (hactive : b'.active = b.active) (hused : b'.firmwareUsed = b.firmwareUsed)
    (haccepted : b'.accepted = b.accepted) (heof : b'.eof = b.eof)
    (hnot : b.accepted = false) (hr : r' = r ∨ b.active = .firmware ∧ Ended r' ∧
      r'.eof = r.eof) : Bound b' r' m := by
  rcases hr with rfl | ⟨hfirmware, hended, hreof⟩
  · exact h.same hentered hactive hused haccepted heof
  · have hs := h.same hentered hactive hused haccepted heof
    have hne := h.active.mp hfirmware
    refine ⟨hs.outside, hs.active, hs.used, fun hc => ?_, hended, hs.accepted, ?_, ?_⟩
    · rw [hs.used hne] at hc
      cases hc
    · rw [hreof]
      exact hs.upload
    · intro hall
      obtain ⟨u, hu⟩ := h.some hfirmware
      have hacc := (h.upload u hu).1
      rw [hnot, hall u hu] at hacc
      cases hacc

theorem feedActive_serves {bytes : List UInt8} (hended : Ended r) :
    Serves C (Binding.feedActive bytes) b r fun n _ b' r' =>
      n = 0 ∧ (∃ q p, b' = { b with quarantine := b.quarantine || q, parser := p }) ∧
        (r' = r ∨ b.active = .firmware ∧ Ended r' ∧ r'.eof = r.eof) := by
  have hsame : b = { b with quarantine := b.quarantine || false } := by
    rw [Bool.or_false]
  refine serves_load.mpr ?_
  split
  · next hfirmware =>
      refine serves_receive fun reply sub hc => serves_bind ?_
      obtain ⟨-, rfl⟩ := runs_pure_iff.mp hc
      have hp : Phased r (bootReceiveFeed r bytes) := feed_phased
      refine serves_modify.mpr (serves_pure (serves_pure ?_))
      exact ⟨rfl, ⟨_, b.parser, rfl⟩, .inr ⟨hfirmware, hp.ended hended, hp.eof⟩⟩
  split
  · refine serves_modify.mpr (serves_pure ⟨rfl, ⟨false, (bootConfirmFeed b.parser bytes).2, ?_⟩,
      .inl rfl⟩)
    rw [Bool.or_false]
  · exact serves_pure ⟨rfl, ⟨false, b.parser, hsame⟩, .inl rfl⟩

theorem feed_serves {bytes : List UInt8} (h : Bound b r m) :
    Serves C (Binding.feed bytes) b r fun n a b' r' =>
      Advanced b m ⟨.feed bytes, a⟩ n b' r' := by
  refine serves_load.mpr ?_
  split
  · exact serves_pure (.refused h rfl nofun ⟨rfl, rfl⟩)
  next hguard =>
  rw [not_or, not_or] at hguard
  refine serves_modify.mpr (serves_bind ?_)
  refine (feedActive_serves h.ended).mono fun n a b₁ r₁ hbody => ?_
  obtain ⟨rfl, ⟨q, p, rfl⟩, hr⟩ := hbody
  refine serves_modify.mpr (serves_pure ?_)
  refine ⟨?_, fun hq => Bool.or_eq_true_iff.mpr (.inl hq), id, id,
    (if_neg fun hc => nomatch hc.1).symm, rfl, rfl⟩
  exact h.moved rfl rfl rfl rfl rfl (Bool.eq_false_iff.mpr hguard.2.2) hr

theorem eofActive_serves (hended : Ended r) :
    Serves C Binding.eofActive b r fun n done b' r' =>
      n = 0 ∧ (∃ q, b' = { b with quarantine := b.quarantine || q }) ∧
        (r' = r ∧ b.active ≠ .firmware ∨ b.active = .firmware ∧ Ended r' ∧
          (r'.eof = true → r.eof = true ∨ done = true)) := by
  refine serves_load.mpr ?_
  split
  · next hfirmware =>
      refine serves_receive fun reply sub hc => serves_bind ?_
      obtain ⟨-, rfl⟩ := runs_pure_iff.mp hc
      obtain ⟨-, hkeeps, heof⟩ := eof_phased (r := r)
      refine serves_modify.mpr (serves_pure (serves_pure ?_))
      refine ⟨rfl, ⟨_, rfl⟩, .inr ⟨hfirmware, hkeeps hended, fun hc => ?_⟩⟩
      rcases heof with ⟨hok, -⟩ | ⟨-, hsame⟩
      · right
        rw [if_pos hok]
        rfl
      · left
        rw [← hsame]
        exact hc
  · next hother =>
      refine serves_pure ⟨rfl, ⟨false, ?_⟩, .inl ⟨rfl, hother⟩⟩
      rw [Bool.or_false]

theorem eof_serves (h : Bound b r m) :
    Serves C Binding.eof b r fun n a b' r' => Advanced b m ⟨.eof, a⟩ n b' r' := by
  refine serves_load.mpr ?_
  split
  · exact serves_pure (.refused h uploadNext_eof nofun rfl)
  next hguard =>
  rw [not_or, not_or] at hguard
  refine serves_modify.mpr (serves_modify.mpr (serves_bind ?_))
  refine (eofActive_serves h.ended).mono fun n done b₁ r₁ hbody => ?_
  obtain ⟨rfl, ⟨q, rfl⟩, hr⟩ := hbody
  refine serves_modify.mpr (serves_pure ?_)
  refine ⟨?_, fun hq => Bool.or_eq_true_iff.mpr (.inl hq), id, id,
    (if_neg fun hc => nomatch hc.1).symm, rfl⟩
  rcases hr with ⟨rfl, hother⟩ | ⟨hfirmware, hended, hreof⟩
  · obtain ⟨rfl, hdormant⟩ := h.none hother
    exact ⟨rfl, h.active, h.used, h.fresh, h.ended, fun _ _ => rfl, nofun,
      fun _ => hdormant⟩
  · obtain ⟨u, rfl⟩ := h.some hfirmware
    obtain ⟨hacc, hre, hue, hua⟩ := h.upload u rfl
    refine ⟨rfl, ⟨fun _ => nofun, fun _ => hfirmware⟩, fun _ => h.used nofun, ?_, hended,
      fun _ _ => rfl, ?_, ?_⟩
    · intro hc
      have hused := h.used nofun
      rw [show b.firmwareUsed = false from hc] at hused
      cases hused
    · intro u' hu'
      cases hu'
      refine ⟨hacc, fun hc => ?_, fun _ => rfl, fun hc => ?_⟩
      · exact Bool.or_eq_true_iff.mpr ((hreof hc).imp hre id)
      · exact Bool.or_eq_true_iff.mpr (.inl (hua hc))
    · intro hall
      have haccepted : u.accepted = true := hall { u with ended := u.ended || done } rfl
      exact absurd (hue (hua haccepted)) hguard.2.1

/-- What a step leaves that was let in: either it is accepted, or the upload is
where it was. -/
structure StepTaken (b : FtpBoot) (r : BootReceive) (a : FtpOperationResult)
    (b' : FtpBoot) (r' : BootReceive) : Prop where
  active : b'.active = b.active
  used : b'.firmwareUsed = b.firmwareUsed
  eof : b'.eof = b.eof
  quarantine : b.quarantine = true → b'.quarantine = true
  reset : b.resetRequested = true → b'.resetRequested = true
  accepted : b'.accepted = (b.accepted || a == .accepted)
  ready : a = .accepted → b.active = .firmware ∧ r.phase = .ready ∧ r'.phase = .terminal ∨
    b.active ≠ .firmware ∧ b.eof = true
  receiver : r' = r ∨ b.active = .firmware ∧ Ended r' ∧ r'.eof = r.eof

theorem stepFirmware_serves (hfirmware : b.active = .firmware) (hended : Ended r) :
    Serves C Binding.stepFirmware b r fun n a b' r' => n = 0 ∧ StepTaken b r a b' r' := by
  refine serves_receive fun reply sub hc => serves_modify.mpr ?_
  have hp := (step_phased sub reply hc).2
  have hr : Ended reply.receiver ∧ reply.receiver.eof = r.eof := ⟨hp.ended hended, hp.eof⟩
  split
  · next hacc =>
      obtain ⟨hready, hterminal, a, ha, hreset⟩ := hp.accepted hacc
      refine serves_modify.mpr (serves_pure ⟨rfl, rfl, rfl, rfl, id, fun _ => ?_, ?_,
        fun _ => .inl ⟨hfirmware, hready, hterminal⟩, .inr ⟨hfirmware, hr⟩⟩)
      · show (reply.acceptance.or b.acceptance).any _ = true
        rw [ha]
        exact hreset
      · exact (Bool.or_true _).symm
  · refine serves_modify.mpr (serves_pure ⟨rfl, rfl, rfl, rfl,
      fun hq => Bool.or_eq_true_iff.mpr (.inl hq), id, ?_, fun ha => ?_,
      .inr ⟨hfirmware, hr⟩⟩)
    · split
      · exact (Bool.or_false _).symm
      split <;> exact (Bool.or_false _).symm
    · split at ha
      · cases ha
      split at ha <;> cases ha

theorem stepConfirm_serves (hother : b.active ≠ .firmware) (heof : b.eof = true) :
    Serves C Binding.stepConfirm b r fun n a b' r' => n = 0 ∧ StepTaken b r a b' r' := by
  refine serves_load.mpr (serves_modify.mpr ?_)
  split
  · exact serves_pure ⟨rfl, rfl, rfl, rfl, id, id, (Bool.or_false _).symm, nofun, .inl rfl⟩
  refine serves_other nofun fun result => serves_other nofun fun blocked => ?_
  refine serves_modify.mpr ?_
  have hq (hq : b.quarantine = true) :
      (b.quarantine || result == BootConfirmResult.reconcile || blocked) = true := by
    rw [hq]
    rfl
  split
  · exact serves_modify.mpr (serves_pure ⟨rfl, rfl, rfl, rfl, hq, id, (Bool.or_true _).symm,
      fun _ => .inr ⟨hother, heof⟩, .inl rfl⟩)
  · exact serves_pure ⟨rfl, rfl, rfl, rfl, hq, id, (Bool.or_false _).symm, nofun, .inl rfl⟩

theorem stepActive_serves (hended : Ended r) :
    Serves C Binding.stepActive b r fun n a b' r' => n = 0 ∧ StepTaken b r a b' r' := by
  refine serves_load.mpr ?_
  split
  · next hfirmware => exact stepFirmware_serves hfirmware hended
  split
  · next hother hconfirm => exact stepConfirm_serves hother hconfirm.2
  · exact serves_pure ⟨rfl, rfl, rfl, rfl, id, id, (Bool.or_false _).symm, nofun, .inl rfl⟩

theorem StepTaken.bound {a : FtpOperationResult} (h : Bound b r m)
    (hnot : b.accepted = false) (hs : StepTaken b r a b' r') (hentered : b'.entered = false) :
    Bound b' r' (uploadNext m ⟨.step, a⟩) ∧
      (a = .accepted → b.eof = true ∧ ∀ u ∈ m, u.ended = true) := by
  by_cases ha : a = .accepted
  · subst ha
    have hacc : b'.accepted = true := by
      rw [hs.accepted]
      exact Bool.or_true _
    rcases hs.ready rfl with ⟨hfirmware, hready, hterminal⟩ | ⟨hother, heof⟩
    · obtain ⟨u, rfl⟩ := h.some hfirmware
      obtain ⟨-, hre, hue, -⟩ := h.upload u rfl
      have hue' : u.ended = true := hre (h.ended (.inr (.inr hready)))
      have heof := hue hue'
      refine ⟨⟨hentered, ?_, fun _ => ?_, ?_, ?_, fun _ _ => ?_, ?_, fun _ => .inr hterminal⟩,
        fun _ => ⟨heof, fun v hv => ?_⟩⟩
      · rw [hs.active]
        exact ⟨fun _ => nofun, fun _ => hfirmware⟩
      · rw [hs.used]
        exact h.used nofun
      · intro hc
        rw [hs.used, h.used nofun] at hc
        cases hc
      · intro hw
        rw [hterminal] at hw
        rcases hw with hw | hw | hw <;> cases hw
      · rw [hs.eof]
        exact heof
      · intro v hv
        cases hv
        refine ⟨?_, fun _ => hue', fun _ => ?_, fun _ => hue'⟩
        · rw [hacc]
          exact (Bool.or_true _).symm
        · rw [hs.eof]
          exact heof
      · cases hv
        exact hue'
    · obtain ⟨rfl, hdormant⟩ := h.none hother
      have hr : r' = r := hs.receiver.resolve_right fun hc => hother hc.1
      rw [hr]
      refine ⟨⟨hentered, ?_, nofun, ?_, h.ended, fun _ _ => ?_, nofun, fun _ => hdormant⟩,
        fun _ => ⟨heof, nofun⟩⟩
      · rw [hs.active]
        exact h.active
      · rw [hs.used]
        exact h.fresh
      · rw [hs.eof]
        exact heof
  · have hacc : b'.accepted = b.accepted := by
      rw [hs.accepted, beq_eq_false_iff_ne.mpr ha, Bool.or_false]
    rw [uploadNext_step ha]
    exact ⟨h.moved hentered hs.active hs.used hacc hs.eof hnot hs.receiver,
      fun hc => absurd hc ha⟩

theorem step_serves (h : Bound b r m) :
    Serves C Binding.step b r fun n a b' r' => Advanced b m ⟨.step, a⟩ n b' r' := by
  have hn : 0 = if (.step : OperationOp) = .finish ∧ m.any (!·.accepted) then 1 else 0 :=
    (if_neg fun hc => nomatch hc.1).symm
  refine serves_load.mpr ?_
  split
  · exact serves_pure
      (.refused h (uploadNext_step nofun) nofun ⟨rfl, rfl, fun _ => rfl, nofun⟩)
  next hguard =>
  rw [not_or, not_or] at hguard
  obtain ⟨-, hquarantine, hactive⟩ := hguard
  split
  · next hacc =>
      have heof := h.accepted hacc hactive
      have hended : ∀ u ∈ m, u.ended = true := fun u hu => by
        obtain ⟨ha, -, -, hua⟩ := h.upload u hu
        exact hua (ha ▸ hacc)
      have hagain : ∀ u ∈ m, u.accepted = true := fun u hu =>
        (h.upload u hu).1.symm.trans hacc
      exact serves_pure (.refused h (uploadNext_again hagain) nofun
        ⟨rfl, rfl, fun hq => absurd hq hquarantine, fun _ => ⟨hactive, heof, hended⟩⟩)
  next hnot =>
  refine serves_modify.mpr (serves_bind ?_)
  refine (stepActive_serves h.ended).mono fun n a b₁ r₁ hbody => ?_
  obtain ⟨rfl, hs⟩ := hbody
  refine serves_modify.mpr (serves_pure ?_)
  have hs' : StepTaken b r a { b₁ with entered := false } r₁ :=
    ⟨hs.active, hs.used, hs.eof, hs.quarantine, hs.reset, hs.accepted, hs.ready, hs.receiver⟩
  obtain ⟨hbound, hready⟩ := hs'.bound h (Bool.eq_false_iff.mpr hnot) rfl
  exact ⟨hbound, hs'.quarantine, hs'.reset, fun hu => hs'.used.trans hu, hn,
    hs'.active, hs'.eof, fun hq => absurd hq hquarantine,
    fun ha => ⟨hactive, hready ha⟩⟩

theorem finishActive_serves :
    Serves C Binding.finishActive b r fun n _ b' r' =>
      b' = b ∧ (b.active = .firmware ∧ b.accepted = false ∧ n = 1 ∧ Dormant r' ∧ Ended r' ∨
        ¬ (b.active = .firmware ∧ b.accepted = false) ∧ n = 0 ∧ r' = r) := by
  refine serves_load.mpr ?_
  split
  · next hlive =>
      have hnot : b.accepted = false := by
        have h := hlive.2
        rwa [Bool.not_eq_true'] at h
      refine serves_receive fun reply sub hc => serves_pure ?_
      obtain ⟨-, rfl⟩ := runs_pure_iff.mp hc
      obtain ⟨-, hdormant⟩ := abort_phased (r := r)
      refine ⟨rfl, .inl ⟨hlive.1, hnot, rfl, hdormant, ?_⟩⟩
      rintro (hw | hw | hw) <;> rcases hdormant with hd | hd <;> rw [hw] at hd <;> cases hd
  · next hlive =>
      refine serves_pure ⟨rfl, .inr ⟨fun hc => hlive ⟨hc.1, ?_⟩, rfl, rfl⟩⟩
      rw [hc.2]
      rfl

theorem finish_serves (h : Bound b r m) :
    Serves C Binding.finish b r fun n a b' r' => Advanced b m ⟨.finish, a⟩ n b' r' := by
  have haborts {k : Nat} (hu : k = if m.any (!·.accepted) then 1 else 0) :
      k = if (.finish : OperationOp) = .finish ∧ m.any (!·.accepted) then 1 else 0 := by
    rw [hu]
    exact if_congr ⟨fun hc => ⟨rfl, hc⟩, And.right⟩ rfl rfl
  refine serves_load.mpr ?_
  split
  · next hguard =>
      have hactive : b.active = .none :=
        hguard.resolve_left fun hc => by rw [h.outside] at hc; cases hc
      obtain ⟨rfl, -⟩ := h.none (by rw [hactive]; nofun)
      exact serves_pure ⟨h, id, id, id, haborts rfl, hactive⟩
  refine serves_modify.mpr (serves_bind ?_)
  refine finishActive_serves.mono fun n a b₁ r₁ hbody => ?_
  obtain ⟨rfl, hr⟩ := hbody
  refine serves_modify.mpr (serves_modify.mpr (serves_pure ?_))
  have hactive : (FtpBootKind.none = .firmware ↔ (none : Option Upload) ≠ none) :=
    ⟨nofun, fun hne => absurd rfl hne⟩
  rcases hr with ⟨hfirmware, hnot, rfl, hdormant, hended⟩ | ⟨hlive, rfl, rfl⟩
  · obtain ⟨u, rfl⟩ := h.some hfirmware
    refine ⟨⟨rfl, hactive, nofun, fun hc => ?_, hended, nofun, nofun, fun _ => hdormant⟩,
      id, id, id, haborts (if_pos ?_).symm, rfl⟩
    · have hused := h.used nofun
      rw [show b.firmwareUsed = false from hc] at hused
      cases hused
    · show (!u.accepted) = true
      rw [← (h.upload u rfl).1, show b.accepted = false from hnot]
      rfl
  · have haccepted : ∀ u ∈ m, u.accepted = true := fun u hu => by
      rw [← (h.upload u hu).1]
      refine Bool.of_not_eq_false fun hc => hlive ⟨h.active.mpr ?_, hc⟩
      rw [Option.mem_def.mp hu]
      nofun
    refine ⟨⟨rfl, hactive, nofun, h.fresh, h.ended, fun _ hc => absurd rfl hc, nofun,
      fun _ => h.dormant haccepted⟩, id, id, id, haborts (if_neg ?_).symm, rfl⟩
    rw [Option.any_eq_true]
    rintro ⟨u, hu, hc⟩
    rw [haccepted u hu] at hc
    cases hc

theorem ops_serves {op : OperationOp} (h : Bound b r m) :
    Serves C (FtpBoot.ops op) b r fun n a b' r' => Advanced b m ⟨op, a⟩ n b' r' := by
  cases op with
  | matchesName path upload => exact matchesName_serves h
  | begin path upload => exact begin_serves h
  | feed bytes => exact feed_serves h
  | eof => exact eof_serves h
  | step => exact step_serves h
  | finish => exact finish_serves h

end Call

/-! ## Every order of calls -/

/-- A call from the outside with what it returned, and what was asked of the
services meanwhile, also by calls from inside. -/
structure BindingLabel where
  call : Event OperationSig
  events : List (Event ServiceSig)

structure BindingStep (C : Crypto) (x : FtpBoot × BootReceive) (l : BindingLabel)
    (x' : FtpBoot × BootReceive) : Prop where
  call : Reenters FtpBoot.api (FtpBoot.ops l.call.op) x.1 l.events l.call.ans x'.1
  receiver : Receives C x.2 l.events x'.2

abbrev BindingTrace := List (BindingLabel × (FtpBoot × BootReceive))

/-- The upload under way after a run. -/
def uploadAfter (m : Option Upload) (tr : BindingTrace) : Option Upload :=
  tr.foldl (fun m x => uploadNext m x.1.call) m

/-- A begin that succeeded. -/
def begun (l : BindingLabel) : Bool :=
  match l.call with
  | ⟨.begin _ _, view⟩ => Option.isSome (α := FtpStorageView) view
  | _ => false

/-- A begin of the firmware that succeeded. -/
def begunFirmware (l : BindingLabel) : Bool :=
  match l.call with
  | ⟨.begin path upload, view⟩ =>
      kind path upload = .firmware && Option.isSome (α := FtpStorageView) view
  | _ => false

/-- A begin that fails, or a step that reports an error. -/
def Fails (e : Event OperationSig) : Prop :=
  match e with
  | ⟨.begin _ _, view⟩ => view = (none : Option FtpStorageView)
  | ⟨.step, r⟩ => r = FtpOperationResult.error
  | _ => True

section Runs

variable {C : Crypto} {x x' : FtpBoot × BootReceive} {l : BindingLabel}
  {m : Option Upload} {tr : BindingTrace}

theorem step_advanced (h : Bound x.1 x.2 m) (hs : BindingStep C x l x') :
    Advanced x.1 m l.call (l.events.countP aborts) x'.1 x'.2 :=
  ops_serves h _ _ _ _ (reenters_ops.mp hs.call) hs.receiver

theorem run_bound (hr : Run (BindingStep C) x tr x') (h : Bound x.1 x.2 m) :
    Bound x'.1 x'.2 (uploadAfter m tr) := by
  induction hr generalizing m with
  | nil => exact h
  | cons hs _ ih => exact ih (step_advanced h hs).bound

theorem begunFirmware_used {b b' : FtpBoot} {e : Event OperationSig}
    {events : List (Event ServiceSig)} (ha : Answered b b' m e)
    (hb : begunFirmware ⟨e, events⟩ = true) :
    b.firmwareUsed = false ∧ b'.firmwareUsed = true := by
  obtain ⟨op, r⟩ := e
  cases op with
  | begin path upload =>
      have hb : (decide (kind path upload = .firmware) &&
        Option.isSome (α := FtpStorageView) r) = true := hb
      rw [Bool.and_eq_true, decide_eq_true_eq] at hb
      exact (ha.2 hb.2).2.2.2.2 hb.1
  | _ => cases hb

/-- The firmware is begun at most once. -/
theorem run_once (hr : Run (BindingStep C) x tr x') (h : Bound x.1 x.2 m) :
    tr.countP (fun y => begunFirmware y.1) ≤ if x.1.firmwareUsed then 0 else 1 := by
  induction hr generalizing m with
  | nil => exact Nat.zero_le _
  | @cons x x₁ x' l tr hs _ ih =>
      have ha := step_advanced h hs
      have hrest := ih ha.bound
      rw [List.countP_cons]
      by_cases hb : begunFirmware l = true
      · obtain ⟨hfree, hused⟩ := begunFirmware_used ha.answered hb
        rw [hused] at hrest
        rw [if_pos hb, hfree]
        exact Nat.succ_le_succ hrest
      · rw [if_neg hb, Nat.add_zero]
        refine hrest.trans ?_
        by_cases hu : x.1.firmwareUsed = true
        · rw [ha.used hu, hu]
        · rw [if_neg hu]
          split <;> decide

/-- What is active stays so until an end. -/
theorem answered_active {b b' : FtpBoot} {e : Event OperationSig}
    (ha : Answered b b' m e) (hop : e.op ≠ .finish) (hb : b.active ≠ .none) :
    b'.active ≠ .none := by
  obtain ⟨op, r⟩ := e
  cases op with
  | matchesName path upload =>
      obtain rfl : b' = b := ha
      exact hb
  | begin path upload =>
      cases r with
      | none =>
          rw [ha.1 rfl]
          exact hb
      | some view => exact (ha.2 rfl).2.2.1
  | feed bytes =>
      rw [ha.1]
      exact hb
  | eof =>
      rw [show b'.active = b.active from ha]
      exact hb
  | step =>
      rw [ha.1]
      exact hb
  | finish => exact absurd rfl hop

theorem run_active (hr : Run (BindingStep C) x tr x') (h : Bound x.1 x.2 m)
    (hop : ∀ y ∈ tr, y.1.call.op ≠ .finish) (hx : x.1.active ≠ .none) :
    x'.1.active ≠ .none := by
  induction hr generalizing m with
  | nil => exact hx
  | cons hs _ ih =>
      have ha := step_advanced h hs
      refine ih ha.bound (fun y hy => hop y (List.mem_cons_of_mem _ hy)) ?_
      exact answered_active ha.answered (hop _ List.mem_cons_self) hx

theorem begun_active {b b' : FtpBoot} {l : BindingLabel} (ha : Answered b b' m l.call)
    (hb : begun l = true) : b.active = .none ∧ b'.active ≠ .none := by
  obtain ⟨⟨op, r⟩, events⟩ := l
  cases op with
  | begin path upload =>
      obtain ⟨hactive, -, hactive', -⟩ := ha.2 hb
      exact ⟨hactive, hactive'⟩
  | _ => cases hb

/-- Between two begins that succeed there is an end. -/
theorem run_exclusive {front mid back : BindingTrace}
    {y z : BindingLabel × (FtpBoot × BootReceive)}
    (hr : Run (BindingStep C) x (front ++ y :: (mid ++ z :: back)) x')
    (h : Bound x.1 x.2 m) (hy : begun y.1 = true) (hz : begun z.1 = true) :
    ∃ w ∈ mid, w.1.call.op = .finish := by
  obtain ⟨x₁, h₁, hr⟩ := run_append_iff.mp hr
  obtain ⟨hs, hr⟩ := run_cons_iff.mp hr
  obtain ⟨x₂, h₂, hr⟩ := run_append_iff.mp hr
  obtain ⟨hs', -⟩ := run_cons_iff.mp hr
  have ha := step_advanced (run_bound h₁ h) hs
  have ha' := step_advanced (run_bound h₂ ha.bound) hs'
  by_contra hno
  refine run_active h₂ ha.bound (fun w hw hop => hno ⟨w, hw, hop⟩)
    (begun_active ha.answered hy).2 ?_
  exact (begun_active ha'.answered hz).1

theorem answered_fails {b b' : FtpBoot} {e : Event OperationSig}
    (ha : Answered b b' m e) (hq : b.quarantine = true) : Fails e := by
  obtain ⟨op, r⟩ := e
  cases op with
  | begin path upload =>
      cases r with
      | none => rfl
      | some view =>
          have hfree := (ha.2 rfl).2.1
          rw [hq] at hfree
          cases hfree
  | step => exact ha.2.2.1 hq
  | _ => trivial

theorem bound_init {config : FtpBootConfig} {b : FtpBoot}
    (h : ftpBootInit config bootReceiveInit = some b) : Bound b bootReceiveInit none := by
  rw [ftpBootInit] at h
  split at h
  · cases h
  · cases h
    exact ⟨rfl, ⟨nofun, fun hne => absurd rfl hne⟩, nofun, fun _ => ⟨rfl, rfl⟩,
      fun hw => absurd hw (not_written (p := .new) (by decide)), nofun, nofun,
      fun _ => .inl rfl⟩

end Runs

/-! ## Behind the core -/

/-- The calls of a transcript of the core that go through `me` are calls of the
object, in their order. -/
inductive Operated (C : Crypto) (me : FtpOperation) :
    FtpBoot × BootReceive → List Ev → FtpBoot × BootReceive → Prop where
  | nil (x : FtpBoot × BootReceive) : Operated C me x [] x
  | mine {x x₁ x' : FtpBoot × BootReceive} {op : OperationOp} {r : OperationSig.Ans op}
      {events : List (Event ServiceSig)} {tr : List Ev}
      (hs : BindingStep C x ⟨⟨op, r⟩, events⟩ x₁) (h : Operated C me x₁ tr x') :
      Operated C me x (⟨.operation (some me) op, r⟩ :: tr) x'
  | other {x x' : FtpBoot × BootReceive} {e : Ev} {tr : List Ev}
      (he : ∀ op, e.op ≠ .operation (some me) op) (h : Operated C me x tr x') :
      Operated C me x (e :: tr) x'

/-- The end of file that the object knows of, the caller has told it. -/
structure Heard (me : FtpOperation) (p : Pending) (x : FtpBoot × BootReceive) : Prop where
  bound : ∃ m, Bound x.1 x.2 m
  eof : ∀ told, p.operation = some (some me, told) → x.1.eof = true → told = true

def prematureText : List UInt8 := ascii "451 Premature acceptance.\r\n"

section Core

variable {C : Crypto} {me : FtpOperation} {x x' : FtpBoot × BootReceive}
  {p p' : Pending} {tr : List Ev} {e : Ev}

theorem operated_append_iff {tr₁ tr₂ : List Ev} :
    Operated C me x (tr₁ ++ tr₂) x' ↔
      ∃ x₁, Operated C me x tr₁ x₁ ∧ Operated C me x₁ tr₂ x' := by
  induction tr₁ generalizing x with
  | nil =>
      constructor
      · exact fun h => ⟨x, .nil x, h⟩
      · rintro ⟨x₁, h₁, h₂⟩
        cases h₁
        exact h₂
  | cons e tr₁ ih =>
      constructor
      · intro h
        cases h with
        | mine hs h =>
            obtain ⟨x₁, h₁, h₂⟩ := ih.mp h
            exact ⟨x₁, .mine hs h₁, h₂⟩
        | other he h =>
            obtain ⟨x₁, h₁, h₂⟩ := ih.mp h
            exact ⟨x₁, .other he h₁, h₂⟩
      · rintro ⟨x₁, h₁, h₂⟩
        cases h₁ with
        | mine hs h => exact .mine hs (ih.mpr ⟨x₁, h, h₂⟩)
        | other he h => exact .other he (ih.mpr ⟨x₁, h, h₂⟩)

/-- A call that goes elsewhere begins nothing here. -/
theorem next_elsewhere (h : p.next e = some p')
    (he : ∀ op, e.op ≠ .operation (some me) op) {told : Bool}
    (hp : p'.operation = some (some me, told)) : p.operation = some (some me, told) := by
  obtain ⟨op, r⟩ := e
  cases op with
  | point point =>
      cases h
      exact hp
  | storage through op =>
      rw [next_storage h] at hp
      exact hp
  | operation through op =>
      have hne : through ≠ some me := fun hc => he op (congrArg (FtpOp.operation · op) hc)
      unfold Pending.next at h
      cases op with
      | matchesName name upload =>
          cases h
          exact hp
      | begin name upload =>
          dsimp only at h
          split at h
          · cases h
          split at h
          · cases h
            cases hp
            exact absurd rfl hne
          · cases h
            exact hp
      | feed bytes =>
          dsimp only at h
          split at h <;> cases h
          exact hp
      | eof =>
          dsimp only at h
          split at h <;> cases h
          cases hp
          exact absurd rfl hne
      | step =>
          dsimp only at h
          split at h <;> cases h
          exact hp
      | finish =>
          dsimp only at h
          split at h <;> cases h
          cases hp

theorem heard_mine {op : OperationOp} {r : OperationSig.Ans op}
    {events : List (Event ServiceSig)} (h : Heard me p x)
    (hs : BindingStep C x ⟨⟨op, r⟩, events⟩ x')
    (hp : p.next ⟨.operation (some me) op, r⟩ = some p') : Heard me p' x' := by
  obtain ⟨m, hb⟩ := h.bound
  have ha := step_advanced hb hs
  refine ⟨⟨_, ha.bound⟩, fun told htold heof => ?_⟩
  have hanswer := ha.answered
  unfold Pending.next at hp
  cases op with
  | matchesName name upload =>
      cases hp
      rw [show x'.1 = x.1 from hanswer] at heof
      exact h.eof told htold heof
  | begin name upload =>
      dsimp only at hp
      split at hp
      · cases hp
      split at hp
      · next hview =>
          have hfalse := (hanswer.2 hview).2.2.2.1
          rw [heof] at hfalse
          cases hfalse
      · next hbusy _ =>
          cases hp
          rw [htold] at hbusy
          exact absurd rfl hbusy
  | feed bytes =>
      dsimp only at hp
      split at hp <;> cases hp
      rw [hanswer.2] at heof
      exact h.eof told htold heof
  | eof =>
      dsimp only at hp
      split at hp <;> cases hp
      cases htold
      rfl
  | step =>
      dsimp only at hp
      split at hp <;> cases hp
      rw [hanswer.2.1] at heof
      exact h.eof told htold heof
  | finish =>
      dsimp only at hp
      split at hp <;> cases hp
      cases htold

theorem operated_heard (ho : Operated C me x tr x') (hf : Follows p tr p')
    (h : Heard me p x) : Heard me p' x' := by
  induction ho generalizing p with
  | nil =>
      cases hf
      exact h
  | mine hs _ ih =>
      obtain ⟨p₁, hp, hf⟩ := follows_cons hf
      exact ih hf (heard_mine h hs hp)
  | other he _ ih =>
      obtain ⟨p₁, hp, hf⟩ := follows_cons hf
      exact ih hf ⟨h.bound, fun told htold => h.eof told (next_elsewhere hp he htold)⟩

/-! ### No other text -/

section Texts

variable {s : FtpState} {text other : List UInt8} {now : UInt32}

/-- The text is not copied into a slot. -/
def Unsaid (text : List UInt8) (e : Ev) : Prop := e.op ≠ .point (.queued text)

/-- Nor is the operation stepped. -/
def Aside (text : List UInt8) (e : Ev) : Prop :=
  Unsaid text e ∧ ∀ me, e.op ≠ .operation me .step

theorem endOperation_aside : Safe (Aside other) (endOperation s) fun _ => True := by
  intro tr u h
  obtain rfl := endOperation_runs h
  refine ⟨fun e he => ?_, trivial⟩
  rw [endEvents] at he
  split at he
  · rw [List.mem_singleton.mp he]
    refine ⟨fun hop => ?_, fun me hop => ?_⟩ <;> cases hop
  · cases he

theorem teardown_aside : Safe (Aside other) (teardown s) fun _ => True := by
  refine safe_bind endOperation_aside fun _ _ => ?_
  split
  · exact safe_pure trivial
  · exact safe_ask fun _ => ⟨⟨nofun, nofun⟩, safe_pure trivial⟩

theorem lost_aside : Safe (Aside other) (lost s) fun _ => True := by
  rw [lost]
  split
  · exact safe_pure trivial
  · exact safe_bind teardown_aside fun _ _ => safe_pure trivial

theorem reply_aside {start : Bool} (hne : other ≠ text) :
    Safe (Aside other) (reply s text start now) fun _ => True := by
  rw [reply]
  split
  · exact safe_ask fun _ => ⟨⟨nofun, nofun⟩, safe_bind lost_aside fun _ _ => safe_pure trivial⟩
  · refine safe_ask fun _ => ⟨⟨fun hc => ?_, nofun⟩, safe_pure trivial⟩
    cases hc
    exact hne rfl

theorem failure_aside (hne : other ≠ text) :
    Safe (Aside other) (failure s text now) fun _ => True :=
  safe_bind teardown_aside fun _ _ =>
    safe_bind (reply_aside hne) fun _ _ => safe_pure trivial

end Texts

/-- Behind this object a step is accepted after the end of file only. -/
theorem foreground_ended {ctr : List (FtpLabel × FtpState)} {s s' : FtpState}
    {now : UInt32} {ev : List Ev} {r : FtpReturn}
    (hrun : Run FtpStep .start ctr s) (hstep : FtpStep s ⟨.foreground now, ev, r⟩ s')
    (hbound : ∃ m, Bound x.1 x.2 m) (hop : s.operation = some me)
    (ho : Operated C me x (runEvents ctr ++ ev) x') :
    (⟨.operation (some me) .step, .accepted⟩ ∈ ev → s.core.eof = true) ∧
      ∀ e ∈ ev, Unsaid prematureText e := by
  obtain ⟨storage, operation, core⟩ := s
  obtain rfl : operation = some me := hop
  obtain ⟨x₁, ho₁, ho₂⟩ := operated_append_iff.mp ho
  obtain ⟨p, hp, ht⟩ := run_tracks hrun .zero (tracks_none rfl)
  have hheard : Heard me .none x := ⟨hbound, fun _ h => nomatch h⟩
  have h₁ := operated_heard ho₁ hp hheard
  obtain ⟨tr₁, s₁, tr₂, rfl, hfg, hret⟩ := runs_bind_iff'.mp hstep
  obtain ⟨rfl, -⟩ := runs_pure_iff.mp hret
  rw [List.append_nil] at ho₂ ⊢
  rw [ftpCoreForeground] at hfg
  split at hfg
  · obtain ⟨rfl, -⟩ := runs_pure_iff.mp hfg
    exact ⟨nofun, nofun⟩
  next hactive =>
  rw [not_or, Bool.not_eq_true', Bool.not_eq_false] at hactive
  have hoperation := ht.operation
  rw [if_pos hactive.1] at hoperation
  obtain ⟨answer, rest, rfl, hk⟩ := runs_ask_iff.mp hfg
  have hended : answer = .accepted → core.eof = true := by
    intro hacc
    by_contra heof
    rw [Bool.not_eq_true] at heof
    cases ho₂ with
    | other he _ => exact he .step rfl
    | mine hs _ =>
        obtain ⟨m, hb⟩ := h₁.bound
        have hanswer := (step_advanced hb hs).answered
        have hended := (hanswer.2.2.2 hacc).2.1
        rw [h₁.eof _ hoperation hended] at heof
        cases heof
  have hrest : ∀ e ∈ rest, Aside prematureText e := by
    split at hk
    · next hacc =>
        rw [hended hacc] at hk
        obtain ⟨rfl, -⟩ := runs_pure_iff.mp hk
        nofun
    split at hk
    · exact (failure_aside (by decide) rest _ hk).1
    · obtain ⟨rfl, -⟩ := runs_pure_iff.mp hk
      nofun
  refine ⟨fun hmem => ?_, fun e he => ?_⟩
  · obtain heq | hmem := List.mem_cons.mp hmem
    · cases heq
      exact hended rfl
    · exact absurd rfl ((hrest _ hmem).2 (some me))
  · rcases List.mem_cons.mp he with rfl | he
    · nofun
    · exact (hrest e he).1

end Core

/-- The object in every order of calls, also from inside its services: one
firmware upload at most, flags that stay, one operation at a time, and an end
that leaves no receiver live. The core behind which it stands is told of an
acceptance after its end of file only. -/
theorem firmware_binding {C : Crypto} {config : FtpBootConfig} {b₀ : FtpBoot}
    (hinit : ftpBootInit config bootReceiveInit = some b₀) :
    (∀ op b, (FtpBoot.ops op).Guarded Entered (fun _ _ => True) b ∧
      (Entered b → ∀ tr r b', Reenters FtpBoot.api (FtpBoot.ops op) b tr r b' →
        tr = [] ∧ b' = b ∧ Refuses op r)) ∧
    (∀ tr x, Run (BindingStep C) (b₀, bootReceiveInit) tr x →
      tr.countP (fun y => begunFirmware y.1) ≤ 1 ∧
      (∀ front y mid z back, tr = front ++ y :: (mid ++ z :: back) →
        begun y.1 = true → begun z.1 = true → ∃ w ∈ mid, w.1.call.op = .finish) ∧
      (uploadAfter none tr = none → Dormant x.2) ∧
      ∀ l x', BindingStep C x l x' →
        (x.1.quarantine = true → x'.1.quarantine = true ∧ Fails l.call) ∧
        (x.1.resetRequested = true → x'.1.resetRequested = true) ∧
        (l.events.countP aborts =
          if l.call.op = .finish ∧ (uploadAfter none tr).any (!·.accepted) then 1
          else 0) ∧
        (l.call = ⟨.step, .accepted⟩ → ∀ u ∈ uploadAfter none tr, u.ended = true)) ∧
    (∀ me ctr s now ev r s' x, Run FtpStep .start ctr s →
      FtpStep s ⟨.foreground now, ev, r⟩ s' → s.operation = some me →
      Operated C me (b₀, bootReceiveInit) (runEvents ctr ++ ev) x →
      (⟨.operation (some me) .step, .accepted⟩ ∈ ev → s.core.eof = true) ∧
      ∀ e ∈ ev, Unsaid prematureText e) := by
  have hb := bound_init hinit
  refine ⟨fun op b => ⟨ops_guarded op b, fun hin tr r b' => entered_refuses hin⟩, ?_, ?_⟩
  · intro tr x hrun
    have hx : Bound x.1 x.2 (uploadAfter none tr) := run_bound hrun hb
    refine ⟨?_, ?_, fun hnone => hx.dormant ?_, fun l x' hs => ?_⟩
    · refine (run_once hrun hb).trans ?_
      split <;> decide
    · rintro front y mid z back rfl hy hz
      exact run_exclusive hrun hb hy hz
    · rw [hnone]
      nofun
    · have ha := step_advanced hx hs
      refine ⟨fun hq => ⟨ha.quarantine hq, answered_fails ha.answered hq⟩, ha.reset,
        ha.aborts, fun hcall => ?_⟩
      have hanswer := ha.answered
      rw [hcall] at hanswer
      exact (hanswer.2.2.2 rfl).2.2
  · intro me ctr s now ev r s' x hrun hstep hop ho
    exact foreground_ended hrun hstep ⟨none, hb⟩ hop ho

/-! ## An upload that is given up -/

def benchBinding : FtpBootConfig where
  receive := ⟨bootSlotB, pure (some (packageImage bootSlotA))⟩
  report := none

/-- A flash that holds the record of a new device. -/
def benchFlash : (op : ReceiveOp) → ReceiveSig.Ans op
  | .flashRead address size =>
      .ok (if address = bootMetadataPage0 ∧ size = 168 then
        ⟨(metadataWire factoryRecord bootCommitValid).take size ++
          List.replicate (size - 168) 0xff, length_recordPage factoryRecord size⟩
      else ⟨List.replicate size 0xff, length_erased size⟩)
  | .flashErase _ => .ok
  | .flashProgram _ _ => .ok
  | .flashBlocked => none
  | .host _ => true

def benchBegun : ReceiveReply :=
  (bootReceiveBegin benchBinding.receive bootReceiveInit).eval benchFlash

set_option maxRecDepth 20000 in
theorem benchBegun_ok : benchBegun.result = .ok := by decide

theorem benchBegun_runs : ∃ sub,
    Runs (bootReceiveBegin benchBinding.receive bootReceiveInit) sub benchBegun := by
  obtain ⟨sub, hsub, -⟩ := runs_eval benchFlash
    (bootReceiveBegin benchBinding.receive bootReceiveInit)
  rw [benchBegun]
  exact ⟨sub, hsub⟩

def benchLive : FtpBoot :=
  { FtpBoot.zeroed benchBinding with active := .firmware, firmwareUsed := true }

def firmwareBegin (reply : ReceiveReply) : BindingLabel where
  call := ⟨.begin (ascii "firmware") true, some .none⟩
  events := [⟨.receive (.begin benchBinding.receive), reply⟩, ⟨.blocked, false⟩]

def firmwareEnd (reply : ReceiveReply) : BindingLabel where
  call := ⟨.finish, ()⟩
  events := [⟨.receive .abort, bootReceiveAbort reply.receiver⟩]

theorem firmwareBegin_step {C : Crypto} {reply : ReceiveReply} (hok : reply.result = .ok)
    (hruns : ∃ sub, Runs (bootReceiveBegin benchBinding.receive bootReceiveInit) sub reply) :
    BindingStep C (.zeroed benchBinding, bootReceiveInit) (firmwareBegin reply)
      (benchLive, reply.receiver) := by
  obtain ⟨sub, hsub⟩ := hruns
  refine ⟨reenters_ops.mpr ?_, .call hsub (.other nofun (.nil _))⟩
  obtain ⟨result, receiver, accepted, acceptance⟩ := reply
  cases hok
  show Runs ((Binding.begin (ascii "firmware") true).held (.zeroed benchBinding)) _ _
  have hkind : kind (ascii "firmware") true = .firmware := by decide
  rw [Binding.begin, held_load, if_neg (by decide), hkind, if_neg (by decide)]
  refine runs_call_iff.mpr ⟨_, _, rfl, ?_⟩
  exact runs_call_iff.mpr ⟨false, [], rfl, .ret _⟩

theorem firmwareEnd_step {C : Crypto} {reply : ReceiveReply} :
    BindingStep C (benchLive, reply.receiver) (firmwareEnd reply)
      ({ benchLive with active := .none }, (bootReceiveAbort reply.receiver).receiver) := by
  refine ⟨reenters_ops.mpr ?_, .call (.ret _) (.nil _)⟩
  show Runs (Binding.finish.held benchLive) _ _
  exact runs_call_iff.mpr ⟨_, [], rfl, .ret _⟩

/-- The upload is begun once, and its end aborts the receiver once. -/
theorem firmware_binding_given_up :
    ∃ tr x, Run (BindingStep packageCrypto) (.zeroed benchBinding, bootReceiveInit) tr x ∧
      tr.countP (fun y => begunFirmware y.1) = 1 ∧
      (tr.getLast?.map fun y => y.1.events.countP aborts) = some 1 ∧ Dormant x.2 := by
  have hinit : ftpBootInit benchBinding bootReceiveInit = some (.zeroed benchBinding) :=
    if_neg (by decide)
  have hrun := Run.cons (firmwareBegin_step benchBegun_ok benchBegun_runs)
    (.cons (firmwareEnd_step (C := packageCrypto)) (.nil _))
  obtain ⟨-, -, hdormant, -⟩ := (firmware_binding hinit).2.1 _ _ hrun
  exact ⟨_, _, hrun, by decide, rfl, hdormant rfl⟩

end EkBareMetal.Ftp

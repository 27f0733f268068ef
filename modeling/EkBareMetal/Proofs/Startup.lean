import EkBareMetal.Boot.Startup
import EkBareMetal.Lib.Moments

/-!
# Startup continuity

Every operation of the capsule samples the clock at most once, and the clock
may call any of them. An operation claims the capsule before that sample and
looks again afterwards: it goes on only where the claim still stands, and any
operation that began meanwhile has taken the claim away. That is the one fact
about re-entry here (`History.quiet`); all others are about what the capsule
held when the clock returned.
-/

namespace EkBareMetal.Boot

open Interact

abbrev StartupMoment := Moment ClockSig StartupCall StartupReply BootStartup

/-- The operations that claim the capsule. -/
def StartupCall.claiming : StartupCall → Bool
  | .prepare .. | .prepareHandoff .. | .beginDispatch .. | .early .. | .cReady .. | .time .. =>
      true
  | _ => false

/-- A reset whose pointers are all there and apart. -/
def StartupCall.resets : StartupCall → Bool
  | .reset a => a.complete
  | _ => false

/-- What is handed to `prepare`. -/
def StartupCall.prepares : StartupCall → Option StartupPrepare
  | .prepare _ _ a | .prepareHandoff _ _ _ a => some a
  | _ => none

namespace BootStartup

/-- What was prepared, as the capsule holds it. -/
def Holds (c : BootStartup) (a : StartupPrepare) : Prop :=
  c.image = a.image ∧ c.base = a.intent.vtor ∧ c.resetVector = a.intent.resetVector ∧
    c.entryEpoch = a.intent.applicationEpoch

/-- The fields that only the operations write. -/
def core (c : BootStartup) :
    BootStartupState × BootVerifiedImage × UInt32 × UInt32 × UInt32 × UInt64 × UInt64 :=
  (c.state, c.image, c.base, c.resetVector, c.entryEpoch, c.dispatchUs, c.entryUs)

/-- How every operation that gives up leaves it. -/
def Down (c : BootStartup) : Prop := c.active = false ∧ c.state = .failed

theorem fail_down (c : BootStartup) : c.fail.Down := ⟨rfl, rfl⟩

theorem state_eq_of_core {c d : BootStartup} (h : c.core = d.core) : c.state = d.state :=
  congrArg Prod.fst h

end BootStartup

/-! ## One operation -/

section Operations

variable {H : BootStartup → List StartupMoment → BootStartup → Prop}
variable {s s' : BootStartup} {ms : List StartupMoment}

theorem passes_failing_iff {α : Type} {a b : α} :
    Passes H (BootStartup.failing a) s ms b s' ↔ ms = [] ∧ b = a ∧ s' = s.fail :=
  passes_modify_iff.trans passes_pure_iff

theorem passes_claim {expected : BootStartupState} {ok : Bool}
    (h : Passes H (BootStartup.claim expected) s ms ok s') :
    ms = [] ∧ ((ok = false ∧ s' = s.fail) ∨
      (ok = true ∧ s.active = false ∧ s.state = expected ∧ s' = { s with active := true })) := by
  rw [BootStartup.claim, passes_load_iff] at h
  split at h
  · obtain ⟨rfl, rfl, rfl⟩ := passes_failing_iff.mp h
    exact ⟨rfl, .inl ⟨rfl, rfl⟩⟩
  · rename_i hgo
    have hend := passes_modify_iff.mp h
    obtain ⟨rfl, rfl, rfl⟩ := passes_pure_iff.mp hend
    simp only [ne_eq, Bool.or_eq_true, Bool.not_eq_true', decide_eq_true_eq, not_or,
      Bool.not_eq_false, Bool.not_eq_true, not_not] at hgo
    exact ⟨rfl, .inr ⟨rfl, hgo.1.2, hgo.2, rfl⟩⟩

theorem passes_complete {before after : BootStartupState} {ok : Bool}
    (h : Passes H (BootStartup.complete before after) s ms ok s') :
    ms = [] ∧ ((ok = false ∧ s' = s.fail) ∨ (ok = true ∧ s.active = true ∧
      s.state = before ∧ s' = { s with active := false, state := after })) := by
  rw [BootStartup.complete, passes_load_iff] at h
  split at h
  · obtain ⟨rfl, rfl, rfl⟩ := passes_failing_iff.mp h
    exact ⟨rfl, .inl ⟨rfl, rfl⟩⟩
  · rename_i hgo
    have hend := passes_modify_iff.mp h
    obtain ⟨rfl, rfl, rfl⟩ := passes_pure_iff.mp hend
    simp only [ne_eq, Bool.or_eq_true, Bool.not_eq_true', decide_eq_true_eq, not_or,
      Bool.not_eq_false, not_not] at hgo
    exact ⟨rfl, .inr ⟨rfl, hgo.1, hgo.2, rfl⟩⟩

/-- The moments of a sample: one request at most, and the capsule is not written. -/
def Sampled (H : BootStartup → List StartupMoment → BootStartup → Prop) (s : BootStartup)
    (ms : List StartupMoment) (s' : BootStartup) : Prop :=
  (ms = [] ∧ s' = s) ∨ ∃ answer ns,
    ms = .ask .read s :: (ns ++ [.answer ⟨.read, answer⟩ s']) ∧ H s ns s'

theorem passes_clockRead {us : Option UInt64}
    (h : Passes H BootStartup.clockRead s ms us s') : Sampled H s ms s' := by
  rw [BootStartup.clockRead, passes_load_iff] at h
  split at h
  · obtain ⟨rfl, -, rfl⟩ := passes_pure_iff.mp h
    exact .inl ⟨rfl, rfl⟩
  · obtain ⟨answer, ns, s₁, ks, rfl, hn, hk⟩ := passes_ask_iff.mp h
    cases answer with
    | none =>
        obtain ⟨rfl, -, rfl⟩ := passes_pure_iff.mp hk
        exact .inr ⟨none, ns, rfl, hn⟩
    | some sample =>
        have hend := passes_load_iff.mp hk
        obtain ⟨rfl, -, rfl⟩ := passes_pure_iff.mp hend
        exact .inr ⟨some sample, ns, rfl, hn⟩

theorem passes_claimed {expected : BootStartupState} {f : StartupProg Bool} {ok : Bool}
    (h : Passes H (do
      let claimed ← BootStartup.claim expected
      if !claimed then pure false else f) s ms ok s') :
    (ms = [] ∧ ok = false ∧ s' = s.fail) ∨
      (s.state = expected ∧ Passes H f { s with active := true } ms ok s') := by
  obtain ⟨ms₁, claimed, s₁, ms₂, rfl, hclaim, hk⟩ := passes_bind_iff.mp h
  obtain ⟨rfl, ⟨rfl, rfl⟩ | ⟨rfl, -, hst, rfl⟩⟩ := passes_claim hclaim
  · obtain ⟨rfl, rfl, rfl⟩ := passes_pure_iff.mp hk
    exact .inl ⟨rfl, rfl, rfl⟩
  · exact .inr ⟨hst, hk⟩

theorem passes_sampled {α : Type} {f : UInt64 → StartupProg α} {a b : α}
    (h : Passes H (do
      match ← BootStartup.clockRead with
      | none => BootStartup.failing b
      | some us => f us) s ms a s') :
    ∃ t, (Sampled H s ms t ∧ a = b ∧ s' = t.fail) ∨
      ∃ ns us ks, ms = ns ++ ks ∧ Sampled H s ns t ∧ Passes H (f us) t ks a s' := by
  obtain ⟨ns, us, t, ks, rfl, hread, hend⟩ := passes_bind_iff.mp h
  have hn := passes_clockRead hread
  cases us with
  | none =>
      obtain ⟨rfl, rfl, rfl⟩ := passes_failing_iff.mp hend
      rw [List.append_nil]
      exact ⟨t, .inl ⟨hn, rfl, rfl⟩⟩
  | some us => exact ⟨t, .inr ⟨ns, us, ks, rfl, hn, hend⟩⟩

/-- How an operation ends that asks the clock in `t₀` and finds the capsule as
`t` afterwards. One that never asks has no moments of its own. -/
def Ends (H : BootStartup → List StartupMoment → BootStartup → Prop) (s : BootStartup)
    (ms : List StartupMoment) (s' : BootStartup) (bad : Prop)
    (good : BootStartup → BootStartup → Prop) : Prop :=
  ∃ t₀ t, t₀.state = s.state ∧ (s.state ≠ .empty → t₀.core = s.core) ∧ Sampled H t₀ ms t ∧
    ((bad ∧ s'.Down) ∨ (t.active = true ∧ good t₀ t))

variable {bad : Prop} {good : BootStartup → BootStartup → Prop}

theorem ends_at_once {t : BootStartup} (hb : bad) : Ends H s [] t.fail bad good :=
  ⟨s, s, rfl, fun _ => rfl, .inl ⟨rfl, rfl⟩, .inl ⟨hb, t.fail_down⟩⟩

theorem ends_sampled {t₀ t : BootStartup} (hn : Sampled H t₀ ms t) (hs : t₀.state = s.state)
    (hc : s.state ≠ .empty → t₀.core = s.core)
    (h : (bad ∧ s'.Down) ∨ (t.active = true ∧ good t₀ t)) : Ends H s ms s' bad good :=
  ⟨t₀, t, hs, hc, hn, h⟩

theorem Ends.imp {bad' : Prop} {good' : BootStartup → BootStartup → Prop}
    (hbad : bad → bad') (hgood : ∀ t₀ t, good t₀ t → good' t₀ t)
    (h : Ends H s ms s' bad good) : Ends H s ms s' bad' good' := by
  obtain ⟨t₀, t, hs, hc, hn, hb | ⟨ha, hg⟩⟩ := h
  · exact ⟨t₀, t, hs, hc, hn, .inl ⟨hbad hb.1, hb.2⟩⟩
  · exact ⟨t₀, t, hs, hc, hn, .inr ⟨ha, hgood t₀ t hg⟩⟩

theorem passes_prepare {a : StartupPrepare} {ok : Bool}
    (h : Passes H (startupPrepare a) s ms ok s') :
    Ends H s ms s' (ok = false) fun t₀ t => ok = true ∧ t₀.state = .empty ∧ t₀.Holds a ∧
      t.state = .empty ∧ s' = { t with active := false, state := .prepared } := by
  obtain ⟨rfl, rfl, rfl⟩ | ⟨hempty, hk⟩ := passes_claimed h
  · exact ends_at_once rfl
  have hgo := passes_load_iff.mp hk
  dsimp only at hgo
  split at hgo
  · obtain ⟨rfl, rfl, rfl⟩ := passes_failing_iff.mp hgo
    exact ends_at_once rfl
  have hset := passes_modify_iff.mp hgo
  obtain ⟨t, ⟨hn, rfl, rfl⟩ | ⟨ns, us, ks, rfl, hn, hend⟩⟩ := passes_sampled hset
  · exact ends_sampled hn rfl (absurd hempty) (.inl ⟨rfl, t.fail_down⟩)
  obtain ⟨rfl, hdone⟩ := passes_complete hend
  rw [List.append_nil]
  refine ends_sampled hn rfl (absurd hempty) ?_
  obtain ⟨rfl, rfl⟩ | ⟨rfl, hact, hst, rfl⟩ := hdone
  · exact .inl ⟨rfl, t.fail_down⟩
  · exact .inr ⟨hact, rfl, hempty, ⟨rfl, rfl, rfl, rfl⟩, hst, rfl⟩

theorem passes_beginDispatch {excluded ok : Bool}
    (h : Passes H (bootStartupBeginDispatch excluded) s ms ok s') :
    Ends H s ms s' (ok = false) fun _ t => ok = true ∧ t.state = .prepared ∧
      ∃ us, s' = { t with dispatchUs := us, active := false, state := .dispatching } := by
  obtain ⟨rfl, rfl, rfl⟩ | ⟨-, hk⟩ := passes_claimed h
  · exact ends_at_once rfl
  have hgo := passes_load_iff.mp hk
  split at hgo
  · obtain ⟨rfl, rfl, rfl⟩ := passes_failing_iff.mp hgo
    exact ends_at_once rfl
  obtain ⟨t, ⟨hn, rfl, rfl⟩ | ⟨ns, us, ks, rfl, hn, hend⟩⟩ := passes_sampled hgo
  · exact ends_sampled hn rfl (fun _ => rfl) (.inl ⟨rfl, t.fail_down⟩)
  have hset := passes_modify_iff.mp hend
  obtain ⟨rfl, hdone⟩ := passes_complete hset
  rw [List.append_nil]
  refine ends_sampled hn rfl (fun _ => rfl) ?_
  obtain ⟨rfl, rfl⟩ | ⟨rfl, hact, hst, rfl⟩ := hdone
  · exact .inl ⟨rfl, rfl, rfl⟩
  · exact .inr ⟨hact, rfl, hst, us, rfl⟩

theorem passes_early {excluded ok : Bool} {stub witness : UInt32}
    (h : Passes H (bootStartupEarly excluded stub witness) s ms ok s') :
    Ends H s ms s' (ok = false) fun _ t => ok = true ∧ t.state = .dispatching ∧
      ∃ us, t.dispatchUs ≤ us ∧
        s' = { t with entryUs := us, active := false, state := .entered } := by
  obtain ⟨rfl, rfl, rfl⟩ | ⟨-, hk⟩ := passes_claimed h
  · exact ends_at_once rfl
  have hgo := passes_load_iff.mp hk
  split at hgo
  · obtain ⟨rfl, rfl, rfl⟩ := passes_failing_iff.mp hgo
    exact ends_at_once rfl
  obtain ⟨t, ⟨hn, rfl, rfl⟩ | ⟨ns, us, ks, rfl, hn, hend⟩⟩ := passes_sampled hgo
  · exact ends_sampled hn rfl (fun _ => rfl) (.inl ⟨rfl, t.fail_down⟩)
  have htime := passes_load_iff.mp hend
  split at htime
  · obtain ⟨rfl, rfl, rfl⟩ := passes_failing_iff.mp htime
    rw [List.append_nil]
    exact ends_sampled hn rfl (fun _ => rfl) (.inl ⟨rfl, t.fail_down⟩)
  rename_i hus
  have hset := passes_modify_iff.mp htime
  obtain ⟨rfl, hdone⟩ := passes_complete hset
  rw [List.append_nil]
  refine ends_sampled hn rfl (fun _ => rfl) ?_
  obtain ⟨rfl, rfl⟩ | ⟨rfl, hact, hst, rfl⟩ := hdone
  · exact .inl ⟨rfl, rfl, rfl⟩
  · exact .inr ⟨hact, rfl, hst, us, UInt64.not_lt.mp hus, rfl⟩

theorem passes_cReady {excluded ok : Bool} {caller : DiagCaller}
    (h : Passes H (bootStartupCReady excluded caller) s ms ok s') :
    Ends H s ms s' (ok = false) fun _ t => ok = true ∧ t.state = .entered ∧
      s'.core = { t with state := .cReady }.core ∧ s'.active = false := by
  obtain ⟨rfl, rfl, rfl⟩ | ⟨-, hk⟩ := passes_claimed h
  · exact ends_at_once rfl
  have hgo := passes_load_iff.mp hk
  split at hgo
  · obtain ⟨rfl, rfl, rfl⟩ := passes_failing_iff.mp hgo
    exact ends_at_once rfl
  obtain ⟨t, ⟨hn, rfl, rfl⟩ | ⟨ns, us, ks, rfl, hn, hend⟩⟩ := passes_sampled hgo
  · exact ends_sampled hn rfl (fun _ => rfl) (.inl ⟨rfl, t.fail_down⟩)
  have htime := passes_load_iff.mp hend
  split at htime
  · obtain ⟨rfl, rfl, rfl⟩ := passes_failing_iff.mp htime
    rw [List.append_nil]
    exact ends_sampled hn rfl (fun _ => rfl) (.inl ⟨rfl, t.fail_down⟩)
  have hpub := passes_modify_iff.mp htime
  split at hpub
  · obtain ⟨rfl, rfl, rfl⟩ := passes_failing_iff.mp hpub
    rw [List.append_nil]
    exact ends_sampled hn rfl (fun _ => rfl) (.inl ⟨rfl, rfl, rfl⟩)
  have hset := passes_modify_iff.mp hpub
  obtain ⟨rfl, hdone⟩ := passes_complete hset
  rw [List.append_nil]
  refine ends_sampled hn rfl (fun _ => rfl) ?_
  obtain ⟨rfl, rfl⟩ | ⟨rfl, hact, hst, rfl⟩ := hdone
  · exact .inl ⟨rfl, rfl, rfl⟩
  · exact .inr ⟨hact, rfl, hst, rfl, rfl⟩

theorem passes_time {pointers : Bool} {got : Option UInt64}
    (h : Passes H (bootStartupTime pointers) s ms got s') :
    Ends H s ms s' (got = none) fun t₀ t =>
      (t₀.state = .entered ∨ t₀.state = .cReady) ∧ t.state = t₀.state ∧
      s' = { t with active := false } ∧ ∃ us, got = some us ∧ t.entryUs ≤ us := by
  have hgo := passes_load_iff.mp h
  split at hgo
  · obtain ⟨rfl, rfl, rfl⟩ := passes_failing_iff.mp hgo
    exact ends_at_once rfl
  rename_i hst
  have hstate : s.state = .entered ∨ s.state = .cReady := by
    by_contra hne
    rw [not_or] at hne
    exact hst (by simp [hne.1, hne.2])
  have hclaim := passes_load_iff.mp (passes_modify_iff.mp hgo)
  split at hclaim
  · obtain ⟨rfl, rfl, rfl⟩ := passes_failing_iff.mp hclaim
    exact ends_at_once rfl
  obtain ⟨t, ⟨hn, rfl, rfl⟩ | ⟨ns, us, ks, rfl, hn, hend⟩⟩ := passes_sampled hclaim
  · exact ends_sampled hn rfl (fun _ => rfl) (.inl ⟨rfl, t.fail_down⟩)
  have htime := passes_load_iff.mp hend
  split at htime
  · obtain ⟨rfl, rfl, rfl⟩ := passes_failing_iff.mp htime
    rw [List.append_nil]
    exact ends_sampled hn rfl (fun _ => rfl) (.inl ⟨rfl, t.fail_down⟩)
  rename_i hus
  have hset := passes_modify_iff.mp htime
  obtain ⟨rfl, rfl, rfl⟩ := passes_pure_iff.mp hset
  simp only [ne_eq, Bool.or_eq_true, decide_eq_true_eq, Bool.not_eq_true', not_or,
    UInt64.not_lt, Bool.not_eq_false, not_not] at hus
  rw [List.append_nil]
  exact ends_sampled hn rfl (fun _ => rfl)
    (.inr ⟨hus.1.2, hstate, hus.2, rfl, us, rfl, hus.1.1⟩)

end Operations

/-- How an operation that reports success went: `t₀` is the capsule when the
clock was asked, `t` when it returned. -/
inductive Succeeds : StartupCall → BootStartup → BootStartup → StartupReply → BootStartup → Prop
  | prepare {pointers : Bool} {r : StartupRunResult} {a : StartupPrepare} {t₀ t : BootStartup}
      (hs : t₀.state = .empty) (hh : t₀.Holds a) (ht : t.state = .empty) :
      Succeeds (.prepare pointers r a) t₀ t (.done true)
        { t with active := false, state := .prepared }
  | prepareHandoff {pointers : Bool} {h : BootHandoff} {r : BootHandoffResult}
      {a : StartupPrepare} {t₀ t : BootStartup} (hs : t₀.state = .empty) (hh : t₀.Holds a)
      (ht : t.state = .empty) :
      Succeeds (.prepareHandoff pointers h r a) t₀ t (.done true)
        { t with active := false, state := .prepared }
  | beginDispatch {excluded : Bool} {us : UInt64} {t₀ t : BootStartup}
      (ht : t.state = .prepared) :
      Succeeds (.beginDispatch excluded) t₀ t (.done true)
        { t with dispatchUs := us, active := false, state := .dispatching }
  | early {excluded : Bool} {stub witness : UInt32} {us : UInt64} {t₀ t : BootStartup}
      (ht : t.state = .dispatching) (hus : t.dispatchUs ≤ us) :
      Succeeds (.early excluded stub witness) t₀ t (.done true)
        { t with entryUs := us, active := false, state := .entered }
  | cReady {excluded : Bool} {caller : DiagCaller} {t₀ t s' : BootStartup}
      (ht : t.state = .entered)
      (hs : s'.core = { t with state := BootStartupState.cReady }.core)
      (ha : s'.active = false) :
      Succeeds (.cReady excluded caller) t₀ t (.done true) s'
  | time {pointers : Bool} {us : UInt64} {t₀ t : BootStartup}
      (hs : t₀.state = .entered ∨ t₀.state = .cReady) (ht : t.state = t₀.state)
      (hus : t.entryUs ≤ us) :
      Succeeds (.time pointers) t₀ t (.time (some us)) { t with active := false }

/-! ## One call -/

section Calls

variable {H : BootStartup → List StartupMoment → BootStartup → Prop}
variable {s s' : BootStartup} {ms : List StartupMoment} {r : StartupReply}

theorem passes_done {p : StartupProg Bool}
    (h : Passes H (do
      let ok ← p
      pure (StartupReply.done ok)) s ms r s') :
    ∃ ok, Passes H p s ms ok s' ∧ r = .done ok := by
  obtain ⟨ms₁, ok, s₁, ms₂, rfl, hp, hk⟩ := passes_bind_iff.mp h
  obtain ⟨rfl, rfl, rfl⟩ := passes_pure_iff.mp hk
  rw [List.append_nil]
  exact ⟨ok, hp, rfl⟩

theorem passes_claiming {c : StartupCall} (hc : c.claiming = true)
    (h : Passes H (startupCall c) s ms r s') :
    Ends H s ms s' (r.ok = false) fun t₀ t => Succeeds c t₀ t r s' := by
  cases c with
  | reset a => cases hc
  | runningAt pointers pc vtor => cases hc
  | others o => cases hc
  | prepare pointers run a =>
      obtain ⟨ok, hp, rfl⟩ := passes_done h
      rw [bootStartupPrepare] at hp
      split at hp
      · obtain ⟨rfl, rfl, rfl⟩ := passes_failing_iff.mp hp
        exact ends_at_once rfl
      · refine (passes_prepare hp).imp (fun h => h) ?_
        rintro t₀ t ⟨rfl, hs, hh, ht, rfl⟩
        exact .prepare hs hh ht
  | prepareHandoff pointers handoff result a =>
      obtain ⟨ok, hp, rfl⟩ := passes_done h
      rw [bootStartupPrepareHandoff] at hp
      split at hp
      · obtain ⟨rfl, rfl, rfl⟩ := passes_failing_iff.mp hp
        exact ends_at_once rfl
      · refine (passes_prepare hp).imp (fun h => h) ?_
        rintro t₀ t ⟨rfl, hs, hh, ht, rfl⟩
        exact .prepareHandoff hs hh ht
  | beginDispatch excluded =>
      obtain ⟨ok, hp, rfl⟩ := passes_done h
      refine (passes_beginDispatch hp).imp (fun h => h) ?_
      rintro t₀ t ⟨rfl, ht, us, rfl⟩
      exact .beginDispatch ht
  | early excluded stub witness =>
      obtain ⟨ok, hp, rfl⟩ := passes_done h
      refine (passes_early hp).imp (fun h => h) ?_
      rintro t₀ t ⟨rfl, ht, us, hus, rfl⟩
      exact .early ht hus
  | cReady excluded caller =>
      obtain ⟨ok, hp, rfl⟩ := passes_done h
      refine (passes_cReady hp).imp (fun h => h) ?_
      rintro t₀ t ⟨rfl, ht, hs, ha⟩
      exact .cReady ht hs ha
  | time pointers =>
      obtain ⟨ms₁, got, s₁, ms₂, rfl, hp, hk⟩ := passes_bind_iff.mp h
      obtain ⟨rfl, rfl, rfl⟩ := passes_pure_iff.mp hk
      rw [List.append_nil]
      refine (passes_time hp).imp ?_ ?_
      · rintro rfl
        rfl
      · rintro t₀ t ⟨hs, ht, rfl, us, rfl, hus⟩
        exact .time hs ht hus

theorem passes_reset {a : StartupReset} (h : Passes H (startupCall (.reset a)) s ms r s') :
    ms = [] ∧ s' = (startupReset a s).2 := by
  have hset := passes_modify_iff.mp (passes_load_iff.mp h)
  obtain ⟨rfl, -, rfl⟩ := passes_pure_iff.mp hset
  exact ⟨rfl, rfl⟩

theorem passes_others {o : StartupOthers} (h : Passes H (startupCall (.others o)) s ms r s') :
    ms = [] ∧ s' = s.others o := by
  have hset := passes_modify_iff.mp h
  obtain ⟨rfl, -, rfl⟩ := passes_pure_iff.mp hset
  exact ⟨rfl, rfl⟩

theorem passes_runningAt {pointers : Bool} {pc vtor : UInt32}
    (h : Passes H (startupCall (.runningAt pointers pc vtor)) s ms r s') :
    ms = [] ∧ s' = s := by
  obtain ⟨ms₁, found, s₁, ms₂, rfl, hp, hk⟩ := passes_bind_iff.mp h
  obtain ⟨rfl, rfl, rfl⟩ := passes_pure_iff.mp hk
  have hgo := passes_load_iff.mp hp
  split at hgo <;> obtain ⟨rfl, -, rfl⟩ := passes_pure_iff.mp hgo <;> exact ⟨rfl, rfl⟩

theorem startupReset_incomplete {a : StartupReset} (ha : a.complete = false)
    (c : BootStartup) : startupReset a c = (false, c) := by
  rw [startupReset, ha]
  rfl

theorem startupReset_complete {a : StartupReset} (ha : a.complete = true) (c : BootStartup) :
    (startupReset a c).2.active = false ∧
      ((startupReset a c).2.state = .empty ∨ (startupReset a c).2.state = .failed) := by
  rw [startupReset, if_neg (by simp [ha])]
  dsimp only
  split
  · exact ⟨rfl, .inr rfl⟩
  · split
    · exact ⟨rfl, .inl rfl⟩
    · exact ⟨rfl, .inr rfl⟩

end Calls

/-! ## Re-entry -/

theorem Succeeds.idle {c : StartupCall} {t₀ t s' : BootStartup} {r : StartupReply}
    (h : Succeeds c t₀ t r s') : s'.active = false := by
  cases h with
  | cReady ht hs ha => exact ha
  | _ => rfl

theorem Succeeds.ok {c : StartupCall} {t₀ t s' : BootStartup} {r : StartupReply}
    (h : Succeeds c t₀ t r s') : r.ok = true := by
  cases h <;> rfl

/-- An operation is never left in the middle. -/
theorem Ends.idle {H : BootStartup → List StartupMoment → BootStartup → Prop}
    {s s' : BootStartup} {ms : List StartupMoment} {c : StartupCall} {r : StartupReply}
    (h : Ends H s ms s' (r.ok = false) fun t₀ t => Succeeds c t₀ t r s') :
    s'.active = false := by
  obtain ⟨t₀, t, -, -, -, ⟨-, hdown⟩ | ⟨-, hgood⟩⟩ := h
  · exact hdown.1
  · exact hgood.idle

theorem call_quiet {H : BootStartup → List StartupMoment → BootStartup → Prop}
    {s s' : BootStartup} {ms : List StartupMoment} {c : StartupCall}
    {r : StartupReply} (h : Passes H (startupCall c) s ms r s') (hs : s'.active = true) :
    ms = [] ∧ s.active = true ∧ s'.core = s.core ∧ c.claiming = false := by
  cases hc : c.claiming with
  | true =>
      have hidle := (passes_claiming hc h).idle
      rw [hs] at hidle
      cases hidle
  | false =>
      cases c with
      | reset a =>
          obtain ⟨rfl, rfl⟩ := passes_reset h
          cases ha : a.complete with
          | true =>
              rw [(startupReset_complete ha s).1] at hs
              cases hs
          | false =>
              rw [startupReset_incomplete ha] at hs ⊢
              exact ⟨rfl, hs, rfl, rfl⟩
      | runningAt pointers pc vtor =>
          obtain ⟨rfl, rfl⟩ := passes_runningAt h
          exact ⟨rfl, hs, rfl, rfl⟩
      | others o =>
          obtain ⟨rfl, rfl⟩ := passes_others h
          exact ⟨rfl, hs, rfl, rfl⟩
      | _ => cases hc

/-- A claim that still stands at the end stood at the beginning, nobody else
claimed meanwhile, and the recorded fields are as they were. -/
theorem quiet_history {s s' : BootStartup} {ms : List StartupMoment}
    (h : History startupCall s ms s') (hs : s'.active = true) :
    s.active = true ∧ s'.core = s.core ∧
      ∀ c t, Moment.enter c t ∈ ms → c.claiming = false := by
  revert hs
  refine h.relates (R := fun s ms s' => s'.active = true → s.active = true ∧
    s'.core = s.core ∧ ∀ c t, Moment.enter c t ∈ ms → c.claiming = false) ?_ ?_
  · exact fun s hs => ⟨hs, rfl, fun _ _ hm => absurd hm List.not_mem_nil⟩
  · intro c s ns r s₁ ms s' hc hrest hs
    obtain ⟨hs₁, hcore, hcalm⟩ := hrest hs
    obtain ⟨rfl, hact, hsame, hclaim⟩ := call_quiet hc hs₁
    refine ⟨hact, hcore.trans hsame, ?_⟩
    intro d t hm
    rw [List.nil_append, List.mem_cons, List.mem_cons] at hm
    obtain he | he | hm := hm
    · cases he
      exact hclaim
    · cases he
    · exact hcalm d t hm

theorem quiet_sampled {s s' : BootStartup} {ms : List StartupMoment}
    (h : Sampled (History startupCall) s ms s') (hs : s'.active = true) :
    s'.core = s.core ∧ ∀ c t, Moment.enter c t ∈ ms → c.claiming = false := by
  obtain ⟨rfl, rfl⟩ | ⟨answer, ns, rfl, hn⟩ := h
  · exact ⟨rfl, fun _ _ hm => absurd hm List.not_mem_nil⟩
  · obtain ⟨-, hcore, hcalm⟩ := quiet_history hn hs
    refine ⟨hcore, fun c t hm => ?_⟩
    simp only [List.mem_cons, List.mem_append, List.not_mem_nil, or_false, reduceCtorEq,
      false_or] at hm
    exact hcalm c t hm

/-- An operation during which another one was begun fails. -/
theorem nested_fails {s s' : BootStartup} {ms : List StartupMoment} {c : StartupCall}
    {r : StartupReply} (hc : c.claiming = true)
    (h : Passes (History startupCall) (startupCall c) s ms r s')
    (hin : ∃ d t, Moment.enter d t ∈ ms ∧ d.claiming = true) :
    r.ok = false ∧ s'.state = .failed := by
  obtain ⟨d, t', hm, hd⟩ := hin
  obtain ⟨t₀, t, -, -, hn, ⟨hr, hdown⟩ | ⟨hact, -⟩⟩ := passes_claiming hc h
  · exact ⟨hr, hdown.2⟩
  · have hcalm := (quiet_sampled hn hact).2 d t' hm
    rw [hd] at hcalm
    cases hcalm

section Sampled

variable {γ : Type} {next : γ → StartupMoment → γ} {P : γ → StartupMoment → Prop}
variable {I : γ → BootStartup → Prop} {s s' : BootStartup} {ms : List StartupMoment}

theorem sampled_history
    (h : Sampled (fun t ks t' => History startupCall t ks t' ∧ Keeping next P I t ks t')
      s ms s') : Sampled (History startupCall) s ms s' := by
  obtain hnone | ⟨answer, ns, hms, hn⟩ := h
  · exact .inl hnone
  · exact .inr ⟨answer, ns, hms, hn.1⟩

theorem keeping_sampled
    (hask : ∀ g s, I g s → P g (.ask .read s) ∧ I (next g (.ask .read s)) s)
    (hanswer : ∀ e g s, I g s → P g (.answer e s) ∧ I (next g (.answer e s)) s)
    (h : Sampled (fun t ks t' => History startupCall t ks t' ∧ Keeping next P I t ks t')
      s ms s') : Keeping next P I s ms s' := by
  obtain ⟨rfl, rfl⟩ | ⟨answer, ns, rfl, hn⟩ := h
  · exact Keeping.nil _
  · have hfirst : Keeping next P I s [.ask .read s] s := Keeping.one fun g => hask g s
    have hlast : Keeping next P I s' [.answer ⟨.read, answer⟩ s'] s' :=
      Keeping.one fun g => hanswer _ g s'
    exact hfirst.append (hn.2.append hlast)

end Sampled

/-! ## How the state moves -/

/-- The moves of the state between two resets. -/
inductive Moves : BootStartupState → BootStartupState → Prop
  | stays (q : BootStartupState) : Moves q q
  | fails (q : BootStartupState) : Moves q .failed
  | prepared : Moves .empty .prepared
  | dispatching : Moves .prepared .dispatching
  | entered : Moves .dispatching .entered
  | cReady : Moves .entered .cReady

/-- What is seen at a moment, where the state was last seen as `q`. -/
def StateSeen (q : BootStartupState) : StartupMoment → Prop
  | .enter _ s | .ask _ s | .answer _ s => s.state = q
  | .leave c _ s =>
      if c.resets then s.state = .empty ∨ s.state = .failed else Moves q s.state

def lastState (_ : BootStartupState) (m : StartupMoment) : BootStartupState := m.object.state

theorem Succeeds.moves {c : StartupCall} {t₀ t s' : BootStartup} {r : StartupReply}
    (h : Succeeds c t₀ t r s') : Moves t.state s'.state := by
  cases h with
  | prepare hs hh ht => rw [ht]; exact .prepared
  | prepareHandoff hs hh ht => rw [ht]; exact .prepared
  | beginDispatch ht => rw [ht]; exact .dispatching
  | early ht hus => rw [ht]; exact .entered
  | cReady ht hs ha => rw [ht, BootStartup.state_eq_of_core hs]; exact .cReady
  | time hs ht hus => exact .stays _

theorem startupReset_moves (a : StartupReset) (r : StartupReply) (c : BootStartup) :
    StateSeen c.state (.leave (.reset a) r (startupReset a c).2) := by
  rw [StateSeen, StartupCall.resets]
  cases ha : a.complete with
  | true => exact (startupReset_complete ha c).2
  | false =>
      rw [startupReset_incomplete ha]
      exact .stays _

theorem seen_of_moves {c : StartupCall} {r : StartupReply} {q : BootStartupState}
    {s : BootStartup} (hc : c.resets = false) (h : Moves q s.state) : StateSeen q (.leave c r s) := by
  rw [StateSeen, hc]
  exact h

theorem resets_of_claiming {c : StartupCall} (hc : c.claiming = true) : c.resets = false := by
  cases c <;> first | rfl | cases hc

theorem state_moves {s s' : BootStartup} {ms : List StartupMoment}
    (h : History startupCall s ms s') : Along lastState StateSeen s.state ms := by
  refine (h.along (P := StateSeen) (I := fun q s => s.state = q) ?_ s.state
    rfl).1
  intro c s ns r s' hc
  refine Keeping.call ?_
  rintro _ rfl
  cases hcl : c.claiming with
  | true =>
      obtain ⟨t₀, t, hst, -, hn, hend⟩ :=
        passes_claiming hcl hc
      obtain ⟨hns, hlast⟩ := keeping_sampled (fun _ _ h => ⟨h, rfl⟩) (fun _ _ _ h => ⟨h, rfl⟩)
        hn s.state hst
      refine ⟨rfl, hns, seen_of_moves (resets_of_claiming hcl) ?_, rfl⟩
      change Moves (ns.foldl lastState s.state) s'.state
      rw [← hlast]
      obtain ⟨-, hdown⟩ | ⟨-, hgood⟩ := hend
      · rw [hdown.2]
        exact .fails _
      · exact hgood.moves
  | false =>
      cases c with
      | reset a =>
          obtain ⟨rfl, rfl⟩ := passes_reset hc
          exact ⟨rfl, trivial, startupReset_moves a r s, rfl⟩
      | runningAt pointers pc vtor =>
          obtain ⟨rfl, rfl⟩ := passes_runningAt hc
          exact ⟨rfl, trivial, seen_of_moves rfl (.stays _), rfl⟩
      | others o =>
          obtain ⟨rfl, rfl⟩ := passes_others hc
          exact ⟨rfl, trivial, seen_of_moves rfl (.stays _), rfl⟩
      | _ => cases hcl

/-! ## What was recorded -/

/-- Since the last reset: what was prepared, and the times handed out. -/
structure Since where
  given : Option StartupPrepare
  times : List UInt64

/-- Nothing before the first reset, when the capsule is just memory. -/
def noted : Option Since → StartupMoment → Option Since
  | since, .enter .. | since, .ask .. | since, .answer .. => since
  | since, .leave (.reset a) _ _ => if a.complete then some ⟨none, []⟩ else since
  | since, .leave (.time _) (.time (some us)) _ =>
      since.map fun x => { x with times := us :: x.times }
  | since, .leave c r _ =>
      match c.prepares, r.ok with
      | some a, true => since.map fun x => { x with given := some a }
      | _, _ => since

/-- The capsule holds what was prepared, and its times are in order. -/
def Since.Recorded (x : Since) (s : BootStartup) : Prop :=
  (∃ a, x.given = some a ∧ s.Holds a) ∧ s.dispatchUs ≤ s.entryUs ∧
    ∀ us ∈ x.times, s.entryUs ≤ us

/-- A call that handed out a time leaves the application entered, and before it. -/
def Timely : StartupMoment → Prop
  | .leave (.time _) (.time (some us)) s =>
      (s.state = .entered ∨ s.state = .cReady) ∧ s.entryUs ≤ us
  | _ => True

/-- Once the application was entered, which it is whenever a time is handed out. -/
structure RecordedAt (since : Option Since) (m : StartupMoment) : Prop where
  recorded : ∀ x, noted since m = some x →
    m.object.state = .entered ∨ m.object.state = .cReady → x.Recorded m.object
  timely : Timely m

/-- The invariant: `Recorded` as far as the state has come. -/
def Since.Tracks (x : Since) (s : BootStartup) : Prop :=
  match s.state with
  | .empty => x.times = []
  | .prepared | .dispatching => x.times = [] ∧ ∃ a, x.given = some a ∧ s.Holds a
  | .entered | .cReady => x.Recorded s
  | .failed => True

def Tracked (since : Option Since) (s : BootStartup) : Prop := ∀ x, since = some x → x.Tracks s

section Recorded

variable {x : Since} {since : Option Since} {s t : BootStartup}

theorem holds_congr {a : StartupPrepare} (h : s.core = t.core) (ha : t.Holds a) : s.Holds a := by
  simp only [BootStartup.core, Prod.mk.injEq] at h
  obtain ⟨-, himage, hbase, hreset, hepoch, -, -⟩ := h
  exact ⟨himage.trans ha.1, hbase.trans ha.2.1, hreset.trans ha.2.2.1, hepoch.trans ha.2.2.2⟩

theorem recorded_congr (hh : ∀ a, t.Holds a → s.Holds a) (hd : s.dispatchUs = t.dispatchUs)
    (he : s.entryUs = t.entryUs) (h : x.Recorded t) : x.Recorded s := by
  obtain ⟨⟨a, hg, ha⟩, hle, htimes⟩ := h
  refine ⟨⟨a, hg, hh a ha⟩, ?_, ?_⟩
  · rwa [hd, he]
  · rwa [he]

theorem tracked_congr (h : s.core = t.core) (hx : x.Tracks t) : x.Tracks s := by
  have hcore := h
  simp only [BootStartup.core, Prod.mk.injEq] at h
  obtain ⟨hst, -, -, -, -, hd, he⟩ := h
  have hh : ∀ a, t.Holds a → s.Holds a := fun a => holds_congr hcore
  rw [Since.Tracks, hst]
  rw [Since.Tracks] at hx
  split at hx
  · exact hx
  · obtain ⟨htimes, a, hg, ha⟩ := hx
    exact ⟨htimes, a, hg, hh a ha⟩
  · obtain ⟨htimes, a, hg, ha⟩ := hx
    exact ⟨htimes, a, hg, hh a ha⟩
  · exact recorded_congr hh hd he hx
  · exact recorded_congr hh hd he hx
  · trivial

theorem tracked_opened (hst : t.state = s.state) (hcore : s.state ≠ .empty → t.core = s.core)
    (h : Tracked since s) : Tracked since t := by
  intro x hx
  have hs := h x hx
  by_cases hempty : s.state = .empty
  · rw [Since.Tracks, hempty] at hs
    rw [Since.Tracks, hst, hempty]
    exact hs
  · exact tracked_congr (hcore hempty) hs

theorem tracked_failed (h : s.state = .failed) : Tracked since s := by
  intro x _
  rw [Since.Tracks, h]
  trivial

theorem Since.Tracks.empty (h : x.Tracks s) (hs : s.state = .empty) : x.times = [] := by
  rwa [Since.Tracks, hs] at h

theorem Since.Tracks.waiting (h : x.Tracks s) (hs : s.state = .prepared ∨ s.state = .dispatching) :
    x.times = [] ∧ ∃ a, x.given = some a ∧ s.Holds a := by
  obtain hs | hs := hs <;> rwa [Since.Tracks, hs] at h

theorem Since.Tracks.running (h : x.Tracks s) (hs : s.state = .entered ∨ s.state = .cReady) :
    x.Recorded s := by
  obtain hs | hs := hs <;> rwa [Since.Tracks, hs] at h

theorem recordedAt_of_tracked {m : StartupMoment}
    (h : Tracked (noted since m) m.object ∧ Timely m) : RecordedAt since m where
  recorded := fun x hx hs => (h.1 x hx).running hs
  timely := h.2

theorem timely_of_failed {c : StartupCall} {r : StartupReply} (h : r.ok = false) :
    Timely (.leave c r s) := by
  unfold Timely
  split
  · rename_i heq
    cases heq
    cases h
  · trivial

theorem timely_of_not_claiming {c : StartupCall} {r : StartupReply} (h : c.claiming = false) :
    Timely (.leave c r s) := by
  unfold Timely
  split
  · rename_i heq
    cases heq
    cases h
  · trivial

theorem Succeeds.timely {c : StartupCall} {t₀ t s' : BootStartup} {r : StartupReply}
    (h : Succeeds c t₀ t r s') : Timely (.leave c r s') := by
  cases h with
  | time hs hst hus =>
      rw [← hst] at hs
      exact ⟨hs, hus⟩
  | _ => trivial

/-- The end of a successful operation. `hcore` is what it found untouched. -/
theorem Succeeds.tracked {c : StartupCall} {t₀ t s' : BootStartup} {r : StartupReply}
    (h : Succeeds c t₀ t r s') (hcore : t.core = t₀.core) (ht : Tracked since t) :
    Tracked (noted since (.leave c r s')) s' := by
  cases since with
  | none => cases h <;> nofun
  | some x =>
      have hx := ht x rfl
      cases h with
      | prepare hs hh hst =>
          rintro _ ⟨⟩
          have hheld : t.Holds _ := holds_congr hcore hh
          exact ⟨hx.empty hst, _, rfl, hheld⟩
      | prepareHandoff hs hh hst =>
          rintro _ ⟨⟩
          have hheld : t.Holds _ := holds_congr hcore hh
          exact ⟨hx.empty hst, _, rfl, hheld⟩
      | beginDispatch hst =>
          rintro _ ⟨⟩
          exact hx.waiting (.inl hst)
      | early hst hus =>
          rintro _ ⟨⟩
          obtain ⟨htimes, hgiven⟩ := hx.waiting (.inr hst)
          refine ⟨hgiven, hus, ?_⟩
          rw [htimes]
          nofun
      | cReady hst hs ha =>
          rintro _ ⟨⟩
          refine tracked_congr hs ?_
          exact hx.running (.inl hst)
      | time hs hst hus =>
          rintro _ ⟨⟩
          rw [← hst] at hs
          obtain ⟨hgiven, hle, htimes⟩ := hx.running hs
          have hnow : Since.Recorded { x with times := _ :: x.times } t :=
            ⟨hgiven, hle, List.forall_mem_cons.mpr ⟨hus, htimes⟩⟩
          rw [Since.Tracks]
          obtain hs | hs := hs <;> simp only [hs] <;> exact hnow

end Recorded

theorem recorded_along {s s' : BootStartup} {ms : List StartupMoment}
    (h : History startupCall s ms s') : Along noted RecordedAt none ms := by
  refine Along.mono (fun g m => recordedAt_of_tracked) (h.along
    (P := fun g m => Tracked (noted g m) m.object ∧ Timely m) (I := Tracked) ?_ none nofun).1
  intro c s ns r s' hc
  refine Keeping.call fun g hg => ?_
  cases hcl : c.claiming with
  | true =>
      obtain ⟨t₀, t, hst, hcore, hn, hend⟩ :=
        passes_claiming hcl hc
      obtain ⟨hns, hlast⟩ := keeping_sampled (fun _ _ h => ⟨⟨h, trivial⟩, h⟩)
        (fun _ _ _ h => ⟨⟨h, trivial⟩, h⟩) hn g (tracked_opened hst hcore hg)
      have hleave : Tracked (noted (ns.foldl noted g) (.leave c r s')) s' := by
        obtain ⟨-, hdown⟩ | ⟨hact, hgood⟩ := hend
        · exact tracked_failed hdown.2
        · exact hgood.tracked (quiet_sampled (sampled_history hn) hact).1 hlast
      have htimely : Timely (.leave c r s') := by
        obtain ⟨hfailed, -⟩ | ⟨-, hgood⟩ := hend
        · exact timely_of_failed hfailed
        · exact hgood.timely
      exact ⟨⟨hg, trivial⟩, hns, ⟨hleave, htimely⟩, hleave⟩
  | false =>
      cases c with
      | reset a =>
          obtain ⟨rfl, rfl⟩ := passes_reset hc
          have hleave : Tracked (noted g (.leave (.reset a) r (startupReset a s).2))
              (startupReset a s).2 := by
            cases ha : a.complete with
            | true =>
                obtain ⟨-, hs | hs⟩ := startupReset_complete ha s
                · rw [noted, ha]
                  rintro _ ⟨⟩
                  rw [Since.Tracks, hs]
                · exact tracked_failed hs
            | false =>
                rw [startupReset_incomplete ha, noted, ha]
                exact hg
          exact ⟨⟨hg, trivial⟩, trivial, ⟨hleave, timely_of_not_claiming rfl⟩, hleave⟩
      | runningAt pointers pc vtor =>
          obtain ⟨rfl, rfl⟩ := passes_runningAt hc
          exact ⟨⟨hg, trivial⟩, trivial, ⟨hg, timely_of_not_claiming rfl⟩, hg⟩
      | others o =>
          obtain ⟨rfl, rfl⟩ := passes_others hc
          have hleave : Tracked g (s.others o) := tracked_opened rfl (fun _ => rfl) hg
          exact ⟨⟨hg, trivial⟩, trivial, ⟨hleave, timely_of_not_claiming rfl⟩, hleave⟩
      | _ => cases hcl

/-- The state only moves forward or fails, what is recorded stays in order, and
operations do not nest. -/
theorem startup_continuity {s s' : BootStartup} {ms : List StartupMoment}
    (h : History startupCall s ms s') :
    Along lastState StateSeen s.state ms ∧ Along noted RecordedAt none ms ∧
    ∀ (c : StartupCall) (t : BootStartup) (ns : List StartupMoment) (r : StartupReply)
      (t' : BootStartup), Passes (History startupCall) (startupCall c) t ns r t' →
      c.claiming = true → (∃ d t₁, Moment.enter d t₁ ∈ ns ∧ d.claiming = true) →
      r.ok = false ∧ t'.state = .failed :=
  ⟨state_moves h, recorded_along h, fun _ _ _ _ _ hc hcl hin => nested_fails hcl hc hin⟩

/-! The whole way once, to a time call made from inside another one. -/

def trialStartup : StartupPrepare where
  pointers := true
  excluded := true
  image := ⟨⟨0, 0x8800, 4096, 1, ⟨List.replicate 32 0, length_zeroHash⟩,
    ⟨List.replicate 64 0, length_zeroSignature⟩⟩, 0x20010000, 0x8901⟩
  intent := ⟨0x8800, 0x20010000, 0x8901, 0, 0, 0, 0, 1⟩

def trialClock : BootStartupClock := ⟨0, 0, 0xffffffff, 0xffffffff, 8000000, 1⟩

def trialSample (us : UInt64) : (op : ClockSig.Op) → ClockSig.Ans op :=
  fun _ => some ⟨us, 0, 0, 8000000, 1⟩

def trialReset : StartupCall :=
  .reset ⟨true, ⟨true, true⟩, 0, true, trialClock, true⟩

def trialBooted : BootStartup :=
  (plays startupCall (.turn trialReset (trialSample 0) .done .done)
    (BootStartup.zeroed fun _ => 0)).2

/-- The watchdog as the running application has it, and the stub's capture. -/
def trialOthers : StartupCall :=
  .others { trialBooted with
    hz := 8000000
    reload := 40000000
    watchdog := { bootWatchdogInit with
      configured := true, owner := .application, reload := 40000000 }
    observed := ⟨0x20010000, 0, 0, 0, 0, 0, 0, 0x8800, 0x8902, 0x8901, 0⟩ }

def trialRun : StartupRunResult := ⟨.ok, bootRuntimeWatchdogHandoff, .ok⟩

def trialScript : Script ClockSig StartupCall :=
  .turn trialReset (trialSample 0) .done <|
  .turn trialOthers (trialSample 0) .done <|
  .turn (.prepare true trialRun trialStartup) (trialSample 3) .done <|
  .turn (.beginDispatch true) (trialSample 5) .done <|
  .turn (.early true 0x8901 0x8902) (trialSample 8) .done <|
  .turn (.time true) (trialSample 9) .done <|
  .turn (.cReady true ⟨true, true⟩) (trialSample 10) .done <|
  .turn (.time true) (trialSample 11)
    (.turn (.time true) (trialSample 12) .done .done) .done

def trialMoments : List StartupMoment := (plays startupCall trialScript trialBooted).1

theorem startup_continuity_trial :
    (Along lastState StateSeen trialBooted.state trialMoments ∧
      Along noted RecordedAt none trialMoments) ∧
    trialMoments.map (fun m => m.object.state) =
      [.empty, .empty, .empty, .empty, .empty, .empty, .empty, .prepared, .prepared, .prepared,
        .prepared, .dispatching, .dispatching, .dispatching, .dispatching, .entered, .entered,
        .entered, .entered, .entered, .entered, .entered, .entered, .cReady, .cReady, .cReady,
        .cReady, .failed, .failed, .failed] := by
  have h := startup_continuity (history_plays startupCall trialScript trialBooted)
  exact ⟨⟨h.1, h.2.1⟩, by decide +kernel⟩

end EkBareMetal.Boot

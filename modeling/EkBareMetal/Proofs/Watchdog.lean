import EkBareMetal.Boot.Watchdog
import EkBareMetal.Lib.Transition
import Mathlib.Data.List.DropRight

/-!
# A feed for every step of progress

What the watchdog is for is lost if it is ever fed without progress, so the
results here are about which reports a feed was made on. The moves of the
record are few (`WatchdogOutcome`), and over a run of calls with any answers
from the registers three things are followed: which reports were accepted
since the last feed (`since`), how far the verifier has come (`mark`), and the
epoch, which only feeds and the one transfer move.
-/

namespace EkBareMetal.Boot

open Interact Transition

/-! ## What a call can do -/

/-- The call as the code that holds the guard makes it. -/
def WatchdogCall.held : WatchdogCall → WatchdogCall
  | .service owner epoch => .serviceHeld owner epoch
  | .transfer epoch => .transferHeld epoch
  | .bootReport report => .bootReportHeld report
  | c => c

/-- The state after the report of a milestone. -/
def BootWatchdog.reported (w : BootWatchdog) (r : BootReport) : BootWatchdog :=
  match r.phase with
  | .manifestBegin =>
      { w with
        verification := r.verification
        total := r.total
        completed := 0
        evidence := 0
        phase := 1 }
  | .manifestAuthenticated => { w with phase := 2, evidence := 1 }
  | .payloadProgress => { w with completed := r.completed, evidence := 1 }

theorem reported_frame (w : BootWatchdog) (r : BootReport) :
    (w.reported r).owner = w.owner ∧ (w.reported r).epoch = w.epoch ∧
      (w.reported r).blocked = w.blocked := by
  rcases r with ⟨_, _, phase, _, _⟩
  cases phase <;> exact ⟨rfl, rfl, rfl⟩

/-- A report that is next in the verifier's stream. -/
def BootWatchdog.Expects (w : BootWatchdog) (r : BootReport) : Prop :=
  match r.phase with
  | .manifestBegin => beginOk w r = true
  | .manifestAuthenticated =>
      r.verification = w.verification ∧ r.total = w.total ∧ w.phase = 1 ∧
        r.completed = 0
  | .payloadProgress =>
      r.verification = w.verification ∧ r.total = w.total ∧ chunkOk w r = true

/-- Everything a call that was made on `w` with the guard in hand can have
returned and left behind. -/
inductive WatchdogOutcome (w : BootWatchdog) :
    WatchdogCall → BootWatchdogResult → BootWatchdog → Prop where
  | refuses {c : WatchdogCall} {r : BootWatchdogResult} (hr : r ≠ .ok) :
      WatchdogOutcome w c r w
  | quarantines {c : WatchdogCall} {r : BootWatchdogResult} (hr : r ≠ .ok) :
      WatchdogOutcome w c r w.quarantine
  | configures {hz reload : UInt32} (hb : w.blocked = false) :
      WatchdogOutcome w (.configure hz reload) .ok
        { w with reload := reload, configured := true }
  | serves {owner : BootWatchdogOwner} {epoch : UInt32}
      (hready : ready w owner epoch = .ok) (hfull : w.evidence = owner.required)
      (hmax : w.epoch ≠ uint32Max) :
      WatchdogOutcome w (.serviceHeld owner epoch) .ok
        { w with evidence := 0, epoch := w.epoch + 1 }
  | transfers {epoch : UInt32} (hready : ready w .boot epoch = .ok)
      (hmax : w.epoch ≠ uint32Max) :
      WatchdogOutcome w (.transferHeld epoch) .ok
        { w with owner := .application, evidence := 0, epoch := w.epoch + 1 }
  | reports {r : BootReport} (hready : ready w .boot r.epoch = .ok)
      (hnext : w.Expects r) :
      WatchdogOutcome w (.bootReportHeld r) .ok (w.reported r)
  | applies {epoch predicate complete : UInt32}
      (hready : ready w .application epoch = .ok)
      (hone : predicate = bootWatchdogEthernet ∨ predicate = bootWatchdogTimers ∨
        predicate = bootWatchdogFtp) (hfresh : w.evidence &&& predicate = 0) :
      WatchdogOutcome w (.applicationReport epoch predicate complete) .ok
        { w with evidence := w.evidence ||| predicate }

theorem ready_ok {w : BootWatchdog} {owner : BootWatchdogOwner} {epoch : UInt32}
    (h : ready w owner epoch = .ok) :
    w.blocked = false ∧ w.configured = true ∧ owner = w.owner ∧ epoch = w.epoch := by
  rw [ready] at h
  split at h
  · cases h
  · next hb =>
      split at h
      · cases h
      · next hs =>
          simp only [not_or, Bool.not_eq_true', Bool.not_eq_false, ne_eq,
            Decidable.not_not] at hs
          exact ⟨Bool.eq_false_iff.mpr hb, hs.1, hs.2.1, hs.2.2⟩

section Outcomes

variable {w w' : BootWatchdog} {r : BootWatchdogResult}
  {tr : List (Event WatchdogSig)}

theorem faultHeld_runs {e : BootWatchdogResult}
    (h : Runs (faultHeld w e) tr (r, w')) : r = e ∧ w' = w.quarantine := by
  obtain ⟨tr₁, a, tr₂, rfl, -, hk⟩ := runs_bind_iff'.mp h
  obtain ⟨rfl, he⟩ := runs_pure_iff.mp hk
  cases he
  exact ⟨rfl, rfl⟩

theorem configure_outcome {hz reload : UInt32}
    (h : Runs (configureHeld reload w) tr (r, w')) :
    WatchdogOutcome w (.configure hz reload) r w' := by
  rw [configureHeld] at h
  split at h
  · obtain ⟨-, he⟩ := runs_pure_iff.mp h
    cases he
    exact .refuses nofun
  · next hb =>
    split at h
    · obtain ⟨-, he⟩ := runs_pure_iff.mp h
      cases he
      exact .refuses nofun
    · obtain ⟨tr₁, e, tr₂, rfl, -, hk⟩ := runs_bind_iff'.mp h
      split at hk
      · next hne =>
          obtain ⟨-, he⟩ := runs_pure_iff.mp hk
          cases he
          exact .quarantines hne
      · obtain ⟨answer, rest, rfl, hc⟩ := runs_ask_iff.mp hk
        split at hc
        · obtain ⟨-, he⟩ := runs_pure_iff.mp hc
          cases he
          exact .quarantines nofun
        · split at hc
          · obtain ⟨-, he⟩ := runs_pure_iff.mp hc
            cases he
            exact .quarantines nofun
          · obtain ⟨tr₃, e', tr₄, rfl, -, hl⟩ := runs_bind_iff'.mp hc
            split at hl
            · next hne =>
                obtain ⟨rfl, rfl⟩ := faultHeld_runs hl
                exact .quarantines hne
            · obtain ⟨-, he⟩ := runs_pure_iff.mp hl
              cases he
              exact .configures (Bool.eq_false_iff.mpr hb)

theorem service_outcome {owner : BootWatchdogOwner} {epoch : UInt32}
    (h : Runs (bootWatchdogServiceHeld w owner epoch) tr (r, w')) :
    WatchdogOutcome w (.serviceHeld owner epoch) r w' := by
  rw [bootWatchdogServiceHeld] at h
  dsimp only at h
  split at h
  · next hne =>
      obtain ⟨-, he⟩ := runs_pure_iff.mp h
      cases he
      exact .refuses hne
  · next hready =>
    rw [ne_eq, Decidable.not_not] at hready
    split at h
    · obtain ⟨-, he⟩ := runs_pure_iff.mp h
      cases he
      exact .refuses nofun
    · next hfull =>
      rw [ne_eq, Decidable.not_not] at hfull
      split at h
      · obtain ⟨-, he⟩ := runs_pure_iff.mp h
        cases he
        exact .quarantines nofun
      · next hmax =>
        obtain ⟨tr₁, e, tr₂, rfl, -, hk⟩ := runs_bind_iff'.mp h
        split at hk
        · next hne =>
            obtain ⟨-, he⟩ := runs_pure_iff.mp hk
            cases he
            exact .quarantines hne
        · obtain ⟨tr₃, e', tr₄, rfl, -, hl⟩ := runs_bind_iff'.mp hk
          split at hl
          · next hne =>
              obtain ⟨rfl, rfl⟩ := faultHeld_runs hl
              exact .quarantines hne
          · obtain ⟨-, he⟩ := runs_pure_iff.mp hl
            cases he
            exact .serves hready hfull hmax

theorem transfer_outcome {epoch : UInt32}
    (h : bootWatchdogTransferHeld w epoch = (r, w')) :
    WatchdogOutcome w (.transferHeld epoch) r w' := by
  rw [bootWatchdogTransferHeld] at h
  split at h
  · next hne => cases h; exact .refuses hne
  · next hready =>
    rw [ne_eq, Decidable.not_not] at hready
    split at h
    · cases h; exact .quarantines nofun
    · next hmax => cases h; exact .transfers hready hmax

theorem report_outcome {report : BootReport}
    (h : bootWatchdogReportHeld w report = (r, w')) :
    WatchdogOutcome w (.bootReportHeld report) r w' := by
  have accepts (hready : ready w .boot report.epoch = .ok)
      (hnext : w.Expects report) :
      WatchdogOutcome w (.bootReportHeld report) .ok (w.reported report) :=
    .reports hready hnext
  rw [bootWatchdogReportHeld] at h
  split at h
  · next hne => cases h; exact .refuses hne
  next hready =>
  rw [ne_eq, Decidable.not_not] at hready
  rcases report with ⟨epoch, verification, phase, completed, total⟩
  cases phase with
  | manifestBegin =>
      rw [if_pos rfl] at h
      split at h
      · cases h; exact .refuses nofun
      · next hbegin =>
          cases h
          rw [Bool.not_eq_true', Bool.not_eq_false] at hbegin
          exact accepts hready hbegin
  | manifestAuthenticated =>
      rw [if_neg nofun] at h
      split at h
      · cases h; exact .refuses nofun
      · next hstream =>
        rw [if_pos rfl] at h
        split at h
        · cases h; exact .refuses nofun
        · next hphase =>
            cases h
            refine accepts hready ?_
            simp only [BootWatchdog.Expects]
            tauto
  | payloadProgress =>
      rw [if_neg nofun] at h
      split at h
      · cases h; exact .refuses nofun
      · next hstream =>
        rw [if_neg nofun] at h
        split at h
        · cases h; exact .refuses nofun
        · next hchunk =>
            cases h
            refine accepts hready ?_
            simp only [BootWatchdog.Expects]
            simp only [Bool.not_eq_true', Bool.not_eq_false] at hchunk
            tauto

theorem application_outcome {epoch predicate complete : UInt32}
    (h : applicationReportHeld w epoch predicate complete = (r, w')) :
    WatchdogOutcome w (.applicationReport epoch predicate complete) r w' := by
  rw [applicationReportHeld] at h
  split at h
  · next hne => cases h; exact .refuses hne
  · next hready =>
    rw [ne_eq, Decidable.not_not] at hready
    split at h
    · cases h; exact .refuses nofun
    · next hok =>
        cases h
        simp only [not_or, not_and_or, ne_eq, Decidable.not_not] at hok
        exact .applies hready hok.2.1 hok.2.2

/-- A guarded call is refused while the guard is taken, and else what its body
does between taking the guard and leaving it. -/
theorem guarded_runs {body : BootWatchdog → Prog WatchdogSig WatchdogReply}
    (h : Runs (guarded w body) tr (r, w')) :
    (w.entered = true ∧ tr = [] ∧ r = .busy ∧ w' = w) ∨
    (w.entered = false ∧ ∃ w₁, Runs (body { w with entered := true }) tr (r, w₁) ∧
      w' = { w₁ with entered := false }) := by
  rw [guarded] at h
  split at h
  · next hentered =>
      obtain ⟨rfl, he⟩ := runs_pure_iff.mp h
      cases he
      exact .inl ⟨hentered, rfl, rfl, rfl⟩
  · next hentered =>
      obtain ⟨tr₁, ⟨r₁, w₁⟩, tr₂, rfl, hbody, hk⟩ := runs_bind_iff'.mp h
      obtain ⟨rfl, he⟩ := runs_pure_iff.mp hk
      cases he
      rw [List.append_nil]
      exact .inr ⟨Bool.eq_false_iff.mpr hentered, w₁, hbody, rfl⟩

/-- What a call does, it does whatever the guard is. -/
theorem WatchdogOutcome.guard {c : WatchdogCall} (h : WatchdogOutcome w c r w')
    (b : Bool) :
    WatchdogOutcome { w with entered := b } c r { w' with entered := b } := by
  cases h with
  | refuses hr => exact .refuses hr
  | quarantines hr => exact .quarantines hr
  | configures hb => exact .configures hb
  | serves hready hfull hmax => exact .serves hready hfull hmax
  | transfers hready hmax => exact .transfers hready hmax
  | reports hready hnext =>
      next report =>
      have hs : { w.reported report with entered := b } =
          BootWatchdog.reported { w with entered := b } report := by
        rcases report with ⟨_, _, phase, _, _⟩
        cases phase <;> rfl
      rw [hs]
      exact .reports hready hnext
  | applies hready hone hfresh => exact .applies hready hone hfresh

end Outcomes

/-! ## Runs of calls -/

/-- One call: whether it was made from inside another one or by the holder of
the guard, what the registers were asked and answered, and its result. -/
structure WatchdogLabel where
  call : WatchdogCall
  guardHeld : Bool
  events : List (Event WatchdogSig)
  result : BootWatchdogResult

def WatchdogStep (w : BootWatchdog) (l : WatchdogLabel) (w' : BootWatchdog) : Prop :=
  Runs (l.call.run { w with entered := l.guardHeld }) l.events (l.result, w')

theorem guarded_outcome {w w' : BootWatchdog} {g : Bool} {c : WatchdogCall}
    {tr : List (Event WatchdogSig)} {r : BootWatchdogResult}
    {body : BootWatchdog → Prog WatchdogSig WatchdogReply}
    (hbody : ∀ {w w' tr r}, Runs (body w) tr (r, w') → WatchdogOutcome w c r w')
    (h : Runs (guarded { w with entered := g } body) tr (r, w')) :
    WatchdogOutcome { w with entered := g } c r w' := by
  rcases guarded_runs h with ⟨-, -, rfl, rfl⟩ | ⟨hg, w₁, hr, rfl⟩
  · exact .refuses nofun
  · obtain rfl : g = false := hg
    exact (hbody hr).guard false

theorem pure_outcome {w : BootWatchdog} {f : WatchdogReply} {c : WatchdogCall}
    (hf : ∀ {r w'}, f = (r, w') → WatchdogOutcome w c r w') {w' : BootWatchdog}
    {tr : List (Event WatchdogSig)} {r : BootWatchdogResult}
    (h : Runs (pure f) tr (r, w')) : WatchdogOutcome w c r w' := by
  obtain ⟨-, he⟩ := runs_pure_iff.mp h
  exact hf he.symm

theorem step_outcome {w w' : BootWatchdog} {l : WatchdogLabel}
    (h : WatchdogStep w l w') :
    WatchdogOutcome { w with entered := l.guardHeld } l.call.held l.result w' := by
  rcases l with ⟨call, g, events, r⟩
  rw [WatchdogStep] at h
  cases call with
  | configure hz reload =>
      simp only [WatchdogCall.run, bootWatchdogConfigure] at h
      split at h
      · obtain ⟨-, he⟩ := runs_pure_iff.mp h
        cases he
        exact .refuses nofun
      · exact guarded_outcome configure_outcome h
  | service owner epoch => exact guarded_outcome service_outcome h
  | serviceHeld owner epoch => exact service_outcome h
  | transfer epoch =>
      exact guarded_outcome (fun hr => pure_outcome transfer_outcome hr) h
  | transferHeld epoch => exact pure_outcome transfer_outcome h
  | bootReport report =>
      exact guarded_outcome (fun hr => pure_outcome report_outcome hr) h
  | bootReportHeld report => exact pure_outcome report_outcome h
  | applicationReport epoch predicate complete =>
      exact guarded_outcome (fun hr => pure_outcome application_outcome hr) h

/-! ## The register accesses -/

theorem service_asks {w w' : BootWatchdog} {owner : BootWatchdogOwner}
    {epoch : UInt32} {tr : List (Event WatchdogSig)} {r : BootWatchdogResult}
    (h : Runs (bootWatchdogServiceHeld w owner epoch) tr (r, w')) (hne : tr ≠ []) :
    ready w owner epoch = .ok ∧ w.evidence = owner.required := by
  rw [bootWatchdogServiceHeld] at h
  dsimp only at h
  split at h
  · exact absurd (runs_pure_iff.mp h).1 hne
  · next hready =>
    rw [ne_eq, Decidable.not_not] at hready
    split at h
    · exact absurd (runs_pure_iff.mp h).1 hne
    · next hfull => exact ⟨hready, Decidable.not_not.mp hfull⟩

theorem guarded_silent {w w' : BootWatchdog} {f : BootWatchdog → WatchdogReply}
    {tr : List (Event WatchdogSig)} {r : BootWatchdogResult}
    (h : Runs (guarded w fun w => pure (f w)) tr (r, w')) : tr = [] := by
  rcases guarded_runs h with ⟨-, he, -, -⟩ | ⟨-, w₁, hr, -⟩
  · exact he
  · exact (runs_pure_iff.mp hr).1

/-- The registers are only touched by a configuration and by a service whose
evidence is complete. -/
theorem step_touches {w w' : BootWatchdog} {l : WatchdogLabel}
    (h : WatchdogStep w l w') (hne : l.events ≠ []) :
    (∃ hz reload, l.call = .configure hz reload) ∨
      ∃ owner epoch, l.call.held = .serviceHeld owner epoch ∧
        ready w owner epoch = .ok ∧ w.evidence = owner.required := by
  rw [WatchdogStep] at h
  cases hc : l.call with
  | configure hz reload => exact .inl ⟨hz, reload, rfl⟩
  | service owner epoch =>
      rw [hc] at h
      dsimp only [WatchdogCall.run, bootWatchdogService] at h
      rcases guarded_runs h with ⟨-, he, -, -⟩ | ⟨-, w₁, hr, -⟩
      · exact absurd he hne
      · have hs := service_asks hr hne
        exact .inr ⟨owner, epoch, rfl, hs⟩
  | serviceHeld owner epoch =>
      rw [hc] at h
      dsimp only [WatchdogCall.run] at h
      have hs := service_asks h hne
      exact .inr ⟨owner, epoch, rfl, hs⟩
  | transfer epoch =>
      rw [hc] at h
      dsimp only [WatchdogCall.run, bootWatchdogTransfer] at h
      exact absurd (guarded_silent h) hne
  | transferHeld epoch =>
      rw [hc] at h
      dsimp only [WatchdogCall.run] at h
      exact absurd (runs_pure_iff.mp h).1 hne
  | bootReport report =>
      rw [hc] at h
      dsimp only [WatchdogCall.run, bootWatchdogBootReport] at h
      exact absurd (guarded_silent h) hne
  | bootReportHeld report =>
      rw [hc] at h
      dsimp only [WatchdogCall.run] at h
      exact absurd (runs_pure_iff.mp h).1 hne
  | applicationReport epoch predicate complete =>
      rw [hc] at h
      dsimp only [WatchdogCall.run, bootWatchdogApplicationReport] at h
      exact absurd (guarded_silent h) hne

/-! ## What a trace shows -/

namespace WatchdogLabel

/-- The owner and the epoch of a feed that succeeded. -/
def served (l : WatchdogLabel) : Option (BootWatchdogOwner × UInt32) :=
  match l.result, l.call.held with
  | .ok, .serviceHeld owner epoch => some (owner, epoch)
  | _, _ => none

def transferred (l : WatchdogLabel) : Bool :=
  match l.result, l.call.held with
  | .ok, .transferHeld _ => true
  | _, _ => false

/-- The milestone of a report of the verifier that was accepted. -/
def milestone (l : WatchdogLabel) : Option (UInt32 × BootVerifyPhase × UInt32) :=
  match l.result, l.call.held with
  | .ok, .bootReportHeld r => some (r.verification, r.phase, r.completed)
  | _, _ => none

/-- A milestone that is evidence: a begin is none. -/
def evident (l : WatchdogLabel) : Bool :=
  l.milestone.any fun m => m.2.1 != .manifestBegin

/-- The epoch and the predicate of a report of the application that was
accepted. -/
def applied (l : WatchdogLabel) : Option (UInt32 × UInt32) :=
  match l.result, l.call.held with
  | .ok, .applicationReport epoch predicate _ => some (epoch, predicate)
  | _, _ => none

/-- The two kinds of call that end an epoch. -/
def advances (l : WatchdogLabel) : Bool := l.served.isSome || l.transferred

/-- A call that did not return OK has done none of these. -/
theorem idle {l : WatchdogLabel} (h : l.result ≠ .ok) :
    l.served = none ∧ l.transferred = false ∧ l.milestone = none ∧
      l.applied = none := by
  rcases l with ⟨call, g, events, result⟩
  cases result with
  | ok => exact absurd rfl h
  | _ => exact ⟨rfl, rfl, rfl, rfl⟩

end WatchdogLabel

abbrev WatchdogTrace := List (WatchdogLabel × BootWatchdog)

/-- The calls since the epoch last changed. -/
def since (tr : WatchdogTrace) : WatchdogTrace :=
  tr.rtakeWhile fun x => !x.1.advances

/-! ## The verifier's stream -/

/-- How far the verifier has come, in the order of its stream. -/
def BootWatchdog.mark (w : BootWatchdog) : Nat :=
  w.verification.toNat * 2 ^ 34 + w.phase * 2 ^ 32 + w.completed.toNat

/-- The place of a milestone in that order. -/
def place (m : UInt32 × BootVerifyPhase × UInt32) : Nat :=
  m.1.toNat * 2 ^ 34 + (if m.2.1 = .manifestBegin then 1 else 2) * 2 ^ 32 +
    m.2.2.toNat

/-- The payload is only counted after the signature. -/
structure BootWatchdog.Tidy (w : BootWatchdog) : Prop where
  phase : w.phase ≤ 2
  completed : w.phase ≠ 2 → w.completed = 0

theorem tidy_init : bootWatchdogInit.Tidy := ⟨by decide, fun _ => rfl⟩

/-- An accepted milestone is where the record then is, and past where it was. -/
theorem reported_mark {w : BootWatchdog} {r : BootReport} (ht : w.Tidy)
    (h : w.Expects r) :
    (w.reported r).Tidy ∧
      (w.reported r).mark = place (r.verification, r.phase, r.completed) ∧
      w.mark < (w.reported r).mark := by
  have hphase := ht.phase
  have hw := w.completed.toNat_lt
  rcases r with ⟨epoch, verification, phase, completed, total⟩
  cases phase with
  | manifestBegin =>
      simp only [BootWatchdog.Expects, beginOk, Bool.and_eq_true,
        decide_eq_true_eq] at h
      obtain ⟨⟨⟨⟨⟨-, hlt⟩, rfl⟩, -⟩, -⟩, -⟩ := h
      rw [UInt32.lt_iff_toNat_lt] at hlt
      refine ⟨⟨Nat.le_succ 1, fun _ => rfl⟩, rfl, ?_⟩
      simp only [BootWatchdog.mark, BootWatchdog.reported, UInt32.toNat_zero]
      omega
  | manifestAuthenticated =>
      obtain ⟨rfl, -, hone, rfl⟩ := h
      have hzero : w.completed = 0 := ht.completed (by omega)
      refine ⟨⟨Nat.le_refl 2, fun hne => absurd rfl hne⟩, ?_, ?_⟩
      · simp only [BootWatchdog.mark, BootWatchdog.reported, hzero]
        rfl
      · simp only [BootWatchdog.mark, BootWatchdog.reported, hone]
        omega
  | payloadProgress =>
      obtain ⟨rfl, -, hchunk⟩ := h
      simp only [chunkOk, Bool.and_eq_true, decide_eq_true_eq] at hchunk
      obtain ⟨⟨⟨⟨htwo, -⟩, hlt⟩, -⟩, -⟩ := hchunk
      rw [UInt32.lt_iff_toNat_lt] at hlt
      refine ⟨⟨hphase, fun hne => absurd htwo hne⟩, ?_, ?_⟩
      · simp only [BootWatchdog.mark, BootWatchdog.reported, htwo]
        rfl
      · simp only [BootWatchdog.mark, BootWatchdog.reported]
        omega

theorem step_mark {w w' : BootWatchdog} {l : WatchdogLabel} (ht : w.Tidy)
    (h : WatchdogStep w l w') :
    w'.Tidy ∧ (l.milestone = none ∧ w'.mark = w.mark ∨
      ∃ m, l.milestone = some m ∧ w'.mark = place m ∧ w.mark < w'.mark) := by
  have ht' : BootWatchdog.Tidy { w with entered := l.guardHeld } :=
    ⟨ht.phase, ht.completed⟩
  have ho := step_outcome h
  generalize hc : l.call.held = c at ho
  generalize hr : l.result = r at ho
  cases ho with
  | refuses hne => exact ⟨ht', .inl ⟨(l.idle (hr ▸ hne)).2.2.1, rfl⟩⟩
  | quarantines hne =>
      exact ⟨⟨ht.phase, ht.completed⟩, .inl ⟨(l.idle (hr ▸ hne)).2.2.1, rfl⟩⟩
  | reports hready hnext =>
      obtain ⟨htidy, hmark, hlt⟩ := reported_mark ht' hnext
      exact ⟨htidy, .inr ⟨_, by simp only [WatchdogLabel.milestone, hr, hc],
        hmark, hlt⟩⟩
  | configures | serves | transfers | applies =>
      exact ⟨⟨ht.phase, ht.completed⟩,
        .inl ⟨by simp only [WatchdogLabel.milestone, hr, hc], rfl⟩⟩

/-- The milestones accepted in a run come in the order of the stream. -/
theorem run_marks {w w' : BootWatchdog} {tr : WatchdogTrace} (ht : w.Tidy)
    (h : Run WatchdogStep w tr w') :
    (tr.filterMap fun x => x.1.milestone).Pairwise (place · < place ·) ∧
      ∀ m ∈ tr.filterMap fun x => x.1.milestone, w.mark < place m := by
  induction h with
  | nil => exact ⟨.nil, fun m hm => absurd hm List.not_mem_nil⟩
  | cons hs hr ih =>
      next w w₁ w' l tr =>
      obtain ⟨ht₁, hmove⟩ := step_mark ht hs
      obtain ⟨hpair, hlater⟩ := ih ht₁
      rcases hmove with ⟨hnone, hmark⟩ | ⟨m, hm, hmark, hlt⟩
      · simp only [List.filterMap_cons, hnone, ← hmark]
        exact ⟨hpair, hlater⟩
      · simp only [List.filterMap_cons, hm]
        refine ⟨List.pairwise_cons.mpr ⟨fun m' hm' => ?_, hpair⟩, fun m' hm' => ?_⟩
        · rw [← hmark]
          exact hlater m' hm'
        · rcases List.mem_cons.mp hm' with rfl | hm'
          · rw [← hmark]
            exact hlt
          · exact Nat.lt_trans hlt (hlater m' hm')

/-- No milestone is accepted twice. -/
theorem milestones_nodup {w w' : BootWatchdog} {tr : WatchdogTrace} (ht : w.Tidy)
    (h : Run WatchdogStep w tr w') :
    (tr.filterMap fun x => x.1.milestone).Nodup := by
  refine (run_marks ht h).1.imp fun hlt he => ?_
  rw [he] at hlt
  exact Nat.lt_irrefl _ hlt

/-! ## The reports of an epoch -/

theorem since_stays {tr : WatchdogTrace} {x : WatchdogLabel × BootWatchdog}
    (h : x.1.advances = false) : since (tr ++ [x]) = since tr ++ [x] :=
  List.rtakeWhile_concat_pos _ _ _ (by rw [h]; rfl)

theorem since_starts {tr : WatchdogTrace} {x : WatchdogLabel × BootWatchdog}
    (h : x.1.advances = true) : since (tr ++ [x]) = [] :=
  List.rtakeWhile_concat_neg _ _ _ (by rw [h]; decide)

/-- The accepted reports of a predicate in an epoch. -/
def reports (tr : WatchdogTrace) (epoch predicate : UInt32) : Nat :=
  tr.countP fun x => x.1.applied == some (epoch, predicate)

/-- The predicates of the application. -/
abbrev duties : List UInt32 :=
  [bootWatchdogEthernet, bootWatchdogTimers, bootWatchdogFtp]

/-- The predicates are separate bits of the evidence. -/
theorem duty_and {p q : UInt32} (hp : p ∈ duties) (hq : q ∈ duties) (e : UInt32) :
    (e ||| q) &&& p = 0 ↔ e &&& p = 0 ∧ q ≠ p := by
  have hdistrib : (e ||| q) &&& p = e &&& p ||| q &&& p := by
    rw [← UInt32.toBitVec_inj]
    exact BitVec.and_or_distrib_right
  rw [hdistrib, UInt32.or_eq_zero_iff]
  refine and_congr_right fun _ => ?_
  simp only [List.mem_cons, List.not_mem_nil, or_false] at hp hq
  rcases hp with rfl | rfl | rfl <;> rcases hq with rfl | rfl | rfl <;> decide

/-- What the trace shows of the evidence the record has. -/
structure Ledger (w : BootWatchdog) (tr : WatchdogTrace) : Prop where
  /-- Evidence of the boot loader is a milestone of this epoch. -/
  boot : w.owner = .boot → w.evidence ≠ 0 → ∃ x ∈ since tr, x.1.evident = true
  /-- Reports of the application are for the epoch they are made in. -/
  epochs : ∀ x ∈ since tr, ∀ e p, x.1.applied = some (e, p) → e = w.epoch
  /-- A bit of its evidence is one report. -/
  bits : w.blocked = false → w.owner = .application → ∀ p ∈ duties,
    reports (since tr) w.epoch p = if w.evidence &&& p = 0 then 0 else 1
  transfers : (tr.countP fun x => x.1.transferred) =
    if w.owner = .boot then 0 else 1

theorem ledger_init : Ledger bootWatchdogInit [] where
  boot _ h := absurd rfl h
  epochs _ hx := absurd hx List.not_mem_nil
  bits _ h := nomatch h
  transfers := rfl

section Ledger

variable {w w' : BootWatchdog} {l : WatchdogLabel} {tr : WatchdogTrace}

/-- A call inside an epoch. -/
theorem Ledger.stays (h : Ledger w tr) (hadvances : l.advances = false)
    (howner : w'.owner = w.owner) (hepoch : w'.epoch = w.epoch)
    (hboot : w'.owner = .boot → w'.evidence ≠ 0 → l.evident = true ∨ w.evidence ≠ 0)
    (happlied : ∀ e p, l.applied = some (e, p) → e = w.epoch)
    (hbits : w'.blocked = false → w'.owner = .application → w.blocked = false ∧
      ∀ p ∈ duties, (w'.evidence &&& p = 0 ↔
        w.evidence &&& p = 0 ∧ l.applied ≠ some (w.epoch, p)) ∧
        (l.applied = some (w.epoch, p) → w.evidence &&& p = 0)) :
    Ledger w' (tr ++ [(l, w')]) := by
  have hsince : since (tr ++ [(l, w')]) = since tr ++ [(l, w')] :=
    since_stays hadvances
  refine ⟨fun ho he => ?_, fun x hx e p ha => ?_, fun hb ho p hp => ?_, ?_⟩
  · rw [hsince]
    rcases hboot ho he with hev | he
    · exact ⟨(l, w'), List.mem_append_right _ List.mem_cons_self, hev⟩
    · obtain ⟨x, hx, hev⟩ := h.boot (howner ▸ ho) he
      exact ⟨x, List.mem_append_left _ hx, hev⟩
  · rw [hsince] at hx
    rw [hepoch]
    rcases List.mem_append.mp hx with hx | hx
    · exact h.epochs x hx e p ha
    · rw [List.mem_singleton.mp hx] at ha
      exact happlied e p ha
  · obtain ⟨hwb, hall⟩ := hbits hb ho
    obtain ⟨hiff, hfresh⟩ := hall p hp
    have hold := h.bits hwb (howner ▸ ho) p hp
    rw [hsince, hepoch, reports, List.countP_append, ← reports, hold,
      List.countP_singleton]
    by_cases ha : l.applied = some (w.epoch, p)
    · have hne : ¬ w'.evidence &&& p = 0 := fun hz => (hiff.mp hz).2 ha
      rw [if_pos (hfresh ha), if_neg hne, if_pos (beq_iff_eq.mpr ha)]
    · have hsame : (w'.evidence &&& p = 0) = (w.evidence &&& p = 0) :=
        propext (hiff.trans (and_iff_left ha))
      have hbeq : ¬ (l.applied == some (w.epoch, p)) = true := by
        rwa [beq_iff_eq]
      rw [if_neg hbeq]
      simp only [hsame, Nat.add_zero]
  · have ht : l.transferred = false := (Bool.or_eq_false_iff.mp hadvances).2
    rw [List.countP_append, h.transfers, List.countP_singleton, ht, howner]
    rfl

/-- A call that accepts no report of the application and does not add to what
evidence there is. -/
theorem Ledger.keeps (h : Ledger w tr) (hadvances : l.advances = false)
    (happlied : l.applied = none) (howner : w'.owner = w.owner)
    (hepoch : w'.epoch = w.epoch)
    (hev : w'.evidence = w.evidence ∧ (w'.blocked = false → w.blocked = false) ∨
      w'.evidence = 0 ∧ w'.blocked = true) : Ledger w' (tr ++ [(l, w')]) := by
  have hnone (e p : UInt32) : l.applied ≠ some (e, p) := by
    rw [happlied]
    exact nofun
  refine h.stays hadvances howner hepoch (fun _ he => ?_)
    (fun e p ha => absurd ha (hnone e p)) (fun hb _ => ?_)
  · rcases hev with ⟨hsame, -⟩ | ⟨hzero, -⟩
    · exact .inr (hsame ▸ he)
    · exact absurd hzero he
  · rcases hev with ⟨hsame, hblocked⟩ | ⟨-, hblocked⟩
    · refine ⟨hblocked hb, fun p _ => ⟨?_, fun ha => absurd ha (hnone _ p)⟩⟩
      rw [hsame]
      exact (and_iff_left (hnone _ p)).symm
    · rw [hblocked] at hb
      cases hb

/-- A call that ends an epoch. -/
theorem Ledger.starts (h : Ledger w tr) (hadvances : l.advances = true)
    (hev : w'.evidence = 0)
    (howner : if l.transferred then w.owner = .boot ∧ w'.owner = .application
      else w'.owner = w.owner) : Ledger w' (tr ++ [(l, w')]) := by
  have hsince : since (tr ++ [(l, w')]) = [] := since_starts hadvances
  refine ⟨fun _ he => absurd hev he, ?_, fun _ _ p _ => ?_, ?_⟩
  · rw [hsince]
    exact fun x hx => absurd hx List.not_mem_nil
  · rw [hsince, hev, if_pos UInt32.zero_and]
    rfl
  · rw [List.countP_append, h.transfers, List.countP_singleton]
    split at howner
    · next ht => rw [ht, howner.1, howner.2]; rfl
    · next ht => rw [howner, if_neg ht]; rfl

end Ledger

/-- No call spoils the ledger. -/
theorem step_ledger {w w' : BootWatchdog} {l : WatchdogLabel} {tr : WatchdogTrace}
    (h : Ledger w tr) (hs : WatchdogStep w l w') : Ledger w' (tr ++ [(l, w')]) := by
  have ho := step_outcome hs
  generalize hc : l.call.held = c at ho
  generalize hr : l.result = r at ho
  cases ho with
  | refuses hne =>
      obtain ⟨hserved, htransferred, -, happlied⟩ := l.idle (hr ▸ hne)
      refine h.keeps ?_ happlied rfl rfl (.inl ⟨rfl, id⟩)
      rw [WatchdogLabel.advances, hserved, htransferred]
      rfl
  | quarantines hne =>
      obtain ⟨hserved, htransferred, -, happlied⟩ := l.idle (hr ▸ hne)
      refine h.keeps ?_ happlied rfl rfl (.inr ⟨rfl, rfl⟩)
      rw [WatchdogLabel.advances, hserved, htransferred]
      rfl
  | configures hb =>
      refine h.keeps ?_ ?_ rfl rfl (.inl ⟨rfl, id⟩)
      · simp only [WatchdogLabel.advances, WatchdogLabel.served,
          WatchdogLabel.transferred, hr, hc]
        rfl
      · simp only [WatchdogLabel.applied, hr, hc]
  | serves hready hfull hmax =>
      refine h.starts ?_ rfl ?_
      · simp only [WatchdogLabel.advances, WatchdogLabel.served, hr, hc]
        rfl
      · simp only [WatchdogLabel.transferred, hr, hc, Bool.false_eq_true, if_false]
  | transfers hready hmax =>
      refine h.starts ?_ rfl ?_
      · simp only [WatchdogLabel.advances, WatchdogLabel.transferred, hr, hc,
          Bool.or_true]
      · simp only [WatchdogLabel.transferred, hr, hc]
        exact ⟨(ready_ok hready).2.2.1.symm, trivial⟩
  | reports hready hnext =>
      next report =>
      have happlied : l.applied = none := by
        simp only [WatchdogLabel.applied, hr, hc]
      have hboot := (ready_ok hready).2.2.1
      obtain ⟨howner, hepoch, -⟩ :=
        reported_frame { w with entered := l.guardHeld } report
      refine h.stays ?_ howner hepoch (fun _ he => .inl ?_)
        (fun e p ha => ?_) (fun _ ho => ?_)
      · simp only [WatchdogLabel.advances, WatchdogLabel.served,
          WatchdogLabel.transferred, hr, hc]
        rfl
      · simp only [WatchdogLabel.evident, WatchdogLabel.milestone, hr, hc,
          Option.any_some, bne_iff_ne, ne_eq]
        intro hbegin
        rw [BootWatchdog.reported, hbegin] at he
        exact he rfl
      · rw [happlied] at ha
        cases ha
      · rw [howner, ← hboot] at ho
        cases ho
  | applies hready hone hfresh =>
      next epoch predicate complete =>
      obtain ⟨hblocked, -, howner, rfl⟩ := ready_ok hready
      have happlied : l.applied = some (w.epoch, predicate) := by
        simp only [WatchdogLabel.applied, hr, hc]
      have hduty : predicate ∈ duties := by
        simp only [List.mem_cons, List.not_mem_nil, or_false]
        exact hone
      refine h.stays ?_ rfl rfl (fun ho => ?_) (fun e p ha => ?_) (fun _ _ => ?_)
      · simp only [WatchdogLabel.advances, WatchdogLabel.served,
          WatchdogLabel.transferred, hr, hc]
        rfl
      · rw [← howner] at ho
        cases ho
      · rw [happlied] at ha
        cases ha
        rfl
      · refine ⟨hblocked, fun p hp => ⟨?_, fun ha => ?_⟩⟩
        · rw [happlied]
          refine (duty_and hp hduty w.evidence).trans (and_congr_right fun _ => ?_)
          refine not_congr ⟨fun he => ?_, fun he => ?_⟩
          · rw [he]
          · cases he
            rfl
        · rw [happlied] at ha
          cases ha
          exact hfresh

theorem run_ledger {w w' : BootWatchdog} {tr tr' : WatchdogTrace}
    (h : Ledger w tr) (hr : Run WatchdogStep w tr' w') : Ledger w' (tr ++ tr') := by
  induction hr generalizing tr with
  | nil => rwa [List.append_nil]
  | cons hs hr ih =>
      have hstep := ih (step_ledger h hs)
      rwa [List.append_assoc] at hstep

/-! ## The accounting -/

section Accounting

variable {w w' : BootWatchdog} {l : WatchdogLabel} {tr : WatchdogTrace}

/-- An epoch ends with a feed on full evidence or with the transfer. -/
theorem step_advances (h : WatchdogStep w l w') :
    (l.advances = false ∧ l.served = none ∧ l.transferred = false ∧
      w'.epoch = w.epoch ∧ w'.owner = w.owner) ∨
    (l.advances = true ∧ w.epoch ≠ uint32Max ∧ w'.epoch = w.epoch + 1 ∧
      ((∃ owner epoch, l.served = some (owner, epoch) ∧
        ready w owner epoch = .ok ∧ w.evidence = owner.required ∧
        l.transferred = false ∧ w'.owner = w.owner) ∨
      (l.served = none ∧ l.transferred = true ∧ w.owner = .boot ∧
        w'.owner = .application))) := by
  have ho := step_outcome h
  generalize hc : l.call.held = c at ho
  generalize hr : l.result = r at ho
  have quiet (hs : l.served = none) (ht : l.transferred = false) :
      l.advances = false := by
    rw [WatchdogLabel.advances, hs, ht]
    rfl
  cases ho with
  | refuses hne | quarantines hne =>
      obtain ⟨hs, ht, -, -⟩ := l.idle (hr ▸ hne)
      exact .inl ⟨quiet hs ht, hs, ht, rfl, rfl⟩
  | serves hready hfull hmax =>
      next owner epoch =>
      have hs : l.served = some (owner, epoch) := by
        simp only [WatchdogLabel.served, hr, hc]
      have ht : l.transferred = false := by
        simp only [WatchdogLabel.transferred, hr, hc]
      refine .inr ⟨?_, hmax, rfl, .inl ⟨owner, epoch, hs, hready, hfull, ht, rfl⟩⟩
      rw [WatchdogLabel.advances, hs]
      rfl
  | transfers hready hmax =>
      have hs : l.served = none := by simp only [WatchdogLabel.served, hr, hc]
      have ht : l.transferred = true := by
        simp only [WatchdogLabel.transferred, hr, hc]
      refine .inr ⟨?_, hmax, rfl, .inr ⟨hs, ht, (ready_ok hready).2.2.1.symm, rfl⟩⟩
      rw [WatchdogLabel.advances, ht, Bool.or_true]
  | reports hready hnext =>
      have hs : l.served = none := by simp only [WatchdogLabel.served, hr, hc]
      have ht : l.transferred = false := by
        simp only [WatchdogLabel.transferred, hr, hc]
      obtain ⟨howner, hepoch, -⟩ :=
        reported_frame { w with entered := l.guardHeld } ‹BootReport›
      exact .inl ⟨quiet hs ht, hs, ht, hepoch, howner⟩
  | configures | applies =>
      have hs : l.served = none := by simp only [WatchdogLabel.served, hr, hc]
      have ht : l.transferred = false := by
        simp only [WatchdogLabel.transferred, hr, hc]
      exact .inl ⟨quiet hs ht, hs, ht, rfl, rfl⟩

theorem step_epoch (h : WatchdogStep w l w') :
    w'.epoch.toNat = w.epoch.toNat + if l.advances then 1 else 0 := by
  rcases step_advances h with ⟨ha, -, -, he, -⟩ | ⟨ha, hmax, he, -⟩
  · rw [ha, he]
    rfl
  · have hlt := w.epoch.toNat_lt
    have hne : w.epoch.toNat ≠ 2 ^ 32 - 1 := fun h => hmax (UInt32.toNat_inj.mp h)
    rw [ha, he, if_pos rfl, UInt32.toNat_add, UInt32.toNat_one]
    exact Nat.mod_eq_of_lt (by omega)

theorem step_blocked (h : WatchdogStep w l w') (hb : w.blocked = true) :
    w'.blocked = true ∧ l.result ≠ .ok := by
  have blocked_ready {owner : BootWatchdogOwner} {epoch : UInt32}
      (hr : ready w owner epoch = .ok) : False := by
    rw [(ready_ok hr).1] at hb
    cases hb
  have ho := step_outcome h
  generalize l.call.held = c at ho
  generalize l.result = r at ho
  cases ho with
  | refuses hne => exact ⟨hb, hne⟩
  | quarantines hne => exact ⟨rfl, hne⟩
  | configures hfree =>
      rw [hb] at hfree
      cases hfree
  | serves hready | transfers hready | reports hready | applies hready =>
      exact (blocked_ready hready).elim

/-- The application keeps the watchdog it was given. -/
theorem step_owner (h : WatchdogStep w l w') (ho : w.owner = .application) :
    w'.owner = .application := by
  rcases step_advances h with ⟨-, -, -, -, hs⟩ | ⟨-, -, -, hs⟩
  · rw [hs, ho]
  · rcases hs with ⟨_, _, -, -, -, -, hs⟩ | ⟨-, -, -, hs⟩
    · rw [hs, ho]
    · exact hs

/-- Between two feeds of the application nothing else ends an epoch. -/
theorem since_served {s : WatchdogLabel × BootWatchdog} {pre mid : WatchdogTrace}
    {e : UInt32} (hr : Run WatchdogStep bootWatchdogInit (pre ++ s :: mid) w)
    (hs : s.1.served = some (.application, e))
    (hmid : ∀ y ∈ mid, y.1.served = none) : since (pre ++ s :: mid) = mid := by
  obtain ⟨a, hpre, hrest⟩ := run_append_iff.mp hr
  obtain ⟨hstep, hrun⟩ := run_cons_iff.mp hrest
  have howner : s.2.owner = .application := by
    rcases step_advances hstep with ⟨-, hnone, -⟩ | ⟨-, -, -, hadv⟩
    · rw [hs] at hnone
      cases hnone
    · rcases hadv with ⟨owner, epoch, hserved, hready, -, -, hsame⟩ | ⟨hnone, -⟩
      · rw [hs] at hserved
        cases hserved
        rw [hsame]
        exact (ready_ok hready).2.2.1.symm
      · rw [hs] at hnone
        cases hnone
  have hquiet : ∀ y ∈ mid, y.1.advances = false := by
    intro y hy
    obtain ⟨m₁, m₂, b, -, hb, hystep, -⟩ := hrun.split hy
    have happ : b.owner = .application :=
      hb.invariant (I := fun u => u.owner = .application)
        (fun h hs => step_owner hs h) howner
    rcases step_advances hystep with ⟨hadv, -⟩ | ⟨-, -, -, hadv⟩
    · exact hadv
    · rcases hadv with ⟨_, _, hserved, -⟩ | ⟨-, -, hboot, -⟩
      · rw [hmid y hy] at hserved
        cases hserved
      · rw [happ] at hboot
        cases hboot
  have hadv : s.1.advances = true := by
    rw [WatchdogLabel.advances, hs]
    rfl
  clear hr hrest hrun hmid
  induction mid using List.reverseRecOn with
  | nil => exact since_starts hadv
  | append_singleton mid y ih =>
      have hy : y.1.advances = false :=
        hquiet y (List.mem_append_right _ List.mem_cons_self)
      rw [← List.cons_append, ← List.append_assoc, since_stays hy,
        ih fun z hz => hquiet z (List.mem_append_left _ hz)]

/-- Every call of every run after the initialization, with any answers from
the registers. The epoch moves by one with a feed and with the transfer, and
with nothing else. A feed of the boot loader comes after a milestone that was
accepted since the last feed, and no milestone is accepted twice. Between two
feeds of the application each of its duties was reported once, for the epoch
that the second one ends. The owner changes in the transfer only, once, and
stays. A blocked watchdog stays blocked and does nothing. ICR is written by a
configuration, or by a service that was ready and had its evidence. -/
theorem progress_accounting (h : Run WatchdogStep bootWatchdogInit tr w)
    (hs : WatchdogStep w l w') :
    (w'.epoch.toNat = w.epoch.toNat + if l.advances then 1 else 0) ∧
    (∀ e, l.served = some (.boot, e) → ∃ pre m post, tr = pre ++ m :: post ∧
      m.1.evident = true ∧ ∀ y ∈ post, y.1.served = none) ∧
    ((tr ++ [(l, w')]).filterMap fun x => x.1.milestone).Nodup ∧
    (∀ pre s mid e₀ e, tr = pre ++ s :: mid →
      s.1.served = some (.application, e₀) → (∀ y ∈ mid, y.1.served = none) →
      l.served = some (.application, e) →
      (∀ p ∈ duties, reports mid e p = 1) ∧
        ∀ y ∈ mid, ∀ e' p, y.1.applied = some (e', p) → e' = e) ∧
    ((w'.owner ≠ w.owner ↔ l.transferred = true) ∧
      (w.owner = .application → w'.owner = .application) ∧
      (tr ++ [(l, w')]).countP (fun x => x.1.transferred) ≤ 1) ∧
    (w.blocked = true → w'.blocked = true ∧ l.result ≠ .ok) ∧
    (∀ x ∈ l.events, ∀ v, x.op = .writeRegister bootWatchdogIcr v →
      (∃ hz reload, l.call = .configure hz reload) ∨
      ∃ owner epoch, l.call.held = .serviceHeld owner epoch ∧
        ready w owner epoch = .ok ∧ w.evidence = owner.required) := by
  have hrun := h.snoc hs
  have hledger : Ledger w tr := run_ledger ledger_init h
  have hafter : Ledger w' (tr ++ [(l, w')]) := step_ledger hledger hs
  have served {owner : BootWatchdogOwner} {e : UInt32}
      (hl : l.served = some (owner, e)) :
      ready w owner e = .ok ∧ w.evidence = owner.required := by
    rcases step_advances hs with ⟨-, hnone, -⟩ | ⟨-, -, -, hadv⟩
    · rw [hl] at hnone
      cases hnone
    · rcases hadv with ⟨o, ep, hserved, hready, hfull, -, -⟩ | ⟨hnone, -⟩
      · rw [hl] at hserved
        cases hserved
        exact ⟨hready, hfull⟩
      · rw [hl] at hnone
        cases hnone
  refine ⟨step_epoch hs, fun e hl => ?_, milestones_nodup tidy_init hrun,
    fun pre s mid e₀ e htr hs₀ hmid hl => ?_, ⟨?_, step_owner hs, ?_⟩,
    step_blocked hs, fun x hx v _ => step_touches hs (List.ne_nil_of_mem hx)⟩
  · obtain ⟨hready, hfull⟩ := served hl
    have hne : w.evidence ≠ 0 := by
      rw [hfull]
      exact nofun
    obtain ⟨m, hm, hev⟩ := hledger.boot (ready_ok hready).2.2.1.symm hne
    obtain ⟨front, hfront⟩ := List.rtakeWhile_suffix (fun x => !x.1.advances) tr
    obtain ⟨mid, post, hsplit⟩ := List.append_of_mem hm
    refine ⟨front ++ mid, m, post, ?_, hev, fun y hy => ?_⟩
    · rw [List.append_assoc, ← hsplit, since, hfront]
    · have hy' : y ∈ since tr := by
        rw [hsplit]
        exact List.mem_append_right _ (List.mem_cons_of_mem _ hy)
      have hquiet := List.mem_rtakeWhile_imp hy'
      rw [Bool.not_eq_true', WatchdogLabel.advances, Bool.or_eq_false_iff] at hquiet
      exact Option.isNone_iff_eq_none.mp (Option.isSome_eq_false_iff.mp hquiet.1)
  · obtain ⟨hready, hfull⟩ := served hl
    obtain ⟨hblocked, -, howner, rfl⟩ := ready_ok hready
    subst htr
    have hsince := since_served h hs₀ hmid
    refine ⟨fun p hp => ?_, fun y hy e' p ha => ?_⟩
    · have hbits := hledger.bits hblocked howner.symm p hp
      rw [hsince, hfull] at hbits
      rw [hbits]
      simp only [List.mem_cons, List.not_mem_nil, or_false] at hp
      rcases hp with rfl | rfl | rfl <;> rfl
    · exact hledger.epochs y (hsince.symm ▸ hy) e' p ha
  · rcases step_advances hs with ⟨-, -, ht, -, hsame⟩ | ⟨-, -, -, hadv⟩
    · simp only [hsame, ht, ne_eq, not_true_eq_false, Bool.false_eq_true]
    · rcases hadv with ⟨_, _, -, -, -, ht, hsame⟩ | ⟨-, ht, hboot, happ⟩
      · simp only [hsame, ht, ne_eq, not_true_eq_false, Bool.false_eq_true]
      · simp only [hboot, happ, ht, ne_eq, reduceCtorEq, not_false_eq_true]
  · rw [hafter.transfers]
    split
    · exact Nat.zero_le 1
    · exact Nat.le_refl 1

end Accounting

/-! ## Registers that behave -/

/-- The controller as far as the driver looks at it. -/
structure WatchdogRegisters where
  locked : Bool
  control : UInt32
  load : UInt32

def watchdogDevice : (op : WatchdogOp) → WatchdogRegisters →
    WatchdogSig.Ans op × WatchdogRegisters
  | .readRegister address, d =>
      (some (if address = bootWatchdogLock then (if d.locked then 1 else 0)
        else if address = bootWatchdogRcgc0 then wdtClock
        else if address = bootWatchdogCtl then d.control
        else if address = bootWatchdogLoad then d.load
        else 0), d)
  | .writeRegister address value, d =>
      (true,
        if address = bootWatchdogLock then { d with locked := value != wdtUnlock }
        else if d.locked then d
        else if address = bootWatchdogCtl then { d with control := value }
        else if address = bootWatchdogLoad then { d with load := value }
        else d)

/-- One call against them. -/
def WatchdogCall.play (c : WatchdogCall) (x : BootWatchdog × WatchdogRegisters) :
    WatchdogLabel × BootWatchdog × WatchdogRegisters :=
  let p := c.run { x.1 with entered := false }
  let y := p.run watchdogDevice x.2
  (⟨c, false, p.trace watchdogDevice x.2, y.1.1⟩, y.1.2, y.2)

/-- Calls made one after the other. -/
def played : List WatchdogCall → BootWatchdog × WatchdogRegisters →
    WatchdogTrace × BootWatchdog × WatchdogRegisters
  | [], x => ([], x)
  | c :: cs, x =>
      let y := c.play x
      let z := played cs y.2
      ((y.1, y.2.1) :: z.1, z.2)

theorem play_step (c : WatchdogCall) (x : BootWatchdog × WatchdogRegisters) :
    WatchdogStep x.1 (c.play x).1 (c.play x).2.1 := runs_trace _ _ _

theorem run_played (cs : List WatchdogCall) (x : BootWatchdog × WatchdogRegisters) :
    Run WatchdogStep x.1 (played cs x).1 (played cs x).2.1 := by
  induction cs generalizing x with
  | nil => exact .nil _
  | cons c cs ih => exact .cons (play_step c x) (ih _)

/-- The start of a protected boot: the watchdog is configured and a manifest is
found authentic. -/
def protectedStart : WatchdogTrace × BootWatchdog × WatchdogRegisters :=
  played [.configure 1000 5000, .bootReport ⟨1, 1, .manifestBegin, 0, 236⟩,
    .bootReport ⟨1, 1, .manifestAuthenticated, 0, 236⟩]
    (bootWatchdogInit, ⟨true, 0, 0⟩)

theorem run_protectedStart :
    Run WatchdogStep bootWatchdogInit protectedStart.1 protectedStart.2.1 :=
  run_played [.configure 1000 5000, .bootReport ⟨1, 1, .manifestBegin, 0, 236⟩,
    .bootReport ⟨1, 1, .manifestAuthenticated, 0, 236⟩]
    (bootWatchdogInit, ⟨true, 0, 0⟩)

theorem progress_accounting_first_feed :
    ∃ pre m post, protectedStart.1 = pre ++ m :: post ∧ m.1.evident = true ∧
      ∀ y ∈ post, y.1.served = none :=
  (progress_accounting run_protectedStart
    (play_step (.service .boot 1) protectedStart.2)).2.1 1 (by decide)

end EkBareMetal.Boot

import EkBareMetal.Proofs.Watchdog

/-!
# An unlocked watchdog is locked again

The registers are only open between an unlock and a lock, and any access in
between may fail. The actions of the driver are chains of a few writes, and what
an action that failed has written is a part of its chain (`Writing`). So the
writes of a call are a prefix of one of two plans, with the lock at the end of
the plan or of the cleanup behind it.
-/

namespace EkBareMetal.Boot

open Interact Transition

/-! ## Writes -/

/-- The register a request writes, and the value. -/
def WatchdogOp.written : WatchdogOp → Option (UInt32 × UInt32)
  | .readRegister _ => none
  | .writeRegister address value => some (address, value)

/-- The register writes of a transcript, in their order. -/
def registerWrites (tr : List (Event WatchdogSig)) : List (UInt32 × UInt32) :=
  tr.filterMap fun e => e.op.written

/-- The write that opens the registers. -/
abbrev unlockWrite : UInt32 × UInt32 := (bootWatchdogLock, wdtUnlock)

abbrev relockWrite : UInt32 × UInt32 := (bootWatchdogLock, 0)

section Writing

variable {p q : Prog WatchdogSig BootWatchdogResult} {ws ws' : List (UInt32 × UInt32)}
  {tr tr' : List (Event WatchdogSig)} {r : BootWatchdogResult}

@[simp] theorem registerWrites_append :
    registerWrites (tr ++ tr') = registerWrites tr ++ registerWrites tr' :=
  List.filterMap_append

/-- The action writes `ws`, in order, and stops early only when it fails. -/
def Writing (p : Prog WatchdogSig BootWatchdogResult) (ws : List (UInt32 × UInt32)) : Prop :=
  ∀ tr r, Runs p tr r → registerWrites tr <+: ws ∧ (r = .ok → registerWrites tr = ws)

theorem expect_writes {address : UInt32} {good : UInt32 → Bool}
    (h : Runs (expect address good) tr r) : registerWrites tr = [] := by
  obtain ⟨value, rest, rfl, hk⟩ := runs_ask_iff.mp h
  cases value with
  | none =>
      obtain ⟨rfl, -⟩ := runs_pure_iff.mp hk
      rfl
  | some value =>
      obtain ⟨rfl, -⟩ := runs_pure_iff.mp hk
      rfl

/-- The write is made, whatever comes of it. -/
theorem writeExpect_writes {address value readBack : UInt32} {good : UInt32 → Bool}
    (h : Runs (writeExpect address value readBack good) tr r) :
    registerWrites tr = [(address, value)] := by
  obtain ⟨done, rest, rfl, hk⟩ := runs_ask_iff.mp h
  have hrest : registerWrites rest = [] := by
    split at hk
    · obtain ⟨rfl, -⟩ := runs_pure_iff.mp hk
      rfl
    · exact expect_writes hk
  show (address, value) :: registerWrites rest = _
  rw [hrest]

theorem writing_expect (address : UInt32) (good : UInt32 → Bool) :
    Writing (expect address good) [] := by
  intro tr r h
  rw [expect_writes h]
  exact ⟨List.prefix_rfl, fun _ => rfl⟩

theorem writing_writeExpect (address value readBack : UInt32) (good : UInt32 → Bool) :
    Writing (writeExpect address value readBack good) [(address, value)] := by
  intro tr r h
  rw [writeExpect_writes h]
  exact ⟨List.prefix_rfl, fun _ => rfl⟩

/-- The second action is reached only behind all writes of the first. -/
theorem Writing.andThen (hp : Writing p ws) (hq : Writing q ws') :
    Writing (andThen p q) (ws ++ ws') := by
  intro tr r h
  obtain ⟨tr₁, r₁, tr₂, rfl, h₁, h₂⟩ := runs_bind_iff'.mp h
  obtain ⟨hfront, hall⟩ := hp tr₁ r₁ h₁
  rw [registerWrites_append]
  split at h₂
  · next hfailed =>
      obtain ⟨rfl, rfl⟩ := runs_pure_iff.mp h₂
      refine ⟨?_, fun hok => absurd hok hfailed⟩
      rw [show registerWrites [] = [] from rfl, List.append_nil]
      exact hfront.trans (List.prefix_append ws ws')
  · next hok =>
      obtain ⟨hfront', hall'⟩ := hq tr₂ r h₂
      rw [hall (Decidable.not_not.mp hok)]
      refine ⟨(List.prefix_append_right_inj ws).mpr hfront', fun hr => ?_⟩
      rw [hall' hr]

end Writing

/-! ## The two plans -/

def protectWrites (control reload : UInt32) : List (UInt32 × UInt32) :=
  [unlockWrite, (bootWatchdogLoad, reload), (bootWatchdogIcr, 0),
    (bootWatchdogCtl, control ||| wdtEnable), relockWrite]

def feedWrites : List (UInt32 × UInt32) := [unlockWrite, (bootWatchdogIcr, 0), relockWrite]

theorem writing_protect (control reload : UInt32) :
    Writing (protect control reload) (protectWrites control reload) :=
  (writing_writeExpect _ _ _ _).andThen
    ((writing_writeExpect _ _ _ _).andThen
      ((writing_writeExpect _ _ _ _).andThen
        ((writing_writeExpect _ _ _ _).andThen (writing_writeExpect _ _ _ _))))

theorem writing_feedUnlocked : Writing feedUnlocked feedWrites :=
  (writing_writeExpect _ _ _ _).andThen
    ((writing_writeExpect _ _ _ _).andThen (writing_writeExpect _ _ _ _))

theorem writing_checkProtection (reload : UInt32) : Writing (checkProtection reload) [] :=
  (writing_expect _ _).andThen ((writing_expect _ _).andThen (writing_expect _ _))

/-! ## What a call writes -/

/-- Everything a call can have written: nothing; a plan to its end, which is a relock; or a
part of it with a relock behind it, and then the object is in quarantine. -/
inductive CallWrites (plan : List (UInt32 × UInt32)) (r : BootWatchdogResult)
    (w' : BootWatchdog) : List (UInt32 × UInt32) → Prop where
  | none : CallWrites plan r w' []
  | whole (hr : r = .ok) (hlast : plan.getLast? = some relockWrite) : CallWrites plan r w' plan
  | cleanup {part : List (UInt32 × UInt32)} (hpart : part <+: plan) (hr : r ≠ .ok)
      (hw : w'.blocked = true ∧ w'.evidence = 0) : CallWrites plan r w' (part ++ [relockWrite])

section Calls

variable {plan ws : List (UInt32 × UInt32)} {w w' : BootWatchdog} {r : BootWatchdogResult}
  {tr : List (Event WatchdogSig)}

theorem CallWrites.last (h : CallWrites plan r w' ws) (hu : ws ≠ []) :
    ws.getLast? = some relockWrite := by
  cases h with
  | none => exact absurd rfl hu
  | whole _ hlast => exact hlast
  | cleanup => exact List.getLast?_concat

theorem CallWrites.failed (h : CallWrites plan r w' ws) (hu : ws ≠ []) (hr : r ≠ .ok) :
    w'.blocked = true ∧ w'.evidence = 0 := by
  cases h with
  | none => exact absurd rfl hu
  | whole hok => exact absurd hok hr
  | cleanup _ _ hw => exact hw

theorem CallWrites.mem (h : CallWrites plan r w' ws) {x : UInt32 × UInt32} (hx : x ∈ ws) :
    x ∈ plan ∨ x = relockWrite := by
  cases h with
  | none => cases hx
  | whole => exact .inl hx
  | cleanup hpart =>
      obtain hx | hx := List.mem_append.mp hx
      · exact .inl (hpart.mem hx)
      · exact .inr (List.mem_singleton.mp hx)

theorem CallWrites.leave (h : CallWrites plan r w' ws) :
    CallWrites plan r { w' with entered := false } ws := by
  cases h with
  | none => exact .none
  | whole hok hlast => exact .whole hok hlast
  | cleanup hpart hne hw => exact .cleanup hpart hne hw

theorem faultHeld_writes {e : BootWatchdogResult} (h : Runs (faultHeld w e) tr (r, w')) :
    registerWrites tr = [relockWrite] := by
  obtain ⟨tr₁, a, tr₂, rfl, h₁, h₂⟩ := runs_bind_iff'.mp h
  obtain ⟨rfl, -⟩ := runs_pure_iff.mp h₂
  rw [registerWrites_append, writeExpect_writes h₁]
  rfl

/-- An action behind a fault handler. -/
theorem faulted_writes {p : Prog WatchdogSig BootWatchdogResult} {w₁ : BootWatchdog}
    (hp : Writing p plan) (hlast : plan.getLast? = some relockWrite)
    (h : Runs (do
      let result ← p
      if result ≠ .ok then faultHeld w result else pure (.ok, w₁)) tr (r, w')) :
    CallWrites plan r w' (registerWrites tr) := by
  obtain ⟨tr₁, r₁, tr₂, rfl, h₁, h₂⟩ := runs_bind_iff'.mp h
  obtain ⟨hfront, hall⟩ := hp tr₁ r₁ h₁
  rw [registerWrites_append]
  split at h₂
  · next hfailed =>
      rw [faultHeld_writes h₂]
      obtain ⟨rfl, rfl⟩ := faultHeld_runs h₂
      exact .cleanup hfront hfailed ⟨rfl, rfl⟩
  · next hok =>
      obtain ⟨rfl, he⟩ := runs_pure_iff.mp h₂
      cases he
      rw [hall (Decidable.not_not.mp hok), show registerWrites [] = [] from rfl,
        List.append_nil]
      exact .whole rfl hlast

theorem configureHeld_writes {reload : UInt32} (h : Runs (configureHeld reload w) tr (r, w')) :
    (w.configured = true → registerWrites tr = []) ∧
    ∃ control, CallWrites (protectWrites control reload) r w' (registerWrites tr) := by
  unfold configureHeld at h
  split at h
  · obtain ⟨rfl, -⟩ := runs_pure_iff.mp h
    exact ⟨fun _ => rfl, 0, .none⟩
  split at h
  · obtain ⟨rfl, -⟩ := runs_pure_iff.mp h
    exact ⟨fun _ => rfl, 0, .none⟩
  next hfresh =>
  refine ⟨fun hc => absurd hc hfresh, ?_⟩
  obtain ⟨tr₁, r₁, tr₂, rfl, h₁, h₂⟩ := runs_bind_iff'.mp h
  rw [registerWrites_append, expect_writes h₁, List.nil_append]
  split at h₂
  · obtain ⟨rfl, -⟩ := runs_pure_iff.mp h₂
    exact ⟨0, .none⟩
  obtain ⟨control, rest, rfl, h₃⟩ := runs_ask_iff.mp h₂
  cases control with
  | none =>
      obtain ⟨rfl, -⟩ := runs_pure_iff.mp h₃
      exact ⟨0, .none⟩
  | some control =>
      dsimp only at h₃
      split at h₃
      · obtain ⟨rfl, -⟩ := runs_pure_iff.mp h₃
        exact ⟨0, .none⟩
      · have hwrites : CallWrites (protectWrites control reload) r w' (registerWrites rest) :=
          faulted_writes (writing_protect control reload) rfl h₃
        exact ⟨control, hwrites⟩

theorem serviceHeld_writes {owner : BootWatchdogOwner} {epoch : UInt32}
    (h : Runs (bootWatchdogServiceHeld w owner epoch) tr (r, w')) :
    CallWrites feedWrites r w' (registerWrites tr) := by
  unfold bootWatchdogServiceHeld at h
  dsimp only at h
  split at h
  · obtain ⟨rfl, -⟩ := runs_pure_iff.mp h
    exact .none
  split at h
  · obtain ⟨rfl, -⟩ := runs_pure_iff.mp h
    exact .none
  split at h
  · obtain ⟨rfl, -⟩ := runs_pure_iff.mp h
    exact .none
  obtain ⟨tr₁, r₁, tr₂, rfl, h₁, h₂⟩ := runs_bind_iff'.mp h
  have hchecked := (writing_checkProtection w.reload tr₁ r₁ h₁).1
  rw [registerWrites_append, List.prefix_nil.mp hchecked, List.nil_append]
  split at h₂
  · obtain ⟨rfl, -⟩ := runs_pure_iff.mp h₂
    exact .none
  · exact faulted_writes writing_feedUnlocked rfl h₂

end Calls

/-! ## Calls through the guard -/

/-- What a call of a run writes: a configuration of an object that is not configured may write
its plan, a service the other, and nothing else writes. -/
theorem step_writes {w w' : BootWatchdog} {l : WatchdogLabel} (h : WatchdogStep w l w') :
    (∃ plan, CallWrites plan l.result w' (registerWrites l.events)) ∧
      (w.configured = true → CallWrites feedWrites l.result w' (registerWrites l.events)) := by
  obtain ⟨call, g, tr, r⟩ := l
  have hnone : ∀ {w₁}, tr = [] → (∃ plan, CallWrites plan r w₁ (registerWrites tr)) ∧
      (w.configured = true → CallWrites feedWrites r w₁ (registerWrites tr)) := by
    rintro w₁ rfl
    exact ⟨⟨[], .none⟩, fun _ => .none⟩
  cases call with
  | configure hz reload =>
      have hr : Runs (bootWatchdogConfigure { w with entered := g } hz reload) tr (r, w') := h
      unfold bootWatchdogConfigure at hr
      split at hr
      · exact hnone (runs_pure_iff.mp hr).1
      obtain ⟨-, htr, -, -⟩ | ⟨-, w₁, hbody, rfl⟩ := guarded_runs hr
      · exact hnone htr
      obtain ⟨hsilent, control, hwrites⟩ := configureHeld_writes hbody
      refine ⟨⟨_, hwrites.leave⟩, fun hc => ?_⟩
      dsimp only
      rw [hsilent hc]
      exact .none
  | service owner epoch =>
      have hr : Runs (guarded { w with entered := g } fun w =>
          bootWatchdogServiceHeld w owner epoch) tr (r, w') := h
      obtain ⟨-, htr, -, -⟩ | ⟨-, w₁, hbody, rfl⟩ := guarded_runs hr
      · exact hnone htr
      have hleft := (serviceHeld_writes hbody).leave
      exact ⟨⟨_, hleft⟩, fun _ => hleft⟩
  | serviceHeld owner epoch =>
      have hwrites := serviceHeld_writes h
      exact ⟨⟨_, hwrites⟩, fun _ => hwrites⟩
  | transfer epoch =>
      exact hnone (guarded_silent (f := fun w => bootWatchdogTransferHeld w epoch) h)
  | transferHeld epoch => exact hnone (runs_pure_iff.mp h).1
  | bootReport report =>
      exact hnone (guarded_silent (f := fun w => bootWatchdogReportHeld w report) h)
  | bootReportHeld report => exact hnone (runs_pure_iff.mp h).1
  | applicationReport epoch predicate complete =>
      exact hnone
        (guarded_silent (f := fun w => applicationReportHeld w epoch predicate complete) h)

/-- No call takes a configuration back. -/
theorem step_configured {w w' : BootWatchdog} {l : WatchdogLabel} (h : WatchdogStep w l w')
    (hc : w.configured = true) : w'.configured = true := by
  have hout := step_outcome h
  generalize l.call.held = call at hout
  generalize l.result = result at hout
  cases hout with
  | refuses => exact hc
  | quarantines => exact hc
  | configures => rfl
  | serves => exact hc
  | transfers => exact hc
  | reports =>
      next report _ _ =>
      obtain ⟨_, _, phase, _, _⟩ := report
      cases phase <;> exact hc
  | applies => exact hc

/-- In any state and for every answer of the registers: a call that wrote the unlock has the
relock as its last write, and has left the object in quarantine if it failed; and from a
configuration on no call of a run writes CTL or LOAD. -/
theorem watchdog_relock {w w' : BootWatchdog} {l : WatchdogLabel} (h : WatchdogStep w l w') :
    (unlockWrite ∈ registerWrites l.events →
      (registerWrites l.events).getLast? = some relockWrite ∧
      (l.result ≠ .ok → w'.blocked = true ∧ w'.evidence = 0)) ∧
    (w.configured = true → ∀ rest w'', Run WatchdogStep w' rest w'' →
      ∀ x ∈ (l, w') :: rest, ∀ access ∈ registerWrites x.1.events,
        access.1 ≠ bootWatchdogCtl ∧ access.1 ≠ bootWatchdogLoad) := by
  refine ⟨fun hunlock => ?_, fun hc rest w'' hrest x hx access haccess => ?_⟩
  · obtain ⟨plan, hwrites⟩ := (step_writes h).1
    have hsome : registerWrites l.events ≠ [] := List.ne_nil_of_mem hunlock
    exact ⟨hwrites.last hsome, hwrites.failed hsome⟩
  · have hrun : Run WatchdogStep w ((l, w') :: rest) w'' := .cons h hrest
    obtain ⟨front, back, w₁, -, hfront, hstep, -⟩ := hrun.split hx
    have hc₁ : w₁.configured = true :=
      hfront.invariant (I := fun w => w.configured = true) (fun hc hs => step_configured hs hc) hc
    have hmem := ((step_writes hstep).2 hc₁).mem haccess
    have hone : access ∈ [unlockWrite, (bootWatchdogIcr, 0), relockWrite] := by
      obtain hfeed | rfl := hmem
      · exact hfeed
      · exact List.mem_cons_of_mem _ (List.mem_cons_of_mem _ List.mem_cons_self)
    simp only [List.mem_cons, List.not_mem_nil, or_false] at hone
    obtain rfl | rfl | rfl := hone
    · decide
    · decide
    · decide

/-- The first feed of a protected boot. -/
theorem watchdog_relock_first_feed :
    (registerWrites (WatchdogCall.play (.service .boot 1) protectedStart.2).1.events).getLast? =
      some relockWrite :=
  ((watchdog_relock (play_step (.service .boot 1) protectedStart.2)).1 (by decide)).1

end EkBareMetal.Boot

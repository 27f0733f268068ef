import EkBareMetal.Proofs.Quarantine
import EkBareMetal.Proofs.Receive

/-!
# The erase plan of a slot

Which pages a plan erases, in which order, and when it stops. What counts as
an erase is read off the requests: every write of FMC is a command, and FMA
holds the page it works on. The invariant says that the commands so far are
the first pages of the plan, one for each step that succeeded and at most one
for a step that failed, and a plan that has failed never commands again.
-/

namespace EkBareMetal.Boot

open Words Interact Transition

/-! ## The pages of a slot -/

/-- The manifest page, and then the payload in ascending order. -/
def slotPlan (slot : UInt32) : List UInt32 :=
  slotManifest slot ::
    (List.range (slotPages - 1)).map fun k => slotBase slot + UInt32.ofNat k * 1024

/-- `x` is one of the bytes an erase of the page takes. -/
def InPage (page : UInt32) (x : Nat) : Prop :=
  page.toNat ≤ x ∧ x < page.toNat + bootEraseBytes

section Pages

variable {slot page : UInt32} {k x : Nat}

theorem length_slotPlan : (slotPlan slot).length = slotPages := by
  rw [slotPlan, List.length_cons, List.length_map, List.length_range]
  rfl

theorem getElem_slotPlan (h : k < (slotPlan slot).length) :
    (slotPlan slot)[k] = BootFlashErasePlan.address ⟨slot, k, false⟩ := by
  cases k with
  | zero => rfl
  | succ k =>
      have ha : BootFlashErasePlan.address ⟨slot, k + 1, false⟩ =
          slotBase slot + UInt32.ofNat k * 1024 := if_neg (Nat.succ_ne_zero k)
      rw [ha]
      simp only [slotPlan, List.getElem_cons_succ, List.getElem_map, List.getElem_range]

theorem toNat_getElem_slotPlan (h : k < (slotPlan slot).length) :
    (slotPlan slot)[k].toNat = if k = 0 then (slotManifest slot).toNat
      else (slotBase slot).toNat + (k - 1) * 1024 := by
  rw [getElem_slotPlan]
  rw [length_slotPlan] at h
  split
  · next h0 =>
      subst h0
      rfl
  · next h0 => exact @toNat_planAddress ⟨slot, k, false⟩ h0 h

theorem slotPlan_nodup (hs : slotValid slot = true) : (slotPlan slot).Nodup := by
  refine List.pairwise_iff_getElem.mpr fun i j hi hj hij he => ?_
  have hn := congrArg UInt32.toNat he
  have hlen : (slotPlan slot).length = 110 := length_slotPlan
  have hj0 : j ≠ 0 := by omega
  rw [toNat_getElem_slotPlan, toNat_getElem_slotPlan, if_neg hj0] at hn
  rcases slot_bounds hs with ⟨-, hb, hm⟩ | ⟨-, hb, hm⟩ <;> split at hn <;> omega

/-- The pages of the plan are the slot, no more and no less. -/
theorem slotPlan_covers (hs : slotValid slot = true) :
    (∃ page ∈ slotPlan slot, InPage page x) ↔ InSlot slot x := by
  have hlen : (slotPlan slot).length = 110 := length_slotPlan
  constructor
  · rintro ⟨page, hp, hlo, hhi⟩
    obtain ⟨k, hk, rfl⟩ := List.getElem_of_mem hp
    rw [toNat_getElem_slotPlan] at hlo hhi
    simp only [bootEraseBytes] at hhi
    refine ⟨hs, ?_⟩
    simp only [bootSlotBytes]
    rcases slot_bounds hs with ⟨-, hb, hm⟩ | ⟨-, hb, hm⟩ <;>
      split at hlo <;> rename_i h0 <;> simp only [h0, if_true, if_false] at hhi <;> omega
  · rintro ⟨-, hlo, hhi⟩
    simp only [bootSlotBytes] at hhi
    have hin : ∀ k (hk : k < (slotPlan slot).length),
        (slotPlan slot)[k].toNat ≤ x → x < (slotPlan slot)[k].toNat + 1024 →
        ∃ page ∈ slotPlan slot, InPage page x :=
      fun k hk h₁ h₂ => ⟨_, List.getElem_mem hk, h₁, h₂⟩
    by_cases hm : (slotManifest slot).toNat ≤ x
    · refine hin 0 (by omega) ?_ ?_ <;> rw [toNat_getElem_slotPlan, if_pos rfl]
      · exact hm
      · rcases slot_bounds hs with ⟨-, hb, hm'⟩ | ⟨-, hb, hm'⟩ <;> omega
    · refine hin ((x - (slotBase slot).toNat) / 1024 + 1) ?_ ?_ ?_
      · rcases slot_bounds hs with ⟨-, hb, hm'⟩ | ⟨-, hb, hm'⟩ <;> omega
      · rw [toNat_getElem_slotPlan, if_neg (by omega)]
        omega
      · rw [toNat_getElem_slotPlan, if_neg (by omega)]
        omega

end Pages

/-! ## The commands of a transcript -/

/-- Every write of FMC, with what FMA held by then. -/
def launches : UInt32 → List (Event FlashSig) → List (UInt32 × UInt32)
  | _, [] => []
  | fma, ⟨.writeRegister address value, _⟩ :: tr =>
      if address = bootFlashFma then launches value tr
      else if address = bootFlashFmc then (fma, value) :: launches fma tr
      else launches fma tr
  | fma, _ :: tr => launches fma tr

/-- The erase of one page. -/
abbrev eraseCommand (page : UInt32) : UInt32 × UInt32 := (page, flashKey ||| flashErase)

section Transcripts

variable {f f' : BootFlash} {address fma : UInt32} {tr : List (Event FlashSig)}
  {r : BootFlashResult}

theorem launches_harmless (h : ∀ e ∈ tr, Harmless e) : launches fma tr = [] := by
  induction tr generalizing fma with
  | nil => rfl
  | cons e tr ih =>
      obtain ⟨he, htr⟩ := List.forall_mem_cons.mp h
      obtain ⟨op, answer⟩ := e
      cases op with
      | readRegister a => exact ih htr
      | readFlash a n => exact ih htr
      | writeRegister a value =>
          have ha : a ≠ bootFlashFmc := fun ha => he value (by rw [ha])
          unfold launches
          split <;> exact ih htr

/-- An erase commands its own page, and nothing else. -/
theorem launches_erase (fma : UInt32) (h : Commands f address 0 flashErase tr r f') :
    launches fma tr = [] ∧ r ≠ .ok ∨ launches fma tr = [eraseCommand address] := by
  cases h with
  | none h hr => exact .inl ⟨launches_harmless h, hr⟩
  | one hbefore hafter =>
      refine .inr ?_
      obtain ⟨control, clock, status, bits, rfl, -, -, -, hbits⟩ := hbefore
      rw [if_neg (by decide)] at hbits
      subst hbits
      rw [if_neg (by decide)]
      exact congrArg _ (launches_harmless hafter)

/-- A driver never answers that a plan is done. -/
theorem idle_ne_done (n : Nat) : Safe (fun _ => True) (idle n) (· ≠ .done) := by
  induction n with
  | zero => exact safe_pure nofun
  | succ n ih =>
      refine safe_ask fun answer => ⟨trivial, ?_⟩
      split
      · exact safe_pure nofun
      · split
        · exact safe_pure nofun
        · exact ih

theorem checkBits_ne_done {word command : UInt32} :
    Safe (fun _ => True) (checkBits address word command) (· ≠ .done) := by
  unfold checkBits
  split
  · refine safe_ask fun answer => ⟨trivial, ?_⟩
    split
    · exact safe_pure nofun
    · refine safe_pure ?_
      split <;> decide
  · exact safe_pure nofun

theorem clearStatus_ne_done : Safe (fun _ => True) clearStatus (· ≠ .done) := by
  refine safe_ask fun done => ⟨trivial, ?_⟩
  split
  · exact safe_pure nofun
  refine safe_ask fun answer => ⟨trivial, ?_⟩
  split
  · exact safe_pure nofun
  · refine safe_pure ?_
    split <;> decide

theorem launch_ne_done {polls word command : UInt32} :
    Safe (fun _ => True) (launch polls address word command) (· ≠ .done) := by
  refine safe_ask fun done => ⟨trivial, ?_⟩
  split
  · exact safe_pure nofun
  refine safe_bind (idle_ne_done _) fun result hresult => ?_
  split
  · exact safe_pure hresult
  refine safe_ask fun answer => ⟨trivial, ?_⟩
  split
  · exact safe_pure nofun
  split
  · exact safe_pure nofun
  split
  · exact safe_pure nofun
  refine safe_ask fun answer => ⟨trivial, ?_⟩
  split
  · exact safe_pure nofun
  · refine safe_pure ?_
    split <;> decide

theorem modify_ne_done {word command : UInt32} :
    Safe (fun _ => True) (modify f address word command) (·.1 ≠ .done) := by
  unfold modify
  dsimp only
  split
  · exact safe_pure nofun
  split
  · exact safe_pure nofun
  refine safe_bind (idle_ne_done 1) fun result hresult => ?_
  split
  · exact safe_pure hresult
  refine safe_ask fun answer => ⟨trivial, ?_⟩
  split
  · exact safe_pure nofun
  split
  · exact safe_pure nofun
  refine safe_bind checkBits_ne_done fun result hresult => ?_
  split
  · exact safe_pure hresult
  refine safe_bind clearStatus_ne_done fun result hresult => ?_
  split
  · exact safe_pure hresult
  refine safe_bind (R := fun _ => True) (fun _ _ _ => ⟨fun _ _ => trivial, trivial⟩)
    fun latched _ => ?_
  split
  · exact safe_pure nofun
  refine safe_bind launch_ne_done fun result hresult => ?_
  split
  · exact safe_pure hresult
  · exact safe_pure nofun

end Transcripts

/-! ## Steps -/

inductive ErasureCall where
  | step
  | flash (call : FlashCall)

structure ErasureLabel where
  call : ErasureCall
  events : List (Event FlashSig)
  result : BootFlashResult

/-- A step of the plan, or any other use of the driver in between. -/
def ErasureStep (x : BootFlash × BootFlashErasePlan) (l : ErasureLabel)
    (x' : BootFlash × BootFlashErasePlan) : Prop :=
  match l.call with
  | .step => Runs (bootFlashEraseStepOn x.1 x.2) l.events ((l.result, x'.2), x'.1)
  | .flash call => FlashStep x.1 ⟨call, l.events, l.result⟩ x'.1 ∧ x'.2 = x.2

/-- What a step of a plan comes to. -/
inductive PlanStep (fma : UInt32) (plan : BootFlashErasePlan)
    (events : List (Event FlashSig)) : BootFlashResult → BootFlashErasePlan → Prop where
  | stopped (h : plan.failed = true) (he : events = []) :
      PlanStep fma plan events .blocked plan
  | finished (h : plan.failed = false) (hp : plan.page = slotPages) (he : events = []) :
      PlanStep fma plan events .done plan
  | erased (h : plan.failed = false) (hp : plan.page < slotPages)
      (he : launches fma events = [eraseCommand plan.address]) :
      PlanStep fma plan events .ok { plan with page := plan.page + 1 }
  | failed {r : BootFlashResult} (h : plan.failed = false) (hp : plan.page < slotPages)
      (hr : r ≠ .ok ∧ r ≠ .done)
      (he : launches fma events = [] ∨ launches fma events = [eraseCommand plan.address]) :
      PlanStep fma plan events r (eraseFailed plan)

section Steps

variable {f f' : BootFlash} {plan plan' : BootFlashErasePlan} {fma : UInt32}
  {tr : List (Event FlashSig)} {r : BootFlashResult}

theorem eraseStep_planStep (hs : Sealed f) (hd : slotValid plan.destination = true)
    (hp : plan.page ≤ slotPages)
    (h : Runs (bootFlashEraseStepOn f plan) tr ((r, plan'), f')) :
    Sealed f' ∧ PlanStep fma plan tr r plan' := by
  have hdest : ¬ (plan.destination > bootSlotB ∨ plan.page > slotPages) := by
    rw [not_or]
    refine ⟨?_, Nat.not_lt.mpr hp⟩
    rcases slotValid_iff.mp hd with hd | hd <;> rw [hd] <;> decide
  unfold bootFlashEraseStepOn bootFlashEraseStep at h
  rw [if_neg hdest] at h
  cases hfailed : plan.failed with
  | true =>
      rw [if_pos hfailed] at h
      obtain ⟨rfl, he⟩ := runs_ret_iff.mp h
      cases he
      have hsame : eraseFailed plan = plan := by rw [eraseFailed, ← hfailed]
      rw [hsame]
      exact ⟨hs, .stopped hfailed rfl⟩
  | false =>
  rw [if_neg (Bool.eq_false_iff.mp hfailed)] at h
  split at h
  · next hall =>
      obtain ⟨rfl, he⟩ := runs_ret_iff.mp h
      cases he
      exact ⟨hs, .finished hfailed hall rfl⟩
  next hall =>
  have hlt : plan.page < slotPages := Nat.lt_of_le_of_ne hp hall
  obtain ⟨tr₁, result, f₁, tr₂, rfl, hask, hk⟩ := runs_interp_bind_iff.mp h
  obtain ⟨tr₃, ⟨answer, f₃⟩, tr₄, rfl, herase, hret⟩ := runs_bind_iff.mp hask
  obtain ⟨rfl, he⟩ := runs_ret_iff.mp hret
  obtain ⟨rfl, rfl⟩ := Prod.mk.inj he
  obtain ⟨hout, hcommand, -, -⟩ := modify_runs hs herase
  have hdone : result ≠ .done := (modify_ne_done _ _ herase).2
  have hlaunch := launches_erase fma hcommand
  have htail : tr₂ = [] ∧ f' = f₁ ∧
      (result = .ok ∧ r = .ok ∧ plan' = { plan with page := plan.page + 1 } ∨
        result ≠ .ok ∧ r = result ∧ plan' = eraseFailed plan) := by
    split at hk
    · next hok =>
        obtain ⟨rfl, he⟩ := runs_ret_iff.mp hk
        cases he
        exact ⟨rfl, rfl, .inl ⟨hok, rfl, rfl⟩⟩
    · next hne =>
        obtain ⟨rfl, he⟩ := runs_ret_iff.mp hk
        cases he
        exact ⟨rfl, rfl, .inr ⟨hne, rfl, rfl⟩⟩
  obtain ⟨rfl, rfl, hcase⟩ := htail
  rw [List.append_nil, List.append_nil]
  refine ⟨hout.sealed hs, ?_⟩
  rcases hcase with ⟨rfl, rfl, rfl⟩ | ⟨hne, rfl, rfl⟩
  · exact .erased hfailed hlt (hlaunch.resolve_left fun hno => hno.2 rfl)
  · exact .failed hfailed hlt ⟨hne, hdone⟩ (hlaunch.imp_left And.left)

end Steps

/-! ## Runs -/

abbrev ErasureTrace := List (ErasureLabel × (BootFlash × BootFlashErasePlan))

def ErasureLabel.launches (fma : UInt32) (l : ErasureLabel) : List (UInt32 × UInt32) :=
  match l.call with
  | .step => Boot.launches fma l.events
  | .flash _ => []

/-- Everything the steps of a run have commanded. -/
def planned (fma : UInt32) (tr : ErasureTrace) : List (UInt32 × UInt32) :=
  tr.flatMap fun x => x.1.launches fma

/-- Between two calls: one command for each page that is done, and at most one more. -/
structure Erasing (slot fma : UInt32) (tr : ErasureTrace)
    (x : BootFlash × BootFlashErasePlan) : Prop where
  driver : Sealed x.1
  destination : x.2.destination = slot
  page : x.2.page ≤ slotPages
  commands : ∃ n, planned fma tr = ((slotPlan slot).take n).map eraseCommand ∧
    (x.2.failed = false → n = x.2.page)

section Runs

variable {slot fma : UInt32} {tr : ErasureTrace} {l : ErasureLabel}
  {x x' : BootFlash × BootFlashErasePlan}

theorem planned_snoc : planned fma (tr ++ [(l, x)]) = planned fma tr ++ l.launches fma := by
  simp [planned]

theorem take_slotPlan {plan : BootFlashErasePlan} (h : plan.page < slotPages) :
    ((slotPlan plan.destination).take (plan.page + 1)).map eraseCommand =
      ((slotPlan plan.destination).take plan.page).map eraseCommand ++
        [eraseCommand plan.address] := by
  have hlen : plan.page < (slotPlan plan.destination).length := by
    rw [length_slotPlan]
    exact h
  have ha : BootFlashErasePlan.address ⟨plan.destination, plan.page, false⟩ = plan.address :=
    rfl
  rw [List.take_succ_eq_append_getElem hlen, getElem_slotPlan, ha, List.map_append]
  rfl

theorem ErasureStep.planStep (hs : slotValid slot = true) (h : Erasing slot fma tr x)
    (hstep : ErasureStep x l x') (hcall : l.call = .step) :
    Sealed x'.1 ∧ PlanStep fma x.2 l.events l.result x'.2 := by
  have hr : Runs (bootFlashEraseStepOn x.1 x.2) l.events ((l.result, x'.2), x'.1) := by
    simpa only [ErasureStep, hcall] using hstep
  refine eraseStep_planStep h.driver ?_ h.page hr
  rw [h.destination]
  exact hs

theorem step_erasing (hs : slotValid slot = true) (h : Erasing slot fma tr x)
    (hstep : ErasureStep x l x') : Erasing slot fma (tr ++ [(l, x')]) x' := by
  obtain ⟨f, plan⟩ := x
  obtain ⟨f', plan'⟩ := x'
  obtain ⟨n, hcommands, hn⟩ := h.commands
  have hdest : plan.destination = slot := h.destination
  rw [← hdest] at hcommands
  cases hcall : l.call with
  | flash call =>
      have hl : l.launches fma = [] := by rw [ErasureLabel.launches, hcall]
      have hflash : FlashStep f ⟨call, l.events, l.result⟩ f' ∧ plan' = plan := by
        simpa only [ErasureStep, hcall] using hstep
      obtain ⟨hrun, rfl⟩ := hflash
      refine ⟨(step_account h.driver hrun).between, hdest, h.page, n, ?_, hn⟩
      rw [planned_snoc, hl, List.append_nil, hcommands, hdest]
  | step =>
      obtain ⟨hsealed, hp⟩ := hstep.planStep hs h hcall
      have hl : l.launches fma = launches fma l.events := by
        rw [ErasureLabel.launches, hcall]
      have hempty : l.events = [] → planned fma (tr ++ [(l, (f', plan'))]) =
          ((slotPlan plan.destination).take n).map eraseCommand := by
        intro he
        rw [planned_snoc, hl, he, hcommands]
        exact List.append_nil _
      have hone : plan.failed = false → plan.page < slotPages →
          launches fma l.events = [eraseCommand plan.address] →
          planned fma (tr ++ [(l, (f', plan'))]) =
            ((slotPlan plan.destination).take (plan.page + 1)).map eraseCommand := by
        intro hfree hlt he
        rw [planned_snoc, hl, he, hcommands, hn hfree, take_slotPlan hlt]
      rw [← hdest]
      generalize l.result = r at hp
      dsimp only at hp hsealed
      cases hp with
      | stopped hf he => exact ⟨hsealed, rfl, h.page, n, hempty he, hn⟩
      | finished hf hpage he => exact ⟨hsealed, rfl, h.page, n, hempty he, hn⟩
      | erased hf hlt he => exact ⟨hsealed, rfl, hlt, plan.page + 1, hone hf hlt he, fun _ => rfl⟩
      | failed hf hlt hr he =>
          rcases he with he | he
          · refine ⟨hsealed, rfl, h.page, n, ?_, nofun⟩
            rw [planned_snoc, hl, he, List.append_nil, hcommands]
          · exact ⟨hsealed, rfl, h.page, plan.page + 1, hone hf hlt he, nofun⟩

theorem run_erasing (fma : UInt32) {x₀ : BootFlash × BootFlashErasePlan} (hs : slotValid slot = true)
    (hdriver : Sealed x₀.1) (hplan : x₀.2 = ⟨slot, 0, false⟩)
    (h : Run ErasureStep x₀ tr x) : Erasing slot fma tr x := by
  refine h.history (I := Erasing slot fma) (fun _ hi hstep => step_erasing hs hi hstep) ?_
  exact ⟨hdriver, by rw [hplan], by rw [hplan]; exact Nat.zero_le _, 0, rfl,
    fun _ => by rw [hplan]⟩

/-- A plan that has failed is never taken up again. -/
theorem stopped_run (hs : slotValid slot = true) {tr₀ : ErasureTrace}
    (h : Erasing slot fma tr₀ x) (hfailed : x.2.failed = true)
    (hr : Run ErasureStep x tr x') :
    ∀ y ∈ tr, y.1.call = .step → y.1.result = .blocked ∧ y.1.events = [] := by
  induction hr generalizing tr₀ with
  | nil => exact fun y hy => absurd hy List.not_mem_nil
  | @cons a b c l tr hstep hrun ih =>
      have hnext := step_erasing hs h hstep
      have hb : b.2.failed = true ∧
          (l.call = .step → l.result = .blocked ∧ l.events = []) := by
        cases hcall : l.call with
        | flash call =>
            have hsame : b.2 = a.2 := by
              have hflash : FlashStep a.1 ⟨call, l.events, l.result⟩ b.1 ∧ b.2 = a.2 := by
                simpa only [ErasureStep, hcall] using hstep
              exact hflash.2
            rw [hsame]
            exact ⟨hfailed, nofun⟩
        | step =>
            obtain ⟨-, hp⟩ := hstep.planStep hs h hcall
            generalize l.result = r at hp
            generalize b.2 = plan at hp
            cases hp with
            | stopped hf he => exact ⟨hfailed, fun _ => ⟨rfl, he⟩⟩
            | finished hf => exact absurd (hf.symm.trans hfailed) (by decide)
            | erased hf => exact absurd (hf.symm.trans hfailed) (by decide)
            | failed hf => exact absurd (hf.symm.trans hfailed) (by decide)
      intro y hy
      rcases List.mem_cons.mp hy with rfl | hy
      · exact hb.2
      · exact ih hnext hb.1 y hy

end Runs

/-! ## The plan as a whole -/

/-- A destination that nothing refers to any more. -/
structure Cleared (r : BootMetadata) (slot : UInt32) : Prop where
  isSlot : slotValid slot = true
  valid : bootMetadataValidate r = .ok
  entry : r.image slot = .empty
  current : r.currentSlot ≠ slot
  candidate : r.candidateSlot ≠ slot
  previous : r.previousSlot ≠ slot
  confirmed : r.confirmed slot = false
  intent : r.intentSlot ≠ slot

section Plan

variable {slot running fma : UInt32} {r : BootMetadata} {s : BootStoreSnapshot}
  {plan : BootFlashErasePlan} {tr : ErasureTrace} {x : BootFlash × BootFlashErasePlan}

/-- Forty-eight zero bytes of the wire are an empty entry of the record. -/
theorem image_of_zeros (hs : slotValid slot = true)
    (h : slice (metadataWire r bootCommitValid) (32 + 48 * slot.toNat) 48 =
      List.replicate 48 0) : r.image slot = .empty := by
  have hempty : entryBytes .empty = List.replicate 48 0 := by decide
  have hwire := metadataAt_wire r bootCommitValid (by simp)
  rw [← hempty] at h
  rcases slotValid_iff.mp hs with rfl | rfl
  · have ha := entryAt_eq (by simp) h
    rw [← hwire]
    exact ha
  · have hlen : 32 + 48 * bootSlotB.toNat + 48 ≤ (metadataWire r bootCommitValid).length := by
      rw [length_metadataWire]
      decide
    have hb := entryAt_eq hlen h
    rw [← hwire]
    exact hb

theorem eraseBegin_cleared (h : bootFlashEraseBegin s running slot = .ok plan) :
    Cleared s.record slot := by
  unfold bootFlashEraseBegin at h
  dsimp only at h
  split at h
  · cases h
  next hargs =>
  split at h
  · cases h
  next encoded hencode =>
  split at h
  · cases h
  next hrecord =>
  simp only [not_or, not_not, Bool.not_eq_true', Bool.not_eq_false, Bool.not_eq_true] at hrecord
  obtain ⟨hcurrent, hcandidate, hprevious, hintent, -, hconfirmed, hzeros⟩ := hrecord
  obtain ⟨hvalid, rfl⟩ := encode_ok hencode
  simp only [not_or] at hargs
  obtain ⟨-, -, hslot, hne⟩ := hargs
  have hs : slotValid slot = true := by
    have hle : slot.toNat ≤ 1 := UInt32.not_lt.mp hslot
    have h0 : (0 : UInt32).toNat = 0 := rfl
    have h1 : (1 : UInt32).toNat = 1 := rfl
    rw [slotValid_iff, ← UInt32.toNat_inj, ← UInt32.toNat_inj]
    show slot.toNat = (0 : UInt32).toNat ∨ slot.toNat = (1 : UInt32).toNat
    omega
  refine ⟨hs, hvalid, image_of_zeros hs hzeros, ?_, ?_, hprevious, hconfirmed, hintent⟩
  · rw [hcurrent]
    exact hne
  · rw [hcandidate]
    exact Ne.symm (slotValid_ne_none hs)

/-- What the steps of a plan may do to the flash, whatever the device answers. -/
structure Planned (slot fma : UInt32) (tr : ErasureTrace) : Prop where
  /-- The commands are erases of the first pages of the plan, in its order. -/
  commands : ∃ n, planned fma tr = ((slotPlan slot).take n).map eraseCommand
  done : ∀ a y b, tr = a ++ y :: b → y.1.call = .step → y.1.result = .done →
    y.1.events = [] ∧ planned fma a = (slotPlan slot).map eraseCommand
  /-- The first step that fails is the last one that asks for anything. -/
  stopped : ∀ a y b, tr = a ++ y :: b → y.1.call = .step → y.1.result ≠ .ok →
    y.1.result ≠ .done → ∀ z ∈ b, z.1.call = .step → z.1.result = .blocked ∧ z.1.events = []

theorem run_planned {f₀ : BootFlash} (hs : slotValid slot = true) (hdriver : Sealed f₀)
    (h : Run ErasureStep (f₀, ⟨slot, 0, false⟩) tr x) : Planned slot fma tr := by
  obtain ⟨n, hcommands, -⟩ := (run_erasing fma hs hdriver rfl h).commands
  refine ⟨⟨n, hcommands⟩, ?_, ?_⟩
  · rintro a y b rfl hcall hdone
    obtain ⟨x₁, ha, hb⟩ := run_append_iff.mp h
    have hi := run_erasing fma hs hdriver rfl ha
    obtain ⟨-, hp⟩ := (run_cons_iff.mp hb).1.planStep hs hi hcall
    rw [hdone] at hp
    generalize y.2.2 = plan at hp
    cases hp with
    | finished hf hpage he =>
        obtain ⟨n, hn, hkept⟩ := hi.commands
        refine ⟨he, ?_⟩
        rw [hn, hkept hf, hpage, List.take_of_length_le (Nat.le_of_eq length_slotPlan)]
    | failed hf hpage hr => exact absurd rfl hr.2
  · rintro a y b rfl hcall hok hdone
    obtain ⟨x₁, ha, hb⟩ := run_append_iff.mp h
    obtain ⟨hstep, hrest⟩ := run_cons_iff.mp hb
    have hi := run_erasing fma hs hdriver rfl ha
    have hnext := step_erasing hs hi hstep
    refine stopped_run hs hnext ?_ hrest
    obtain ⟨-, hp⟩ := hstep.planStep hs hi hcall
    generalize y.2.2 = plan at hp
    generalize y.1.result = result at hp hok hdone
    cases hp with
    | stopped hf => exact hf
    | finished => exact absurd rfl hdone
    | erased => exact absurd rfl hok
    | failed => rfl

/-- A plan begins only for a destination that nothing refers to. Its steps command the
erase of the pages of that slot, manifest first and each page once, until one of them
fails or all are done; and the pages are the slot and touch nothing else. -/
theorem erase_plan {mhz polls : UInt32} {f₁ f₀ : BootFlash}
    {before : List (FlashLabel × BootFlash)}
    (hbegin : bootFlashEraseBegin s running slot = .ok plan)
    (hinit : bootFlashInit mhz polls = .ok f₁) (hbefore : Run FlashStep f₁ before f₀)
    (h : Run ErasureStep (f₀, plan) tr x) :
    Cleared s.record slot ∧ Planned slot fma tr ∧ (slotPlan slot).Nodup ∧
      ∀ x, ((∃ page ∈ slotPlan slot, InPage page x) ↔ InSlot slot x) ∧
        ∀ page ∈ slotPlan slot, InPage page x →
          ¬ InMetadata x ∧ ∀ other, other ≠ slot → ¬ InSlot other x := by
  have hclear := eraseBegin_cleared hbegin
  obtain ⟨hfree, hsealed⟩ := init_free hinit
  obtain rfl := eraseBegin_ok hbegin
  refine ⟨hclear, run_planned hclear.isSlot (run_sealed hfree hsealed hbefore).1 h,
    slotPlan_nodup hclear.isSlot, fun x => ⟨slotPlan_covers hclear.isSlot, fun page hp hx => ?_⟩⟩
  have hin := (slotPlan_covers hclear.isSlot).mp ⟨page, hp, hx⟩
  exact ⟨not_inMetadata_of_inSlot hin, fun other hne => inSlot_disjoint (Ne.symm hne) hin⟩

/-- A step of a plan on a controller that takes so many commands. -/
def tiredErase (f : BootFlash) (n : Nat) (failed : Bool) (d : Nat × UInt32) :
    ErasureLabel × (BootFlash × BootFlashErasePlan) :=
  let p := bootFlashEraseStepOn f ⟨bootSlotB, n, failed⟩
  let y := (p.run tiredController d).1
  (⟨.step, p.trace tiredController d, y.1.1⟩, (y.2, y.1.2))

theorem tired_erase (f : BootFlash) (n : Nat) (failed : Bool) (d : Nat × UInt32) :
    ErasureStep (f, ⟨bootSlotB, n, failed⟩) (tiredErase f n failed d).1
      (tiredErase f n failed d).2 := by
  have hruns := runs_trace tiredController (bootFlashEraseStepOn f ⟨bootSlotB, n, failed⟩) d
  exact hruns

/-- The manifest page is erased, the next page is not, and the plan stays where it is. -/
theorem erase_plan_tired :
    ∃ tr x, Run ErasureStep (⟨50, 1, false, .ok⟩, ⟨bootSlotB, 0, false⟩) tr x ∧
      tr.map (·.1.result) = [.ok, .io, .blocked] ∧ Planned bootSlotB 0 tr ∧
      planned 0 tr = [eraseCommand bootSlotBManifest, eraseCommand (slotBase bootSlotB)] := by
  have hbegin : bootFlashEraseBegin ⟨factoryRecord, 0⟩ bootSlotA bootSlotB =
      .ok ⟨bootSlotB, 0, false⟩ := by decide +kernel
  have hinit : bootFlashInit 50 1 = .ok ⟨50, 1, false, .ok⟩ := rfl
  have h₁ : (tiredErase ⟨50, 1, false, .ok⟩ 0 false (1, 0)).2 =
      (⟨50, 1, false, .ok⟩, ⟨bootSlotB, 1, false⟩) := by decide +kernel
  have h₂ : (tiredErase ⟨50, 1, false, .ok⟩ 1 false (0, 2)).2 =
      (⟨50, 1, true, .io⟩, ⟨bootSlotB, 1, true⟩) := by decide +kernel
  have hr₁ := tired_erase ⟨50, 1, false, .ok⟩ 0 false (1, 0)
  have hr₂ := tired_erase ⟨50, 1, false, .ok⟩ 1 false (0, 2)
  have hr₃ := tired_erase ⟨50, 1, true, .io⟩ 1 true (0, 2)
  rw [h₁] at hr₁
  rw [h₂] at hr₂
  have hrun := Run.cons hr₁ (.cons hr₂ (.cons hr₃ (.nil _)))
  exact ⟨_, _, hrun, by decide +kernel, (erase_plan hbegin hinit (.nil _) hrun).2.1,
    by decide +kernel⟩

end Plan

end EkBareMetal.Boot

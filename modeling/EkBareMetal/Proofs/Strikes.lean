import EkBareMetal.Proofs.Reset
import EkBareMetal.Proofs.Selection

/-!
# Three strikes

The life of one acceptance under boots and lifecycle operations in any order.
Its entry counts exactly the failures that were committed for it, in order,
and the third one ends its candidacy in the commit that counts it. What is
left then is a slot nothing can boot: it is neither the candidate nor
confirmed, no operation but an acceptance makes it either, and a selection
publishes no other slots.
-/

namespace EkBareMetal.Boot

open Words Interact Transition

/-! ## Boots and commits -/

/-- A committed lifecycle operation, a boot that charged the candidate, or a
boot that left the record alone. -/
inductive RecordLabel where
  | op (o : LifecycleOp)
  | boot (slot : UInt32) (d : BootResetDecision)
  | quietBoot

inductive RecordStep : BootMetadata → RecordLabel → BootMetadata → Prop where
  | op {r r' : BootMetadata} {o : LifecycleOp} (h : Committed r o r') :
      RecordStep r (.op o) r'
  | boot {r r' : BootMetadata} {d : BootResetDecision} (flags : UInt32)
      (h : bootResetPropose r flags = (.change, some (r', d))) :
      RecordStep r (.boot r.candidateSlot d) r'
  | quietBoot {r : BootMetadata} (flags : UInt32)
      (h : (bootResetPropose r flags).1 ≠ .change) : RecordStep r .quietBoot r

/-- The reasons a step charges to slot `s`. -/
def RecordLabel.charges (s : UInt32) : RecordLabel → List UInt32
  | .op (.applyCountedFailure f) => if f.identity.slot = s then [f.reason] else []
  | .boot slot d => if slot = s then [d.reason] else []
  | _ => []

/-- The failures committed for slot `s` along a run, in order. -/
def chargesOf (s : UInt32) (tr : List (RecordLabel × BootMetadata)) :
    List UInt32 :=
  tr.flatMap fun x => x.1.charges s

def RecordLabel.invalidates (s : UInt32) : RecordLabel → Prop
  | .op (.invalidate e) => e.permittedSlot = s
  | _ => False

def RecordLabel.accepts (s : UInt32) : RecordLabel → Prop
  | .op (.acceptReady e _) => e.permittedSlot = s
  | _ => False

/-- A boot that charges is a commit like any other. -/
theorem boot_committed {r r' : BootMetadata} {d : BootResetDecision}
    {flags : UInt32} (h : bootResetPropose r flags = (.change, some (r', d))) :
    Committed r (.applyCountedFailure (bootFailure r flags)) r' ∧
      d.reason = (bootFailure r flags).reason ∧
      (bootFailure r flags).identity.slot = r.candidateSlot := by
  obtain ⟨-, -, -, hd, hc⟩ := resetPropose_change.mp h
  rw [hd]
  exact ⟨hc, rfl, rfl⟩

/-- Every step that moves is a commit of some operation with the same charges,
invalidations and acceptances. -/
theorem step_committed {r r' : BootMetadata} {l : RecordLabel}
    (h : RecordStep r l r') (s : UInt32) :
    (r' = r ∧ l.charges s = []) ∨ ∃ o, Committed r o r' ∧
      l.charges s = (RecordLabel.op o).charges s ∧
      ((RecordLabel.op o).invalidates s ↔ l.invalidates s) ∧
      ((RecordLabel.op o).accepts s ↔ l.accepts s) := by
  cases h with
  | op hc => exact .inr ⟨_, hc, rfl, Iff.rfl, Iff.rfl⟩
  | boot flags hb =>
      obtain ⟨hc, hreason, hslot⟩ := boot_committed hb
      refine .inr ⟨_, hc, ?_, Iff.rfl, Iff.rfl⟩
      simp only [RecordLabel.charges, hslot, hreason]
  | quietBoot => exact .inl ⟨rfl, rfl⟩

/-! ## The count of one acceptance -/

/-- A commit appends to the reasons of an entry exactly what it charges. -/
theorem reasons_committed {r r' : BootMetadata} {o : LifecycleOp} {s : UInt32}
    (h : Committed r o r') (hs : slotValid s = true)
    (h0 : (r.image s).payloadLength ≠ 0)
    (hno : ¬ (RecordLabel.op o).invalidates s) :
    accountReasons (r'.image s).accounting =
      accountReasons (r.image s).accounting ++ (RecordLabel.op o).charges s := by
  have hsame : r'.image s = r.image s → (RecordLabel.op o).charges s = [] →
      accountReasons (r'.image s).accounting =
        accountReasons (r.image s).accounting ++
          (RecordLabel.op o).charges s := by
    intro himg hc
    rw [himg, hc, List.append_nil]
  cases o with
  | invalidate e =>
      obtain ⟨ha, hadv⟩ := invalidate_committed.mp h
      refine hsame ?_ rfl
      rw [hadv.image]
      exact BootMetadata.image_setImage_other ha.permitted hs (Ne.symm hno)
  | acceptReady e st =>
      obtain ⟨ha, hadv⟩ := acceptReady_committed.mp h
      have hne : s ≠ e.incoming.slot := by
        rintro rfl
        rw [ha.incomingSlot] at h0
        exact h0 ha.empty
      refine hsame ?_ rfl
      rw [hadv.image]
      refine BootMetadata.image_setImage_other ?_ hs hne
      rw [ha.incomingSlot]
      exact ha.permitted
  | beginTrial c =>
      obtain ⟨hx, hc, ht, hadv⟩ := beginTrial_committed.mp h
      by_cases hsl : s = c.manifest.slot
      · subst hsl
        obtain ⟨hw, -⟩ := tried_state hx.record hs hc ht
        rw [hadv.image, tried, BootMetadata.image_setAccounting_same, hw]
        show accountReasons (bootStateReady &&& ~~~bootAccountStateMask |||
          bootStateTrial) = accountReasons bootStateReady ++ []
        decide
      · refine hsame ?_ rfl
        rw [hadv.image]
        exact BootMetadata.image_setAccounting_other hx.slotValid hs hsl
  | confirm q i hl =>
      obtain ⟨hx, -, -, ht, -, hadv⟩ := confirm_committed.mp h
      by_cases hsl : s = i.manifest.slot
      · subst hsl
        have hw := trialWords_complete (hx.record.account hs h0) ht
        have himg : r'.image i.manifest.slot = (r.setAccounting i.manifest.slot
            ((r.image i.manifest.slot).accounting &&&
              ~~~bootAccountStateMask)).image i.manifest.slot := hadv.image _
        rw [himg, BootMetadata.image_setAccounting_same]
        show accountReasons (_ &&& _) = _ ++ []
        rw [trialWords_confirm _ hw, List.append_nil]
      · refine hsame ?_ rfl
        have himg : r'.image s = (r.setAccounting i.manifest.slot
            ((r.image i.manifest.slot).accounting &&&
              ~~~bootAccountStateMask)).image s := hadv.image s
        rw [himg]
        exact BootMetadata.image_setAccounting_other hx.slotValid hs hsl
  | deadlineIntent q i =>
      exact hsame ((deadlineIntent_committed.mp h).2.2.2.2.image s) rfl
  | applyCountedFailure f =>
      obtain ⟨hx, -, -, ht, hadv⟩ := applyCountedFailure_committed.mp h
      by_cases hsl : f.identity.slot = s
      · subst hsl
        obtain ⟨w, hw, hreasons, -⟩ := @charged_word r f.identity.slot f.reason
          f.consumeIntent hx.record hs h0 ht (countable_reason hx)
        rw [hadv.image, hw, hreasons, RecordLabel.charges, if_pos rfl]
      · refine hsame ?_ (if_neg hsl)
        rw [hadv.image]
        exact charged_image_other hx.resident.slot hs (Ne.symm hsl)
  | promotePrevious v p =>
      exact hsame ((promotePrevious_committed.mp h).2.2.2.2.2.2.image s) rfl

theorem nonempty_committed {r r' : BootMetadata} {o : LifecycleOp} {s : UInt32}
    (h : Committed r o r') (hs : slotValid s = true)
    (h0 : (r.image s).payloadLength ≠ 0)
    (hno : ¬ (RecordLabel.op o).invalidates s) :
    (r'.image s).payloadLength ≠ 0 := by
  rcases entry_committed h hs with hk | ⟨-, e, rfl, he⟩ | ⟨he, -⟩
  · rw [hk.sameImage.2.2.1]
    exact h0
  · exact absurd he hno
  · rw [he] at h0
    exact absurd rfl h0

/-- One step of the counting, whoever takes it. -/
theorem reasons_step {r r' : BootMetadata} {l : RecordLabel} {s : UInt32}
    (h : RecordStep r l r') (hs : slotValid s = true)
    (h0 : (r.image s).payloadLength ≠ 0) (hno : ¬ l.invalidates s) :
    (r'.image s).payloadLength ≠ 0 ∧
      accountReasons (r'.image s).accounting =
        accountReasons (r.image s).accounting ++ l.charges s := by
  rcases step_committed h s with ⟨rfl, hc⟩ | ⟨o, hc, hch, hinv, -⟩
  · rw [hc, List.append_nil]
    exact ⟨h0, rfl⟩
  · rw [hch]
    have hno' := fun hi => hno (hinv.mp hi)
    exact ⟨nonempty_committed hc hs h0 hno', reasons_committed hc hs h0 hno'⟩

theorem reasons_run {r r' : BootMetadata}
    {tr : List (RecordLabel × BootMetadata)} {s : UInt32}
    (h : Run RecordStep r tr r') (hs : slotValid s = true)
    (h0 : (r.image s).payloadLength ≠ 0) (hno : ∀ x ∈ tr, ¬ x.1.invalidates s) :
    (r'.image s).payloadLength ≠ 0 ∧
      accountReasons (r'.image s).accounting =
        accountReasons (r.image s).accounting ++ chargesOf s tr := by
  induction h with
  | nil r => exact ⟨h0, (List.append_nil _).symm⟩
  | @cons r r₁ r₂ l rest hstep hr ih =>
      obtain ⟨hne, hre⟩ := reasons_step hstep hs h0 (hno _ List.mem_cons_self)
      obtain ⟨hne', hre'⟩ := ih hne fun x hx => hno x (List.mem_cons_of_mem _ hx)
      refine ⟨hne', ?_⟩
      rw [hre', hre, List.append_assoc]
      rfl

/-- An acceptance starts from no failures. -/
theorem accepted_reasons {a a' : BootMetadata} {e : BootUploadEvidence}
    {stored : BootVerifiedImage} (h : Committed a (.acceptReady e stored) a') :
    slotValid e.permittedSlot = true ∧
      (a'.image e.permittedSlot).payloadLength ≠ 0 ∧
      accountReasons (a'.image e.permittedSlot).accounting = [] := by
  obtain ⟨ha, hadv⟩ := acceptReady_committed.mp h
  have hcand : a'.candidateSlot = e.permittedSlot := by
    rw [hadv.eq, ← ha.incomingSlot]
    rfl
  have hword : (a'.image e.permittedSlot).accounting = bootStateReady := by
    rw [hadv.image, ← ha.incomingSlot, accepted]
    exact congrArg BootImageEntry.accounting BootImages.get_set_same
  refine ⟨ha.permitted, fun h0 => ?_, by rw [hword]; decide⟩
  exact ((hadv.after.image _ ha.permitted).role h0).2.2.2 hcand

/-- What the third failure commits. -/
theorem third_strike {r r' : BootMetadata} {l : RecordLabel} {s : UInt32}
    (h : RecordStep r l r') (hs : slotValid s = true)
    (hcount : accountCount (r.image s).accounting = 2)
    (hcharge : l.charges s ≠ []) :
    r'.state s = bootStateRejected ∧
      (r'.image s).accounting &&& bootAccountRollback ≠ 0 ∧
      r'.candidateSlot = bootSlotNone ∧ r'.intentKind = bootIntentNone ∧
      r'.intentSlot = bootSlotNone ∧ r'.intentTrialId = 0 := by
  rcases step_committed h s with ⟨-, hc⟩ | ⟨o, hc, hch, -, -⟩
  · exact absurd hc hcharge
  rw [hch] at hcharge
  cases o with
  | applyCountedFailure f =>
      have hsl : f.identity.slot = s := by
        by_contra hne
        exact hcharge (if_neg hne)
      subst hsl
      obtain ⟨hx, -, -, ht, hadv⟩ := applyCountedFailure_committed.mp hc
      obtain ⟨w, hw, -, -, hrej, -⟩ := @charged_word r f.identity.slot f.reason
        f.consumeIntent hx.record hs hx.resident.nonempty ht
        (countable_reason hx)
      obtain ⟨hst, hroll⟩ := hrej hcount
      obtain ⟨-, -, -, hcand⟩ :=
        @charged_roles r f.identity.slot f.reason f.consumeIntent
      obtain ⟨hk, hi, ht⟩ := (@charged_intent r f.identity.slot f.reason
        f.consumeIntent).1 (.inl hcount)
      rw [BootMetadata.state, hadv.image, hw, hadv.eq]
      refine ⟨hst, hroll, ?_, hk, hi, ht⟩
      rw [if_pos hcount] at hcand
      exact hcand
  | _ => exact absurd rfl hcharge

/-! ## The end of a candidacy -/

/-- A slot that no selection can publish: empty, or rejected. -/
def Dead (s : UInt32) (r : BootMetadata) : Prop :=
  MetadataOk r ∧
    ((r.image s).payloadLength = 0 ∨ r.state s = bootStateRejected)

theorem Dead.roles {s : UInt32} {r : BootMetadata} (h : Dead s r)
    (hs : slotValid s = true) : r.candidateSlot ≠ s ∧ r.confirmed s = false := by
  obtain ⟨hr, h | h⟩ := h
  · obtain ⟨h1, -, -, h2⟩ := (hr.image s hs).role h
    exact ⟨h2, h1⟩
  · constructor
    · intro hc
      have hst := (hr.roles.candidate (by rw [hc]; exact slotValid_ne_none hs)).2.2.2
      rw [hc, h] at hst
      exact absurd hst (by decide)
    · by_contra hc
      have hst := (hr.image s hs).confirmed (by simpa using hc)
      rw [h] at hst
      exact absurd hst (by decide)

/-- The operations that touch an accounting word touch the candidate's. -/
theorem entry_settled {r r' : BootMetadata} {o : LifecycleOp} {s : UInt32}
    (h : Committed r o r') (hs : slotValid s = true) (hc : r.candidateSlot ≠ s) :
    r'.image s = r.image s ∨ Emptied o r' s ∨ Filled r o r' s := by
  cases o with
  | invalidate e =>
      obtain ⟨ha, hadv⟩ := invalidate_committed.mp h
      rcases entry_committed h hs with hk | he
      · by_cases hsl : s = e.permittedSlot
        · subst hsl
          refine .inr (.inl ⟨?_, e, rfl, rfl⟩)
          rw [hadv.image]
          exact BootMetadata.image_setImage_same
        · refine .inl ?_
          rw [hadv.image]
          exact BootMetadata.image_setImage_other ha.permitted hs hsl
      · exact .inr he
  | acceptReady e st =>
      obtain ⟨ha, hadv⟩ := acceptReady_committed.mp h
      by_cases hsl : s = e.incoming.slot
      · subst hsl
        refine .inr (.inr ⟨?_, e, st, rfl, ha.incomingSlot.symm, ha, hadv.image _⟩)
        rw [ha.incomingSlot]
        exact hadv.before.image_empty ha.permitted ha.empty
      · refine .inl ?_
        rw [hadv.image]
        refine BootMetadata.image_setImage_other ?_ hs hsl
        rw [ha.incomingSlot]
        exact ha.permitted
  | beginTrial c =>
      obtain ⟨hx, hcand, -, hadv⟩ := beginTrial_committed.mp h
      refine .inl ?_
      rw [hadv.image]
      exact BootMetadata.image_setAccounting_other hx.slotValid hs
        (fun he => hc (hcand.trans he.symm))
  | confirm q i hl =>
      obtain ⟨hx, -, hcand, -, -, hadv⟩ := confirm_committed.mp h
      have himg : r'.image s = (r.setAccounting i.manifest.slot
          ((r.image i.manifest.slot).accounting &&&
            ~~~bootAccountStateMask)).image s := hadv.image s
      rw [himg]
      exact .inl (BootMetadata.image_setAccounting_other hx.slotValid hs
        (fun he => hc (hcand.trans he.symm)))
  | deadlineIntent q i =>
      exact .inl ((deadlineIntent_committed.mp h).2.2.2.2.image s)
  | applyCountedFailure f =>
      obtain ⟨hx, hcand, -, -, hadv⟩ := applyCountedFailure_committed.mp h
      refine .inl ?_
      rw [hadv.image]
      exact charged_image_other hx.resident.slot hs
        (fun he => hc (hcand.trans he.symm))
  | promotePrevious v p =>
      exact .inl ((promotePrevious_committed.mp h).2.2.2.2.2.2.image s)

theorem dead_step {r r' : BootMetadata} {l : RecordLabel} {s : UInt32}
    (hs : slotValid s = true) (hd : Dead s r) (h : RecordStep r l r')
    (hno : ¬ l.accepts s) : Dead s r' := by
  rcases step_committed h s with ⟨rfl, -⟩ | ⟨o, hc, -, -, hacc⟩
  · exact hd
  refine ⟨hc.after, ?_⟩
  rcases entry_settled hc hs (hd.roles hs).1 with himg | ⟨he, -⟩ | hf
  · rw [BootMetadata.state, himg]
    exact hd.2
  · rw [he]
    exact .inl rfl
  · obtain ⟨-, e, st, rfl, he, -⟩ := hf
    exact absurd (hacc.mp he) hno

theorem dead_run {r r' : BootMetadata}
    {tr : List (RecordLabel × BootMetadata)} {s : UInt32}
    (hs : slotValid s = true) (hd : Dead s r) (h : Run RecordStep r tr r')
    (hno : ∀ x ∈ tr, ¬ x.1.accepts s) : Dead s r' := by
  induction h with
  | nil => exact hd
  | cons hstep _ ih =>
      exact ih (dead_step hs hd hstep (hno _ List.mem_cons_self))
        fun x hx => hno x (List.mem_cons_of_mem _ hx)

/-- A selection that starts from a record never publishes a slot dead in it. -/
theorem dead_unpublished {C : Crypto} {expected : BootStoreSnapshot}
    {images : BootSelectImages} {tr : List (Event (StoreSig.sum VerifySig))}
    {result : BootSelectResult} {d : BootLaunchDecision}
    (hrun : Runs (bootSelect C expected images) tr (result, some d))
    {s : UInt32} (hs : slotValid s = true) (hd : Dead s expected.record) :
    d.image.manifest.slot ≠ s := by
  obtain ⟨calls, rfl, hcalls⟩ := runs_inline hrun
  have htrace := select_trace hcalls
  have hserved : ∀ e ∈ calls.map Served.event, CallOk C e := by
    intro e he
    obtain ⟨c, -, rfl⟩ := List.mem_map.mp he
    exact served_callOk c
  have hok : result.status = .ok := by
    by_contra hne
    have hnone := select_withheld htrace hne
    cases hnone
  obtain ⟨d', hd', hp⟩ := select_publication htrace hserved hok
  injection hd' with hd'
  subst hd'
  intro heq
  obtain ⟨h1, h2⟩ := hd.roles hs
  rcases hp.eligible with he | he
  · exact h1 (he.trans heq)
  · rw [heq, h2] at he
    cases he

/-- The count of an entry is the number of failures committed for its
acceptance, the third one ends the candidacy, and nothing publishes the slot
again before it is accepted anew. -/
theorem three_strikes {C : Crypto} {a a' b : BootMetadata}
    {e : BootUploadEvidence} {stored : BootVerifiedImage}
    {tr : List (RecordLabel × BootMetadata)} {s : UInt32} {n : Nat}
    (hacc : Committed a (.acceptReady e stored) a') (hs : s = e.permittedSlot)
    (hrun : Run RecordStep a' tr b) (hkept : ∀ x ∈ tr, ¬ x.1.invalidates s)
    (hn : n = (accountCount (b.image s).accounting).toNat) :
    n = (chargesOf s tr).length ∧ n ≤ 3 ∧
    accountReasons (b.image s).accounting = chargesOf s tr ∧
    (∀ l b', RecordStep b l b' → ¬ l.invalidates s →
      n ≤ (accountCount (b'.image s).accounting).toNat ∧
      (n = 2 → l.charges s ≠ [] →
        (accountCount (b'.image s).accounting).toNat = 3 ∧
        b'.state s = bootStateRejected ∧
        (b'.image s).accounting &&& bootAccountRollback ≠ 0 ∧
        b'.candidateSlot = bootSlotNone ∧ b'.intentKind = bootIntentNone ∧
        b'.intentSlot = bootSlotNone ∧ b'.intentTrialId = 0)) ∧
    (n = 3 → b.state s = bootStateRejected ∧
      ∀ tr' c, Run RecordStep b tr' c → (∀ x ∈ tr', ¬ x.1.accepts s) →
        ∀ page images events result d,
          Runs (bootSelect C ⟨c, page⟩ images) events (result, some d) →
            d.image.manifest.slot ≠ s) := by
  subst hs hn
  obtain ⟨hs, h0, hnil⟩ := accepted_reasons hacc
  obtain ⟨hne, hreasons⟩ := reasons_run hrun hs h0 hkept
  rw [hnil, List.nil_append] at hreasons
  have hlen := length_accountReasons (b.image e.permittedSlot).accounting
  rw [hreasons] at hlen
  refine ⟨hlen.symm, accountCount_le _, hreasons, ?_, ?_⟩
  · intro l b' hstep hno
    obtain ⟨-, hre⟩ := reasons_step hstep hs hne hno
    have hlen' := congrArg List.length hre
    rw [List.length_append, length_accountReasons, length_accountReasons] at hlen'
    refine ⟨by omega, fun h2 hch => ⟨?_, ?_⟩⟩
    · have hpos := List.length_pos_iff.mpr hch
      have hle := accountCount_le (b'.image e.permittedSlot).accounting
      omega
    · exact third_strike hstep hs (UInt32.toNat_inj.mp h2) hch
  · intro h3
    have hb : MetadataOk b := by
      refine hrun.invariant (fun hi hst => ?_) hacc.after
      rcases step_committed hst e.permittedSlot with ⟨rfl, -⟩ | ⟨o, hc, -⟩
      · exact hi
      · exact hc.after
    have hst : b.state e.permittedSlot = bootStateRejected := by
      by_contra hno
      have hf := accountValidate_fields (hb.account hs hne)
      exact (hf.2.2.2.2.2.1 hno).1 (UInt32.toNat_inj.mp h3)
    refine ⟨hst, fun tr' c hrun' hno page images events result d hsel => ?_⟩
    exact dead_unpublished hsel hs (dead_run hs ⟨hb, .inr hst⟩ hrun' hno)

/-- Two watchdog failures and a brown-out. -/
theorem three_strikes_package :
    accountReasons (rejectedRecord.image bootSlotB).accounting = [1, 1, 3] ∧
      rejectedRecord.state bootSlotB = bootStateRejected := by
  have h := @three_strikes packageCrypto _ _ _ _ _ _ _ _ factory_accepted rfl
    (.cons (.op factory_tried) (.cons (.op trial_failed)
      (.cons (.op trial_failed_twice) (.cons (.op trial_rejected) (.nil _)))))
    (by simp [RecordLabel.invalidates]) rfl
  exact ⟨h.2.2.1, (h.2.2.2.2 (by decide)).1⟩

end EkBareMetal.Boot

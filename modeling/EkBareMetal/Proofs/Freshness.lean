import EkBareMetal.Proofs.Confirmation

/-!
# A classification names a new acceptance

The PC compares two texts, the one it read before the upload and the one it
reads now. Between the two the device has run: commits of any kind, rejections
and rollbacks among them, perhaps of the very bytes the PC has sent. What the
PC calls a trial or a confirmed image was nevertheless accepted in between.
The argument is on the trial id: it is ahead of the sequence the first text
showed, no entry of the first record carries such an id, and an entry gets an
id only where an acceptance fills it.
-/

namespace EkBareMetal.Boot

open Words Text Transition Tools

/-! ## What a classification has compared -/

/-- The comparisons in front of both verdicts. -/
structure BoundTo (w : Workflow) (a : Artifact) (observed : StatusValues) : Prop where
  running : observed.get "running_slot" = a.slot
  hash : observed.get "hash" = a.digest
  release : intOf (observed.get "release") = intOf a.release
  pinned : ∀ id, w.trialId = some id → id = intOf (observed.get "trial_id")
  known : observed.get "trial_id" ≠ ascii "none"
  younger : ∀ before, w.beforeUpload = some before →
    intOf (before.get "sequence") < intOf (observed.get "trial_id")
  reached : intOf (observed.get "trial_id") ≤ intOf (observed.get "sequence")

def TrialRoles (a : Artifact) (observed : StatusValues) : Prop :=
  observed.get "candidate_slot" = a.slot ∧ observed.get "trial_state" = ascii "trial" ∧
    observed.get "permitted_slot" = ascii "none"

/-- What a verdict asks for beyond these comparisons. -/
def RolesFor (a : Artifact) (observed : StatusValues) : Verdict → Prop
  | .confirmed =>
      observed.get "confirmed_slot" = a.slot ∧
        observed.get "candidate_slot" = ascii "none" ∧
        observed.get "trial_state" = ascii "none"
  | .trial => TrialRoles a observed ∧ observed.get "health" = ascii "00000007"
  | .unhealthy => TrialRoles a observed
  | _ => True

/-- The verdicts that bind the upload to a trial. -/
def Binding (v : Verdict) : Prop := v = .trial ∨ v = .unhealthy ∨ v = .confirmed

theorem classify_binding {w w' : Workflow} {observed : StatusValues} {v : Verdict}
    (h : w.classify observed = (.ok v, w')) (hv : Binding v) :
    ∃ a before, w.artifact = some a ∧ w.beforeUpload = some before ∧
      BoundTo w a observed ∧ RolesFor a observed v ∧
      w' = { w with trialId := some (intOf (observed.get "trial_id")) } := by
  have hother : ∀ {u : Verdict} {x : Workflow}, ¬ Binding u →
      ((Except.ok u, x) : Workflow.Reply Verdict × Workflow) = (.ok v, w') → False := by
    intro u x hu he
    injection he with he _
    injection he with he
    subst he
    exact hu hv
  have hunknown : ¬ Binding .unknown := by simp [Binding]
  have hmismatch : ¬ Binding .mismatch := by simp [Binding]
  rw [Workflow.classify] at h
  split at h
  · cases h
  next a ha =>
  dsimp only at h
  split at h
  · exact (hother hunknown h).elim
  split at h
  · split at h
    · exact (hother hunknown h).elim
    · exact (hother hmismatch h).elim
  next hidentity =>
  split at h
  · exact (hother hunknown h).elim
  next hknown =>
  split at h
  · exact (hother hmismatch h).elim
  next hpinned =>
  split at h
  · exact (hother hunknown h).elim
  next hfresh =>
  simp only [ne_eq, not_or, not_not] at hidentity
  obtain ⟨hrunning, hhash, -, hrelease⟩ := hidentity
  cases hbefore : w.beforeUpload with
  | none =>
      rw [hbefore] at hfresh
      exact absurd rfl hfresh
  | some before =>
      rw [hbefore] at hfresh
      simp only [Option.elim_some, Bool.or_eq_true, decide_eq_true_eq, Bool.not_eq_true',
        Bool.and_eq_false_iff, decide_eq_false_iff_not, not_or, not_not] at hfresh
      obtain ⟨-, hyounger, hreached⟩ := hfresh
      have hbound : BoundTo w a observed := by
        refine ⟨hrunning, hhash, hrelease, ?_, hknown, ?_, hreached⟩
        · intro id hid
          rw [hid] at hpinned
          simpa using hpinned
        · intro b hb
          rw [hbefore] at hb
          cases hb
          exact hyounger
      refine ⟨a, before, ha, rfl, hbound, ?_⟩
      split at h
      · next hroles =>
          cases h
          exact ⟨hroles, by rw [hbefore]⟩
      split at h
      · exact (hother hunknown h).elim
      next hroles =>
      simp only [ne_eq, not_or, not_not] at hroles
      split at h
      · next hhealth =>
          cases h
          exact ⟨⟨hroles, hhealth⟩, by rw [hbefore]⟩
      · cases h
        exact ⟨hroles, by rw [hbefore]⟩

/-! ## Where a trial id comes from -/

/-- The commit `x` accepted the image of this entry into the slot. -/
def AcceptedAs (slot : UInt32) (entry : BootImageEntry)
    (x : LifecycleOp × BootMetadata) : Prop :=
  ∃ e stored, x.1 = .acceptReady e stored ∧ e.permittedSlot = slot ∧
    e.incoming.payloadHash = entry.payloadHash ∧ e.incoming.release = entry.release ∧
    x.2.sequence = entry.trialId

theorem AcceptedAs.of_same {slot : UInt32} {e e' : BootImageEntry}
    {x : LifecycleOp × BootMetadata} (h : AcceptedAs slot e x) (hs : e.SameImage e') :
    AcceptedAs slot e' x := by
  obtain ⟨evidence, stored, hop, hslot, hhash, hrelease, hid⟩ := h
  exact ⟨evidence, stored, hop, hslot, hhash.trans hs.1.symm,
    hrelease.trans hs.2.1.symm, hid.trans hs.2.2.2.symm⟩

theorem filled_acceptedAs {r r' : BootMetadata} {op : LifecycleOp} {slot : UInt32}
    (hc : Committed r op r') (h : Filled r op r' slot) :
    AcceptedAs slot (r'.image slot) (op, r') := by
  obtain ⟨-, e, stored, rfl, rfl, ha, himage⟩ := h
  have hid := acceptReady_trialId hc
  have hentry : (accepted r e.incoming).image e.permittedSlot =
      { payloadHash := e.incoming.payloadHash
        release := e.incoming.release
        payloadLength := e.incoming.payloadLength
        accounting := bootStateReady
        trialId := r.sequence + 1 } := by
    rw [← ha.incomingSlot, accepted]
    exact BootImages.get_set_same
  rw [← himage] at hentry
  exact ⟨e, stored, rfl, rfl, by rw [hentry], by rw [hentry], hid.symm⟩

/-- An id ahead of the sequence a run started from was handed out on the run. -/
theorem accepted_since {r₀ r : BootMetadata} {tr : List (LifecycleOp × BootMetadata)}
    (h : Run Committed r₀ tr r) (h₀ : MetadataOk r₀) {slot : UInt32}
    (hslot : slotValid slot = true) (hne : (r.image slot).payloadLength ≠ 0)
    (hid : r₀.sequence < (r.image slot).trialId) :
    ∃ x ∈ tr, AcceptedAs slot (r.image slot) x := by
  refine h.history (I := fun tr r => (r.image slot).payloadLength ≠ 0 →
    r₀.sequence < (r.image slot).trialId → ∃ x ∈ tr, AcceptedAs slot (r.image slot) x)
    ?_ ?_ hne hid
  · intro tr a op b _ ih hc hne hid
    rcases entry_committed hc hslot with hk | ⟨he, -⟩ | hf
    · have hsame := hk.sameImage
      rw [hsame.2.2.1] at hne
      rw [hsame.2.2.2] at hid
      obtain ⟨x, hx, ha⟩ := ih hne hid
      exact ⟨x, List.mem_append_left _ hx, ha.of_same hsame⟩
    · rw [he] at hne
      exact absurd rfl hne
    · exact ⟨(op, b), List.mem_append_right _ List.mem_cons_self, filled_acceptedAs hc hf⟩
  · intro _ hid
    have hle := (h₀.image slot hslot).trialId
    rw [UInt32.lt_iff_toNat_lt] at hid
    rw [UInt32.le_iff_toNat_le] at hle
    omega

/-! ## What a text says -/

section Shown

variable {s : BootSnapshot}

theorem get_statusValues (s : BootSnapshot) {key : String} {k : StatusKey}
    (h : ascii key = k.name) : (statusValues s).get key = shown (statusItem s k) := by
  rw [StatusValues.get, h, lookup_statusValues]
  rfl

theorem intOf_number (n : UInt32) : intOf (shown (some (.number n))) = n.toNat :=
  number_decimal n.toNat

/-- A text is one of a snapshot the renderer accepts. -/
theorem rendered {text : List UInt8} {capacity : Nat} {values : StatusValues}
    (h : bootStatusRender s capacity = some text) (hv : status text = .ok values) :
    SnapshotOk s ∧ values = statusValues s := by
  rw [bootStatusRender] at h
  split at h
  · cases h
  next hok =>
  simp only [ne_eq, not_or, not_not] at hok
  have hs : SnapshotOk s := ⟨hok.1, hok.2.1, hok.2.2.1, hok.2.2.2⟩
  dsimp only at h
  split at h
  · cases h
  cases h
  rw [status_render hs] at hv
  cases hv
  exact ⟨hs, rfl⟩

/-- In both verdicts the id shown is that of the running image. -/
theorem source_of_roles (h : SnapshotOk s) {a : Artifact} {v : Verdict}
    (hv : v = .trial ∨ v = .confirmed)
    (hrunning : (statusValues s).get "running_slot" = a.slot)
    (hroles : RolesFor a (statusValues s) v) :
    statusSource s.metadata.record s.running.manifest = s.running.manifest.slot := by
  have hrun : slotName s.running.manifest.slot = a.slot :=
    (slotName_slot h.slot).trans
      ((get_statusValues s (k := .runningSlot) rfl).symm.trans hrunning)
  have hcandidate : (statusValues s).get "candidate_slot" =
      slotName s.metadata.record.candidateSlot :=
    (get_statusValues s (k := .candidateSlot) rfl).trans
      (slotName_role h.metadata.candidate).symm
  rw [statusSource]
  rcases hv with rfl | rfl
  · have hname := hcandidate.symm.trans (hroles.1.1.trans hrun.symm)
    have hsame := (slotName_injective h.metadata.candidate
      (roleValid_iff.mpr (.inl h.slot))).mp hname
    split
    · exact hsame
    · rfl
  · have hnone : s.metadata.record.candidateSlot = bootSlotNone :=
      (slotName_injective h.metadata.candidate (q := bootSlotNone) (by decide)).mp
        (hcandidate.symm.trans hroles.2.1)
    rw [if_neg (not_not_intro hnone)]

end Shown

/-! ## Both sides -/

/-- The commit `x` accepted an image of the artifact for the artifact's slot. -/
def TakesImage (a : Artifact) (x : LifecycleOp × BootMetadata) : Prop :=
  ∃ e stored, x.1 = .acceptReady e stored ∧ slotName e.permittedSlot = a.slot ∧
    hexText e.incoming.payloadHash.val = a.digest ∧
    e.incoming.release.toNat = intOf a.release

/-- Between the text read before the upload and a text that is classified as
the artifact's trial or confirmation, the device has committed an acceptance of
the artifact's image for its slot, and the pinned id is the sequence of that
commit: ahead of the first text's sequence, and no id of the first record. -/
theorem classification_fresh {s₀ s : BootSnapshot}
    {tr : List (LifecycleOp × BootMetadata)} {text₀ text : List UInt8}
    {capacity₀ capacity : Nat} {before observed : StatusValues}
    {w w' : Workflow} {a : Artifact} {v : Verdict}
    (h₀ : bootStatusRender s₀ capacity₀ = some text₀)
    (hbefore : status text₀ = .ok before)
    (hrun : Run Committed s₀.metadata.record tr s.metadata.record)
    (h : bootStatusRender s capacity = some text) (hobserved : status text = .ok observed)
    (hartifact : w.artifact = some a) (hread : w.beforeUpload = some before)
    (hclass : w.classify observed = (.ok v, w')) (hv : v = .trial ∨ v = .confirmed) :
    ∃ x ∈ tr, TakesImage a x ∧ w'.trialId = some x.2.sequence.toNat ∧
      s₀.metadata.record.sequence < x.2.sequence ∧
      ∀ slot, slotValid slot = true →
        (s₀.metadata.record.image slot).trialId ≠ x.2.sequence := by
  obtain ⟨hok₀, rfl⟩ := rendered h₀ hbefore
  obtain ⟨hok, rfl⟩ := rendered h hobserved
  obtain ⟨a', before, ha', hb', hbound, hroles, rfl⟩ :=
    classify_binding hclass (hv.imp_right .inr)
  rw [hartifact] at ha'
  cases ha'
  rw [hread] at hb'
  cases hb'
  have hsource := source_of_roles hok hv hbound.running hroles
  have hslot := hok.slot
  have hm := imageMatches_eq_ok.mp hok.matching
  -- The id shown is the one in the entry of the running slot.
  have hid : intOf ((statusValues s).get "trial_id") =
      (s.metadata.record.image s.running.manifest.slot).trialId.toNat := by
    rw [get_statusValues s (k := .trialId) rfl, statusItem, intOf_number, ← statusSource_eq,
      hsource]
  have hsequence : intOf ((statusValues s₀).get "sequence") =
      s₀.metadata.record.sequence.toNat := by
    rw [get_statusValues s₀ (k := .sequence) rfl, statusItem, intOf_number]
  have hyounger := hbound.younger _ hread
  rw [hid, hsequence, ← UInt32.lt_iff_toNat_lt] at hyounger
  have hne : (s.metadata.record.image s.running.manifest.slot).payloadLength ≠ 0 :=
    hm.nonempty
  obtain ⟨x, hx, e, stored, hop, hpermitted, hhash, hrelease, hcommit⟩ :=
    accepted_since hrun hok₀.metadata hslot hne hyounger
  refine ⟨x, hx, ⟨e, stored, hop, ?_, ?_, ?_⟩, ?_, ?_, ?_⟩
  · rw [hpermitted, slotName_slot hslot, ← hbound.running,
      get_statusValues s (k := .runningSlot) rfl]
    rfl
  · rw [hhash, hm.payloadHash, ← hbound.hash, get_statusValues s (k := .hash) rfl]
    rfl
  · rw [hrelease, hm.release, ← hbound.release, get_statusValues s (k := .release) rfl,
      statusItem, intOf_number]
  · rw [hcommit, ← hid]
  · rw [hcommit]
    exact hyounger
  · intro slot hs he
    have hle := (hok₀.metadata.image slot hs).trialId
    rw [he, hcommit, UInt32.le_iff_toNat_le] at hle
    rw [UInt32.lt_iff_toNat_lt] at hyounger
    omega

/-- The first slot running, before any upload. -/
def factorySnapshot : BootSnapshot where
  diagnostic := (bootDiagInit 4).1
  diagnosticContext := (bootDiagInit 4).2
  metadata := ⟨factoryRecord, 0⟩
  running := packageImage bootSlotA

/-- The second slot on trial, and fully healthy. -/
def healthySnapshot : BootSnapshot where
  diagnostic := { (bootDiagInit 4).1 with health := 7 }
  diagnosticContext := { (bootDiagInit 4).2 with healthKnown := true }
  metadata := ⟨trialRecord, 0⟩
  running := packageImage bootSlotB

def uploadedArtifact : Artifact where
  slot := ascii "B"
  digest := hexText (packageManifest bootSlotB).payloadHash.val
  release := Text.decimal 0xffffffff
  body := []

def uploadedWorkflow : Workflow where
  artifact := some uploadedArtifact
  trialId := none
  uploadAttempted := true
  beforeUpload := some (statusValues factorySnapshot)
  confirmAttempted := false

theorem healthy_classified :
    uploadedWorkflow.classify (statusValues healthySnapshot) =
      (.ok .trial, { uploadedWorkflow with trialId := some 3 }) := by
  decide +kernel

theorem classification_fresh_update :
    ∃ x ∈ [(LifecycleOp.invalidate packageUpload, { factoryRecord with sequence := 2 }),
        (.acceptReady packageUpload (packageImage bootSlotB), readyRecord),
        (.beginTrial (packageImage bootSlotB), trialRecord)],
      TakesImage uploadedArtifact x ∧ some 3 = some x.2.sequence.toNat ∧
      factoryRecord.sequence < x.2.sequence ∧
      ∀ slot, slotValid slot = true → (factoryRecord.image slot).trialId ≠ x.2.sequence :=
  have h₀ : SnapshotOk factorySnapshot := ⟨by decide, by decide, by decide, by decide⟩
  have h : SnapshotOk healthySnapshot := ⟨by decide, by decide, by decide, by decide⟩
  have hrun : Run Committed factorySnapshot.metadata.record _ healthySnapshot.metadata.record :=
    first_update
  classification_fresh (render_eq h₀) (status_render h₀) hrun (render_eq h)
    (status_render h) rfl rfl healthy_classified (.inl rfl)

end EkBareMetal.Boot

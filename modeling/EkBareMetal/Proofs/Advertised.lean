import EkBareMetal.Proofs.Admission
import EkBareMetal.Proofs.Snapshot
import EkBareMetal.Proofs.Status

/-!
# The slot the device advertises

Three programs hold an opinion on where an upload may go: the renderer of the
status, the admission of the lifecycle, and the PC that reads the status. On a
captured snapshot they are one: the slot the status names is the slot whose
invalidation is admitted, and the PC stores an image of that slot or none.
-/

namespace EkBareMetal.Boot

open Words Interact Text Tools

/-! ## Admission of an invalidation -/

/-- The invalidation is proposed, or would be if the sequence had a successor. -/
def Passes (r : BootMetadata) (e : BootUploadEvidence) : Prop :=
  (bootLifecycleInvalidate r e).1 = .change ∨
    (bootLifecycleInvalidate r e).1 = .errorExhausted ∧ r.sequence = uint32Max

theorem admission_ne_exhausted (r : BootMetadata) (e : BootUploadEvidence) :
    admission r e ≠ .errorExhausted := by
  rw [admission]
  split
  · decide
  split
  · decide
  split
  · decide
  split <;> decide

theorem passes_iff {r : BootMetadata} {e : BootUploadEvidence} :
    Passes r e ↔ Admitted r e := by
  rw [← admission_eq_change]
  constructor
  · intro h
    by_contra hne
    have hresult : (bootLifecycleInvalidate r e).1 = admission r e := by
      rw [bootLifecycleInvalidate, BootLifecycleResult.passing, if_pos hne]
    rw [Passes, hresult] at h
    rcases h with h | ⟨h, -⟩
    · exact hne h
    · exact admission_ne_exhausted r e h
  · intro h
    have ha := admission_eq_change.mp h
    by_cases hroom : r.sequence = uint32Max
    · right
      refine ⟨?_, hroom⟩
      have hv := metadataValidate_eq_ok.mpr ha.running.record
      have hnext : bootMetadataNextSequence r = .error .errorExhausted := by
        rw [bootMetadataNextSequence, hv]
        exact if_pos hroom
      rw [bootLifecycleInvalidate, BootLifecycleResult.passing,
        if_neg (not_not_intro h)]
      simp only [finish, hnext]
    · left
      have hadvances : Advances r (invalidated r e.permittedSlot) _ :=
        ⟨ha.running.record, hroom, rfl,
          invalidated_ok ha.running.record hroom ha.permitted (Ne.symm ha.inactive)
            ha.candidate⟩
      exact congrArg Prod.fst (invalidate_committed.mpr ⟨ha, hadvances⟩)

/-! ## The permitted slot of a captured snapshot -/

section Captured

variable {s : BootSnapshot}

theorem CaptureOk.matching (h : CaptureOk s) :
    bootMetadataImageMatches s.metadata.record s.running.manifest = .ok := by
  have hr := h.running
  rw [runningAdmissible, Bool.and_eq_true, beq_iff_eq] at hr
  exact hr.1

theorem CaptureOk.snapshot (h : CaptureOk s) : SnapshotOk s :=
  ⟨h.record, h.diagnostic, (imageMatches_eq_ok.mp h.matching).manifest, h.matching⟩

theorem CaptureOk.executing (h : CaptureOk s) :
    Executing s.metadata.record s.running := by
  have hm := imageMatches_eq_ok.mp h.matching
  have hentry : EntryMatches s.metadata.record s.running.manifest :=
    ⟨hm.payloadLength, hm.release, hm.payloadHash⟩
  exact ⟨hm, imageAdmissible_iff.mpr
    ((runningAdmissible_iff h.record hentry).mp h.running)⟩

/-- The other of two slots. -/
theorem xor_one_iff {p q : UInt32} (hp : slotValid p = true) (hq : slotValid q = true) :
    q ^^^ 1 = p ↔ p ≠ q := by
  rcases slotValid_iff.mp hp with rfl | rfl <;>
    rcases slotValid_iff.mp hq with rfl | rfl <;> decide

theorem permitted_iff (h : CaptureOk s) {p : UInt32} {incoming : BootManifest}
    (hp : slotValid p = true) (hin : bootManifestValidate incoming = .ok)
    (hslot : incoming.slot = p) :
    statusPermitted s.metadata.record s.running.manifest = p ↔
      Passes s.metadata.record ⟨incoming, s.running, p⟩ := by
  rw [passes_iff, statusPermitted]
  constructor
  · intro he
    split at he
    · next hc =>
        obtain ⟨hcand, hcur, hconf⟩ := hc
        refine ⟨h.executing, hin, hp, hslot, hcur, ?_, hcand, hconf⟩
        show p ≠ s.metadata.record.currentSlot
        rw [hcur]
        exact (xor_one_iff hp h.snapshot.slot).mp he
    · rw [← he] at hp
      exact absurd hp not_slotValid_none
  · intro ha
    have hne : p ≠ s.running.manifest.slot := by
      rw [← ha.current]
      exact ha.inactive
    rw [if_pos ⟨ha.candidate, ha.current, ha.confirmed⟩]
    exact (xor_one_iff hp h.snapshot.slot).mpr hne

/-- Some manifest fits either slot. -/
theorem exists_manifest {p : UInt32} (hp : slotValid p = true) :
    ∃ incoming, bootManifestValidate incoming = .ok ∧ incoming.slot = p := by
  refine ⟨packageManifest p, ?_, rfl⟩
  rcases slotValid_iff.mp hp with rfl | rfl <;> decide

theorem permitted_none_iff (h : CaptureOk s) :
    statusPermitted s.metadata.record s.running.manifest = bootSlotNone ↔
      ∀ p incoming, slotValid p = true → bootManifestValidate incoming = .ok →
        incoming.slot = p → ¬ Passes s.metadata.record ⟨incoming, s.running, p⟩ := by
  constructor
  · intro he p incoming hp hin hslot hpass
    rw [← permitted_iff h hp hin hslot, he] at hpass
    exact slotValid_ne_none hp hpass.symm
  · intro hall
    by_contra hne
    have hp := (roleValid_iff.mp h.snapshot.permitted).resolve_right hne
    obtain ⟨incoming, hin, hslot⟩ := exists_manifest hp
    exact hall _ incoming hp hin hslot ((permitted_iff h hp hin hslot).mp rfl)

theorem slotName_injective {p q : UInt32} (hp : roleValid p = true)
    (hq : roleValid q = true) : slotName p = slotName q ↔ p = q := by
  refine ⟨fun he => ?_, fun he => by rw [he]⟩
  rcases roleValid_iff.mp hp with hp | rfl <;> rcases roleValid_iff.mp hq with hq | rfl
  · rcases slotValid_iff.mp hp with rfl | rfl <;>
      rcases slotValid_iff.mp hq with rfl | rfl <;> revert he <;> decide
  · rcases slotValid_iff.mp hp with rfl | rfl <;> revert he <;> decide
  · rcases slotValid_iff.mp hq with rfl | rfl <;> revert he <;> decide
  · rfl

/-- What the PC reads under `permitted_slot`. -/
theorem get_permitted (h : CaptureOk s) :
    (statusValues s).get "permitted_slot" =
      slotName (statusPermitted s.metadata.record s.running.manifest) := by
  rw [permitted_shown h.snapshot]
  exact congrArg (·.getD []) (lookup_statusValues s .permittedSlot)

end Captured

/-! ## The upload -/

/-- No request of reading the status is a STOR. -/
theorem runs_read {tr : List (Event TransportSig)} {reply : Workflow.Reply StatusValues}
    (h : Runs Workflow.read tr reply) :
    (∀ e ∈ tr, ∀ name body, e.op ≠ .stor name body) ∧
      ∀ current, reply = .ok current → ∃ seen, status seen = .ok current ∧
        (⟨.retr (ascii "boot-status"), .ok seen⟩ : Event TransportSig) ∈ tr := by
  obtain ⟨connected, rest, rfl, hc⟩ := runs_ask_iff.mp h
  cases connected with
  | error e =>
      obtain ⟨rfl, rfl⟩ := runs_pure_iff.mp hc
      exact ⟨by simp, nofun⟩
  | ok _ =>
      obtain ⟨binary, rest, rfl, hb⟩ := runs_ask_iff.mp hc
      cases binary with
      | error e =>
          obtain ⟨rfl, rfl⟩ := runs_pure_iff.mp hb
          exact ⟨by simp, nofun⟩
      | ok _ =>
          obtain ⟨answer, rest, rfl, hr⟩ := runs_ask_iff.mp hb
          cases answer with
          | error e =>
              obtain ⟨rfl, rfl⟩ := runs_pure_iff.mp hr
              exact ⟨by simp, nofun⟩
          | ok seen =>
              obtain ⟨rfl, rfl⟩ := runs_pure_iff.mp hr
              exact ⟨by simp, fun current hc => ⟨seen, hc, by simp⟩⟩

/-- What is stored is the package for the slot that the status names. -/
theorem upload_stores {sha256 : List UInt8 → List UInt8} {w w' : Workflow}
    {artifacts : List UInt8 → List UInt8} {tr : List (Event TransportSig)}
    {reply : Workflow.Reply Verdict}
    (h : Runs (w.upload sha256 artifacts) tr (reply, w'))
    {e : Event TransportSig} (he : e ∈ tr) {name body : List UInt8}
    (hop : e.op = .stor name body) :
    ∃ seen current a, status seen = .ok current ∧
      (⟨.retr (ascii "boot-status"), .ok seen⟩ : Event TransportSig) ∈ tr ∧
      Artifact.fromBytes sha256 (artifacts (current.get "permitted_slot")) = .ok a ∧
      a.slot = current.get "permitted_slot" ∧ body = a.body := by
  rw [Workflow.upload] at h
  split at h
  · obtain ⟨rfl, -⟩ := runs_pure_iff.mp h
    cases he
  obtain ⟨tr₁, read, tr₂, rfl, hread, h⟩ := runs_bind_iff'.mp h
  obtain ⟨hnone, hseen⟩ := runs_read hread
  have hin : e ∈ tr₂ := (List.mem_append.mp he).resolve_left
    fun hm => hnone e hm name body hop
  cases read with
  | error er =>
      obtain ⟨rfl, -⟩ := runs_pure_iff.mp h
      cases hin
  | ok current =>
      dsimp only at h
      split at h
      · obtain ⟨rfl, -⟩ := runs_pure_iff.mp h
        cases hin
      split at h
      · obtain ⟨rfl, -⟩ := runs_pure_iff.mp h
        cases hin
      next a ha =>
      split at h
      · obtain ⟨rfl, -⟩ := runs_pure_iff.mp h
        cases hin
      next htarget =>
      obtain ⟨seen, hstatus, hmem⟩ := hseen current rfl
      obtain ⟨answer, rest, rfl, hk⟩ := runs_ask_iff.mp h
      have hrest : rest = [] := by
        split at hk <;> exact (runs_pure_iff.mp hk).1
      rw [hrest, List.mem_singleton] at hin
      rw [hin] at hop
      injection hop with _ hbody
      exact ⟨seen, current, a, hstatus, List.mem_append_left _ hmem, ha,
        not_not.mp htarget, hbody.symm⟩

/-- On every captured snapshot the status names the slot whose invalidation
passes, whatever valid image is to follow, and names none when neither does;
and the PC stores only a package whose slot is the one it was named. -/
theorem advertised_slot {owner owner' : BootDiagPublication} {caller : DiagCaller}
    {arguments : Bool} {tr : List (Event SnapshotSig)} {s : BootSnapshot}
    (h : Runs (bootSnapshotCapture owner caller arguments) tr (.ok s, owner')) :
    ∃ text values, bootStatusRender s bootStatusCapacity = some text ∧
      status text = .ok values ∧
      (∀ p incoming, slotValid p = true → bootManifestValidate incoming = .ok →
        incoming.slot = p →
        (values.get "permitted_slot" = slotName p ↔
          Passes s.metadata.record ⟨incoming, s.running, p⟩)) ∧
      (values.get "permitted_slot" = ascii "none" ↔
        ∀ p incoming, slotValid p = true → bootManifestValidate incoming = .ok →
          incoming.slot = p →
          ¬ Passes s.metadata.record ⟨incoming, s.running, p⟩) ∧
      ∀ (sha256 : List UInt8 → List UInt8) (w w' : Workflow)
        (artifacts : List UInt8 → List UInt8) (reply : Workflow.Reply Verdict)
        (sent : List (Event TransportSig)),
        Runs (w.upload sha256 artifacts) sent (reply, w') →
        ∀ e ∈ sent, ∀ name body, e.op = .stor name body →
          ∃ seen current a, status seen = .ok current ∧
            (⟨.retr (ascii "boot-status"), .ok seen⟩ : Event TransportSig) ∈ sent ∧
            Artifact.fromBytes sha256 (artifacts (current.get "permitted_slot")) = .ok a ∧
            a.slot = current.get "permitted_slot" ∧ body = a.body ∧
            (seen = text → current = values) := by
  have hs := (runs_snapshotCapture h).1
  have hpermitted := get_permitted hs
  have hstatus := status_render hs.snapshot
  refine ⟨statusBody s, statusValues s, render_eq hs.snapshot, hstatus, ?_, ?_, ?_⟩
  · intro p incoming hp hin hslot
    rw [hpermitted, ← permitted_iff hs hp hin hslot]
    exact slotName_injective hs.snapshot.permitted (roleValid_iff.mpr (.inl hp))
  · rw [hpermitted, ← permitted_none_iff hs]
    exact slotName_injective hs.snapshot.permitted (q := bootSlotNone) (by decide)
  · intro sha256 w w' artifacts reply sent hrun e he name body hop
    obtain ⟨seen, current, a, hseen, hmem, ha, hslot, hbody⟩ := upload_stores hrun he hop
    refine ⟨seen, current, a, hseen, hmem, ha, hslot, hbody, fun htext => ?_⟩
    rw [htext, hstatus] at hseen
    injection hseen with hseen
    exact hseen.symm

/-! ## A capture on the bench -/

/-- A device whose block holds `diag` and whose first page holds `record`. -/
def benchAnswer (diag : BootDiag) (record : BootMetadata) (running : BootVerifiedImage) :
    (op : SnapshotOp) → SnapshotSig.Ans op
  | .readWord i => (diagFields diag .published)[i.val]?
  | .writeWord _ _ => true
  | .barrier => ()
  | .store (.read address size) =>
      some (if address = bootMetadataPage0 ∧ size = 168 then
        ⟨(metadataWire record bootCommitValid).take size ++
          List.replicate (size - 168) 0xff, length_recordPage record size⟩
      else ⟨List.replicate size 0xff, length_erased size⟩)
  | .store (.erasePage _) => true
  | .store (.programWord _ _) => true
  | .running => some running

def benchOwner : BootDiagPublication := ⟨(bootDiagInit 4).2, false, true⟩

set_option maxRecDepth 20000 in
theorem bench_capture :
    ((bootSnapshotCapture benchOwner ⟨true, true⟩ true).eval
      (benchAnswer trialSnapshot.diagnostic trialSnapshot.metadata.record
        trialSnapshot.running)) = (.ok trialSnapshot, benchOwner) := by
  decide

theorem advertised_slot_trial :
    ∃ text values, bootStatusRender trialSnapshot bootStatusCapacity = some text ∧
      status text = .ok values ∧
      (∀ p incoming, slotValid p = true → bootManifestValidate incoming = .ok →
        incoming.slot = p →
        (values.get "permitted_slot" = slotName p ↔
          Passes trialSnapshot.metadata.record ⟨incoming, trialSnapshot.running, p⟩)) ∧
      (values.get "permitted_slot" = ascii "none" ↔
        ∀ p incoming, slotValid p = true → bootManifestValidate incoming = .ok →
          incoming.slot = p →
          ¬ Passes trialSnapshot.metadata.record ⟨incoming, trialSnapshot.running, p⟩) ∧
      ∀ (sha256 : List UInt8 → List UInt8) (w w' : Workflow)
        (artifacts : List UInt8 → List UInt8) (reply : Workflow.Reply Verdict)
        (sent : List (Event TransportSig)),
        Runs (w.upload sha256 artifacts) sent (reply, w') →
        ∀ e ∈ sent, ∀ name body, e.op = .stor name body →
          ∃ seen current a, status seen = .ok current ∧
            (⟨.retr (ascii "boot-status"), .ok seen⟩ : Event TransportSig) ∈ sent ∧
            Artifact.fromBytes sha256 (artifacts (current.get "permitted_slot")) = .ok a ∧
            a.slot = current.get "permitted_slot" ∧ body = a.body ∧
            (seen = text → current = values) := by
  obtain ⟨tr, h, -⟩ := runs_eval
    (benchAnswer trialSnapshot.diagnostic trialSnapshot.metadata.record
      trialSnapshot.running) (bootSnapshotCapture benchOwner ⟨true, true⟩ true)
  rw [bench_capture] at h
  exact advertised_slot h

end EkBareMetal.Boot

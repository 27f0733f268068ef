import EkBareMetal.Boot.Service
import EkBareMetal.Proofs.Advertised

/-!
# The commit of a confirmation, end to end

A confirmation captures a snapshot, asks the lifecycle, and has the store
replace the record, and each of the three may fail. The service's two flags
are what ties the calls together: `busy` turns away a call from inside a
callback, and `reconcile` every call after a commit of which nobody knows
whether it happened.
-/

namespace EkBareMetal.Boot

open Words Interact Tools

/-! ## The guard -/

/-- A service that turns every call away. -/
def TurnsAway (s : BootConfirmService) : Prop := s.busy = true ∨ s.reconcile = true

section Guard

variable {c : ConfirmCall} {s s' : BootConfirmService} {tr : List (Event SnapshotSig)}
  {reply : ConfirmReply}

/-- A call that was turned away. -/
structure Refused (s : BootConfirmService) (tr : List (Event SnapshotSig))
    (reply : ConfirmReply) (s' : BootConfirmService) : Prop where
  silent : tr = []
  unchanged : s' = s
  result : reply.result = .argument ∨ reply.result = .busy ∨ reply.result = .reconcile
  out : reply.out = none

theorem refused_of_turnsAway (hs : TurnsAway s)
    (h : Reenters bootConfirmApply (bootConfirmApply c) s tr reply s') :
    Refused s tr reply s' := by
  rw [bootConfirmApply] at h
  split at h
  · obtain ⟨rfl, rfl, rfl⟩ := reenters_pure_iff.mp h
    exact ⟨rfl, rfl, .inl rfl, rfl⟩
  replace h := reenters_load_iff.mp h
  split at h
  · obtain ⟨rfl, rfl, rfl⟩ := reenters_pure_iff.mp h
    exact ⟨rfl, rfl, .inr (.inl rfl), rfl⟩
  next hbusy =>
  rw [if_pos (hs.resolve_left hbusy)] at h
  obtain ⟨rfl, rfl, rfl⟩ := reenters_pure_iff.mp h
  exact ⟨rfl, rfl, .inr (.inr rfl), rfl⟩

theorem closed_busy (hs : TurnsAway s) : Closed bootConfirmApply s := by
  intro c tr reply s' h
  obtain ⟨hsilent, hsame, -, -⟩ := refused_of_turnsAway hs h
  exact ⟨hsilent, hsame⟩

/-- A call that was let in is the run of its body, whatever the callbacks call. -/
theorem applied (hs : ¬ TurnsAway s)
    (h : Reenters bootConfirmApply (bootConfirmApply c) s tr reply s') :
    Refused s tr reply s' ∨
      Runs (confirmCommit c) tr reply ∧ s' = ⟨false, reply.result == .reconcile⟩ := by
  rw [TurnsAway, not_or] at hs
  rw [bootConfirmApply] at h
  split at h
  · obtain ⟨rfl, rfl, rfl⟩ := reenters_pure_iff.mp h
    exact .inl ⟨rfl, rfl, .inl rfl, rfl⟩
  replace h := reenters_load_iff.mp h
  rw [if_neg hs.1, if_neg hs.2] at h
  replace h := reenters_modify_iff.mp h
  obtain ⟨tr₁, reply₁, s₁, tr₂, rfl, hbody, h⟩ := reenters_bind_iff.mp h
  obtain ⟨hruns, rfl⟩ := (reenters_outside (closed_busy (.inl rfl))).mp hbody
  replace h := reenters_modify_iff.mp (reenters_modify_iff.mp h)
  obtain ⟨rfl, rfl, rfl⟩ := reenters_pure_iff.mp h
  rw [List.append_nil]
  refine .inr ⟨hruns, ?_⟩
  rw [Bool.eq_false_iff.mpr hs.2, Bool.false_or]

end Guard

/-! ## The body -/

/-- The health a snapshot knows of. -/
def knownHealth (s : BootSnapshot) : UInt32 :=
  if s.diagnosticContext.healthKnown then s.diagnostic.health else 0

def storeReply (owner : BootDiagPublication) :
    Except BootStoreResult BootStoreSnapshot → ConfirmReply
  | .error .uncertain => ⟨.reconcile, none, owner⟩
  | .error _ => ⟨.store, none, owner⟩
  | .ok committed => ⟨.ok, some committed, owner⟩

/-- The four ways through the body. -/
inductive CommitRun (c : ConfirmCall) :
    List (Event SnapshotSig) → ConfirmReply → Prop where
  | uncaptured {tr : List (Event SnapshotSig)} {e : BootSnapshotResult}
      {owner : BootDiagPublication}
      (hc : Runs (bootSnapshotCapture c.owner c.caller c.arguments) tr (.error e, owner)) :
      CommitRun c tr ⟨.snapshot, none, owner⟩
  | rejected {tr : List (Event SnapshotSig)} {s : BootSnapshot}
      {owner : BootDiagPublication}
      (hc : Runs (bootSnapshotCapture c.owner c.caller c.arguments) tr (.ok s, owner))
      (hl : ¬ Answers
        (bootLifecycleConfirm s.metadata.record c.request s.running (knownHealth s))) :
      CommitRun c tr ⟨.rejected, none, owner⟩
  | confirmed {tr : List (Event SnapshotSig)} {s : BootSnapshot}
      {owner : BootDiagPublication}
      (hc : Runs (bootSnapshotCapture c.owner c.caller c.arguments) tr (.ok s, owner))
      (hl : (bootLifecycleConfirm s.metadata.record c.request s.running
        (knownHealth s)).1 = .noChange) :
      CommitRun c tr ⟨.ok, some s.metadata, owner⟩
  | replaced {tr : List (Event SnapshotSig)} {s : BootSnapshot}
      {owner : BootDiagPublication} {desired : BootMetadata} {sub : List (Event StoreSig)}
      {answer : Except BootStoreResult BootStoreSnapshot}
      (hc : Runs (bootSnapshotCapture c.owner c.caller c.arguments) tr (.ok s, owner))
      (hl : bootLifecycleConfirm s.metadata.record c.request s.running (knownHealth s) =
        (.change, some desired))
      (hs : Runs (bootStoreReplace s.metadata desired) sub answer) :
      CommitRun c (tr ++ sub.map storeEvent) (storeReply owner answer)

section Body

variable {c : ConfirmCall} {tr : List (Event SnapshotSig)} {reply : ConfirmReply}

theorem confirm_change_some {r : BootMetadata} {q : BootConfirmRequest}
    {i : BootVerifiedImage} {health : UInt32} :
    bootLifecycleConfirm r q i health ≠ (.change, none) := by
  rw [bootLifecycleConfirm, BootLifecycleResult.passing]
  dsimp only
  split
  · next hne => exact fun h => hne (congrArg Prod.fst h)
  split
  · intro h
    cases h
  split
  · intro h
    cases h
  split
  · intro h
    cases h
  split
  · intro h
    cases h
  rw [finish]
  split
  · intro h
    cases h
  · intro h
    cases h
  · dsimp only
    split
    · intro h
      cases h
    · intro h
      cases h

theorem commitRun_of_runs (h : Runs (confirmCommit c) tr reply) : CommitRun c tr reply := by
  obtain ⟨tr₁, ⟨captured, owner⟩, tr₂, rfl, hc, hk⟩ := runs_bind_iff'.mp h
  cases captured with
  | error e =>
      obtain ⟨rfl, rfl⟩ := runs_pure_iff.mp hk
      rw [List.append_nil]
      exact .uncaptured hc
  | ok s =>
      dsimp only at hk
      rw [← knownHealth] at hk
      split at hk
      · next hl =>
          obtain ⟨rfl, rfl⟩ := runs_pure_iff.mp hk
          rw [List.append_nil]
          exact .confirmed hc (congrArg Prod.fst hl)
      · next desired hl =>
          obtain ⟨tr₃, answer, tr₄, rfl, hs, hret⟩ := runs_bind_iff'.mp hk
          obtain ⟨sub, rfl, hsub⟩ := runs_askStore.mp hs
          have hreply : tr₄ = [] ∧ reply = storeReply owner answer := by
            cases answer with
            | ok committed => exact runs_pure_iff.mp hret
            | error e => cases e <;> exact runs_pure_iff.mp hret
          rw [hreply.1, hreply.2, List.append_nil]
          exact .replaced hc hl hsub
      · next hnochange hchange =>
          obtain ⟨rfl, rfl⟩ := runs_pure_iff.mp hk
          rw [List.append_nil]
          refine .rejected hc ?_
          rintro (hl | hl)
          · cases hout : (bootLifecycleConfirm s.metadata.record c.request s.running
              (knownHealth s)).2 with
            | none => exact confirm_change_some (Prod.ext hl hout)
            | some desired => exact hchange desired (Prod.ext hl hout)
          · exact hnochange _ (Prod.ext hl rfl)

end Body

/-! ## What a confirmation leaves behind -/

/-- The record confirms the slot, with the hash and the id that were asked for. -/
structure RequestConfirmed (q : BootConfirmRequest) (r : BootMetadata) : Prop where
  confirmed : r.confirmed q.slot = true
  payloadHash : (r.image q.slot).payloadHash = q.payloadHash
  trialId : (r.image q.slot).trialId = q.trialId

/-- The request names the image that is running, under the trial it has. -/
structure NamesRunning (q : BootConfirmRequest) (s : BootSnapshot) : Prop where
  slot : q.slot = s.running.manifest.slot
  payloadHash : q.payloadHash = s.running.manifest.payloadHash
  trialId : q.trialId = (s.metadata.record.image s.running.manifest.slot).trialId

/-- The last load or replacement of the transcript answered `out`. -/
def LastStored (tr : List (Event SnapshotSig)) (out : BootStoreSnapshot) : Prop :=
  ∃ front sub back, tr = front ++ (sub.map storeEvent ++ back) ∧
    (Runs bootStoreLoad sub (.ok out) ∨
      ∃ expected desired, Runs (bootStoreReplace expected desired) sub (.ok out)) ∧
    ∀ e ∈ back, ∀ op, e.op ≠ .store op

/-- The store answered the replacement of the call with `answer`. -/
def StoreAnswered (c : ConfirmCall) (tr : List (Event SnapshotSig))
    (answer : Except BootStoreResult BootStoreSnapshot) : Prop :=
  ∃ s owner desired captured sub, tr = captured ++ sub.map storeEvent ∧
    Runs (bootSnapshotCapture c.owner c.caller c.arguments) captured (.ok s, owner) ∧
    bootLifecycleConfirm s.metadata.record c.request s.running (knownHealth s) =
      (.change, some desired) ∧
    Runs (bootStoreReplace s.metadata desired) sub answer

section Lifecycle

variable {s : BootSnapshot} {q : BootConfirmRequest} {health : UInt32}

theorem confirmed_of_noChange {r : BootMetadata} {i : BootVerifiedImage}
    (h : (bootLifecycleConfirm r q i health).1 = .noChange) :
    r.confirmed i.manifest.slot = true := by
  by_contra hne
  rw [bootLifecycleConfirm, BootLifecycleResult.passing] at h
  dsimp only at h
  split at h
  · exact execution_ne_noChange h
  split at h
  · cases h
  split at h
  · cases h
  split at h
  · cases h
  exact finish_ne_noChange h

theorem Requested.confirmed {r : BootMetadata} {i : BootVerifiedImage}
    (h : Requested r q i) (hc : r.confirmed i.manifest.slot = true) :
    RequestConfirmed q r := by
  refine ⟨by rw [h.slot_eq]; exact hc, ?_, ?_⟩
  · rw [h.slot_eq, h.hash_eq]
    exact h.payloadHash
  · rw [h.slot_eq, h.trialId_eq]

theorem requestConfirmed_of_change {r desired : BootMetadata} {i : BootVerifiedImage}
    (h : bootLifecycleConfirm r q i health = (.change, some desired)) :
    RequestConfirmed q desired := by
  obtain ⟨hq, -, -, -, -, hadvances⟩ := confirm_committed.mp h
  have hslot : slotValid i.manifest.slot = true := (manifestValidate_eq_ok hq.manifest).1
  have himage : ∀ e, desired.image i.manifest.slot = e ↔
      (r.setAccounting i.manifest.slot ((r.image i.manifest.slot).accounting &&&
        ~~~bootAccountStateMask)).image i.manifest.slot = e := by
    intro e
    rw [hadvances.image]
    exact Iff.rfl
  have hsame := (himage _).mpr BootMetadata.image_setImage_same
  refine ⟨?_, ?_, ?_⟩
  · rw [hq.slot_eq, hadvances.confirmed]
    exact maskBit_set_same hadvances.before.mask hslot
  · rw [hq.slot_eq, hsame, hq.hash_eq]
    exact hq.payloadHash
  · rw [hq.slot_eq, hsame, hq.trialId_eq]

/-- A confirmation of the image that runs confirmed changes nothing. -/
theorem noChange_of_confirmed (hs : CaptureOk s) (hq : NamesRunning q s)
    (hc : s.metadata.record.confirmed s.running.manifest.slot = true) :
    (bootLifecycleConfirm s.metadata.record q s.running health).1 = .noChange := by
  have hx := execution_eq_change.mpr hs.executing
  rw [bootLifecycleConfirm, BootLifecycleResult.passing, if_neg (not_not_intro hx)]
  dsimp only
  rw [if_neg, if_pos hc]
  · rfl
  · rw [not_or, not_or, not_not, not_not, not_not]
    exact ⟨hq.slot, hq.trialId, hq.payloadHash⟩

end Lifecycle

/-! ## End to end -/

section Service

variable {c : ConfirmCall} {s s' : BootConfirmService} {tr : List (Event SnapshotSig)}
  {reply : ConfirmReply}

theorem CommitRun.ok (h : CommitRun c tr reply) (hok : reply.result = .ok) :
    ∃ out, reply.out = some out ∧ RequestConfirmed c.request out.record ∧
      LastStored tr out := by
  cases h with
  | uncaptured hc => cases hok
  | rejected hc hl => cases hok
  | @confirmed tr s owner hc hl =>
      obtain ⟨-, words, sub, rfl, -, hload⟩ := runs_snapshotCapture hc
      refine ⟨s.metadata, rfl, ?_, words, sub, [⟨.running, some s.running⟩], rfl,
        .inl hload, ?_⟩
      · exact (confirm_answers (.inr hl)).confirmed (confirmed_of_noChange hl)
      · intro e he op hop
        rw [List.mem_singleton.mp he] at hop
        cases hop
  | @replaced tr s owner desired sub answer hc hl hs =>
      cases answer with
      | error e => cases e <;> cases hok
      | ok committed =>
          have hr := (replace_safe _ _ sub _ hs).2 committed rfl
          refine ⟨committed, rfl, ?_, tr, sub, [], ?_, .inr ⟨_, _, hs⟩, nofun⟩
          · rw [hr.record]
            exact requestConfirmed_of_change hl
          · rw [List.append_nil]

theorem CommitRun.out (h : CommitRun c tr reply) (hne : reply.result ≠ .ok) :
    reply.out = none := by
  cases h with
  | uncaptured hc => rfl
  | rejected hc hl => rfl
  | confirmed hc hl => exact absurd rfl hne
  | @replaced tr s owner desired sub answer hc hl hs =>
      cases answer with
      | ok committed => exact absurd rfl hne
      | error e => cases e <;> rfl

/-- What a capture asked for wrote nothing. -/
theorem capture_reads {owner owner' : BootDiagPublication} {caller : DiagCaller}
    {arguments : Bool} {s : BootSnapshot}
    (h : Runs (bootSnapshotCapture owner caller arguments) tr (.ok s, owner')) :
    ∀ e ∈ tr, ¬ storeWrites e.op := by
  obtain ⟨-, words, sub, rfl, hwords, hload⟩ := runs_snapshotCapture h
  intro e he
  rcases List.mem_append.mp he with he | he
  · obtain ⟨i, hop⟩ := hwords e he
    rw [hop]
    exact id
  rcases List.mem_append.mp he with he | he
  · obtain ⟨x, hx, rfl⟩ := List.mem_map.mp he
    obtain ⟨address, size, hop⟩ := (load_safe sub _ hload).1 x hx
    show ¬ storeWrites (.store x.op)
    rw [hop]
    exact id
  · rw [List.mem_singleton.mp he]
    exact id

theorem capture_nonempty {owner owner' : BootDiagPublication} {caller : DiagCaller}
    {arguments : Bool} {s : BootSnapshot} :
    ¬ Runs (bootSnapshotCapture owner caller arguments) [] (.ok s, owner') := by
  intro h
  obtain ⟨-, words, sub, hnil, -⟩ := runs_snapshotCapture h
  have hlength := congrArg List.length hnil
  simp at hlength

/-- A request for the image that runs confirmed is answered without a write. -/
theorem CommitRun.of_confirmed {snapshot : BootSnapshot} {owner : BootDiagPublication}
    {tr₁ tr₂ : List (Event SnapshotSig)} (h : CommitRun c tr reply)
    (htr : tr = tr₁ ++ tr₂)
    (hcapture : Runs (bootSnapshotCapture c.owner c.caller c.arguments) tr₁
      (.ok snapshot, owner))
    (hq : NamesRunning c.request snapshot)
    (hconfirmed : snapshot.metadata.record.confirmed snapshot.running.manifest.slot =
      true) :
    reply.result = .ok ∧ ∀ e ∈ tr, ¬ storeWrites e.op := by
  have hnc : (bootLifecycleConfirm snapshot.metadata.record c.request snapshot.running
      (knownHealth snapshot)).1 = .noChange :=
    noChange_of_confirmed (runs_snapshotCapture hcapture).1 hq hconfirmed
  cases h with
  | uncaptured hc =>
      rw [← List.append_nil tr] at htr
      obtain ⟨-, he, -⟩ := runs_prefix hc hcapture htr
      cases he
  | rejected hc hl =>
      rw [← List.append_nil tr] at htr
      obtain ⟨-, he, -⟩ := runs_prefix hc hcapture htr
      cases he
      exact absurd (.inr hnc) hl
  | confirmed hc hl => exact ⟨rfl, capture_reads hc⟩
  | replaced hc hl hs =>
      obtain ⟨-, he, -⟩ := runs_prefix hc hcapture htr
      cases he
      rw [hl] at hnc
      cases hnc

/-- A replacement that ended uncertain is reported as such. -/
theorem CommitRun.of_uncertain (h : CommitRun c tr reply)
    (hstore : StoreAnswered c tr (.error .uncertain)) : reply.result = .reconcile := by
  obtain ⟨s, owner, desired, captured, sub, htr, hcapture, hchange, hreplace⟩ := hstore
  cases h with
  | uncaptured hc =>
      rw [← List.append_nil tr] at htr
      obtain ⟨-, he, -⟩ := runs_prefix hc hcapture htr
      cases he
  | rejected hc hl =>
      rw [← List.append_nil tr] at htr
      obtain ⟨-, he, -⟩ := runs_prefix hc hcapture htr
      cases he
      exact absurd (.inl (congrArg Prod.fst hchange)) hl
  | confirmed hc hl =>
      rw [← List.append_nil tr] at htr
      obtain ⟨-, he, -⟩ := runs_prefix hc hcapture htr
      cases he
      rw [hchange] at hl
      cases hl
  | replaced hc hl hs =>
      obtain ⟨-, he, hrest⟩ := runs_prefix hc hcapture htr
      cases he
      rw [hchange] at hl
      cases hl
      have hone := runs_askStore.mpr ⟨_, rfl, hs⟩
      have htwo := runs_askStore.mpr ⟨_, rfl, hreplace⟩
      rw [← List.append_nil (List.map storeEvent _)] at hrest
      obtain ⟨-, he, -⟩ := runs_prefix hone htwo
        (hrest.trans (List.append_nil _).symm)
      rw [he]
      rfl

/-- Once `reconcile` is set, every further call fails and asks for nothing. -/
theorem later_refused (hs : s.reconcile = true) {later : List ConfirmCall}
    {replies : List ConfirmReply}
    (h : Reenters bootConfirmApply (Prog.calls bootConfirmApply later) s tr replies s') :
    tr = [] ∧ ∀ r ∈ replies, r.result ≠ .ok ∧ r.out = none := by
  obtain ⟨-, hsilent, hreplies⟩ := calls_inv (I := fun s => s.reconcile = true)
    (E := fun _ => False) (R := fun r => r.result ≠ .ok ∧ r.out = none)
    (fun c s tr r s' hs h => by
      obtain ⟨rfl, rfl, hresult, hout⟩ := refused_of_turnsAway (.inr hs) h
      refine ⟨hs, nofun, ?_, hout⟩
      rcases hresult with he | he | he <;> rw [he] <;> nofun) hs h
  exact ⟨List.eq_nil_iff_forall_not_mem.mpr hsilent, hreplies⟩

end Service

/-- A call of the confirmation, whatever the callbacks answer and whatever
they call back. -/
theorem confirm_apply_run {c : ConfirmCall} {s s' : BootConfirmService}
    {tr : List (Event SnapshotSig)} {reply : ConfirmReply}
    (h : Reenters bootConfirmApply (bootConfirmApply c) s tr reply s') :
    (reply.result = .ok → ∃ out, reply.out = some out ∧
      RequestConfirmed c.request out.record ∧ LastStored tr out) ∧
    (∀ snapshot owner tr₁ tr₂, tr = tr₁ ++ tr₂ →
      Runs (bootSnapshotCapture c.owner c.caller c.arguments) tr₁ (.ok snapshot, owner) →
      NamesRunning c.request snapshot →
      snapshot.metadata.record.confirmed snapshot.running.manifest.slot = true →
      reply.result = .ok ∧ ∀ e ∈ tr, ¬ storeWrites e.op) ∧
    (StoreAnswered c tr (.error .uncertain) →
      reply.result = .reconcile ∧ s'.reconcile = true) ∧
    (s'.reconcile = true → ∀ later tr' replies s'',
      Reenters bootConfirmApply (Prog.calls bootConfirmApply later) s' tr' replies s'' →
      tr' = [] ∧ ∀ r ∈ replies, r.result ≠ .ok ∧ r.out = none) ∧
    (reply.result ≠ .ok → reply.out = none) ∧ s'.busy = s.busy := by
  have hcase : Refused s tr reply s' ∨
      CommitRun c tr reply ∧ s.busy = false ∧ s' = ⟨false, reply.result == .reconcile⟩ := by
    by_cases hs : TurnsAway s
    · exact .inl (refused_of_turnsAway hs h)
    · refine (applied hs h).imp id fun ⟨hruns, hs'⟩ => ⟨commitRun_of_runs hruns, ?_, hs'⟩
      exact Bool.eq_false_iff.mpr fun hbusy => hs (.inl hbusy)
  refine ⟨?_, ?_, ?_, fun hs later tr' replies s'' h => later_refused hs h, ?_, ?_⟩
  · intro hok
    rcases hcase with hr | ⟨hc, -, -⟩
    · rcases hr.result with he | he | he <;> rw [he] at hok <;> cases hok
    · exact hc.ok hok
  · intro snapshot owner tr₁ tr₂ htr hcapture hq hconfirmed
    rcases hcase with hr | ⟨hc, -, -⟩
    · rw [hr.silent, eq_comm, List.append_eq_nil_iff] at htr
      rw [htr.1] at hcapture
      exact absurd hcapture capture_nonempty
    · exact hc.of_confirmed htr hcapture hq hconfirmed
  · intro hstore
    rcases hcase with hr | ⟨hc, -, hs'⟩
    · obtain ⟨_, _, _, captured, sub, htr, hcapture, -⟩ := hstore
      rw [hr.silent, eq_comm, List.append_eq_nil_iff] at htr
      rw [htr.1] at hcapture
      exact absurd hcapture capture_nonempty
    · have hresult := hc.of_uncertain hstore
      rw [hs', hresult]
      exact ⟨rfl, rfl⟩
  · intro hne
    rcases hcase with hr | ⟨hc, -, -⟩
    · exact hr.out
    · exact hc.out hne
  · rcases hcase with hr | ⟨-, hbusy, hs'⟩
    · rw [hr.unchanged]
    · rw [hs', hbusy]

/-- The request that was confirmed before. -/
def repeatedConfirm : ConfirmCall where
  owner := benchOwner
  caller := ⟨true, true⟩
  complete := true
  arguments := true
  request := ⟨bootSlotA, (packageManifest bootSlotA).payloadHash, 0⟩

set_option maxRecDepth 20000 in
theorem repeatedConfirm_reply :
    (confirmCommit repeatedConfirm).eval
      (benchAnswer (bootDiagInit 4).1 factoryRecord (packageImage bootSlotA)) =
        ⟨.ok, some ⟨factoryRecord, 0⟩, benchOwner⟩ := by
  decide

theorem confirm_apply_run_repeated :
    ∃ tr out, Reenters bootConfirmApply (bootConfirmApply repeatedConfirm) ⟨false, false⟩
        tr ⟨.ok, some out, benchOwner⟩ ⟨false, false⟩ ∧
      RequestConfirmed repeatedConfirm.request out.record ∧ LastStored tr out := by
  obtain ⟨tr, hruns, -⟩ := runs_eval
    (benchAnswer (bootDiagInit 4).1 factoryRecord (packageImage bootSlotA))
    (confirmCommit repeatedConfirm)
  rw [repeatedConfirm_reply] at hruns
  have hbody := (reenters_outside (closed_busy (s := ⟨true, false⟩) (.inl rfl))).mpr
    ⟨hruns, rfl⟩
  have h : Reenters bootConfirmApply (bootConfirmApply repeatedConfirm) ⟨false, false⟩ tr
      ⟨.ok, some ⟨factoryRecord, 0⟩, benchOwner⟩ ⟨false, false⟩ := by
    refine reenters_load_iff.mpr (reenters_modify_iff.mpr (reenters_bind_iff.mpr
      ⟨tr, _, _, [], (List.append_nil tr).symm, hbody, ?_⟩))
    exact reenters_modify_iff.mpr (reenters_modify_iff.mpr
      (reenters_pure_iff.mpr ⟨rfl, rfl, rfl⟩))
  obtain ⟨out, hout, hconfirmed, hlast⟩ := (confirm_apply_run h).1 rfl
  injection hout with hout
  rw [hout] at h
  exact ⟨tr, out, h, hconfirmed, hlast⟩

end EkBareMetal.Boot

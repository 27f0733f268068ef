import EkBareMetal.Boot.Snapshot
import EkBareMetal.Proofs.Diag
import EkBareMetal.Proofs.Lifecycle
import EkBareMetal.Proofs.Store

/-!
# What a capture returns

A capture that succeeds has read a valid record out of the diagnostic block
and, while the owner was held, loaded the metadata and been told of a running
image that fits it. Nothing else of the store was asked.
-/

namespace EkBareMetal.Boot

open Words Interact

/-- A callback of the store, seen among the callbacks of a capture. -/
def storeEvent (e : Event StoreSig) : Event SnapshotSig := ⟨.store e.op, e.ans⟩

/-- A callback of the store that is no read. -/
def storeWrites : SnapshotOp → Prop
  | .store (.erasePage _) => True
  | .store (.programWord _ _) => True
  | _ => False

theorem runs_askStore {p : Prog StoreSig α} {tr : List (Event SnapshotSig)} {a : α} :
    Runs (p.inline askStore) tr a ↔ ∃ tr', tr = tr'.map storeEvent ∧ Runs p tr' a := by
  induction p generalizing tr with
  | ret b =>
      constructor
      · intro h
        obtain ⟨rfl, rfl⟩ := runs_ret_iff.mp h
        exact ⟨[], rfl, .ret _⟩
      · rintro ⟨tr', rfl, h⟩
        obtain ⟨rfl, rfl⟩ := runs_ret_iff.mp h
        exact .ret _
  | call op k ih =>
      constructor
      · intro h
        obtain ⟨r, rest, rfl, hk⟩ := runs_call_iff.mp h
        obtain ⟨tr', rfl, h'⟩ := (ih r).mp hk
        exact ⟨⟨op, r⟩ :: tr', rfl, runs_call_iff.mpr ⟨r, tr', rfl, h'⟩⟩
      · rintro ⟨tr', rfl, h⟩
        obtain ⟨r, rest, rfl, hk⟩ := runs_call_iff.mp h
        exact runs_call_iff.mpr ⟨r, rest.map storeEvent, rfl, (ih r).mpr ⟨rest, rfl, hk⟩⟩

/-! ## The callback -/

variable {c c' : Captured} {tr : List (Event SnapshotSig)} {s : BootSnapshot}

/-- What a value holds that a capture completed with. -/
structure CaptureOk (s : BootSnapshot) : Prop where
  diagnostic : bootDiagValidate s.diagnostic = .ok
  record : bootMetadataValidate s.metadata.record = .ok
  running : runningAdmissible s.metadata.record s.running = true

/-- The transcript of the callback, where it completed: a load, and the
question for the running image. -/
theorem runs_capture {diag : BootDiag} {availability : BootDiagContext} {done : Bool}
    {result : BootSnapshotResult}
    (h : Runs (capture diag availability) tr (done, result, some s)) :
    done = true ∧ result = .ok ∧ s.diagnostic = diag ∧
      runningAdmissible s.metadata.record s.running = true ∧
      ∃ sub, tr = sub.map storeEvent ++ [⟨.running, some s.running⟩] ∧
        Runs bootStoreLoad sub (.ok s.metadata) := by
  obtain ⟨tr₁, loaded, tr₂, rfl, hload, h⟩ := runs_bind_iff'.mp h
  obtain ⟨sub, rfl, hsub⟩ := runs_askStore.mp hload
  cases loaded with
  | error e =>
      obtain ⟨-, he⟩ := runs_pure_iff.mp h
      cases he
  | ok metadata =>
      obtain ⟨answer, rest, rfl, hk⟩ := runs_ask_iff.mp h
      cases answer with
      | none =>
          obtain ⟨-, he⟩ := runs_pure_iff.mp hk
          cases he
      | some r =>
          dsimp only at hk
          split at hk
          · obtain ⟨-, he⟩ := runs_pure_iff.mp hk
            cases he
          · next hadmits =>
              obtain ⟨rfl, he⟩ := runs_pure_iff.mp hk
              cases he
              exact ⟨rfl, rfl, rfl, by simpa using hadmits, sub, rfl, hsub⟩

/-! ## The publication around it -/

theorem readWords_only (is : List (Fin 16)) :
    (readWords is).Only fun op => ∃ i, op = DiagOp.read i := by
  induction is with
  | nil => trivial
  | cons i is ih =>
      refine ⟨⟨i, rfl⟩, fun value => ?_⟩
      cases value with
      | none => trivial
      | some v => exact Prog.only_bind (p := readWords is) ih fun _ => trivial

theorem readRecord_only : readRecord.Only fun op => ∃ i, op = DiagOp.read i := by
  refine Prog.only_bind (readWords_only _) fun wire => ?_
  cases wire with
  | none => trivial
  | some wire =>
      dsimp only
      split <;> trivial

theorem diagDecode_valid {wire : List UInt8} {required : BootDiagValidity}
    {r : BootDiag} (h : bootDiagDecode wire required = .ok r) :
    bootDiagValidate r = .ok := by
  rw [bootDiagDecode] at h
  repeat' (split at h; · cases h)
  dsimp only at h
  split at h
  · injection h with h
    rw [← h]
    assumption
  · cases h

theorem readRecord_valid {tr : List (Event DiagSig)} {r : BootDiag}
    (h : Runs readRecord tr (.ok r)) : bootDiagValidate r = .ok := by
  obtain ⟨_, wire, _, -, -, h⟩ := runs_bind_iff'.mp h
  cases wire with
  | none =>
      obtain ⟨-, he⟩ := runs_pure_iff.mp h
      cases he
  | some wire =>
      dsimp only at h
      split at h
      · next record hd =>
          obtain ⟨-, he⟩ := runs_pure_iff.mp h
          cases he
          exact diagDecode_valid hd
      · obtain ⟨-, he⟩ := runs_pure_iff.mp h
        cases he

/-- Reading the record moves nothing and asks for words only. -/
theorem readRecord_interp {r : Except BootDiagPublicationResult BootDiag}
    (h : Runs (readRecord.interp serveCapture c) tr (r, c')) :
    c' = c ∧ ∀ e ∈ tr, ∃ i, e.op = .readWord i := by
  refine runs_interp_inv (I := fun s => s = c) ?_ readRecord_only rfl h
  rintro op s tr r s' ⟨i, rfl⟩ rfl hr
  obtain ⟨value, rest, rfl, hk⟩ := runs_ask_iff.mp hr
  obtain ⟨rfl, he⟩ := runs_pure_iff.mp hk
  cases he
  refine ⟨rfl, fun e he => ?_⟩
  rw [List.mem_singleton.mp he]
  exact ⟨i, rfl⟩

/-- The publication with the callback in it: if anything was captured, the
record was valid, and the callback ran last. -/
theorem runs_publicationCapture {owner : BootDiagPublication} {caller : DiagCaller}
    {reply : DiagReply} {result : BootSnapshotResult}
    (h : Runs ((bootDiagPublicationCapture owner caller).interp serveCapture
      (.publication, none)) tr (reply, result, some s)) :
    bootDiagValidate s.diagnostic = .ok ∧
      runningAdmissible s.metadata.record s.running = true ∧
      ∃ words sub, tr = words ++ (sub.map storeEvent ++ [⟨.running, some s.running⟩]) ∧
        (∀ e ∈ words, ∃ i, e.op = .readWord i) ∧
        Runs bootStoreLoad sub (.ok s.metadata) := by
  have hpure : ∀ {a : DiagReply} {tr : List (Event SnapshotSig)},
      ¬ Runs ((pure a : Prog DiagSig DiagReply).interp serveCapture
        (.publication, none)) tr (reply, result, some s) := by
    intro a tr hr
    obtain ⟨-, he⟩ := runs_ret_iff.mp hr
    cases he
  rw [bootDiagPublicationCapture] at h
  split at h
  · exact absurd h hpure
  rw [locked] at h
  split at h
  · exact absurd h hpure
  split at h
  · exact absurd h hpure
  obtain ⟨tr₁, reply₁, left, tr₂, rfl, hbody, hrest⟩ := runs_interp_bind_iff.mp h
  obtain ⟨rfl, he⟩ := runs_ret_iff.mp hrest
  cases he
  rw [List.append_nil]
  split at hbody
  · obtain ⟨-, he⟩ := runs_ret_iff.mp hbody
    cases he
  obtain ⟨words, read, c, tr₂, rfl, hread, hbody⟩ := runs_interp_bind_iff.mp hbody
  obtain ⟨rfl, hwords⟩ := readRecord_interp hread
  cases read with
  | error e =>
      obtain ⟨-, he⟩ := runs_ret_iff.mp hbody
      cases he
  | ok r =>
      obtain ⟨_, hrecord⟩ := runs_of_interp hread
      obtain ⟨tr₃, done, c, tr₄, rfl, hcapture, hlast⟩ := runs_interp_bind_iff.mp hbody
      obtain ⟨rfl, he⟩ := runs_ret_iff.mp hlast
      cases he
      obtain ⟨tr₅, ⟨done', c'⟩, tr₆, rfl, hserved, hret⟩ := runs_bind_iff.mp hcapture
      obtain ⟨rfl, he⟩ := runs_ret_iff.mp hret
      cases he
      obtain ⟨-, -, hdiag, hadmits, sub, rfl, hsub⟩ := runs_capture hserved
      refine ⟨?_, hadmits, words, sub, ?_, hwords, hsub⟩
      · rw [hdiag]
        exact readRecord_valid hrecord
      · rw [List.append_nil, List.append_nil]

/-- A successful capture: words of the diagnostic block, one load, and the
question for the running image. -/
theorem runs_snapshotCapture {owner owner' : BootDiagPublication} {caller : DiagCaller}
    {arguments : Bool}
    (h : Runs (bootSnapshotCapture owner caller arguments) tr (.ok s, owner')) :
    CaptureOk s ∧ ∃ words sub, tr = words ++ (sub.map storeEvent ++
        [⟨.running, some s.running⟩]) ∧ (∀ e ∈ words, ∃ i, e.op = .readWord i) ∧
      Runs bootStoreLoad sub (.ok s.metadata) := by
  rw [bootSnapshotCapture] at h
  split at h
  · obtain ⟨-, he⟩ := runs_pure_iff.mp h
    cases he
  obtain ⟨tr₁, ⟨reply, left⟩, tr₂, rfl, hpub, h⟩ := runs_bind_iff'.mp h
  dsimp only at h
  split at h
  · next _ value hok =>
      obtain ⟨rfl, he⟩ := runs_pure_iff.mp h
      cases he
      rw [List.append_nil]
      obtain ⟨hdiag, hadmits, hparts⟩ := runs_publicationCapture hpub
      refine ⟨⟨hdiag, ?_, hadmits⟩, hparts⟩
      rw [runningAdmissible, Bool.and_eq_true, beq_iff_eq] at hadmits
      exact metadataValidate_eq_ok.mpr (imageMatches_eq_ok.mp hadmits.1).record
  · obtain ⟨-, he⟩ := runs_pure_iff.mp h
    cases he
  · obtain ⟨-, he⟩ := runs_pure_iff.mp h
    cases he

end EkBareMetal.Boot

import EkBareMetal.Proofs.FtpPairing

/-!
# The file is replaced as a whole

`ram_file.c` behind the core, with no operation bound. What the file ought to
be is said by `History`, which looks at the calls and their results alone: an
upload collects the spans that were taken since its begin, and becomes the file
when its close is accepted, its end was seen and its commit returned OK. The
theorems say that the file of the core is the file of the history after every
call, that nothing but a commit or a reset touches the committed bank, and that
a success is announced for an upload exactly when its commit returned OK.
-/

namespace EkBareMetal.Ftp

open Interact Transition Words

/-! ## Two banks -/

namespace RamFile

/-- Both banks have the capacity, and no length exceeds it. -/
structure Sized (f : RamFile) : Prop where
  bank : ∀ i, (f.bank i).length = f.capacity
  committed : f.committedLength ≤ f.capacity
  staging : f.stagingLength ≤ f.capacity

/-- The committed file is untouched: which bank it is in, its existence, its
length and every byte of its bank. -/
structure Kept (f f' : RamFile) : Prop where
  capacity : f'.capacity = f.capacity
  committed : f'.committed = f.committed
  length : f'.committedLength = f.committedLength
  present : f'.present = f.present
  bytes : f'.bank f.committed = f.bank f.committed

theorem Kept.refl (f : RamFile) : Kept f f := ⟨rfl, rfl, rfl, rfl, rfl⟩

theorem Kept.trans {f f₁ f' : RamFile} (h : Kept f f₁) (h' : Kept f₁ f') :
    Kept f f' where
  capacity := h'.capacity.trans h.capacity
  committed := h'.committed.trans h.committed
  length := h'.length.trans h.length
  present := h'.present.trans h.present
  bytes := by
    have hb := h'.bytes
    rw [h.committed] at hb
    exact hb.trans h.bytes

theorem Kept.inspect {f f' : RamFile} (h : Kept f f') : f'.inspect = f.inspect := by
  rw [RamFile.inspect, RamFile.inspect, h.present, h.length, h.committed, h.bytes]

/-- The bytes of the upload so far. -/
def staged (f : RamFile) : List UInt8 := (f.bank !f.committed).take f.stagingLength

theorem bank_setBank (f : RamFile) (i j : Bool) (bytes : List UInt8) :
    (f.setBank i bytes).bank j = if j = i then bytes else f.bank j := by
  cases i <;> cases j <;> rfl

theorem setBank_frame (f : RamFile) (i : Bool) (bytes : List UInt8) :
    (f.setBank i bytes).capacity = f.capacity ∧
    (f.setBank i bytes).committed = f.committed ∧
    (f.setBank i bytes).committedLength = f.committedLength ∧
    (f.setBank i bytes).present = f.present ∧
    (f.setBank i bytes).uploading = f.uploading := by
  cases i <;> exact ⟨rfl, rfl, rfl, rfl, rfl⟩

/-- The bytes an append writes go behind what is staged. -/
theorem written {f : RamFile} {bytes : List UInt8} (hs : f.Sized)
    (hle : bytes.length ≤ f.capacity - f.stagingLength) :
    let f' := { f.setBank (!f.committed)
        (patch (f.bank !f.committed) f.stagingLength bytes) with
      stagingLength := f.stagingLength + bytes.length }
    f'.Sized ∧ Kept f f' ∧ f'.uploading = f.uploading ∧
      f'.staged = f.staged ++ bytes := by
  have hfit : f.stagingLength + bytes.length ≤ (f.bank !f.committed).length := by
    rw [hs.bank]
    have := hs.staging
    omega
  intro f'
  have hbank : ∀ j, f'.bank j = if j = !f.committed then
      patch (f.bank !f.committed) f.stagingLength bytes else f.bank j :=
    fun j => bank_setBank f _ j _
  obtain ⟨hcap, hcommitted, hlength, hpresent, huploading⟩ := setBank_frame f
    (!f.committed) (patch (f.bank !f.committed) f.stagingLength bytes)
  refine ⟨⟨fun j => ?_, ?_, ?_⟩, ⟨hcap, hcommitted, hlength, hpresent, ?_⟩, huploading, ?_⟩
  · rw [hbank, show f'.capacity = f.capacity from hcap]
    split
    · rw [length_patch hfit, hs.bank]
    · exact hs.bank j
  · rw [show f'.committedLength = f.committedLength from hlength,
      show f'.capacity = f.capacity from hcap]
    exact hs.committed
  · rw [show f'.capacity = f.capacity from hcap, ← hs.bank !f.committed]
    exact hfit
  · rw [hbank, if_neg (by cases f.committed <;> decide)]
  · rw [staged, show f'.committed = f.committed from hcommitted, hbank, if_pos rfl]
    exact take_patch (Nat.le_trans (Nat.le_add_right _ _) hfit)

theorem append_ok {f f' : RamFile} {overlaps : Bool} {bytes : List UInt8}
    (hs : f.Sized) (h : (.ok, f') = f.append overlaps bytes) :
    f'.Sized ∧ Kept f f' ∧ f'.uploading = f.uploading ∧
      f'.staged = f.staged ++ bytes := by
  unfold append at h
  dsimp only at h
  split at h
  · cases h
  split at h
  · next hlen =>
      cases h
      rw [List.length_eq_zero_iff.mp hlen, List.append_nil]
      exact ⟨hs, .refl _, rfl, rfl⟩
  split at h
  · cases h
  split at h
  · cases h
  next hle =>
  cases h
  exact written hs (Nat.le_of_not_gt hle)

theorem append_failed {f f' : RamFile} {overlaps : Bool} {bytes : List UInt8}
    {r : FtpStorageResult} (hr : r ≠ .ok) (h : (r, f') = f.append overlaps bytes) :
    f' = f := by
  unfold append at h
  dsimp only at h
  split at h
  · cases h; rfl
  split at h
  · cases h; rfl
  split at h
  · cases h; rfl
  split at h <;> cases h
  · rfl
  · exact absurd rfl hr

theorem begin_ok {f f' : RamFile} (hs : f.Sized) (h : (.ok, f') = f.begin) :
    f'.Sized ∧ Kept f f' ∧ f'.uploading = true ∧ f'.staged = [] := by
  unfold begin at h
  split at h <;> cases h
  exact ⟨⟨hs.bank, hs.committed, Nat.zero_le _⟩, ⟨rfl, rfl, rfl, rfl, rfl⟩, rfl, rfl⟩

theorem begin_failed {f f' : RamFile} {r : FtpStorageResult} (hr : r ≠ .ok)
    (h : (r, f') = f.begin) : f' = f := by
  unfold begin at h
  split at h <;> cases h
  · rfl
  · exact absurd rfl hr

theorem abortUpload_kept {f : RamFile} (hs : f.Sized) :
    f.abortUpload.Sized ∧ Kept f f.abortUpload :=
  ⟨⟨hs.bank, hs.committed, Nat.zero_le _⟩, ⟨rfl, rfl, rfl, rfl, rfl⟩⟩

/-- A commit of an upload succeeds, and what was staged is the file. -/
theorem commit_uploading {f f' : RamFile} {r : FtpStorageResult} (hs : f.Sized)
    (hup : f.uploading = true) (h : (r, f') = f.commit) :
    r = .ok ∧ f'.Sized ∧ f'.inspect = ⟨f.staged, true⟩ ∧ f'.uploading = false := by
  unfold commit at h
  rw [hup] at h
  cases h
  exact ⟨rfl, ⟨hs.bank, hs.staging, Nat.zero_le _⟩, rfl, rfl⟩

theorem clear_sized {f : RamFile} (hs : f.Sized) : f.clear.Sized :=
  ⟨hs.bank, Nat.zero_le _, Nat.zero_le _⟩

end RamFile

/-! ## What the file ought to be -/

/-- A commit that returned OK. -/
def committedStorage (e : Ev) : Bool :=
  match e with
  | ⟨.storage _ .commit, r⟩ => r == FtpStorageResult.ok
  | _ => false

/-- The accepted close of a transfer. -/
def FtpCall.closes : FtpCall → Bool
  | .dataCloseResult true _ => true
  | _ => false

/-- The file, and of the most recent upload the spans that were taken and
whether it has ended. -/
structure History where
  file : Option (List UInt8)
  spans : List UInt8
  ended : Bool

namespace History

def start : History := ⟨none, [], false⟩

/-- An upload that begins has taken nothing yet. -/
def begun (g : History) (tr : List Ev) : History :=
  if tr.any begunStorage then { g with spans := [], ended := false } else g

def next (g : History) (l : FtpLabel) : History :=
  let g := g.begun l.events
  let g := if l.call.took l.result then
      { g with spans := g.spans ++ l.call.span.getD [] }
    else g
  let g := if l.call.ended l.result then { g with ended := true } else g
  if l.call.resets then { g with file := none }
  else if l.call.closes && g.ended && l.events.any committedStorage then
    { g with file := some g.spans }
  else g

/-- The file as a view shows it. -/
def view (g : History) : FtpStorageView :=
  match g.file with
  | none => .none
  | some data => ⟨data, true⟩

end History

/-! ## The core and the file -/

/-- The file answers the storage calls of a transcript. -/
inductive Stores : RamFile → List Ev → RamFile → Prop where
  | nil (f : RamFile) : Stores f [] f
  | storage {f f₁ f' : RamFile} {through : Option FtpStorage} {op : StorageOp}
      {r : StorageSig.Ans op} {tr : List Ev} (h : ramOps.step op f r f₁)
      (hr : Stores f₁ tr f') : Stores f (⟨.storage through op, r⟩ :: tr) f'
  | operation {f f' : RamFile} {through : Option FtpOperation} {op : OperationOp}
      {r : OperationSig.Ans op} {tr : List Ev} (hr : Stores f tr f') :
      Stores f (⟨.operation through op, r⟩ :: tr) f'
  | point {f f' : RamFile} {p : FtpPoint} {u : Unit} {tr : List Ev}
      (hr : Stores f tr f') : Stores f (⟨.point p, u⟩ :: tr) f'

/-- The core, and the file it is bound to. -/
structure FileServer where
  ftp : FtpState
  file : RamFile

/-- One call of a core that is bound to the file, through the binding `b`, and
to no operation. -/
structure FileStep (b : FtpStorage) (a : FileServer) (l : FtpLabel)
    (a' : FileServer) : Prop where
  step : FtpStep a.ftp l a'.ftp
  stores : Stores a.file l.events a'.file
  binding : ∀ binding, l.call = .init binding → binding = b
  unbound : ∀ binding, l.call = .bindOperation binding → binding = none

section Stores

variable {f f' : RamFile} {tr tr' : List Ev} {e : Ev} {s s' : FtpState}

theorem stores_append (h : Stores f (tr ++ tr') f') :
    ∃ f₁, Stores f tr f₁ ∧ Stores f₁ tr' f' := by
  induction tr generalizing f with
  | nil => exact ⟨f, .nil f, h⟩
  | cons e tr ih =>
      cases h with
      | storage hop hr =>
          obtain ⟨f₁, h₁, h₂⟩ := ih hr
          exact ⟨f₁, .storage hop h₁, h₂⟩
      | operation hr =>
          obtain ⟨f₁, h₁, h₂⟩ := ih hr
          exact ⟨f₁, .operation h₁, h₂⟩
      | point hr =>
          obtain ⟨f₁, h₁, h₂⟩ := ih hr
          exact ⟨f₁, .point h₁, h₂⟩

theorem stores_nil (h : Stores f [] f') : f' = f := by
  cases h
  rfl

theorem stores_storage {through : Option FtpStorage} {op : StorageOp}
    {r : StorageSig.Ans op} (h : Stores f [⟨.storage through op, r⟩] f') :
    ramOps.step op f r f' := by
  cases h with
  | storage hop hr =>
      obtain rfl := stores_nil hr
      exact hop

theorem stores_point {p : FtpPoint} (h : Stores f [pointEv p] f') : f' = f := by
  cases h with
  | point hr => exact stores_nil hr

theorem stores_operation {through : Option FtpOperation} {op : OperationOp}
    {r : OperationSig.Ans op} (h : Stores f [⟨.operation through op, r⟩] f') :
    f' = f := by
  cases h with
  | operation hr => exact stores_nil hr

theorem stores_asks (ha : Asks e) (h : Stores f [e] f') : f' = f := by
  unfold Asks at ha
  split at ha
  · exact (stores_storage h).2
  · exact (stores_storage h).2
  · exact stores_operation h
  · exact ha.elim

theorem stores_refused (ha : Refused e) (h : Stores f [e] f') : f' = f := by
  unfold Refused at ha
  split at ha
  · exact RamFile.begin_failed ha (stores_storage h)
  · exact stores_operation h
  · exact ha.elim

end Stores

/-! ## The file of the core is the file of the history -/

structure Mirrors (s : FtpState) (f : RamFile) (g : History) : Prop where
  sized : f.Sized
  unbound : s.storage = none → g.file = none
  operation : s.operation = none
  view : f.inspect = g.view
  idle : s.core.direction ≠ .upload → f.uploading = false
  staged : s.core.direction = .upload →
    f.uploading = true ∧ f.staged = g.spans ∧ s.core.eof = g.ended

section Mirrors

variable {f f' : RamFile} {g : History} {tr : List Ev} {s s' : FtpState}

theorem begun_append {tr tr' : List Ev} :
    g.begun (tr ++ tr') = (g.begun tr).begun tr' := by
  rw [History.begun, History.begun, History.begun, List.any_append]
  cases tr.any begunStorage <;> cases tr'.any begunStorage <;> rfl

theorem begun_none (h : ∀ e ∈ tr, begunStorage e = false) : g.begun tr = g := by
  rw [History.begun, if_neg]
  intro hany
  obtain ⟨e, he, hb⟩ := List.any_eq_true.mp hany
  rw [h e he] at hb
  cases hb

theorem asks_begun {e : Ev} (h : Asks e) : begunStorage e = false := by
  unfold Asks at h
  split at h <;> first | rfl | exact h.elim

theorem refused_begun {e : Ev} (h : Refused e) : begunStorage e = false := by
  unfold Refused at h
  split at h
  · exact beq_eq_false_iff_ne.mpr h
  · rfl
  · exact h.elim

theorem ends_begun : ∀ e ∈ endEvents s, begunStorage e = false := by
  rw [endEvents]
  split
  · exact List.forall_mem_singleton.mpr rfl
  · exact List.forall_mem_nil _

theorem torn_begun : ∀ e ∈ tornEvents s, begunStorage e = false := by
  rw [tornEvents]
  refine List.forall_mem_append.mpr ⟨ends_begun, ?_⟩
  split
  · exact List.forall_mem_nil _
  · exact List.forall_mem_singleton.mpr rfl

/-- The file looks at two fields of the record. -/
theorem Mirrors.same {c : FtpCore} (h : Mirrors s f g) (heof : c.eof = s.core.eof)
    (hd : c.direction = s.core.direction) : Mirrors { s with core := c } f g where
  sized := h.sized
  unbound := h.unbound
  operation := h.operation
  view := h.view
  idle := by
    show c.direction ≠ _ → _
    rw [hd]
    exact h.idle
  staged := by
    show c.direction = _ → _ ∧ _ ∧ c.eof = _
    rw [hd, heof]
    exact h.staged

theorem Mirrors.steady {c : FtpCore} (h : Mirrors s f g) (hc : Steady s.core c) :
    Mirrors { s with core := c } f g := h.same hc.eof hc.direction

/-- With nothing staged there is nothing to compare. -/
theorem mirrors_resting (hs : f.Sized) (hb : s.storage = none → g.file = none)
    (hv : f.inspect = g.view) (hop : s.operation = none)
    (hup : f.uploading = false) (hd : s.core.direction ≠ .upload) : Mirrors s f g where
  sized := hs
  unbound := hb
  operation := hop
  view := hv
  idle := fun _ => hup
  staged := fun hd' => absurd hd' hd

theorem stores_endEvents (h : Stores f (endEvents s) f') : f' = f := by
  rw [endEvents] at h
  split at h
  · exact stores_operation h
  · exact stores_nil h

/-- A teardown leaves the committed file, and no upload unless one was under
way without a storage. -/
theorem torn_stores (hsized : f.Sized) (h : Stores f (tornEvents s) f') :
    f'.Sized ∧ RamFile.Kept f f' ∧
      (f.uploading = false ∨ s.storage ≠ none → f'.uploading = false) := by
  rw [tornEvents] at h
  obtain ⟨f₁, h₁, h₂⟩ := stores_append h
  obtain rfl := stores_endEvents h₁
  split at h₂
  · next hnone =>
      obtain rfl := stores_nil h₂
      refine ⟨hsized, .refl _, fun hup => ?_⟩
      exact hup.elim id fun hne => absurd hnone hne
  · obtain rfl := stores_storage h₂
    obtain ⟨hs, hk⟩ := RamFile.abortUpload_kept hsized
    exact ⟨hs, hk, fun _ => rfl⟩

/-- An upload needs a storage. -/
theorem upload_bound (hs : Sound s) (hd : s.core.direction = .upload) :
    s.storage ≠ none := by
  refine hs.bound (Bool.of_not_eq_false fun hc => ?_)
  rw [(hs.closed hc).direction] at hd
  cases hd

theorem Mirrors.torn (hs : Sound s) (h : Mirrors s f g)
    (hst : Stores f (tornEvents s) f') :
    Mirrors { s with core := s.core.torn } f' g ∧ RamFile.Kept f f' := by
  obtain ⟨hsized, hkept, hup⟩ := torn_stores h.sized hst
  refine ⟨mirrors_resting hsized h.unbound (hkept.inspect.trans h.view) h.operation
    (hup ?_) nofun, hkept⟩
  by_cases hd : s.core.direction = .upload
  · exact .inr (upload_bound hs hd)
  · exact .inl (h.idle hd)

theorem effect_mirrors (he : Effect s tr s') (hs : Sound s) (h : Mirrors s f g)
    (hst : Stores f tr f') :
    Mirrors s' f' (g.begun tr) ∧ RamFile.Kept f f' := by
  have hoperation : s.core.operation = false :=
    Bool.eq_false_iff.mpr fun hop => (hs.operation hop).2 h.operation
  have hidle : s.core.direction = .idle → f.uploading = false := fun hd =>
    h.idle (by rw [hd]; decide)
  cases he with
  | steady hc =>
      obtain rfl := stores_nil hst
      exact ⟨h.steady hc, .refl _⟩
  | asks ha =>
      obtain rfl := stores_asks ha hst
      rw [begun_none (List.forall_mem_singleton.mpr (asks_begun ha))]
      exact ⟨h, .refl _⟩
  | refused _ hr =>
      obtain rfl := stores_refused hr hst
      rw [begun_none (List.forall_mem_singleton.mpr (refused_begun hr))]
      exact ⟨h, .refl _⟩
  | torn =>
      rw [begun_none torn_begun]
      exact h.torn hs hst
  | left _ =>
      obtain rfl := stores_nil hst
      exact ⟨h.same rfl rfl, .refl _⟩
  | queues _ _ _ _ =>
      obtain rfl := stores_point hst
      exact ⟨h.same rfl rfl, .refl _⟩
  | listens _ _ _ hc =>
      obtain rfl := stores_nil hst
      exact ⟨h.same hc.eof hc.direction, .refl _⟩
  | listening _ _ hc =>
      obtain rfl := stores_nil hst
      exact ⟨h.same hc.eof hc.direction, .refl _⟩
  | operates _ hop _ => exact absurd h.operation hop
  | uploads hl hc =>
      obtain ⟨hsized, hkept, hup, hstaged⟩ := RamFile.begin_ok h.sized
        (stores_storage hst)
      refine ⟨⟨hsized, fun hnone => ?_, h.operation, ?_, ?_, fun _ => ?_⟩, hkept⟩
      · exact h.unbound hnone
      · exact hkept.inspect.trans h.view
      · exact fun hd => absurd hc.direction hd
      · exact ⟨hup, hstaged, hc.eof.trans (hs.clear hl.direction).2.2⟩
  | downloads hl hc =>
      obtain rfl := stores_nil hst
      refine ⟨mirrors_resting h.sized h.unbound h.view h.operation
        (hidle hl.direction) ?_, .refl _⟩
      show FtpCore.direction _ ≠ _
      rw [hc.direction]
      nofun
  | feeds hop _ =>
      rw [hoperation] at hop
      cases hop
  | ends hop _ _ =>
      rw [hoperation] at hop
      cases hop
  | steps hop =>
      rw [hoperation] at hop
      cases hop
  | closes _ hc =>
      obtain rfl := stores_nil hst
      exact ⟨h.same hc.eof hc.direction, .refl _⟩

theorem effects_mirrors (he : Effects s tr s') (hs : Sound s) (h : Mirrors s f g)
    (hst : Stores f tr f') :
    Mirrors s' f' (g.begun tr) ∧ RamFile.Kept f f' := by
  induction he generalizing f g with
  | refl =>
      obtain rfl := stores_nil hst
      exact ⟨h, .refl _⟩
  | cons he _ ih =>
      obtain ⟨f₁, h₁, h₂⟩ := stores_append hst
      obtain ⟨hm, hk⟩ := effect_mirrors he hs h h₁
      obtain ⟨hm', hk'⟩ := ih (effect_sound he hs) hm h₂
      rw [begun_append]
      exact ⟨hm', hk.trans hk'⟩

/-- A call that takes nothing, ends nothing and commits nothing. -/
theorem next_begun {l : FtpLabel} (htook : l.call.took l.result = false)
    (hended : l.call.ended l.result = false) (hreset : l.call.resets = false)
    (hcommit : l.events.any committedStorage = false) :
    g.next l = g.begun l.events := by
  rw [History.next, htook, hended, hreset, hcommit, Bool.and_false]
  rfl

theorem plain_committed {e : Ev} (h : Plain e) : committedStorage e = false := by
  refine Bool.eq_false_iff.mpr fun hc => ?_
  unfold committedStorage at hc
  split at hc
  · exact h
  · cases hc

theorem effects_committed (h : Effects s tr s') :
    tr.any committedStorage = false :=
  List.any_eq_false.mpr fun e he => by
    rw [plain_committed (effects_plain h e he)]
    decide

/-- What the accepted close of a transfer does to the file, before the
teardown: a commit publishes what was staged, nothing else touches the file. -/
theorem commits_stores {ev : List Ev} {committed : Bool} (hs : Sound s)
    (hm : Mirrors s f g) (hc : Commits s ev committed) (h : Stores f ev f') :
    f'.Sized ∧
    (ev.any committedStorage = false ∧ f' = f ∨
      ev.any committedStorage = true ∧ committed = true ∧
        s.core.direction = .upload ∧ g.ended = true ∧
        f'.inspect = ⟨g.spans, true⟩ ∧ f'.uploading = false) := by
  cases hc with
  | other _ =>
      obtain rfl := stores_nil h
      exact ⟨hm.sized, .inl ⟨rfl, rfl⟩⟩
  | short _ _ =>
      obtain rfl := stores_nil h
      exact ⟨hm.sized, .inl ⟨rfl, rfl⟩⟩
  | operated _ _ hop => exact absurd hm.operation (hs.operation hop).2
  | stored hd heof _ result =>
      obtain ⟨hup, hstaged, hended⟩ := hm.staged hd
      obtain ⟨rfl, hsized, hview, hidle⟩ := RamFile.commit_uploading hm.sized hup
        (stores_storage h)
      refine ⟨hsized, .inr ⟨rfl, rfl, hd, ?_, ?_, hidle⟩⟩
      · rw [← hended]
        exact heof
      · rw [hview, hstaged]

/-- The end of a session of calls that begins nothing: a reset. -/
theorem reset_mirrors (hs : Sound s) (hm : Mirrors s f g)
    (h : Stores f (resetEvents s) f') :
    Mirrors { s with core := .zero } f' (g.next ⟨.reset, resetEvents s, .unit⟩) := by
  have hbegun : ∀ e ∈ resetEvents s, begunStorage e = false := by
    rw [resetEvents]
    refine List.forall_mem_append.mpr ⟨ends_begun, ?_⟩
    split
    · exact List.forall_mem_nil _
    · exact List.forall_mem_singleton.mpr rfl
  have hnext : g.next ⟨.reset, resetEvents s, .unit⟩ = { g with file := none } := by
    rw [History.next, begun_none hbegun]
    rfl
  rw [hnext]
  rw [resetEvents] at h
  obtain ⟨f₁, h₁, h₂⟩ := stores_append h
  obtain rfl := stores_endEvents h₁
  split at h₂
  · next hnone =>
      obtain rfl := stores_nil h₂
      refine mirrors_resting hm.sized (fun _ => rfl) (hm.view.trans ?_) hm.operation
        (hm.idle fun hd => upload_bound hs hd hnone) (fun hd => by cases hd)
      rw [History.view, hm.unbound hnone]
      rfl
  · obtain rfl := stores_storage h₂
    exact mirrors_resting (RamFile.clear_sized hm.sized) (fun _ => rfl) rfl
      hm.operation rfl (fun hd => by cases hd)

/-- A span that is taken is appended to the history. -/
theorem next_took {l : FtpLabel} {bytes : List UInt8}
    (hspan : l.call.span = some bytes) (htook : l.call.took l.result = true)
    (hbegun : l.events.any begunStorage = false)
    (hcommit : l.events.any committedStorage = false) :
    g.next l = { g with spans := g.spans ++ bytes } := by
  rw [History.next, History.begun, hbegun, htook, hspan, span_ended hspan,
    span_resets hspan, hcommit, Bool.and_false]
  rfl

/-- The accepted close of a transfer. -/
theorem close_mirrors {ev : List Ev} {committed : Bool} {c : FtpCore}
    {text : List UInt8} {now : UInt32} {hlt} (hs : Sound s) (hm : Mirrors s f g)
    (hcommit : Commits s ev committed) (hc : Steady s.core.torn c)
    (h : Stores f (ev ++ (tornEvents s ++ [pointEv (.queued text)])) f') :
    Mirrors { s with core := c.queue text false now hlt } f'
      (g.next ⟨.dataCloseResult true now,
        ev ++ (tornEvents s ++ [pointEv (.queued text)]), .bool committed⟩) := by
  obtain ⟨f₁, h₁, h₂⟩ := stores_append h
  obtain ⟨f₂, h₃, h₄⟩ := stores_append h₂
  obtain rfl := stores_point h₄
  obtain ⟨hsized, hfile⟩ := commits_stores hs hm hcommit h₁
  obtain ⟨hsized', hkept, hup⟩ := torn_stores hsized h₃
  have hbegun : ∀ e ∈ ev ++ (tornEvents s ++ [pointEv (.queued text)]),
      begunStorage e = false := by
    refine List.forall_mem_append.mpr ⟨?_, List.forall_mem_append.mpr
      ⟨torn_begun, List.forall_mem_singleton.mpr rfl⟩⟩
    cases hcommit with
    | stored _ _ _ _ => exact List.forall_mem_singleton.mpr rfl
    | _ => exact List.forall_mem_nil _
  have hany : (ev ++ (tornEvents s ++ [pointEv (.queued text)])).any committedStorage =
      ev.any committedStorage := by
    rw [List.any_append, List.any_append, effects_committed (Effect.torn s).effects]
    exact Bool.or_false _
  have hnext : g.next ⟨.dataCloseResult true now,
      ev ++ (tornEvents s ++ [pointEv (.queued text)]), .bool committed⟩ =
      if g.ended && ev.any committedStorage then { g with file := some g.spans }
      else g := by
    rw [History.next, begun_none hbegun, hany]
    rfl
  have hd : c.direction ≠ .upload := by
    rw [hc.direction]
    nofun
  rw [hnext]
  rcases hfile with ⟨hnone, rfl⟩ | ⟨hsome, -, hd', hended, hview, hidle⟩
  · rw [hnone, Bool.and_false]
    refine mirrors_resting hsized' hm.unbound (hkept.inspect.trans hm.view) hm.operation
      (hup ?_) hd
    by_cases hd' : s.core.direction = .upload
    · exact .inr (upload_bound hs hd')
    · exact .inl (hm.idle hd')
  · have hbound := upload_bound hs hd'
    rw [hsome, hended]
    exact mirrors_resting hsized' (fun hnone => absurd hnone hbound)
      (hkept.inspect.trans hview) hm.operation (hup (.inl hidle)) hd

theorem step_mirrors {b : FtpStorage} {l : FtpLabel} {a a' : FileServer}
    (h : FileStep b a l a') (hs : Sound a.ftp) (hm : Mirrors a.ftp a.file g) :
    Mirrors a'.ftp a'.file (g.next l) := by
  obtain ⟨s, f⟩ := a
  obtain ⟨s', f'⟩ := a'
  obtain ⟨call, tr, r⟩ := l
  obtain ⟨hstep, hst, -, hunbound⟩ := h
  have hoperation : s.core.operation = false :=
    Bool.eq_false_iff.mpr fun hop => (hs.operation hop).2 hm.operation
  dsimp only at hstep hst hs hm hunbound ⊢
  cases call_outcome hs hstep with
  | effects he htook hended _ hreset _ =>
      rw [next_begun (Bool.eq_false_iff.mpr fun ht => ?_)
        (Bool.eq_false_iff.mpr fun hn => ?_) hreset (effects_committed he)]
      · exact (effects_mirrors he hs hm hst).1
      · exact absurd (htook ht) (by rw [hoperation]; decide)
      · exact absurd (hended hn) (by rw [hoperation]; decide)
  | inits hq =>
      obtain rfl := stores_nil hst
      have hup := hm.idle (by rw [FtpCore.quiescent_idle hq]; decide)
      exact mirrors_resting hm.sized nofun hm.view hm.operation hup nofun
  | @binds binding hq =>
      obtain rfl := stores_nil hst
      obtain rfl := hunbound binding rfl
      exact ⟨hm.sized, hm.unbound, rfl, hm.view, hm.idle, hm.staged⟩
  | resets => exact reset_mirrors hs hm hst
  | opens _ _ hc _ =>
      obtain rfl := stores_point hst
      exact hm.same hc.eof hc.direction
  | consumes hc =>
      obtain rfl := stores_nil hst
      refine ⟨hm.sized, ?_, ?_, hm.view, ?_, ?_⟩
      · rw [hc.storage]
        exact hm.unbound
      · rw [hc.bound]
        exact hm.operation
      · rw [hc.flags.direction]
        exact hm.idle
      · rw [hc.flags.direction, hc.flags.eof]
        exact hm.staged
  | appends hup hspan htook hc =>
      obtain ⟨overlaps, happend⟩ := stores_storage hst
      obtain ⟨hsized, hkept, huploading, hstaged⟩ := RamFile.append_ok hm.sized happend
      obtain ⟨hfile, hspans, heof⟩ := hm.staged hup.direction
      rw [next_took hspan htook rfl rfl]
      refine ⟨hsized, hm.unbound, hm.operation, hkept.inspect.trans hm.view,
        fun hd => absurd (hc.direction.trans hup.direction) hd, fun _ => ?_⟩
      exact ⟨huploading.trans hfile, by rw [hstaged, hspans], hc.eof.trans heof⟩
  | @refuses call bytes result tr r s' hup hspan hne htook he =>
      have hsplit : Stores _ ([_] ++ _) _ := hst
      obtain ⟨f₁, h₁, h₂⟩ := stores_append hsplit
      obtain ⟨overlaps, happend⟩ := stores_storage h₁
      obtain rfl := RamFile.append_failed hne happend
      have hcommit := effects_committed he
      rw [next_begun htook (span_ended hspan) (span_resets hspan)
        (by exact hcommit)]
      exact (effects_mirrors he hs hm h₂).1
  | ends hup hc =>
      obtain rfl := stores_nil hst
      obtain ⟨hfile, hspans, -⟩ := hm.staged hup.direction
      refine ⟨hm.sized, hm.unbound, hm.operation, hm.view,
        fun hd => absurd (hc.direction.trans hup.direction) hd, fun _ => ?_⟩
      exact ⟨hfile, hspans, hc.eof⟩
  | completes hcommit hc _ _ _ => exact close_mirrors hs hm hcommit hc hst

/-- Without a commit or a clear the committed file is untouched. -/
theorem step_kept {b : FtpStorage} {l : FtpLabel} {a a' : FileServer}
    (h : FileStep b a l a') (hs : Sound a.ftp) (hm : Mirrors a.ftp a.file g)
    (hcommit : ∀ e ∈ l.events, committedStorage e = false)
    (hclear : ∀ e ∈ l.events, clearsStorage e = false) :
    RamFile.Kept a.file a'.file := by
  obtain ⟨s, f⟩ := a
  obtain ⟨s', f'⟩ := a'
  obtain ⟨call, tr, r⟩ := l
  obtain ⟨hstep, hst, -, -⟩ := h
  dsimp only at hstep hst hs hm hcommit hclear ⊢
  cases call_outcome hs hstep with
  | effects he _ _ _ _ _ => exact (effects_mirrors he hs hm hst).2
  | inits _ =>
      obtain rfl := stores_nil hst
      exact .refl _
  | binds _ =>
      obtain rfl := stores_nil hst
      exact .refl _
  | resets =>
      have hc : ∀ e ∈ resetEvents s, clearsStorage e = false := hclear
      have hst' : Stores f (resetEvents s) f' := hst
      rw [resetEvents] at hst' hc
      obtain ⟨f₁, h₁, h₂⟩ := stores_append hst'
      obtain rfl := stores_endEvents h₁
      split at h₂
      · obtain rfl := stores_nil h₂
        exact .refl _
      · next hne =>
          have hnone := (List.forall_mem_append.mp hc).2
          rw [if_neg hne] at hnone
          cases hnone _ (List.mem_singleton.mpr rfl)
  | opens _ _ _ _ =>
      obtain rfl := stores_point hst
      exact .refl _
  | consumes _ =>
      obtain rfl := stores_nil hst
      exact .refl _
  | appends _ _ _ _ =>
      obtain ⟨overlaps, happend⟩ := stores_storage hst
      exact (RamFile.append_ok hm.sized happend).2.1
  | @refuses call bytes result tr r s' _ _ hne _ he =>
      have hsplit : Stores _ ([_] ++ _) _ := hst
      obtain ⟨f₁, h₁, h₂⟩ := stores_append hsplit
      obtain ⟨overlaps, happend⟩ := stores_storage h₁
      obtain rfl := RamFile.append_failed hne happend
      exact (effects_mirrors he hs hm h₂).2
  | ends _ _ =>
      obtain rfl := stores_nil hst
      exact .refl _
  | completes hc _ _ _ _ =>
      obtain ⟨f₁, h₁, h₂⟩ := stores_append hst
      obtain ⟨f₂, h₃, h₄⟩ := stores_append h₂
      obtain rfl := stores_point h₄
      obtain ⟨hsized, ⟨-, rfl⟩ | ⟨hany, -⟩⟩ := commits_stores hs hm hc h₁
      · exact (torn_stores hsized h₃).2.1
      · obtain ⟨e, he, hce⟩ := List.any_eq_true.mp hany
        rw [hcommit e (List.mem_append_left _ he)] at hce
        cases hce

/-- The texts that announce a success. -/
def announced (e : Ev) : Bool :=
  match e with
  | ⟨.point (.queued text), _⟩ => decide (Announces text)
  | _ => false

theorem plain_announced {e : Ev} (h : Plain e) : announced e = false := by
  refine Bool.eq_false_iff.mpr fun hc => ?_
  unfold announced at hc
  split at hc
  · exact h (of_decide_eq_true hc)
  · cases hc

theorem effects_announced (h : Effects s tr s') : tr.any announced = false :=
  List.any_eq_false.mpr fun e he => by
    rw [plain_announced (effects_plain h e he)]
    decide

theorem reset_committed : ∀ e ∈ resetEvents s, committedStorage e = false := by
  rw [resetEvents]
  refine List.forall_mem_append.mpr
    ⟨fun e he => plain_committed (plain_endEvents e he), ?_⟩
  split
  · exact List.forall_mem_nil _
  · exact List.forall_mem_singleton.mpr rfl

theorem reset_announced : ∀ e ∈ resetEvents s, announced e = false := by
  rw [resetEvents]
  refine List.forall_mem_append.mpr
    ⟨fun e he => plain_announced (plain_endEvents e he), ?_⟩
  split
  · exact List.forall_mem_nil _
  · exact List.forall_mem_singleton.mpr rfl

/-- An upload is announced as a success exactly when its commit returned OK. -/
theorem step_announced {b : FtpStorage} {l : FtpLabel} {a a' : FileServer}
    (h : FileStep b a l a') (hs : Sound a.ftp) (hm : Mirrors a.ftp a.file g) :
    l.events.any committedStorage = true ↔
      a.ftp.core.direction = .upload ∧ l.events.any announced = true := by
  obtain ⟨s, f⟩ := a
  obtain ⟨s', f'⟩ := a'
  obtain ⟨call, tr, r⟩ := l
  obtain ⟨hstep, hst, -, -⟩ := h
  dsimp only at hstep hst hs hm ⊢
  have hneither : ∀ {tr : List Ev}, tr.any committedStorage = false →
      tr.any announced = false → (tr.any committedStorage = true ↔
        s.core.direction = .upload ∧ tr.any announced = true) := by
    intro tr hc ha
    rw [hc, ha]
    simp
  cases call_outcome hs hstep with
  | effects he _ _ _ _ _ => exact hneither (effects_committed he) (effects_announced he)
  | inits _ => exact hneither rfl rfl
  | binds _ => exact hneither rfl rfl
  | resets =>
      refine hneither (List.any_eq_false.mpr fun e he => ?_)
        (List.any_eq_false.mpr fun e he => ?_)
      · rw [reset_committed e he]
        decide
      · rw [reset_announced e he]
        decide
  | opens _ _ _ _ => exact hneither rfl (by decide)
  | consumes _ => exact hneither rfl rfl
  | appends _ _ _ _ => exact hneither rfl rfl
  | refuses _ _ _ _ he =>
      have hc := effects_committed he
      have ha := effects_announced he
      exact hneither hc ha
  | ends _ _ => exact hneither rfl rfl
  | @completes now ev committed c text hc _ _ _ htext =>
      have htorn := (Effect.torn s).effects
      have hannounced : (ev ++ (tornEvents s ++ [pointEv (.queued text)])).any announced =
          (ev.any announced || decide (Announces text)) := by
        rw [List.any_append, List.any_append, effects_announced htorn, Bool.false_or]
        exact congrArg _ (Bool.or_false _)
      have hcommitted : (ev ++ (tornEvents s ++ [pointEv (.queued text)])).any
          committedStorage = ev.any committedStorage := by
        rw [List.any_append, List.any_append, effects_committed htorn]
        exact Bool.or_false _
      show List.any (ev ++ _) committedStorage = true ↔ _ ∧
        List.any (ev ++ _) announced = true
      rw [hannounced, hcommitted]
      cases hc with
      | other hd => exact iff_of_false nofun fun h => hd h.1
      | short _ _ =>
          refine iff_of_false nofun fun h => ?_
          have := htext.mpr (of_decide_eq_true h.2)
          cases this
      | operated _ _ hop => exact absurd hm.operation (hs.operation hop).2
      | stored hd _ _ result =>
          have hok : (result == FtpStorageResult.ok) = true ↔ Announces text := by
            rw [beq_iff_eq, ← htext, decide_eq_true_iff]
          show (result == FtpStorageResult.ok || false) = true ↔ _ ∧ (false || _) = true
          rw [Bool.or_false, Bool.false_or, decide_eq_true_iff, hok]
          exact ⟨fun ha => ⟨hd, ha⟩, fun h => h.2⟩

end Mirrors

/-! ## Runs -/

section Runs

variable {b : FtpStorage} {a a' : FileServer} {g : History}
  {tr : List (FtpLabel × FileServer)}

/-- The history of a run. -/
def history (g : History) (tr : List (FtpLabel × FileServer)) : History :=
  tr.foldl (fun g x => g.next x.1) g

theorem run_mirrors (h : Run (FileStep b) a tr a') (hs : Sound a.ftp)
    (hm : Mirrors a.ftp a.file g) :
    Sound a'.ftp ∧ Mirrors a'.ftp a'.file (history g tr) := by
  induction h generalizing g with
  | nil => exact ⟨hs, hm⟩
  | cons hstep _ ih => exact ih (step_sound hs hstep.step) (step_mirrors hstep hs hm)

theorem run_kept (h : Run (FileStep b) a tr a') (hs : Sound a.ftp)
    (hm : Mirrors a.ftp a.file g)
    (hother : ∀ x ∈ tr, x.1.call ≠ .reset ∧ ∀ e ∈ x.1.events, committedStorage e = false) :
    RamFile.Kept a.file a'.file := by
  induction h generalizing g with
  | nil => exact .refl _
  | cons hstep _ ih =>
      obtain ⟨⟨hreset, hcommit⟩, hrest⟩ := List.forall_mem_cons.mp hother
      have hclear : ∀ e ∈ _, clearsStorage e = false := fun e he =>
        Bool.eq_false_iff.mpr fun hc => hreset (step_clear hstep.step hs he hc)
      exact (step_kept hstep hs hm hcommit hclear).trans
        (ih (step_sound hs hstep.step) (step_mirrors hstep hs hm) hrest)

theorem mirrors_start {bank0 bank1 basename : List UInt8} {capacity : Nat}
    (h0 : bank0.length = capacity) (h1 : bank1.length = capacity) :
    Mirrors .start (.init bank0 bank1 capacity basename) .start := by
  refine mirrors_resting ⟨fun i => ?_, Nat.zero_le _, Nat.zero_le _⟩ (fun _ => rfl) rfl
    rfl rfl nofun
  cases i
  · exact h0
  · exact h1

/-- In every run the file of the core is the file of the history; what is not a
commit or a reset leaves the committed bank as it is, and so the bytes behind
every view of it; and an upload is announced as a success exactly when its
commit returned OK. -/
theorem file_replaced {bank0 bank1 basename : List UInt8} {capacity : Nat}
    (h0 : bank0.length = capacity) (h1 : bank1.length = capacity)
    (h : Run (FileStep b) ⟨.start, .init bank0 bank1 capacity basename⟩ tr a) :
    (∀ evs view f', Runs (ftpCoreFile a.ftp) evs view → Stores a.file evs f' →
      view = (history .start tr).view) ∧
    (∀ rest a', Run (FileStep b) a rest a' →
      (∀ x ∈ rest, x.1.call ≠ .reset ∧ ∀ e ∈ x.1.events, committedStorage e = false) →
      RamFile.Kept a.file a'.file) ∧
    (∀ l a', FileStep b a l a' → (l.events.any committedStorage = true ↔
      a.ftp.core.direction = .upload ∧ l.events.any announced = true)) := by
  obtain ⟨hs, hm⟩ := run_mirrors h .zero (mirrors_start h0 h1)
  refine ⟨fun evs view f' hr hst => ?_, fun rest a' hrest hother => ?_,
    fun l a' hstep => step_announced hstep hs hm⟩
  · unfold ftpCoreFile at hr
    split at hr
    · next hnone =>
        obtain ⟨rfl, rfl⟩ := runs_pure_iff.mp hr
        rw [History.view, hm.unbound hnone]
    · obtain ⟨v, rest, rfl, hk⟩ := runs_call_iff.mp hr
      obtain ⟨rfl, rfl⟩ := runs_ret_iff.mp hk
      exact (stores_storage hst).1.trans hm.view
  · exact run_kept hrest hs hm hother

end Runs

/-- The file as a device; there is no operation to answer for. -/
def fileDevice (op : FtpOp) (f : RamFile) : FtpSig.Ans op × RamFile :=
  match op with
  | .storage _ (.matchesName name) => (f.matchesName name, f)
  | .storage _ .clear => ((), f.clear)
  | .storage _ .inspect => (f.inspect, f)
  | .storage _ .begin => f.begin
  | .storage _ (.append bytes) => f.append false bytes
  | .storage _ .abort => ((), f.abortUpload)
  | .storage _ .commit => f.commit
  | .operation _ (.matchesName _ _) => (false, f)
  | .operation _ (.begin _ _) => (none, f)
  | .operation _ (.feed _) => ((.error, 0), f)
  | .operation _ .eof => (false, f)
  | .operation _ .step => (.error, f)
  | .operation _ .finish => ((), f)
  | .point _ => ((), f)

theorem stores_trace {α : Type} (p : FtpProg α) (f : RamFile) :
    Stores f (p.trace fileDevice f) (p.run fileDevice f).2 := by
  induction p generalizing f with
  | ret a => exact .nil f
  | call op k ih =>
      cases op with
      | storage through op =>
          refine .storage ?_ (ih _ _)
          cases op with
          | append bytes => exact ⟨false, rfl⟩
          | matchesName name => exact ⟨rfl, rfl⟩
          | inspect => exact ⟨rfl, rfl⟩
          | _ => exact rfl
      | operation through op => 
          cases op <;> exact .operation (ih _ _)
      | point p => exact .point (ih _ _)

/-- The calls of a run against the file. -/
def serve (a : FileServer) : List FtpCall → List (FtpLabel × FileServer)
  | [] => []
  | call :: calls =>
      let p := call.perform a.ftp
      let out := p.run fileDevice a.file
      (⟨call, p.trace fileDevice a.file, out.1.1⟩, ⟨out.1.2, out.2⟩) ::
        serve ⟨out.1.2, out.2⟩ calls

def serveEnd (a : FileServer) : List FtpCall → FileServer
  | [] => a
  | call :: calls =>
      let out := (call.perform a.ftp).run fileDevice a.file
      serveEnd ⟨out.1.2, out.2⟩ calls

theorem run_serve {b : FtpStorage} (a : FileServer) {calls : List FtpCall}
    (hinit : ∀ call ∈ calls, ∀ binding, call = .init binding → binding = b)
    (hbind : ∀ call ∈ calls, ∀ binding, call = .bindOperation binding → binding = none) :
    Run (FileStep b) a (serve a calls) (serveEnd a calls) := by
  induction calls generalizing a with
  | nil => exact .nil a
  | cons call calls ih =>
      obtain ⟨hi, hinit⟩ := List.forall_mem_cons.mp hinit
      obtain ⟨hb, hbind⟩ := List.forall_mem_cons.mp hbind
      refine .cons ⟨?_, ?_, hi, hb⟩ (ih _ hinit hbind)
      · exact runs_trace fileDevice (call.perform a.ftp) a.file
      · exact stores_trace (call.perform a.ftp) a.file

/-- An upload that is published, and one that is aborted after it. -/
def uploadCalls : List FtpCall :=
  [.init ⟨0, true, 4⟩, .sessionOpen 0,
   .controlSpan (ascii "USER anonymous\r\nPASS x\r\nTYPE I\r\nEPSV\r\n") 0,
   .passiveResult true none 20 0, .dataConnected 0,
   .controlSpan (ascii "STOR f\r\n") 0, .replyConsume 20 0, .replyConsume 20 0,
   .replyConsume 16 0, .replyConsume 18 0, .replyConsume 46 0, .replyConsume 37 0,
   .uploadSpan [1, 2] 0, .uploadSpan [3] 0, .uploadEof 0, .dataCloseResult true 0,
   .replyConsume 24 0, .controlSpan (ascii "EPSV\r\n") 0,
   .passiveResult true none 20 0, .dataConnected 0,
   .controlSpan (ascii "STOR f\r\n") 0, .replyConsume 46 0, .replyConsume 37 0,
   .uploadSpan [4, 5] 0, .controlSpan (ascii "ABOR\r\n") 0]

def emptyFile : RamFile := .init [0, 0, 0, 0] [0, 0, 0, 0] 4 (ascii "f")

theorem file_replaced_aborted :
    ∃ tr a, Run (FileStep ⟨0, true, 4⟩) ⟨.start, emptyFile⟩ tr a ∧
      ∀ evs view f', Runs (ftpCoreFile a.ftp) evs view → Stores a.file evs f' →
        view = ⟨[1, 2, 3], true⟩ := by
  have hrun : Run (FileStep ⟨0, true, 4⟩) ⟨.start, emptyFile⟩
      (serve ⟨.start, emptyFile⟩ uploadCalls) (serveEnd ⟨.start, emptyFile⟩ uploadCalls) :=
    run_serve _ (by simp [uploadCalls]) (by simp [uploadCalls])
  have hview : (history .start (serve ⟨.start, emptyFile⟩ uploadCalls)).view =
      ⟨[1, 2, 3], true⟩ := by decide +kernel
  refine ⟨_, _, hrun, fun evs view f' hr hst => ?_⟩
  exact ((file_replaced rfl rfl hrun).1 evs view f' hr hst).trans hview

end EkBareMetal.Ftp

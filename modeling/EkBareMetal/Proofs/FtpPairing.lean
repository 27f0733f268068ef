import EkBareMetal.Proofs.FtpCalls

/-!
# What is begun is ended

A begin of the operation or of the storage is a promise of the core to end it,
and a missing or doubled end leaves a receiver half open. `Pending` is what an
observer of the calls knows to be outstanding, and `Pending.next` refuses every
call that breaks a promise: a begin while one is outstanding, an end, a feed, a
step or an end of file without one or through another binding, a second end of
file. The record agrees with the observer: an operation is outstanding exactly
while `core.operation` is set, and then through the bound operation.
-/

namespace EkBareMetal.Ftp

open Interact Transition

/-- What has been begun and not been ended: the operation with its binding and
whether its end of file was signalled, and the binding of an upload. -/
structure Pending where
  operation : Option (Option FtpOperation × Bool)
  storage : Option (Option FtpStorage)

def Pending.none : Pending := ⟨.none, .none⟩

/-- What closes an upload has to go through the binding it was begun through. -/
def Pending.close (m : Pending) (through : Option FtpStorage) : Option Pending :=
  if m.storage.any (· != through) then .none else some { m with storage := .none }

/-- What is outstanding after a call, none where the call is out of place. -/
def Pending.next (m : Pending) (e : Ev) : Option Pending :=
  match e with
  | ⟨.operation through (.begin _ _), r⟩ =>
      if m.operation.isSome then .none
      else if Option.isSome (α := FtpStorageView) r then
        some { m with operation := some (through, false) }
      else some m
  | ⟨.operation through (.feed _), _⟩ =>
      if m.operation = some (through, false) then some m else .none
  | ⟨.operation through .eof, _⟩ =>
      if m.operation = some (through, false) then
        some { m with operation := some (through, true) }
      else .none
  | ⟨.operation through .step, _⟩ =>
      if m.operation.map Prod.fst = some through then some m else .none
  | ⟨.operation through .finish, _⟩ =>
      if m.operation.map Prod.fst = some through then
        some { m with operation := .none }
      else .none
  | ⟨.storage through .begin, r⟩ =>
      if m.storage.isSome then .none
      else if r = FtpStorageResult.ok then some { m with storage := some through }
      else some m
  | ⟨.storage through .commit, r⟩ =>
      if r = FtpStorageResult.ok then m.close through else some m
  | ⟨.storage through .abort, _⟩ => m.close through
  | ⟨.storage through .clear, _⟩ => m.close through
  | _ => some m

/-- Every call of the transcript is in place, and `m'` is outstanding after it. -/
def Follows (m : Pending) (tr : List Ev) (m' : Pending) : Prop :=
  tr.foldlM Pending.next m = some m'

section Follows

variable {m m₁ m' : Pending} {tr tr' : List Ev} {e : Ev}

theorem Follows.nil (m : Pending) : Follows m [] m := rfl

theorem follows_one (h : m.next e = some m') : Follows m [e] m' := by
  rw [Follows, List.foldlM_cons, h]
  rfl

theorem Follows.trans (h : Follows m tr m₁) (h' : Follows m₁ tr' m') :
    Follows m (tr ++ tr') m' := by
  rw [Follows] at h
  rw [Follows, List.foldlM_append, h]
  exact h'

theorem follows_cons (h : Follows m (e :: tr) m') :
    ∃ m₁, m.next e = some m₁ ∧ Follows m₁ tr m' := by
  rw [Follows, List.foldlM_cons] at h
  exact Option.bind_eq_some_iff.mp h

theorem follows_append (h : Follows m (tr ++ tr') m') :
    ∃ m₁, Follows m tr m₁ ∧ Follows m₁ tr' m' := by
  rw [Follows, List.foldlM_append] at h
  exact Option.bind_eq_some_iff.mp h

/-! ## What an accepted transcript looks like -/

/-- A begin of the operation, whatever it returns. -/
def beginsOperation (e : Ev) : Bool :=
  match e with
  | ⟨.operation _ (.begin _ _), _⟩ => true
  | _ => false

/-- A begin of the operation that returned true. -/
def begunOperation (e : Ev) : Bool :=
  match e with
  | ⟨.operation _ (.begin _ _), r⟩ => Option.isSome (α := FtpStorageView) r
  | _ => false

def endsOperation (e : Ev) : Bool :=
  match e with
  | ⟨.operation _ .finish, _⟩ => true
  | _ => false

def beginsStorage (e : Ev) : Bool :=
  match e with
  | ⟨.storage _ .begin, _⟩ => true
  | _ => false

def begunStorage (e : Ev) : Bool :=
  match e with
  | ⟨.storage _ .begin, r⟩ => r == FtpStorageResult.ok
  | _ => false

/-- A commit that returned OK, an abort or a clear. -/
def closesStorage (e : Ev) : Bool :=
  match e with
  | ⟨.storage _ .commit, r⟩ => r == FtpStorageResult.ok
  | ⟨.storage _ .abort, _⟩ => true
  | ⟨.storage _ .clear, _⟩ => true
  | _ => false

/-- A call into the storage leaves the operation as it is. -/
theorem next_storage {through : Option FtpStorage} {op : StorageOp}
    {r : StorageSig.Ans op} (h : m.next ⟨.storage through op, r⟩ = some m') :
    m'.operation = m.operation := by
  have hclose : m.close through = some m' → m'.operation = m.operation := by
    intro hc
    rw [Pending.close] at hc
    split at hc <;> cases hc
    rfl
  unfold Pending.next at h
  cases op with
  | begin =>
      dsimp only at h
      split at h
      · cases h
      · split at h <;> cases h <;> rfl
  | commit =>
      dsimp only at h
      split at h
      · exact hclose h
      · cases h
        rfl
  | abort => exact hclose h
  | clear => exact hclose h
  | _ => cases h; rfl

/-- A call into the operation leaves the storage as it is. -/
theorem next_bound {through : Option FtpOperation} {op : OperationOp}
    {r : OperationSig.Ans op} (h : m.next ⟨.operation through op, r⟩ = some m') :
    m'.storage = m.storage := by
  unfold Pending.next at h
  cases op with
  | matchesName name upload =>
      cases h
      rfl
  | begin name upload =>
      dsimp only at h
      split at h
      · cases h
      · split at h <;> cases h <;> rfl
  | _ =>
      dsimp only at h
      split at h <;> cases h
      rfl

/-- One call moves what is outstanding of the operation as it says. -/
theorem next_operation (h : m.next e = some m') :
    m.operation.isSome.toNat + (begunOperation e).toNat =
      m'.operation.isSome.toNat + (endsOperation e).toNat := by
  obtain ⟨op, r⟩ := e
  cases op with
  | point p =>
      cases h
      rfl
  | storage through op =>
      rw [next_storage h]
      rfl
  | operation through op =>
      unfold Pending.next at h
      cases op with
      | begin name upload =>
          dsimp only at h
          split at h
          · cases h
          next hm =>
          rw [Option.not_isSome_iff_eq_none] at hm
          rw [hm]
          split at h
          · next hr =>
              cases h
              simp only [begunOperation, hr]
              rfl
          · next hr =>
              cases h
              rw [hm]
              simp only [begunOperation, Bool.not_eq_true _ ▸ hr]
              rfl
      | finish =>
          dsimp only at h
          split at h
          · next hm =>
              obtain ⟨p, hp, -⟩ := Option.map_eq_some_iff.mp hm
              cases h
              rw [hp]
              rfl
          · cases h
      | matchesName name upload =>
          cases h
          rfl
      | eof =>
          dsimp only at h
          split at h
          · next hm =>
              cases h
              rw [hm]
              rfl
          · cases h
      | _ =>
          dsimp only at h
          split at h <;> cases h
          rfl

theorem follows_operation (h : Follows m tr m') :
    m.operation.isSome.toNat + tr.countP begunOperation =
      m'.operation.isSome.toNat + tr.countP endsOperation := by
  induction tr generalizing m with
  | nil =>
      cases h
      rfl
  | cons e tr ih =>
      obtain ⟨m₁, h₁, h₂⟩ := follows_cons h
      have hone := next_operation h₁
      have hrest := ih h₂
      have hcount : ∀ p : Ev → Bool, (e :: tr).countP p = tr.countP p + (p e).toNat := by
        intro p
        rw [List.countP_cons]
        cases p e <;> rfl
      rw [hcount, hcount]
      omega

/-- A begin is accepted only while nothing is outstanding. -/
theorem next_begins (h : m.next e = some m') (hb : beginsOperation e = true) :
    m.operation = .none := by
  unfold Pending.next at h
  unfold beginsOperation at hb
  split at hb
  · dsimp only at h
    split at h
    · cases h
    · next hm => exact Option.not_isSome_iff_eq_none.mp hm
  · cases hb

theorem begun_begins (h : begunOperation e = true) : beginsOperation e = true := by
  unfold begunOperation at h
  split at h
  · rfl
  · cases h

theorem begins_ends (h : beginsOperation e = true) : endsOperation e = false := by
  unfold beginsOperation at h
  split at h
  · rfl
  · cases h

/-- Between a begin that succeeded and the next begin there is exactly one end. -/
theorem ends_between {front mid back : List Ev} {b b' : Ev}
    (h : Follows m (front ++ b :: (mid ++ b' :: back)) m')
    (hb : begunOperation b = true) (hb' : beginsOperation b' = true)
    (hmid : ∀ e ∈ mid, beginsOperation e = false) :
    mid.countP endsOperation = 1 := by
  obtain ⟨m₁, -, h⟩ := follows_append h
  obtain ⟨m₂, h₁, h⟩ := follows_cons h
  obtain ⟨m₃, h₂, h⟩ := follows_append h
  obtain ⟨m₄, h₃, -⟩ := follows_cons h
  have hone := next_operation h₁
  have hcount := follows_operation h₂
  have hnone : mid.countP begunOperation = 0 := by
    refine List.countP_eq_zero.mpr fun e he hbe => ?_
    exact absurd (begun_begins hbe) (by rw [hmid e he]; decide)
  rw [next_begins h₁ (begun_begins hb), hb, begins_ends (begun_begins hb)] at hone
  rw [next_begins h₃ hb', hnone] at hcount
  simp only [Option.isSome_none, Bool.toNat_false, Bool.toNat_true] at hone hcount
  omega

/-- What does not close an upload leaves it outstanding. -/
theorem next_open (h : m.next e = some m') (ho : m.storage.isSome = true)
    (hc : closesStorage e = false) : m'.storage.isSome = true := by
  obtain ⟨op, r⟩ := e
  cases op with
  | point p =>
      cases h
      exact ho
  | operation through op =>
      rw [next_bound h]
      exact ho
  | storage through op =>
      unfold Pending.next at h
      cases op with
      | begin =>
          dsimp only at h
          rw [if_pos ho] at h
          cases h
      | commit =>
          have hr : ¬ r = FtpStorageResult.ok := fun he => by
            rw [he] at hc
            cases hc
          dsimp only at h
          rw [if_neg hr] at h
          cases h
          exact ho
      | abort => cases hc
      | clear => cases hc
      | _ => cases h; exact ho

theorem next_beginsStorage (h : m.next e = some m') (hb : beginsStorage e = true) :
    m.storage = .none := by
  unfold Pending.next at h
  unfold beginsStorage at hb
  split at hb
  · dsimp only at h
    split at h
    · cases h
    · next hm => exact Option.not_isSome_iff_eq_none.mp hm
  · cases hb

theorem begun_open (h : m.next e = some m') (hb : begunStorage e = true) :
    m'.storage.isSome = true := by
  unfold Pending.next at h
  unfold begunStorage at hb
  split at hb
  · dsimp only at h
    rw [if_pos (beq_iff_eq.mp hb)] at h
    split at h <;> cases h
    rfl
  · cases hb

theorem follows_open (h : Follows m tr m') (ho : m.storage.isSome = true)
    (hc : ∀ e ∈ tr, closesStorage e = false) : m'.storage.isSome = true := by
  induction tr generalizing m with
  | nil =>
      cases h
      exact ho
  | cons e tr ih =>
      obtain ⟨m₁, h₁, h₂⟩ := follows_cons h
      obtain ⟨he, htr⟩ := List.forall_mem_cons.mp hc
      exact ih h₂ (next_open h₁ ho he) htr

/-- Between a begin of an upload that succeeded and the next begin there is a
commit that returned OK, an abort or a clear. -/
theorem closes_between {front mid back : List Ev} {b b' : Ev}
    (h : Follows m (front ++ b :: (mid ++ b' :: back)) m')
    (hb : begunStorage b = true) (hb' : beginsStorage b' = true) :
    ∃ e ∈ mid, closesStorage e = true := by
  obtain ⟨m₁, -, h⟩ := follows_append h
  obtain ⟨m₂, h₁, h⟩ := follows_cons h
  obtain ⟨m₃, h₂, h⟩ := follows_append h
  obtain ⟨m₄, h₃, -⟩ := follows_cons h
  by_contra hno
  have hopen := follows_open h₂ (begun_open h₁ hb) fun e he =>
    Bool.eq_false_iff.mpr fun hc => hno ⟨e, he, hc⟩
  rw [next_beginsStorage h₃ hb'] at hopen
  cases hopen

end Follows

/-! ## The record agrees with the observer -/

structure Tracks (s : FtpState) (m : Pending) : Prop where
  operation : m.operation =
    if s.core.operation then some (s.operation, s.core.eof) else .none
  storage : ∀ p, m.storage = some p →
    p = s.storage ∧ s.core.direction = .upload ∧ s.core.operation = false

section Tracks

variable {s s' : FtpState} {m : Pending} {tr : List Ev} {e : Ev}

/-- The observer looks at four fields of the record. -/
theorem Tracks.same {c : FtpCore} (ht : Tracks s m)
    (hop : c.operation = s.core.operation) (heof : c.eof = s.core.eof)
    (hd : c.direction = s.core.direction) : Tracks { s with core := c } m where
  operation := by
    show _ = if c.operation then some (s.operation, c.eof) else .none
    rw [hop, heof]
    exact ht.operation
  storage := by
    show ∀ p, m.storage = some p → p = s.storage ∧ c.direction = .upload ∧
      c.operation = false
    rw [hop, hd]
    exact ht.storage

theorem Tracks.steady {c : FtpCore} (ht : Tracks s m) (h : Steady s.core c) :
    Tracks { s with core := c } m := ht.same h.operation h.eof h.direction

/-- With no transfer nothing is outstanding. -/
theorem Tracks.idle (ht : Tracks s m) (hs : Sound s)
    (hd : s.core.direction = .idle) : m = .none := by
  have hop := (hs.clear hd).2.1
  have hoperation := ht.operation
  rw [hop] at hoperation
  have hstorage : m.storage = .none := by
    refine Option.eq_none_iff_forall_ne_some.mpr fun p hp => ?_
    have := (ht.storage p hp).2.1
    rw [hd] at this
    cases this
  obtain ⟨operation, storage⟩ := m
  cases hoperation
  cases hstorage
  rfl

theorem tracks_none (hop : s.core.operation = false) : Tracks s .none where
  operation := by
    rw [hop]
    rfl
  storage := nofun

/-- The end of an active operation is in its place. -/
theorem Tracks.ends (ht : Tracks s m) :
    Follows m (endEvents s) { m with operation := .none } := by
  have hop := ht.operation
  rw [endEvents]
  split at hop
  · next h =>
      rw [if_pos h]
      refine follows_one ?_
      show (if m.operation.map Prod.fst = some s.operation then _ else _) = _
      rw [hop]
      exact if_pos rfl
  · next h =>
      rw [if_neg h, ← hop]
      exact .nil m

/-- So is whatever closes the storage. -/
theorem Tracks.close (ht : Tracks s m) {m₁ : Pending} (hm : m₁.storage = m.storage) :
    m₁.close s.storage = some { m₁ with storage := .none } := by
  rw [Pending.close, if_neg]
  intro h
  obtain ⟨p, hp, hne⟩ := (Option.any_eq_true _ _).mp h
  rw [hm] at hp
  exact absurd (ht.storage p hp).1 (bne_iff_ne.mp hne)

/-- Without a storage there is no upload. -/
theorem Tracks.unbound (ht : Tracks s m) (hs : Sound s) (hst : s.storage = none) :
    m.storage = .none := by
  refine Option.eq_none_iff_forall_ne_some.mpr fun p hp => ?_
  have hd := (ht.storage p hp).2.1
  have hsession : s.core.session = true := by
    refine Bool.of_not_eq_false fun hc => ?_
    rw [(hs.closed hc).direction] at hd
    cases hd
  exact hs.bound hsession hst

theorem asks_next (h : Asks e) : m.next e = some m := by
  unfold Asks at h
  split at h <;> first | rfl | exact h.elim

theorem refused_next (h : Refused e) : Pending.none.next e = some .none := by
  unfold Refused at h
  split at h
  · exact if_neg h
  · next r =>
      show (if Option.isSome r = true then _ else _) = _
      rw [h]
      rfl
  · exact h.elim

/-- A teardown and a reset leave nothing outstanding. -/
theorem closing_tracks {ev : Ev} (ht : Tracks s m) (hs : Sound s)
    (hev : ∀ m : Pending, m.next ev = m.close s.storage) :
    Follows m (endEvents s ++ if s.storage = none then [] else [ev]) .none := by
  have hends := ht.ends
  split
  · next hst =>
      rw [ht.unbound hs hst] at hends
      rw [List.append_nil]
      exact hends
  · exact hends.trans (follows_one ((hev _).trans (ht.close rfl)))

theorem effect_tracks (h : Effect s tr s') (hs : Sound s) (ht : Tracks s m) :
    ∃ m', Follows m tr m' ∧ Tracks s' m' := by
  cases h with
  | steady hc => exact ⟨m, .nil m, ht.steady hc⟩
  | asks ha => exact ⟨m, follows_one (asks_next ha), ht⟩
  | refused hl hr =>
      obtain rfl := ht.idle hs hl.direction
      exact ⟨.none, follows_one (refused_next hr), ht⟩
  | torn => exact ⟨.none, closing_tracks ht hs fun _ => rfl, tracks_none rfl⟩
  | left _ => exact ⟨m, .nil m, ht.same rfl rfl rfl⟩
  | queues _ _ _ _ => exact ⟨m, follows_one rfl, ht.same rfl rfl rfl⟩
  | listens _ _ _ hc => 
      exact ⟨m, .nil m, ht.same hc.operation hc.eof hc.direction⟩
  | listening _ _ hc => exact ⟨m, .nil m, ht.same hc.operation hc.eof hc.direction⟩
  | operates hl hop hc =>
      obtain rfl := ht.idle hs hl.direction
      refine ⟨⟨some (s.operation, false), .none⟩, follows_one rfl, ?_, nofun⟩
      show _ = if FtpCore.operation _ then some (s.operation, FtpCore.eof _) else .none
      rw [hc.operation, hc.eof]
      show _ = some (s.operation, s.core.eof)
      rw [(hs.clear hl.direction).2.2]
  | uploads hl hc =>
      obtain rfl := ht.idle hs hl.direction
      have hop := hc.operation.trans (hs.clear hl.direction).2.1
      refine ⟨⟨.none, some s.storage⟩, follows_one rfl, (tracks_none hop).operation, ?_⟩
      intro p hp
      exact ⟨(Option.some.inj hp).symm, hc.direction, hop⟩
  | downloads hl hc =>
      obtain rfl := ht.idle hs hl.direction
      refine ⟨.none, .nil _, tracks_none ?_⟩
      exact hc.operation.trans (hs.clear hl.direction).2.1
  | feeds hop heof =>
      refine ⟨m, follows_one ?_, ht⟩
      have hm := ht.operation
      rw [hop, heof] at hm
      exact if_pos hm
  | ends hop hdir heof =>
      have hm := ht.operation
      rw [hop, heof] at hm
      refine ⟨{ m with operation := some (s.operation, true) }, follows_one (if_pos hm),
        ?_, ht.storage⟩
      show _ = if s.core.operation then some (s.operation, true) else .none
      rw [hop]
      rfl
  | steps hop =>
      refine ⟨m, follows_one ?_, ht⟩
      have hm := ht.operation
      rw [hop] at hm
      refine if_pos ?_
      rw [hm]
      rfl
  | closes _ hc => exact ⟨m, .nil m, ht.same hc.operation hc.eof hc.direction⟩

theorem effects_tracks (h : Effects s tr s') (hs : Sound s) (ht : Tracks s m) :
    ∃ m', Follows m tr m' ∧ Tracks s' m' := by
  induction h generalizing m with
  | refl => exact ⟨m, .nil m, ht⟩
  | cons he _ ih =>
      obtain ⟨m₁, h₁, ht₁⟩ := effect_tracks he hs ht
      obtain ⟨m', h₂, ht'⟩ := ih (effect_sound he hs) ht₁
      exact ⟨m', h₁.trans h₂, ht'⟩

/-- Whatever the accepted close of a transfer asks of the storage, the observer
accepts it. -/
theorem commits_tracks {committed : Bool} (h : Commits s tr committed)
    (ht : Tracks s m) : ∃ m', Follows m tr m' ∧ Tracks s m' := by
  cases h with
  | other _ => exact ⟨m, .nil m, ht⟩
  | short _ _ => exact ⟨m, .nil m, ht⟩
  | operated _ _ _ => exact ⟨m, .nil m, ht⟩
  | stored _ _ _ result =>
      by_cases hok : result = .ok
      · refine ⟨{ m with storage := .none }, follows_one ?_, ht.operation, nofun⟩
        exact (if_pos hok).trans (ht.close rfl)
      · exact ⟨m, follows_one (if_neg hok), ht⟩

theorem step_tracks {l : FtpLabel} (h : FtpStep s l s') (hs : Sound s)
    (ht : Tracks s m) : ∃ m', Follows m l.events m' ∧ Tracks s' m' := by
  obtain ⟨call, tr, r⟩ := l
  cases call_outcome hs h with
  | effects he _ _ _ _ _ => exact effects_tracks he hs ht
  | inits hq =>
      obtain rfl := ht.idle hs (FtpCore.quiescent_idle hq)
      exact ⟨.none, .nil _, tracks_none rfl⟩
  | binds hq =>
      have hd := FtpCore.quiescent_idle hq
      obtain rfl := ht.idle hs hd
      exact ⟨.none, .nil _, tracks_none (hs.clear hd).2.1⟩
  | resets => exact ⟨.none, closing_tracks ht hs fun _ => rfl, tracks_none rfl⟩
  | opens _ _ hc _ =>
      exact ⟨m, follows_one rfl, ht.same hc.operation hc.eof hc.direction⟩
  | consumes hc =>
      refine ⟨m, .nil m, ?_, ?_⟩
      · rw [hc.flags.operation, hc.flags.eof, hc.bound]
        exact ht.operation
      · rw [hc.flags.operation, hc.flags.direction, hc.storage]
        exact ht.storage
  | appends _ _ _ hc => exact ⟨m, follows_one rfl, ht.steady hc⟩
  | refuses _ _ _ _ he =>
      obtain ⟨m', hm, ht'⟩ := effects_tracks he hs ht
      exact ⟨m', (follows_one rfl).trans hm, ht'⟩
  | ends hup hc =>
      refine ⟨m, .nil m, ?_, ?_⟩
      · have hop := ht.operation
        rw [hup.operation] at hop
        exact hop.trans (tracks_none (hc.operation.trans hup.operation)).operation
      · show ∀ p, m.storage = some p → p = s.storage ∧ FtpCore.direction _ = .upload ∧
          FtpCore.operation _ = false
        rw [hc.operation, hc.direction]
        exact ht.storage
  | completes hcommit hc _ _ _ =>
      obtain ⟨m₁, h₁, ht₁⟩ := commits_tracks hcommit ht
      have hev (m : Pending) :
          m.next (storageEv s .abort ()) = m.close s.storage := rfl
      have h₂ := closing_tracks ht₁ hs hev
      exact ⟨.none, h₁.trans (h₂.trans (follows_one rfl)), tracks_none hc.operation⟩

/-- The calls of a run into the bindings. -/
def runEvents (tr : List (FtpLabel × FtpState)) : List Ev :=
  tr.flatMap fun x => x.1.events

theorem run_tracks {tr : List (FtpLabel × FtpState)} (h : Run FtpStep s tr s')
    (hs : Sound s) (ht : Tracks s m) :
    ∃ m', Follows m (runEvents tr) m' ∧ Tracks s' m' := by
  induction h generalizing m with
  | nil => exact ⟨m, .nil m, ht⟩
  | cons hstep _ ih =>
      obtain ⟨m₁, h₁, ht₁⟩ := step_tracks hstep hs ht
      obtain ⟨m', h₂, ht'⟩ := ih (step_sound hs hstep) ht₁
      exact ⟨m', h₁.trans h₂, ht'⟩

end Tracks

/-! ## Who clears the storage -/

def clearsStorage (e : Ev) : Bool :=
  match e with
  | ⟨.storage _ .clear, _⟩ => true
  | _ => false

section Clear

variable {s s' : FtpState} {tr : List Ev} {e : Ev}

theorem plain_clear (h : Plain e) : clearsStorage e = false := by
  refine Bool.eq_false_iff.mpr fun hc => ?_
  unfold clearsStorage at hc
  split at hc
  · exact h
  · cases hc

/-- Only a reset clears the storage. -/
theorem step_clear {l : FtpLabel} (h : FtpStep s l s') (hs : Sound s)
    (he : e ∈ l.events) (hc : clearsStorage e = true) : l.call = .reset := by
  have hplain : ¬ Plain e := fun hp => by
    rw [plain_clear hp] at hc
    cases hc
  obtain ⟨call, tr, r⟩ := l
  cases call_outcome hs h with
  | effects heff _ _ _ _ _ => exact absurd (effects_plain heff e he) hplain
  | inits _ => cases he
  | binds _ => cases he
  | resets => rfl
  | opens _ _ _ _ =>
      obtain rfl := List.mem_singleton.mp he
      cases hc
  | consumes _ => cases he
  | appends _ _ _ _ =>
      obtain rfl := List.mem_singleton.mp he
      cases hc
  | refuses _ _ _ _ heff =>
      rcases List.mem_cons.mp he with rfl | he
      · cases hc
      · exact absurd (effects_plain heff e he) hplain
  | ends _ _ => cases he
  | completes hcommit _ _ _ _ =>
      rcases List.mem_append.mp he with hcom | hrest
      · cases hcommit with
        | stored _ _ _ _ =>
            obtain rfl := List.mem_singleton.mp hcom
            cases hc
        | _ => cases hcom
      rcases List.mem_append.mp hrest with htorn | hqueue
      · exact absurd (plain_tornEvents e htorn) hplain
      · obtain rfl := List.mem_singleton.mp hqueue
        cases hc

end Clear

/-- In every run whatever is begun is ended once, through the binding it was
begun through and before the next begin, and nothing is fed, stepped or ended
that was not begun. -/
theorem begin_end_paired {s : FtpState} {tr : List (FtpLabel × FtpState)}
    (h : Run FtpStep .start tr s) :
    (∃ m, Follows .none (runEvents tr) m ∧ m.operation =
      if s.core.operation then some (s.operation, s.core.eof) else none) ∧
    (∀ front b mid b' back, runEvents tr = front ++ b :: (mid ++ b' :: back) →
      begunOperation b = true → beginsOperation b' = true →
      (∀ e ∈ mid, beginsOperation e = false) → mid.countP endsOperation = 1) ∧
    (∀ front b mid b' back, runEvents tr = front ++ b :: (mid ++ b' :: back) →
      begunStorage b = true → beginsStorage b' = true →
      ∃ e ∈ mid, closesStorage e = true) ∧
    (∀ x ∈ tr, ∀ e ∈ x.1.events, clearsStorage e = true → x.1.call = .reset) ∧
    (s.core.operation = true → s.core.direction ≠ .idle) := by
  obtain ⟨m, hm, ht⟩ := run_tracks h .zero (tracks_none rfl)
  refine ⟨⟨m, hm, ht.operation⟩, ?_, ?_, ?_, fun hop => ((run_sound h).operation hop).1⟩
  · intro front b mid b' back heq hb hb' hmid
    exact ends_between (heq ▸ hm) hb hb' hmid
  · intro front b mid b' back heq hb hb'
    exact closes_between (heq ▸ hm) hb hb'
  · intro x hx e he hc
    obtain ⟨tr₁, tr₂, s₁, -, h₁, hstep, -⟩ := h.split hx
    exact step_clear hstep (run_sound h₁) he hc

/-- A board on which every call of a binding succeeds. -/
def obliging (op : FtpOp) (d : Unit) : FtpSig.Ans op × Unit :=
  match op with
  | .storage _ (.matchesName _) => (true, d)
  | .storage _ .clear => ((), d)
  | .storage _ .inspect => (.none, d)
  | .storage _ .begin => (.ok, d)
  | .storage _ (.append _) => (.ok, d)
  | .storage _ .abort => ((), d)
  | .storage _ .commit => (.ok, d)
  | .operation _ (.matchesName _ _) => (true, d)
  | .operation _ (.begin _ _) => (some .none, d)
  | .operation _ (.feed bytes) => ((.ok, bytes.length), d)
  | .operation _ .eof => (true, d)
  | .operation _ .step => (.accepted, d)
  | .operation _ .finish => ((), d)
  | .point _ => ((), d)

def pairedCalls : List FtpCall :=
  [.init ⟨0, true, 8⟩, .bindOperation (some ⟨1, true⟩), .sessionOpen 0,
   .controlSpan (ascii "USER anonymous\r\nPASS x\r\nTYPE I\r\nEPSV\r\n") 0,
   .passiveResult true none 20 0, .replyConsume 20 0, .replyConsume 20 0,
   .controlSpan (ascii "STOR fw\r\n") 0, .controlSpan (ascii "ABOR\r\nEPSV\r\n") 0,
   .passiveResult true none 20 0, .controlSpan (ascii "STOR fw\r\n") 0]

/-- An upload into an operation is aborted, and a second one is under way. -/
theorem begin_end_paired_aborted :
    ∃ tr s, Run FtpStep .start tr s ∧ (runEvents tr).countP begunOperation = 2 ∧
      (runEvents tr).countP endsOperation = 1 ∧ s.core.direction ≠ .idle ∧
      ∃ m, Follows .none (runEvents tr) m := by
  have hrun := run_play obliging .start () pairedCalls
  have hop : (played obliging .start () pairedCalls).core.operation = true := by
    decide +kernel
  have hpaired := begin_end_paired hrun
  obtain ⟨m, hm, -⟩ := hpaired.1
  refine ⟨_, _, hrun, ?_, ?_, hpaired.2.2.2.2 hop, m, hm⟩
  · decide +kernel
  · decide +kernel

end EkBareMetal.Ftp

import EkBareMetal.Ftp.Core

/-!
# What a call of the FTP core can do

Every call is a chain of a few small effects: a teardown, a queued reply, a
change of one flag, one call into a binding. `Effect` lists them, each with the
state it may happen in, and the next modules read the functions of the core as
such chains. What holds of every effect then holds of every call, and no later
proof unfolds a function of the core again.

`Sound` is the invariant the reading itself needs. Its field `room` is the one
that says a reply always finds a slot: one is kept free while a passive
listener or a transfer may still report, and one more while the listener is
being opened, because its success is reported and its connection may fail
afterwards.
-/

namespace EkBareMetal.Ftp

open Interact

abbrev Ev := Event FtpSig

def storageEv (s : FtpState) (op : StorageOp) (r : StorageSig.Ans op) : Ev :=
  ⟨.storage s.storage op, r⟩

def operationEv (s : FtpState) (op : OperationOp) (r : OperationSig.Ans op) : Ev :=
  ⟨.operation s.operation op, r⟩

def pointEv (p : FtpPoint) : Ev := ⟨.point p, ()⟩

/-! ## The invariant -/

namespace FtpCore

/-- Something may still report. -/
def pending (c : FtpCore) : Bool := c.opening || c.passive || c.direction != .idle

/-- The slots kept free. -/
def reserve (c : FtpCore) : Nat := c.opening.toNat + c.pending.toNat

/-- Nothing is under way. -/
structure Idle (c : FtpCore) : Prop where
  opening : c.opening = false
  passive : c.passive = false
  direction : c.direction = .idle
  closing : c.closing = false
  eof : c.eof = false
  operation : c.operation = false

end FtpCore

structure Sound (s : FtpState) : Prop where
  bound : s.core.session = true → s.storage ≠ none
  quitting : s.core.session = false → s.core.quitting = false
  empty : s.core.session = false → s.core.replies.count = 0
  closed : s.core.session = false → s.core.Idle
  closing : s.core.closing = true → s.core.direction ≠ .idle
  operation : s.core.operation = true →
    s.core.direction ≠ .idle ∧ s.operation ≠ none
  eof : s.core.eof = true → s.core.direction = .upload
  room : s.core.replies.count + s.core.reserve ≤ ftpReplySlots
  fits : ∀ r ∈ s.core.replies.contents,
    r.offset ≤ r.length ∧ r.length ≤ ftpReplyCapacity

/-- The record differs in nothing the invariants speak of. -/
structure Steady (c c' : FtpCore) : Prop where
  session : c'.session = c.session
  quitting : c.session = false → c'.quitting = c.quitting
  opening : c'.opening = c.opening
  passive : c'.passive = c.passive
  closing : c'.closing = c.closing
  eof : c'.eof = c.eof
  direction : c'.direction = c.direction
  operation : c'.operation = c.operation
  replies : c'.replies = c.replies

theorem Steady.refl (c : FtpCore) : Steady c c :=
  ⟨rfl, fun _ => rfl, rfl, rfl, rfl, rfl, rfl, rfl, rfl⟩

theorem Steady.trans {c c' c'' : FtpCore} (h : Steady c c') (h' : Steady c' c'') :
    Steady c c'' where
  session := h'.session.trans h.session
  quitting := fun hs =>
    (h'.quitting (h.session.trans hs)).trans (h.quitting hs)
  opening := h'.opening.trans h.opening
  passive := h'.passive.trans h.passive
  closing := h'.closing.trans h.closing
  eof := h'.eof.trans h.eof
  direction := h'.direction.trans h.direction
  operation := h'.operation.trans h.operation
  replies := h'.replies.trans h.replies

theorem Steady.idle {c c' : FtpCore} (h : Steady c c') (hc : c.Idle) : c'.Idle :=
  ⟨h.opening.trans hc.opening, h.passive.trans hc.passive,
    h.direction.trans hc.direction, h.closing.trans hc.closing,
    h.eof.trans hc.eof, h.operation.trans hc.operation⟩

theorem Steady.reserve {c c' : FtpCore} (h : Steady c c') :
    c'.reserve = c.reserve := by
  rw [FtpCore.reserve, FtpCore.reserve, FtpCore.pending, FtpCore.pending, h.opening,
    h.passive, h.direction]

theorem Sound.steady {s : FtpState} {c : FtpCore} (hs : Sound s)
    (h : Steady s.core c) : Sound { s with core := c } where
  bound := fun hc => hs.bound (h.session.symm.trans hc)
  quitting := fun hc => by
    have hc' := h.session.symm.trans hc
    exact (h.quitting hc').trans (hs.quitting hc')
  empty := fun hc => by
    show c.replies.count = 0
    rw [h.replies]
    exact hs.empty (h.session.symm.trans hc)
  closed := fun hc => h.idle (hs.closed (h.session.symm.trans hc))
  closing := fun hc => by
    show c.direction ≠ .idle
    rw [h.direction]
    exact hs.closing (h.closing.symm.trans hc)
  operation := fun hc => by
    show c.direction ≠ .idle ∧ s.operation ≠ none
    rw [h.direction]
    exact hs.operation (h.operation.symm.trans hc)
  eof := fun hc => h.direction.trans (hs.eof (h.eof.symm.trans hc))
  room := by
    show c.replies.count + c.reserve ≤ _
    rw [h.replies, h.reserve]
    exact hs.room
  fits := by
    show ∀ r ∈ c.replies.contents, _
    rw [h.replies]
    exact hs.fits

/-! ## The effects -/

/-- A call that asks and changes nothing. -/
def Asks (e : Ev) : Prop :=
  match e with
  | ⟨.storage _ (.matchesName _), _⟩ => True
  | ⟨.storage _ .inspect, _⟩ => True
  | ⟨.operation _ (.matchesName _ _), _⟩ => True
  | _ => False

/-- A begin that is refused. -/
def Refused (e : Ev) : Prop :=
  match e with
  | ⟨.storage _ .begin, r⟩ => r ≠ FtpStorageResult.ok
  | ⟨.operation _ (.begin _ _), r⟩ => r = (none : Option FtpStorageView)
  | _ => False

def endEvents (s : FtpState) : List Ev :=
  if s.core.operation then [operationEv s .finish ()] else []

/-- The calls of a teardown. -/
def tornEvents (s : FtpState) : List Ev :=
  endEvents s ++ if s.storage = none then [] else [storageEv s .abort ()]

def resetEvents (s : FtpState) : List Ev :=
  endEvents s ++ if s.storage = none then [] else [storageEv s .clear ()]

/-- The state before a transfer: a listener, and nothing else. -/
structure Listening (s : FtpState) : Prop where
  session : s.core.session = true
  opening : s.core.opening = false
  passive : s.core.passive = true
  direction : s.core.direction = .idle

/-- The code of the reply to a transfer that has succeeded. -/
def Announces (text : List UInt8) : Prop := text.take 3 = ascii "226"

instance (text : List UInt8) : Decidable (Announces text) :=
  inferInstanceAs (Decidable (_ = _))

/-- A text that fits its slot, and does not announce a success. -/
structure Fits (text : List UInt8) : Prop where
  capacity : text.length ≤ ftpReplyCapacity
  other : ¬ Announces text

instance (text : List UInt8) : Decidable (Fits text) :=
  decidable_of_iff (text.length ≤ ftpReplyCapacity ∧ ¬ Announces text)
    ⟨fun h => ⟨h.1, h.2⟩, fun h => ⟨h.1, h.2⟩⟩

inductive Effect : FtpState → List Ev → FtpState → Prop where
  | steady {s : FtpState} {c : FtpCore} (h : Steady s.core c) :
      Effect s [] { s with core := c }
  | asks {s : FtpState} {e : Ev} (h : Asks e) : Effect s [e] s
  | refused {s : FtpState} {e : Ev} (hl : Listening s) (h : Refused e) :
      Effect s [e] s
  | torn (s : FtpState) :
      Effect s (tornEvents s) { s with core := s.core.torn }
  | left {s : FtpState} (h : s.core.Idle) :
      Effect s [] { s with core := s.core.left }
  | queues {s : FtpState} {text : List UInt8} {start : Bool} {now : UInt32}
      (h : s.core.session = true)
      (hroom : s.core.replies.count + 1 + s.core.reserve ≤ ftpReplySlots)
      (hfit : Fits text) (hlt) :
      Effect s [pointEv (.queued text)]
        { s with core := s.core.queue text start now hlt }
  | listens {s : FtpState} {c : FtpCore} (h : s.core.session = true)
      (hidle : s.core.Idle) (hroom : s.core.replies.count + 2 ≤ ftpReplySlots)
      (hc : Steady { s.core with opening := true } c) :
      Effect s [] { s with core := c }
  | listening {s : FtpState} {c : FtpCore} (h : s.core.session = true)
      (ho : s.core.opening = true)
      (hc : Steady { s.core with opening := false, passive := true } c) :
      Effect s [] { s with core := c }
  | operates {s : FtpState} {c : FtpCore} {name : List UInt8} {upload : Bool}
      {view : FtpStorageView} (h : Listening s) (hop : s.operation ≠ none)
      (hc : Steady { s.core with
        operation := true
        direction := if upload then .upload else .download } c) :
      Effect s [operationEv s (.begin name upload) (some view)]
        { s with core := c }
  | uploads {s : FtpState} {c : FtpCore} (h : Listening s)
      (hc : Steady { s.core with direction := .upload } c) :
      Effect s [storageEv s .begin .ok] { s with core := c }
  | downloads {s : FtpState} {c : FtpCore} (h : Listening s)
      (hc : Steady { s.core with direction := .download } c) :
      Effect s [] { s with core := c }
  | feeds {s : FtpState} {bytes : List UInt8} {r : FtpOperationResult × Nat}
      (hop : s.core.operation = true) (heof : s.core.eof = false) :
      Effect s [operationEv s (.feed bytes) r] s
  | ends {s : FtpState} {done : Bool} (hop : s.core.operation = true)
      (hdir : s.core.direction = .upload) (heof : s.core.eof = false) :
      Effect s [operationEv s .eof done]
        { s with core := { s.core with eof := true } }
  | steps {s : FtpState} {r : FtpOperationResult} (hop : s.core.operation = true) :
      Effect s [operationEv s .step r] s
  | closes {s : FtpState} {c : FtpCore} (hdir : s.core.direction ≠ .idle)
      (hc : Steady { s.core with closing := true } c) :
      Effect s [] { s with core := c }

inductive Effects : FtpState → List Ev → FtpState → Prop where
  | refl (s : FtpState) : Effects s [] s
  | cons {s s₁ s' : FtpState} {tr tr' : List Ev} (h : Effect s tr s₁)
      (hs : Effects s₁ tr' s') : Effects s (tr ++ tr') s'

theorem Effect.effects {s s' : FtpState} {tr : List Ev} (h : Effect s tr s') :
    Effects s tr s' := by
  have hs := Effects.cons h (.refl s')
  rw [List.append_nil] at hs
  exact hs

theorem Effects.trans {s s₁ s' : FtpState} {tr tr' : List Ev}
    (h : Effects s tr s₁) (h' : Effects s₁ tr' s') : Effects s (tr ++ tr') s' := by
  induction h with
  | refl s => exact h'
  | cons he _ ih =>
      rw [List.append_assoc]
      exact .cons he (ih h')

/-- The same chain from a record that differs in nothing of note. -/
theorem Effects.from_steady {s s' : FtpState} {c : FtpCore} {tr : List Ev}
    (h : Effects { s with core := c } tr s') (hc : Steady s.core c) :
    Effects s tr s' := .cons (.steady hc) h

theorem Effects.then_steady {s s' : FtpState} {c : FtpCore} {tr : List Ev}
    (h : Effects s tr s') (hc : Steady s'.core c) :
    Effects s tr { s' with core := c } := by
  have hs := h.trans (Effect.steady hc).effects
  rw [List.append_nil] at hs
  exact hs

/-- No effect touches the bindings. -/
theorem Effect.bound {s s' : FtpState} {tr : List Ev} (h : Effect s tr s') :
    s'.storage = s.storage ∧ s'.operation = s.operation := by
  cases h <;> exact ⟨rfl, rfl⟩

theorem Effects.bound {s s' : FtpState} {tr : List Ev} (h : Effects s tr s') :
    s'.storage = s.storage ∧ s'.operation = s.operation := by
  induction h with
  | refl => exact ⟨rfl, rfl⟩
  | cons he _ ih => exact ⟨ih.1.trans he.bound.1, ih.2.trans he.bound.2⟩

/-! ## The events of an effect -/

/-- No storage is written, published or cleared, no slot is missing, and no
success is announced. -/
def Plain (e : Ev) : Prop :=
  match e with
  | ⟨.storage _ (.append _), _⟩ => False
  | ⟨.storage _ .commit, _⟩ => False
  | ⟨.storage _ .clear, _⟩ => False
  | ⟨.point (.queued text), _⟩ => ¬ Announces text
  | ⟨.point _, _⟩ => False
  | _ => True

section Plain

variable {s s' : FtpState} {tr : List Ev} {e : Ev}

theorem plain_asks (h : Asks e) : Plain e := by
  unfold Asks at h
  split at h <;> trivial

theorem plain_refused (h : Refused e) : Plain e := by
  unfold Refused at h
  split at h <;> trivial

theorem plain_endEvents : ∀ e ∈ endEvents s, Plain e := by
  rw [endEvents]
  split
  · exact List.forall_mem_singleton.mpr trivial
  · exact List.forall_mem_nil _

theorem plain_tornEvents : ∀ e ∈ tornEvents s, Plain e := by
  rw [tornEvents]
  refine List.forall_mem_append.mpr ⟨plain_endEvents, ?_⟩
  split
  · exact List.forall_mem_nil _
  · exact List.forall_mem_singleton.mpr trivial

theorem effect_plain (h : Effect s tr s') : ∀ e ∈ tr, Plain e := by
  cases h with
  | asks ha => exact List.forall_mem_singleton.mpr (plain_asks ha)
  | refused _ hr => exact List.forall_mem_singleton.mpr (plain_refused hr)
  | torn => exact plain_tornEvents
  | queues _ _ hfit _ => exact List.forall_mem_singleton.mpr hfit.other
  | operates _ _ _ => exact List.forall_mem_singleton.mpr trivial
  | uploads _ _ => exact List.forall_mem_singleton.mpr trivial
  | feeds _ _ => exact List.forall_mem_singleton.mpr trivial
  | ends _ _ _ => exact List.forall_mem_singleton.mpr trivial
  | steps _ => exact List.forall_mem_singleton.mpr trivial
  | _ => exact List.forall_mem_nil _

theorem effects_plain (h : Effects s tr s') : ∀ e ∈ tr, Plain e := by
  induction h with
  | refl => exact List.forall_mem_nil _
  | cons he _ ih => exact List.forall_mem_append.mpr ⟨effect_plain he, ih⟩

end Plain

/-! ## The invariant is kept -/

section Sound

variable {s s' : FtpState}

/-- With nothing under way there is nothing else to show. -/
theorem sound_idle {s : FtpState} (hb : s.core.session = true → s.storage ≠ none)
    (hq : s.core.session = false → s.core.quitting = false)
    (he : s.core.session = false → s.core.replies.count = 0)
    (hidle : s.core.Idle)
    (hfits : ∀ r ∈ s.core.replies.contents,
      r.offset ≤ r.length ∧ r.length ≤ ftpReplyCapacity) : Sound s where
  bound := hb
  quitting := hq
  empty := he
  closed := fun _ => hidle
  closing := fun h => absurd h (by rw [hidle.closing]; decide)
  operation := fun h => absurd h (by rw [hidle.operation]; decide)
  eof := fun h => absurd h (by rw [hidle.eof]; decide)
  room := by
    rw [FtpCore.reserve, FtpCore.pending, hidle.opening, hidle.passive,
      hidle.direction]
    exact s.core.replies.count_le
  fits := hfits

theorem FtpCore.idle_torn (c : FtpCore) : c.torn.Idle :=
  ⟨rfl, rfl, rfl, rfl, rfl, rfl⟩

theorem FtpCore.idle_zero : FtpCore.zero.Idle := ⟨rfl, rfl, rfl, rfl, rfl, rfl⟩

theorem contents_torn (c : FtpCore) :
    c.torn.replies.contents =
      c.replies.contents.map fun r => { r with start := false } :=
  RingBuffer.contents_map _ _

theorem Sound.torn (h : Sound s) : Sound { s with core := s.core.torn } := by
  refine sound_idle h.bound h.quitting h.empty s.core.idle_torn ?_
  intro r hr
  rw [contents_torn] at hr
  obtain ⟨r', hr', rfl⟩ := List.mem_map.mp hr
  exact h.fits r' hr'

theorem Sound.left (h : s.core.Idle) : Sound { s with core := s.core.left } :=
  sound_idle nofun (fun _ => rfl) (fun _ => rfl)
    ⟨h.opening, h.passive, h.direction, h.closing, h.eof, h.operation⟩ nofun

theorem Sound.zero {storage : Option FtpStorage} {operation : Option FtpOperation} :
    Sound ⟨storage, operation, .zero⟩ :=
  sound_idle nofun (fun _ => rfl) (fun _ => rfl) FtpCore.idle_zero nofun

/-- With no transfer the flags of one are clear. -/
theorem Sound.clear (h : Sound s) (hd : s.core.direction = .idle) :
    s.core.closing = false ∧ s.core.operation = false ∧ s.core.eof = false := by
  refine ⟨?_, ?_, ?_⟩
  · exact Bool.eq_false_iff.mpr fun hc => h.closing hc hd
  · exact Bool.eq_false_iff.mpr fun hc => (h.operation hc).1 hd
  · refine Bool.eq_false_iff.mpr fun hc => ?_
    have := h.eof hc
    rw [hd] at this
    cases this

theorem Sound.queue (h : Sound s) {text : List UInt8} {start : Bool} {now : UInt32}
    (hs : s.core.session = true)
    (hroom : s.core.replies.count + 1 + s.core.reserve ≤ ftpReplySlots)
    (hfit : text.length ≤ ftpReplyCapacity) (hlt) :
    Sound { s with core := s.core.queue text start now hlt } where
  bound := h.bound
  quitting := h.quitting
  empty := fun hc => by
    rw [show s.core.session = false from hc] at hs
    cases hs
  closed := fun hc => by
    rw [show s.core.session = false from hc] at hs
    cases hs
  closing := h.closing
  operation := h.operation
  eof := h.eof
  room := hroom
  fits := by
    intro r hr
    rw [show (s.core.queue text start now hlt).replies =
      s.core.replies.push ⟨text, 0, start⟩ hlt from rfl,
      RingBuffer.contents_push] at hr
    rcases List.mem_append.mp hr with hr | hr
    · exact h.fits r hr
    · obtain rfl := List.mem_singleton.mp hr
      exact ⟨Nat.zero_le _, hfit⟩

/-- In a session what the flags say is all there is to show. -/
theorem sound_session {s : FtpState} (hs : s.core.session = true)
    (hb : s.storage ≠ none)
    (hclosing : s.core.closing = true → s.core.direction ≠ .idle)
    (hop : s.core.operation = true →
      s.core.direction ≠ .idle ∧ s.operation ≠ none)
    (heof : s.core.eof = true → s.core.direction = .upload)
    (hroom : s.core.replies.count + s.core.reserve ≤ ftpReplySlots)
    (hfits : ∀ r ∈ s.core.replies.contents,
      r.offset ≤ r.length ∧ r.length ≤ ftpReplyCapacity) : Sound s where
  bound := fun _ => hb
  quitting := fun hc => by rw [hs] at hc; cases hc
  empty := fun hc => by rw [hs] at hc; cases hc
  closed := fun hc => by rw [hs] at hc; cases hc
  closing := hclosing
  operation := hop
  eof := heof
  room := hroom
  fits := hfits

/-- A listener already keeps the slot that a transfer keeps. -/
theorem Listening.reserve (hl : Listening s) {c : FtpCore}
    (ho : c.opening = s.core.opening) (hp : c.passive = s.core.passive) :
    c.reserve = s.core.reserve := by
  rw [FtpCore.reserve, FtpCore.reserve, FtpCore.pending, FtpCore.pending, ho, hp,
    hl.opening, hl.passive]
  rfl

theorem Sound.direct (h : Sound s) (hl : Listening s) {dir : FtpDirection}
    {op : Bool} (hop : op = true → dir ≠ .idle ∧ s.operation ≠ none) :
    Sound { s with core := { s.core with operation := op, direction := dir } } := by
  obtain ⟨hclosing, -, heof⟩ := h.clear hl.direction
  refine sound_session hl.session (h.bound hl.session) (fun hc => ?_) hop
    (fun hc => ?_) ?_ h.fits
  · rw [show s.core.closing = true from hc] at hclosing
    cases hclosing
  · rw [show s.core.eof = true from hc] at heof
    cases heof
  · show s.core.replies.count + FtpCore.reserve _ ≤ _
    rw [hl.reserve (by rfl) (by rfl)]
    exact h.room

theorem FtpCore.quiescent_idle {c : FtpCore} (h : c.quiescent = true) :
    c.direction = .idle := by
  simp only [FtpCore.quiescent, Bool.not_eq_true', Bool.or_eq_false_iff,
    bne_eq_false_iff_eq] at h
  exact h.2

theorem effect_sound {tr : List Ev} (he : Effect s tr s') (h : Sound s) :
    Sound s' := by
  cases he with
  | steady hc => exact h.steady hc
  | asks _ => exact h
  | refused _ _ => exact h
  | torn => exact h.torn
  | left hidle => exact .left hidle
  | queues hs hroom hfit hlt => exact h.queue hs hroom hfit.capacity hlt
  | listens hs hidle hroom hc =>
      have hflag : Sound { s with core := { s.core with opening := true } } := by
        refine sound_session hs (h.bound hs) h.closing h.operation h.eof ?_ h.fits
        rw [FtpCore.reserve, FtpCore.pending]
        exact hroom
      exact hflag.steady hc
  | listening hs ho hc =>
      have hroom := h.room
      rw [FtpCore.reserve, FtpCore.pending, ho] at hroom
      have hflag : Sound { s with
          core := { s.core with opening := false, passive := true } } := by
        refine sound_session hs (h.bound hs) h.closing h.operation h.eof ?_ h.fits
        rw [FtpCore.reserve, FtpCore.pending]
        simp only [Bool.true_or, Bool.toNat_true] at hroom
        simp only [Bool.true_or, Bool.or_true, Bool.toNat_true, Bool.toNat_false]
        omega
      exact hflag.steady hc
  | operates hl hop hc =>
      refine (@Sound.direct _ h hl _ true fun _ => ⟨?_, hop⟩).steady hc
      split <;> decide
  | uploads hl hc =>
      have hop := (h.clear hl.direction).2.1
      have hflag := @Sound.direct _ h hl .upload s.core.operation
        fun hc => by rw [hop] at hc; cases hc
      exact hflag.steady hc
  | downloads hl hc =>
      have hop := (h.clear hl.direction).2.1
      have hflag := @Sound.direct _ h hl .download s.core.operation
        fun hc => by rw [hop] at hc; cases hc
      exact hflag.steady hc
  | feeds _ _ => exact h
  | ends hop hdir heof =>
      have hs : s.core.session = true := by
        refine Bool.of_not_eq_false fun hc => ?_
        have := (h.closed hc).operation
        rw [hop] at this
        cases this
      exact sound_session hs (h.bound hs) h.closing h.operation (fun _ => hdir)
        h.room h.fits
  | steps _ => exact h
  | closes hdir hc =>
      have hs : s.core.session = true := by
        refine Bool.of_not_eq_false fun hc' => hdir ?_
        exact (h.closed hc').direction
      have hflag : Sound { s with core := { s.core with closing := true } } :=
        sound_session hs (h.bound hs) (fun _ => hdir) h.operation h.eof h.room h.fits
      exact hflag.steady hc

end Sound

theorem effects_sound {s s' : FtpState} {tr : List Ev} (he : Effects s tr s')
    (h : Sound s) : Sound s' := by
  induction he with
  | refl => exact h
  | cons he _ ih => exact ih (effect_sound he h)

end EkBareMetal.Ftp

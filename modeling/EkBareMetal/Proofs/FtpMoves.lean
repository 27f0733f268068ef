import EkBareMetal.Proofs.FtpFile
import EkBareMetal.Proofs.FtpHolding

/-!
# A transfer, move by move

`Effect` says of a call what the bindings and the replies see of it. What a
transfer goes through lies below it: the mark on its opening reply, the data
connection, the view and how much of it is enqueued and acknowledged, and the
request to close. `Move` lists the changes of these, and `Acts` says that every
call is a chain of moves or one of a few calls of which more is said.
-/

namespace EkBareMetal.Ftp

open Interact Transition

/-- The close of the data connection is among the requested actions. -/
def FtpCore.closeAsked (c : FtpCore) : Prop := c.actions &&& ftpCloseData ≠ 0

/-- The record differs in nothing a transfer goes through, and asks for no
close that was not asked for. -/
structure Minor (c c' : FtpCore) : Prop where
  session : c'.session = c.session
  opening : c'.opening = c.opening
  passive : c'.passive = c.passive
  connected : c'.connected = c.connected
  ready : c'.ready = c.ready
  closing : c'.closing = c.closing
  direction : c'.direction = c.direction
  operation : c'.operation = c.operation
  download : c'.download = c.download
  enqueued : c'.enqueued = c.enqueued
  acked : c'.acked = c.acked
  replies : c'.replies = c.replies
  close : c'.closeAsked → c.closeAsked

theorem Minor.refl (c : FtpCore) : Minor c c :=
  ⟨rfl, rfl, rfl, rfl, rfl, rfl, rfl, rfl, rfl, rfl, rfl, rfl, id⟩

/-- What a transfer asks of the bindings before its reply is queued, and the
record then. A download of the storage is of the view that was just shown. -/
inductive Begins (s : FtpState) : Bool → FtpStorageView → List Ev → FtpCore → Prop where
  | operation {name : List UInt8} {upload : Bool} {view : FtpStorageView}
      (hop : s.operation ≠ none) :
      Begins s upload view [operationEv s (.begin name upload) (some view)]
        { s.core with operation := true }
  | upload {view : FtpStorageView} : Begins s true view [storageEv s .begin .ok] s.core
  | download {view : FtpStorageView} {front back : List Ev}
      (hfront : ∀ e ∈ front, Asks e) (hback : ∀ e ∈ back, Asks e)
      (hpresent : view.present = true) :
      Begins s false view (front ++ storageEv s .inspect view :: back) s.core

/-- What an upload asks of the bindings. -/
def Feeding (e : Ev) : Prop :=
  match e with
  | ⟨.storage _ (.append _), _⟩ => True
  | ⟨.operation _ (.feed _), _⟩ => True
  | ⟨.operation _ .eof, _⟩ => True
  | ⟨.operation _ .step, _⟩ => True
  | _ => False

inductive Move : FtpState → List Ev → FtpState → Prop where
  | minor {s : FtpState} {c : FtpCore} (h : Minor s.core c) :
      Move s [] { s with core := c }
  | asks {s : FtpState} {e : Ev} (h : Asks e) : Move s [e] s
  | refused {s : FtpState} {e : Ev} (h : Refused e) (hd : s.core.direction = .idle) :
      Move s [e] s
  | uploads {s : FtpState} {e : Ev} (h : Feeding e) (hd : s.core.direction = .upload) :
      Move s [e] s
  | torn (s : FtpState) : Move s (tornEvents s) { s with core := s.core.torn }
  | left {c : FtpCore} {s : FtpState} (h : s.core = c.torn) :
      Move s [] { s with core := s.core.left }
  | queues {s : FtpState} {text : List UInt8} {now : UInt32} (hfit : Fits text)
      (hne : text ≠ openingText) (hlt : s.core.replies.count < ftpReplySlots) :
      Move s [pointEv (.queued text)] { s with core := s.core.queue text false now hlt }
  | starts {s : FtpState} {upload : Bool} {view : FtpStorageView} {now : UInt32}
      {ev : List Ev} {c : FtpCore} (hp : s.core.passive = true)
      (ho : s.core.opening = false) (hd : s.core.direction = .idle)
      (hb : Begins s upload view ev c) (hlt : c.replies.count < ftpReplySlots) :
      Move s (ev ++ [pointEv (.queued openingText)])
        { s with core := (c.started upload view now).queue openingText true now hlt }
  | listens {s : FtpState} {c : FtpCore} (hidle : s.core.Idle)
      (hc : Minor { s.core with opening := true } c) : Move s [] { s with core := c }
  | closes {s : FtpState} {c : FtpCore} (hd : s.core.direction ≠ .idle)
      (hfirst : s.core.closing = false ∨ s.core.operation = true)
      (hdone : s.core.direction = .download →
        s.core.enqueued = s.core.download.length ∧ s.core.acked = s.core.download.length)
      (hc : Minor { s.core with
        closing := true
        actions := s.core.actions ||| ftpCloseData } c) :
      Move s [] { s with core := c }

inductive Moves : FtpState → List Ev → FtpState → Prop where
  | refl (s : FtpState) : Moves s [] s
  | cons {s s₁ s' : FtpState} {tr tr' : List Ev} (h : Move s tr s₁)
      (hs : Moves s₁ tr' s') : Moves s (tr ++ tr') s'

theorem Move.moves {s s' : FtpState} {tr : List Ev} (h : Move s tr s') :
    Moves s tr s' := by
  have hs := Moves.cons h (.refl s')
  rw [List.append_nil] at hs
  exact hs

theorem Moves.trans {s s₁ s' : FtpState} {tr tr' : List Ev} (h : Moves s tr s₁)
    (h' : Moves s₁ tr' s') : Moves s (tr ++ tr') s' := by
  induction h with
  | refl s => exact h'
  | cons hm _ ih =>
      rw [List.append_assoc]
      exact .cons hm (ih h')

/-- The same chain from a record that differs in nothing of note. -/
theorem Moves.from_minor {s s' : FtpState} {c : FtpCore} {tr : List Ev}
    (h : Moves { s with core := c } tr s') (hc : Minor s.core c) : Moves s tr s' :=
  .cons (.minor hc) h

theorem Moves.then_minor {s s' : FtpState} {c : FtpCore} {tr : List Ev}
    (h : Moves s tr s') (hc : Minor s'.core c) : Moves s tr { s' with core := c } := by
  have hs := h.trans (Move.minor hc).moves
  rw [List.append_nil] at hs
  exact hs

theorem moves_asks {s : FtpState} {tr : List Ev} (h : ∀ e ∈ tr, Asks e) : Moves s tr s := by
  induction tr with
  | nil => exact .refl s
  | cons e tr ih =>
      exact .cons (.asks (h e List.mem_cons_self))
        (ih fun e' he => h e' (List.mem_cons_of_mem _ he))

theorem not_closeAsked_torn (c : FtpCore) : ¬ c.torn.closeAsked := by
  intro h
  rw [FtpCore.closeAsked, FtpCore.torn] at h
  exact h (bit_clear (by decide))

/-! ## Replies and teardowns -/

section Replies

variable {s s' : FtpState} {tr : List Ev} {text : List UInt8} {now : UInt32}

theorem ne_opening (h : text.head? ≠ some 0x31) : text ≠ openingText := by
  rintro rfl
  exact h (by decide)

theorem answer_moves (hlt : s.core.replies.count < ftpReplySlots) (hfit : Fits text)
    (hne : text ≠ openingText) (hr : Runs (answer s text now) tr s') :
    Moves s tr s' := by
  obtain ⟨tr₁, ⟨b, s₁⟩, tr₂, rfl, h₁, h₂⟩ := runs_bind_iff'.mp hr
  obtain ⟨rfl, rfl⟩ := runs_pure_iff.mp h₂
  obtain ⟨rfl, -, rfl⟩ := reply_runs hlt h₁
  rw [List.append_nil]
  exact (Move.queues hfit hne hlt).moves

theorem failure_moves (hlt : s.core.replies.count < ftpReplySlots) (hfit : Fits text)
    (hne : text ≠ openingText) (hr : Runs (failure s text now) tr s') :
    Moves s tr s' := by
  obtain ⟨tr₁, s₁, tr₂, rfl, h₁, h₂⟩ := runs_bind_iff'.mp hr
  obtain ⟨rfl, rfl⟩ := teardown_runs h₁
  exact .cons (.torn s) (answer_moves hlt hfit hne h₂)

/-- The end of a step of a transfer: it fails. -/
theorem Sound.fails_moves (hs : Sound s) (hd : s.core.direction ≠ .idle)
    (hfit : Fits text) (hne : text ≠ openingText)
    (hr : Runs (failure s text now) tr s') : Moves s tr s' := by
  refine failure_moves (hs.lt ?_) hfit hne hr
  rw [FtpCore.pending, bne_iff_ne.mpr hd, Bool.or_true]

theorem lost_moves (h : Runs (lost s) tr s') : Moves s tr s' := by
  unfold lost at h
  split at h
  · obtain ⟨rfl, rfl⟩ := runs_pure_iff.mp h
    exact .refl _
  · obtain ⟨tr₁, s₁, tr₂, rfl, h₁, h₂⟩ := runs_bind_iff'.mp h
    obtain ⟨rfl, rfl⟩ := teardown_runs h₁
    obtain ⟨rfl, rfl⟩ := runs_pure_iff.mp h₂
    have hleft : Move { s with core := s.core.torn } [] _ := .left rfl
    exact .cons (.torn s) hleft.moves

end Replies

/-! ## Control input -/

section Commands

variable {s s' : FtpState} {tr : List Ev} {line arg : List UInt8} {now : UInt32}

/-- The opening reply, behind what the transfer asked of the bindings. -/
theorem openTransfer_moves {upload : Bool} {view : FtpStorageView} {ev : List Ev}
    {c : FtpCore} (h : Ready s) (hl : Listening s) (hb : Begins s upload view ev c)
    (hq : c.replies = s.core.replies)
    (hr : Runs (openTransfer { s with core := c } upload view now) tr s') :
    Moves s (ev ++ tr) s' := by
  obtain ⟨tr₁, ⟨b, s₁⟩, tr₂, rfl, h₁, h₂⟩ := runs_bind_iff'.mp hr
  obtain ⟨rfl, rfl⟩ := runs_pure_iff.mp h₂
  have hlt : c.replies.count < ftpReplySlots := by
    rw [hq]
    exact h.lt
  obtain ⟨rfl, -, rfl⟩ := reply_runs (by exact hlt) h₁
  rw [List.append_nil]
  exact (Move.starts hl.passive hl.opening hl.direction hb hlt).moves

/-- `front` and `back` are what was asked around the view, before the transfer
was let through. -/
theorem startTransfer_moves {upload special : Bool} {view : FtpStorageView}
    {asked : List Ev} (h : Ready s) (hl : Listening s) (hasked : ∀ e ∈ asked, Asks e)
    (hop : special = true → s.operation ≠ none)
    (hview : special = false → upload = false → ∃ front back,
      asked = front ++ storageEv s .inspect view :: back ∧ view.present = true)
    (hr : Runs (startTransfer s arg upload special view now) tr s') :
    Moves s (asked ++ tr) s' := by
  unfold startTransfer at hr
  split at hr
  · next hspecial =>
      obtain ⟨result, rest, rfl, hk⟩ := runs_ask_iff.mp hr
      refine (moves_asks hasked).trans ?_
      cases result with
      | none =>
          have hrefused : Move s [operationEv s (.begin arg upload) none] s :=
            .refused rfl hl.direction
          exact .cons hrefused (failure_moves h.lt (by decide) (by decide) hk)
      | some view => exact openTransfer_moves h hl (.operation (hop hspecial)) rfl hk
  next hspecial =>
  rw [Bool.not_eq_true] at hspecial
  split at hr
  · next hup =>
      rw [hup] at hr
      obtain ⟨result, rest, rfl, hk⟩ := runs_ask_iff.mp hr
      refine (moves_asks hasked).trans ?_
      split at hk
      · next hne =>
          have hrefused : Move s [storageEv s .begin result] s :=
            .refused hne hl.direction
          exact .cons hrefused (failure_moves h.lt (by decide) (by decide) hk)
      · next hok =>
          obtain rfl := not_not.mp hok
          exact openTransfer_moves h hl .upload rfl hk
  · next hup =>
      rw [Bool.not_eq_true] at hup
      rw [hup] at hr
      obtain ⟨front, back, rfl, hpresent⟩ := hview hspecial hup
      have hfront := List.forall_mem_append.mp hasked
      exact openTransfer_moves h hl
        (.download hfront.1 (fun e he => hfront.2 e (List.mem_cons_of_mem _ he))
          hpresent) rfl hr

theorem operationMatches_asks {upload special : Bool}
    (h : Runs (operationMatches s arg upload) tr special) : ∀ e ∈ tr, Asks e := by
  unfold operationMatches at h
  split at h
  · obtain ⟨rfl, -⟩ := runs_pure_iff.mp h
    exact List.forall_mem_nil _
  · obtain ⟨answer, rest, rfl, hk⟩ := runs_call_iff.mp h
    obtain ⟨rfl, -⟩ := runs_ret_iff.mp hk
    exact List.forall_mem_singleton.mpr trivial

theorem viewUnless_asks {special : Bool} {view : FtpStorageView}
    (h : Runs (viewUnless s special) tr view) :
    tr = if special then [] else [storageEv s .inspect view] := by
  unfold viewUnless at h
  split at h
  · next hspecial =>
      rw [if_pos hspecial]
      exact (runs_pure_iff.mp h).1
  · next hspecial =>
      obtain ⟨answer, rest, rfl, hk⟩ := runs_call_iff.mp h
      obtain ⟨rfl, rfl⟩ := runs_ret_iff.mp hk
      rw [if_neg hspecial]
      rfl

theorem unavailable_asks {upload special refused : Bool} {view : FtpStorageView}
    (h : Runs (unavailable s arg upload special view) tr refused) :
    (∀ e ∈ tr, Asks e) ∧
      (special = false → upload = false → refused = false → view.present = true) := by
  unfold unavailable at h
  split at h
  · next hspecial =>
      obtain ⟨rfl, rfl⟩ := runs_pure_iff.mp h
      refine ⟨List.forall_mem_nil _, fun hs => ?_⟩
      rw [hspecial] at hs
      cases hs
  · obtain ⟨answer, rest, rfl, hk⟩ := runs_ask_iff.mp h
    obtain ⟨rfl, rfl⟩ := runs_pure_iff.mp hk
    refine ⟨List.forall_mem_singleton.mpr trivial, fun _ hup href => ?_⟩
    rw [hup, Bool.not_false, Bool.true_and, Bool.or_eq_false_iff] at href
    simpa using href.2

theorem commandTransfer_moves (h : Ready s) (hd : s.core.direction = .idle)
    {upload : Bool} (hr : Runs (commandTransfer s arg upload now) tr s') :
    Moves s tr s' := by
  obtain ⟨tr₁, special, tr', rfl, h₁, hr₁⟩ := runs_bind_iff'.mp hr
  obtain ⟨tr₂, view, tr'', rfl, h₂, hr₂⟩ := runs_bind_iff'.mp hr₁
  obtain ⟨tr₃, refused, tr₄, rfl, h₃, hr₃⟩ := runs_bind_iff'.mp hr₂
  have hview := viewUnless_asks h₂
  obtain ⟨h₃, hpresent⟩ := unavailable_asks h₃
  have hasked : ∀ e ∈ tr₁ ++ (tr₂ ++ tr₃), Asks e := by
    refine List.forall_mem_append.mpr ⟨operationMatches_asks h₁,
      List.forall_mem_append.mpr ⟨?_, h₃⟩⟩
    rw [hview]
    split
    · exact List.forall_mem_nil _
    · exact List.forall_mem_singleton.mpr trivial
  have happ : tr₁ ++ (tr₂ ++ (tr₃ ++ tr₄)) = tr₁ ++ (tr₂ ++ tr₃) ++ tr₄ := by
    rw [List.append_assoc, List.append_assoc]
  rw [happ]
  split at hr₃
  · exact (moves_asks hasked).trans (answer_moves h.lt (by decide) (by decide) hr₃)
  next hserved =>
  rw [Bool.not_eq_true] at hserved
  split at hr₃
  · exact (moves_asks hasked).trans (answer_moves h.lt (by decide) (by decide) hr₃)
  split at hr₃
  · exact (moves_asks hasked).trans (answer_moves h.lt (by decide) (by decide) hr₃)
  next hpassive =>
  rw [Bool.not_eq_true', Bool.not_eq_false] at hpassive
  refine startTransfer_moves h ⟨h.session, h.opening, hpassive, hd⟩ hasked
    (operationMatches_runs h₁).2 (fun hspecial hup => ?_) hr₃
  refine ⟨tr₁, tr₃, ?_, hpresent hspecial hup hserved⟩
  rw [hview, hspecial]
  rfl

/-- An answer after a change of no note. -/
theorem minor_answer_moves {c : FtpCore} (hc : Minor s.core c)
    (hlt : s.core.replies.count < ftpReplySlots) {text : List UInt8} (hfit : Fits text)
    (hne : text ≠ openingText) (hr : Runs (answer { s with core := c } text now) tr s') :
    Moves s tr s' := by
  refine Moves.from_minor (answer_moves ?_ hfit hne hr) hc
  show c.replies.count < _
  rw [hc.replies]
  exact hlt

/-- The listener that is asked for after a teardown. -/
theorem listens_moves {c : FtpCore} (hidle : s.core.Idle)
    (hc : Minor { s.core with opening := true } c) : Moves s [] { s with core := c } :=
  (Move.listens hidle hc).moves

theorem commandLoggedIn_moves (h : Ready s) (hd : s.core.direction = .idle)
    {verb : List UInt8} (hr : LoggedInRun s verb arg now tr s') : Moves s tr s' := by
  cases hr with
  | answers ht hr =>
      refine minor_answer_moves ?_ h.lt ht.fits ht.quiet hr
      exact ⟨rfl, rfl, rfl, rfl, rfl, rfl, rfl, rfl, rfl, rfl, rfl, rfl, id⟩
  | listens _ =>
      rw [← List.append_nil (tornEvents s)]
      refine .cons (.torn s) (listens_moves (s := { s with core := s.core.torn })
        s.core.idle_torn ?_)
      refine ⟨rfl, rfl, rfl, rfl, rfl, rfl, rfl, rfl, rfl, rfl, rfl, rfl, fun hc => ?_⟩
      rw [FtpCore.closeAsked, bit_or (by decide)] at hc
      exact hc
  | @sizes _ _ _ view served ht hr =>
      exact .cons (.asks (e := storageEv s .inspect view) trivial)
        (.cons (.asks (e := storageEv s (.matchesName arg) served) trivial)
          (answer_moves h.lt ht.fits ht.quiet hr))
  | transfers hr => exact commandTransfer_moves h hd hr

theorem command_moves (h : Ready s) (hr : Runs (command s line now) tr s') :
    Moves s tr s' := by
  cases command_cases hr with
  | answers ht hr =>
      refine minor_answer_moves ?_ h.lt ht.fits ht.quiet hr
      exact ⟨rfl, rfl, rfl, rfl, rfl, rfl, rfl, rfl, rfl, rfl, rfl, rfl, id⟩
  | tears ht hr =>
      refine .cons (.torn s) (minor_answer_moves (s := { s with core := s.core.torn })
        ?_ h.lt ht.fits ht.quiet hr)
      exact ⟨rfl, rfl, rfl, rfl, rfl, rfl, rfl, rfl, rfl, rfl, rfl, rfl, id⟩
  | loggedIn hd hr => exact commandLoggedIn_moves h hd hr

theorem executeLine_moves (h : Ready s) {p : Parser}
    (hr : Runs (executeLine s p now) tr s') : Moves s tr s' := by
  unfold executeLine at hr
  split at hr
  · exact answer_moves h.lt (by decide) (by decide) hr
  · exact command_moves h hr

theorem minor_parsed (c : FtpCore) (p : Parser) : Minor c { c with parser := p } :=
  ⟨rfl, rfl, rfl, rfl, rfl, rfl, rfl, rfl, rfl, rfl, rfl, rfl, id⟩

theorem looped_moves {bytes : List UInt8} {accepted n : Nat}
    (h : Looped now s accepted bytes tr n s') (hs : Readable s now bytes) :
    Moves s tr s' := by
  have hline : ∀ {s s₁ : FtpState} {p : Parser} {byte : UInt8} {bytes : List UInt8}
      {tr : List Ev}, Readable s now (byte :: bytes) →
      parseByte s.core.parser byte now = (true, p) →
      Runs (executeLine (s.parsing p) p now) tr s₁ → Moves s tr (s₁.parsing .zero) := by
    intro s s₁ p byte bytes tr hs hp hx
    exact ((executeLine_moves (hs.ready hp) hx).then_minor
      (minor_parsed _ _)).from_minor (minor_parsed _ _)
  induction h with
  | nil => exact .refl _
  | skip hp _ ih => exact (ih (hs.skip hp)).from_minor (minor_parsed _ _)
  | line hp hx _ ho _ ih => exact (hline hs hp hx).trans (ih (hs.line hp hx ho))
  | quits hp hx _ => exact hline hs hp hx
  | opens hp hx _ _ => exact hline hs hp hx

theorem controlSpan_moves {bytes : List UInt8} {out : FtpInput × Nat}
    (hs : Sound s) (hr : Runs (ftpCoreControlSpan s bytes now) tr (out, s')) :
    Moves s tr s' := by
  obtain ⟨r, n⟩ := out
  obtain ⟨-, -, rfl, rfl⟩ | ⟨hread, -, -, s₁, hloop, -, rfl⟩ := controlSpan_cases hs hr
  · exact .refl _
  have hmoves := looped_moves hloop hread
  split
  · exact hmoves.then_minor ⟨rfl, rfl, rfl, rfl, rfl, rfl, rfl, rfl, rfl, rfl, rfl, rfl, id⟩
  · exact hmoves

end Commands

/-! ## The data connection -/

section Data

variable {s s' : FtpState} {tr : List Ev} {now : UInt32}

theorem minor_progressed (c : FtpCore) (n : Nat) (now : UInt32) :
    Minor c (c.progressed n now) := by
  unfold FtpCore.progressed
  split
  · exact ⟨rfl, rfl, rfl, rfl, rfl, rfl, rfl, rfl, rfl, rfl, rfl, rfl, id⟩
  · exact .refl _

theorem feedOperation_moves {bytes : List UInt8} {out : FtpInput × Nat}
    (hs : Sound s) (hd : s.core.direction = .upload)
    (hr : Runs (feedOperation s bytes now) tr (out, s')) : Moves s tr s' := by
  obtain ⟨⟨r, accepted⟩, rest, rfl, hk⟩ := runs_ask_iff.mp hr
  have hfeed : Move s [operationEv s (.feed bytes) (r, accepted)] s := .uploads trivial hd
  refine .cons hfeed ?_
  dsimp only at hk
  generalize (if accepted > bytes.length then 0 else accepted) = n at hk
  generalize (if accepted > bytes.length then FtpOperationResult.error else r) = r'
    at hk
  have hc := minor_progressed s.core n now
  split at hk
  · obtain ⟨tr₁, s₁, tr₂, rfl, h₁, h₂⟩ := runs_bind_iff'.mp hk
    obtain ⟨rfl, he⟩ := runs_pure_iff.mp h₂
    cases he
    rw [List.append_nil]
    refine Moves.from_minor ((hs.steady (steady_progressed _ n now)).fails_moves ?_
      (by decide) (by decide) h₁) hc
    show (s.core.progressed n now).direction ≠ _
    rw [hc.direction, hd]
    decide
  · obtain ⟨rfl, he⟩ := runs_pure_iff.mp hk
    cases he
    exact (Move.minor hc).moves

theorem appendStorage_moves {bytes : List UInt8} {out : FtpInput × Nat}
    (hs : Sound s) (hd : s.core.direction = .upload)
    (hr : Runs (appendStorage s bytes now) tr (out, s')) : Moves s tr s' := by
  obtain ⟨result, rest, rfl, hk⟩ := runs_ask_iff.mp hr
  have happend : Move s [storageEv s (.append bytes) result] s := .uploads trivial hd
  refine .cons happend ?_
  split at hk
  · obtain ⟨tr₁, s₁, tr₂, rfl, h₁, h₂⟩ := runs_bind_iff'.mp hk
    obtain ⟨rfl, he⟩ := runs_pure_iff.mp h₂
    cases he
    rw [List.append_nil]
    refine hs.fails_moves ?_ ?_ ?_ h₁
    · rw [hd]
      decide
    · split <;> decide
    · split <;> decide
  · obtain ⟨rfl, he⟩ := runs_pure_iff.mp hk
    cases he
    exact (Move.minor (minor_progressed _ _ _)).moves

theorem uploadSpan_moves {bytes : List UInt8} {out : FtpInput × Nat} (hs : Sound s)
    (hr : Runs (ftpCoreUploadSpan s bytes now) tr (out, s')) : Moves s tr s' := by
  unfold ftpCoreUploadSpan at hr
  split at hr
  · obtain ⟨rfl, he⟩ := runs_pure_iff.mp hr
    cases he
    exact .refl _
  next h =>
  simp only [not_or, not_not, Bool.not_eq_true] at h
  split at hr
  · exact feedOperation_moves hs h.2.1 hr
  · exact appendStorage_moves hs h.2.1 hr

theorem uploadChunk_moves {bytes : List UInt8} {b : Bool} (hs : Sound s)
    (hr : Runs (ftpCoreUploadChunk s bytes now) tr (b, s')) : Moves s tr s' := by
  unfold ftpCoreUploadChunk at hr
  split at hr
  · obtain ⟨rfl, he⟩ := runs_pure_iff.mp hr
    cases he
    exact .refl _
  · obtain ⟨tr₁, ⟨out, s₁⟩, tr₂, rfl, h₁, h₂⟩ := runs_bind_iff'.mp hr
    obtain ⟨rfl, he⟩ := runs_pure_iff.mp h₂
    cases he
    rw [List.append_nil]
    exact uploadSpan_moves hs h₁

theorem transferReady_iff {c : FtpCore} : c.transferReady = true ↔
    c.direction ≠ .idle ∧ c.connected = true ∧ c.ready = true ∧ c.closing = false := by
  simp [FtpCore.transferReady, and_assoc]

/-- A close that is asked for now. -/
theorem closes_moves {c : FtpCore} (hd : s.core.direction ≠ .idle)
    (hfirst : s.core.closing = false ∨ s.core.operation = true)
    (hdone : s.core.direction = .download →
      s.core.enqueued = s.core.download.length ∧ s.core.acked = s.core.download.length)
    (hc : Minor s.core c) : Moves s [] { s with core := c.closeData now } := by
  refine Moves.from_minor (c := c) ?_ hc
  refine (Move.closes (s := { s with core := c }) ?_ ?_ ?_ ?_).moves
  · show c.direction ≠ _
    rw [hc.direction]
    exact hd
  · show c.closing = _ ∨ c.operation = _
    rw [hc.closing, hc.operation]
    exact hfirst
  · show c.direction = _ → c.enqueued = c.download.length ∧ c.acked = c.download.length
    rw [hc.direction, hc.enqueued, hc.acked, hc.download]
    exact hdone
  · exact ⟨rfl, rfl, rfl, rfl, rfl, rfl, rfl, rfl, rfl, rfl, rfl, rfl, id⟩

theorem minor_eof (c : FtpCore) : Minor c { c with eof := true } :=
  ⟨rfl, rfl, rfl, rfl, rfl, rfl, rfl, rfl, rfl, rfl, rfl, rfl, id⟩

theorem uploadEof_moves {b : Bool} (hs : Sound s)
    (hr : Runs (ftpCoreUploadEof s now) tr (b, s')) : Moves s tr s' := by
  unfold ftpCoreUploadEof at hr
  split at hr
  · obtain ⟨rfl, he⟩ := runs_pure_iff.mp hr
    cases he
    exact .refl _
  next h =>
  simp only [not_or, not_not, Bool.not_eq_true', Bool.not_eq_false] at h
  obtain ⟨hready, hdir, -⟩ := h
  have hne : s.core.direction ≠ .idle := by
    rw [hdir]
    decide
  dsimp only at hr
  split at hr
  · obtain ⟨done, rest, rfl, hk⟩ := runs_ask_iff.mp hr
    have heof : Move s [operationEv s .eof done] s := .uploads trivial hdir
    have hsound : Sound { s with core := { s.core with eof := true } } :=
      sound_session (Bool.of_not_eq_false fun hc => hne (hs.closed hc).direction)
        (upload_bound (s := s) hs hdir) hs.closing hs.operation (fun _ => hdir) hs.room hs.fits
    refine .cons heof ?_
    split at hk
    · obtain ⟨tr₁, s₁, tr₂, rfl, h₁, h₂⟩ := runs_bind_iff'.mp hk
      obtain ⟨rfl, he⟩ := runs_pure_iff.mp h₂
      cases he
      rw [List.append_nil]
      exact (hsound.fails_moves hne (by decide) (by decide) h₁).from_minor (minor_eof _)
    · obtain ⟨rfl, he⟩ := runs_pure_iff.mp hk
      cases he
      exact (Move.minor (minor_eof _)).moves
  · obtain ⟨rfl, he⟩ := runs_pure_iff.mp hr
    cases he
    refine closes_moves hne (.inl (transferReady_iff.mp hready).2.2.2) (fun hd => ?_)
      (minor_eof _)
    rw [hdir] at hd
    cases hd

theorem foreground_moves (hs : Sound s) (hr : Runs (ftpCoreForeground s now) tr s') :
    Moves s tr s' := by
  unfold ftpCoreForeground at hr
  split at hr
  · obtain ⟨rfl, rfl⟩ := runs_pure_iff.mp hr
    exact .refl _
  next h =>
  simp only [not_or, not_not, Bool.not_eq_true', Bool.not_eq_false] at h
  obtain ⟨hop, hdir, -⟩ := h
  have hne : s.core.direction ≠ .idle := by
    rw [hdir]
    decide
  obtain ⟨result, rest, rfl, hk⟩ := runs_ask_iff.mp hr
  have hstep : Move s [operationEv s .step result] s := .uploads trivial hdir
  refine .cons hstep ?_
  split at hk
  · split at hk
    · exact hs.fails_moves hne (by decide) (by decide) hk
    · obtain ⟨rfl, rfl⟩ := runs_pure_iff.mp hk
      refine closes_moves hne (.inr hop) (fun hd => ?_) ?_
      · rw [hdir] at hd
        cases hd
      · exact ⟨rfl, rfl, rfl, rfl, rfl, rfl, rfl, rfl, rfl, rfl, rfl, rfl, id⟩
  split at hk
  · exact hs.fails_moves hne (by decide) (by decide) hk
  · obtain ⟨rfl, rfl⟩ := runs_pure_iff.mp hk
    exact .refl _

/-- A download that has nothing left closes. -/
theorem downloaded_moves {c : FtpCore} (hc : Minor s.core c)
    (hready : s.core.transferReady = true) :
    Moves s [] { s with core := c.downloaded now } := by
  obtain ⟨hd, -, -, hclosing⟩ := transferReady_iff.mp hready
  unfold FtpCore.downloaded
  split
  · next hdone =>
      rw [hc.enqueued, hc.acked, hc.download] at hdone
      exact closes_moves hd (.inl hclosing) (fun _ => hdone) hc
  · exact (Move.minor hc).moves

theorem dataError_moves (hs : Sound s) (hr : Runs (ftpCoreDataError s now) tr s') :
    Moves s tr s' := by
  unfold ftpCoreDataError at hr
  split at hr
  · next hd => exact hs.fails_moves hd (by decide) (by decide) hr
  split at hr
  · next hp =>
      have hpending : s.core.pending = true := by
        rw [FtpCore.pending, Bool.or_comm s.core.opening]
        simp [hp]
      exact failure_moves (hs.lt hpending) (by decide) (by decide) hr
  · obtain ⟨rfl, rfl⟩ := runs_pure_iff.mp hr
    exact .refl _

theorem tick_moves (hs : Sound s) (hr : Runs (ftpCoreTick s now) tr s') :
    Moves s tr s' := by
  unfold ftpCoreTick at hr
  dsimp only at hr
  split at hr
  · obtain ⟨rfl, rfl⟩ := runs_pure_iff.mp hr
    exact .refl _
  split at hr
  · exact lost_moves hr
  split at hr
  · next h => exact hs.fails_moves (hs.closing h.1) (by decide) (by decide) hr
  split at hr
  · next h => exact hs.fails_moves (by rw [h.1]; decide) (by decide) (by decide) hr
  split at hr
  · next h => exact hs.fails_moves h.1 (by decide) (by decide) hr
  split at hr
  · next h => exact hs.fails_moves h.1 (by decide) (by decide) hr
  split at hr
  · next h =>
      have hpending : s.core.pending = true := by
        rw [FtpCore.pending, Bool.or_assoc]
        rcases h.1 with ho | ⟨hp, -⟩ | ⟨hp, -⟩
        · rw [ho, Bool.true_or]
        · rw [hp, Bool.true_or, Bool.or_true]
        · rw [hp, Bool.true_or, Bool.or_true]
      exact failure_moves (hs.lt hpending) (by decide) (by decide) hr
  · obtain ⟨rfl, rfl⟩ := runs_pure_iff.mp hr
    exact .refl _

end Data

/-! ## The calls -/

namespace FtpCall

/-- The bytes of a download that the call enqueued. -/
def enqueuedBy : FtpCall → FtpReturn → Nat
  | .downloadEnqueued n _, .bool true => n
  | _, _ => 0

/-- The bytes of a download that the call acknowledged. -/
def ackedBy : FtpCall → FtpReturn → Nat
  | .downloadAcked n _, .bool true => n
  | _, _ => 0

/-- A call that opens no session, hands nothing out, takes no actions and
accounts for no byte of a download. -/
structure Quiet (s : FtpState) (call : FtpCall) (r : FtpReturn) : Prop where
  opened : call.opened r = false
  handed : call.handed s r = []
  enqueued : call.enqueuedBy r = 0
  acked : call.ackedBy r = 0
  taken : call ≠ .takeActions

end FtpCall

/-- What a call makes of a transfer. -/
inductive Acts (s : FtpState) : FtpCall → List Ev → FtpReturn → FtpState → Prop where
  | moves {call : FtpCall} {tr : List Ev} {r : FtpReturn} {s' : FtpState}
      (hq : call.Quiet s r) (h : Moves s tr s') : Acts s call tr r s'
  | inits {binding : FtpStorage} (h : s.core.quiescent = true) :
      Acts s (.init binding) [] (.bool true)
        { s with storage := some binding, core := .zero }
  | binds {binding : Option FtpOperation} (h : s.core.quiescent = true) :
      Acts s (.bindOperation binding) [] (.bool true) { s with operation := binding }
  | resets : Acts s .reset (resetEvents s) .unit { s with core := .zero }
  | opens {now : UInt32} {c : FtpCore} (h : s.core.session = false)
      (hc : Minor { s.core with session := true } c)
      (hlt : c.replies.count < ftpReplySlots) :
      Acts s (.sessionOpen now) [pointEv (.queued greeting)] (.bool true)
        { s with core := c.queue greeting false now hlt }
  | consumes {n : Nat} {now : UInt32} (hne : s.core.replies.count ≠ 0) (hpos : n ≠ 0)
      (hle : n ≤ s.core.replies.front.length - s.core.replies.front.offset) :
      Acts s (.replyConsume n now) [] (.bool true) (ftpCoreReplyConsume s n now).2
  | takes : Acts s .takeActions [] (.actions s.core.actions) (ftpCoreTakeActions s).2
  | listening {address : Option (Fin 4 → UInt8)} {port : UInt16} {now : UInt32}
      {c : FtpCore} {text : List UInt8} (ho : s.core.opening = true)
      (hc : Minor { s.core with opening := false, passive := true } c)
      (hfit : Fits text) (hne : text ≠ openingText)
      (hlt : c.replies.count < ftpReplySlots) :
      Acts s (.passiveResult true address port now) [pointEv (.queued text)] (.bool true)
        { s with core := c.queue text false now hlt }
  | connects {now : UInt32} {c : FtpCore} (hp : s.core.passive = true)
      (hn : s.core.connected = false) (hclosing : s.core.closing = false)
      (hc : Minor { s.core with connected := true } c) :
      Acts s (.dataConnected now) [] (.bool true) { s with core := c }
  | enqueues {n : Nat} {now : UInt32} {s' : FtpState}
      (hready : s.core.transferReady = true) (hd : s.core.direction = .download)
      (hn : n ≤ s.core.download.length - s.core.enqueued)
      (h : Moves { s with core := { s.core with enqueued := s.core.enqueued + n } }
        [] s') :
      Acts s (.downloadEnqueued n now) [] (.bool true) s'
  | acks {n : Nat} {now : UInt32} {s' : FtpState}
      (hready : s.core.transferReady = true) (hd : s.core.direction = .download)
      (hn : n ≤ s.core.enqueued - s.core.acked)
      (h : Moves { s with core := { s.core with acked := s.core.acked + n } } [] s') :
      Acts s (.downloadAcked n now) [] (.bool true) s'
  | completes {now : UInt32} {ev : List Ev} {committed : Bool} {c : FtpCore}
      {text : List UInt8} (hclosing : s.core.closing = true)
      (hcommit : Commits s ev committed) (hc : Minor s.core.torn c)
      (htext : committed = true ↔ Announces text) (hne : text ≠ openingText)
      (hlt : c.replies.count < ftpReplySlots) :
      Acts s (.dataCloseResult true now)
        (ev ++ (tornEvents s ++ [pointEv (.queued text)])) (.bool committed)
        { s with core := c.queue text false now hlt }

section Calls

variable {s s' : FtpState} {tr : List Ev} {now : UInt32} {r : FtpReturn}

theorem init_acts {binding : FtpStorage} {b : Bool}
    (h : (b, s') = ftpCoreInit s binding) : Acts s (.init binding) [] (.bool b) s' := by
  unfold ftpCoreInit at h
  split at h
  · cases h
    exact .moves ⟨rfl, rfl, rfl, rfl, nofun⟩ (.refl _)
  · next hq =>
      cases h
      simp only [not_or, Bool.not_eq_true', Bool.not_eq_false] at hq
      exact .inits hq.2.2.2

theorem bindOperation_acts {binding : Option FtpOperation} {b : Bool}
    (h : (b, s') = ftpCoreBindOperation s binding) :
    Acts s (.bindOperation binding) [] (.bool b) s' := by
  unfold ftpCoreBindOperation at h
  split at h
  · cases h
    exact .moves ⟨rfl, rfl, rfl, rfl, nofun⟩ (.refl _)
  · next hq =>
      cases h
      simp only [not_or, Bool.not_eq_true', Bool.not_eq_false] at hq
      exact .binds hq.1

theorem sessionOpen_acts {b : Bool} (hs : Sound s)
    (hr : Runs (ftpCoreSessionOpen s now) tr (b, s')) :
    Acts s (.sessionOpen now) tr (.bool b) s' := by
  unfold ftpCoreSessionOpen at hr
  split at hr
  · obtain ⟨rfl, he⟩ := runs_pure_iff.mp hr
    cases he
    exact .moves ⟨rfl, rfl, rfl, rfl, nofun⟩ (.refl _)
  next h =>
  simp only [not_or, Bool.not_eq_true] at h
  have hlt : s.core.replies.count < ftpReplySlots := by
    rw [hs.empty h.2.1]
    decide
  obtain ⟨rfl, rfl, rfl⟩ := reply_runs (by exact hlt) hr
  refine .opens h.2.1 ?_ (by exact hlt)
  exact ⟨rfl, rfl, rfl, rfl, rfl, rfl, rfl, rfl, rfl, rfl, rfl, rfl, id⟩

theorem replyConsume_acts {n : Nat} {b : Bool}
    (h : (b, s') = ftpCoreReplyConsume s n now) :
    Acts s (.replyConsume n now) [] (.bool b) s' := by
  cases b with
  | false =>
      unfold ftpCoreReplyConsume at h
      dsimp only at h
      split at h
      · cases h
        exact .moves ⟨rfl, rfl, rfl, rfl, nofun⟩ (.refl _)
      · cases h
  | true =>
      have heq : s' = (ftpCoreReplyConsume s n now).2 := congrArg Prod.snd h
      rw [heq]
      unfold ftpCoreReplyConsume at h
      dsimp only at h
      split at h
      · cases h
      · next hne =>
          simp only [not_or, Nat.not_lt, gt_iff_lt] at hne
          exact .consumes hne.1 hne.2.1 hne.2.2

theorem passiveText_ne (epsv : Bool) (address : Fin 4 → UInt8) (port : UInt16) :
    passiveText epsv address port ≠ openingText := by
  refine ne_opening ?_
  unfold passiveText
  dsimp only
  split
  · rw [List.append_assoc]
    show some 0x32 ≠ _
    decide
  · simp only [List.append_assoc]
    show some 0x32 ≠ _
    decide

theorem passiveResult_acts {success b : Bool} {address : Option (Fin 4 → UInt8)}
    {port : UInt16} (hs : Sound s)
    (hr : Runs (ftpCorePassiveResult s success address port now) tr (b, s')) :
    Acts s (.passiveResult success address port now) tr (.bool b) s' := by
  unfold ftpCorePassiveResult at hr
  split at hr
  · obtain ⟨rfl, he⟩ := runs_pure_iff.mp hr
    cases he
    exact .moves ⟨rfl, rfl, rfl, rfl, nofun⟩ (.refl _)
  next h =>
  simp only [not_or, Bool.not_eq_true', Bool.not_eq_false] at h
  have hlt : s.core.replies.count < ftpReplySlots :=
    hs.lt (by rw [FtpCore.pending, h.2, Bool.true_or, Bool.true_or])
  have hclose : ∀ {c : FtpCore}, c.actions = s.core.actions &&& ~~~ftpOpenPassive →
      c.closeAsked → s.core.closeAsked := by
    intro c hc hasked
    rw [FtpCore.closeAsked, hc] at hasked
    exact bit_and hasked
  dsimp only at hr
  split at hr
  · obtain ⟨tr₁, s₁, tr₂, rfl, h₁, h₂⟩ := runs_bind_iff'.mp hr
    obtain ⟨rfl, he⟩ := runs_pure_iff.mp h₂
    cases he
    rw [List.append_nil]
    refine .moves ⟨rfl, rfl, rfl, rfl, nofun⟩ (Moves.from_minor
      (failure_moves (by exact hlt) (by decide) (by decide) h₁) ?_)
    exact ⟨rfl, rfl, rfl, rfl, rfl, rfl, rfl, rfl, rfl, rfl, rfl, rfl, hclose rfl⟩
  next hok =>
  simp only [not_or, Bool.not_eq_true', Bool.not_eq_false] at hok
  obtain ⟨rfl, rfl, rfl⟩ := reply_runs (by exact hlt) hr
  rw [hok.1]
  refine .listening h.2 ?_ (fits_passive _ _ _) (passiveText_ne _ _ _) (by exact hlt)
  exact ⟨rfl, rfl, rfl, rfl, rfl, rfl, rfl, rfl, rfl, rfl, rfl, rfl, hclose rfl⟩

theorem dataConnected_acts {b : Bool} (h : (b, s') = ftpCoreDataConnected s now) :
    Acts s (.dataConnected now) [] (.bool b) s' := by
  unfold ftpCoreDataConnected at h
  split at h
  · cases h
    exact .moves ⟨rfl, rfl, rfl, rfl, nofun⟩ (.refl _)
  next hne =>
  simp only [not_or, Bool.not_eq_true', Bool.not_eq_false, Bool.not_eq_true] at hne
  cases h
  refine .connects hne.2.1 hne.2.2.1 hne.2.2.2 ?_
  refine ⟨rfl, rfl, rfl, rfl, rfl, rfl, rfl, rfl, rfl, rfl, rfl, rfl, fun hc => ?_⟩
  rw [FtpCore.closeAsked, bit_or (by decide)] at hc
  exact hc

theorem downloadEnqueued_acts {n : Nat} {b : Bool}
    (h : (b, s') = ftpCoreDownloadEnqueued s n now) :
    Acts s (.downloadEnqueued n now) [] (.bool b) s' := by
  unfold ftpCoreDownloadEnqueued at h
  split at h
  · cases h
    exact .moves ⟨rfl, rfl, rfl, rfl, nofun⟩ (.refl _)
  next hne =>
  simp only [not_or, not_not, Bool.not_eq_true', Bool.not_eq_false, Nat.not_lt,
    gt_iff_lt] at hne
  cases h
  refine .enqueues hne.1 hne.2.1 hne.2.2 (downloaded_moves ?_ (by exact hne.1))
  split <;> exact ⟨rfl, rfl, rfl, rfl, rfl, rfl, rfl, rfl, rfl, rfl, rfl, rfl, id⟩

theorem downloadAcked_acts {n : Nat} {b : Bool}
    (h : (b, s') = ftpCoreDownloadAcked s n now) :
    Acts s (.downloadAcked n now) [] (.bool b) s' := by
  unfold ftpCoreDownloadAcked at h
  split at h
  · cases h
    exact .moves ⟨rfl, rfl, rfl, rfl, nofun⟩ (.refl _)
  next hne =>
  simp only [not_or, not_not, Bool.not_eq_true', Bool.not_eq_false, Nat.not_lt,
    gt_iff_lt] at hne
  cases h
  exact .acks hne.1 hne.2.1 hne.2.2
    (downloaded_moves (minor_progressed _ _ _) (by exact hne.1))

theorem dataCloseResult_acts {accepted b : Bool} (hs : Sound s)
    (hr : Runs (ftpCoreDataCloseResult s accepted now) tr (b, s')) :
    Acts s (.dataCloseResult accepted now) tr (.bool b) s' := by
  unfold ftpCoreDataCloseResult at hr
  split at hr
  · obtain ⟨rfl, he⟩ := runs_pure_iff.mp hr
    cases he
    exact .moves ⟨rfl, rfl, rfl, rfl, nofun⟩ (.refl _)
  next h =>
  simp only [not_or, Bool.not_eq_true', Bool.not_eq_false] at h
  obtain ⟨-, hclosing⟩ := h
  split at hr
  · obtain ⟨rfl, he⟩ := runs_pure_iff.mp hr
    cases he
    exact .moves ⟨rfl, rfl, rfl, rfl, nofun⟩ (.refl _)
  next ha =>
  rw [Bool.not_eq_true', Bool.not_eq_false] at ha
  rw [ha]
  have hlt : s.core.replies.count < ftpReplySlots := by
    refine hs.lt ?_
    rw [FtpCore.pending, bne_iff_ne.mpr (hs.closing hclosing), Bool.or_true]
  rw [if_neg (Nat.ne_of_lt hlt)] at hr
  obtain ⟨tr₁, committed, tr', rfl, h₁, hr₁⟩ := runs_bind_iff'.mp hr
  obtain ⟨tr₂, s₁, tr'', rfl, h₂, hr₂⟩ := runs_bind_iff'.mp hr₁
  obtain ⟨rfl, rfl⟩ := teardown_runs h₂
  obtain ⟨tr₃, ⟨queued, s₂⟩, tr₄, rfl, h₃, h₄⟩ := runs_bind_iff'.mp hr₂
  obtain ⟨rfl, rfl, rfl⟩ := reply_runs (by exact hlt) h₃
  obtain ⟨rfl, he⟩ := runs_pure_iff.mp h₄
  cases he
  rw [Bool.and_true, List.append_nil]
  refine .completes hclosing (commitUpload_runs h₁) ?_ ?_ ?_ (by exact hlt)
  · refine ⟨rfl, rfl, rfl, rfl, rfl, rfl, rfl, rfl, rfl, rfl, rfl, rfl, fun hc => ?_⟩
    refine absurd ?_ (not_closeAsked_torn
      { s.core with connected := false, closing := false })
    exact bit_and hc
  · split
    · next hc => exact iff_of_true hc rfl
    · next hc => exact iff_of_false hc (by decide)
  · split <;> decide

/-- Every call of the interface, as its transfer sees it. -/
theorem call_acts {call : FtpCall} (hs : Sound s)
    (hr : Runs (call.perform s) tr (r, s')) : Acts s call tr r s' := by
  cases call with
  | init binding =>
      obtain ⟨b, rfl, h⟩ := returnBool_runs hr
      obtain ⟨rfl, he⟩ := runs_pure_iff.mp h
      exact init_acts he
  | bindOperation binding =>
      obtain ⟨b, rfl, h⟩ := returnBool_runs hr
      obtain ⟨rfl, he⟩ := runs_pure_iff.mp h
      exact bindOperation_acts he
  | reset =>
      obtain ⟨rfl, h⟩ := returnUnit_runs hr
      obtain ⟨rfl, rfl⟩ := reset_runs h
      exact .resets
  | sessionOpen now =>
      obtain ⟨b, rfl, h⟩ := returnBool_runs hr
      exact sessionOpen_acts hs h
  | sessionLost =>
      obtain ⟨rfl, h⟩ := returnUnit_runs hr
      exact .moves ⟨rfl, rfl, rfl, rfl, nofun⟩ (lost_moves h)
  | controlClosed =>
      obtain ⟨rfl, h⟩ := returnUnit_runs hr
      obtain ⟨tr₁, s₁, tr₂, rfl, h₁, h₂⟩ := runs_bind_iff'.mp h
      obtain ⟨rfl, rfl⟩ := runs_pure_iff.mp h₂
      rw [List.append_nil]
      refine .moves ⟨rfl, rfl, rfl, rfl, nofun⟩ ((lost_moves h₁).then_minor ?_)
      exact ⟨rfl, rfl, rfl, rfl, rfl, rfl, rfl, rfl, rfl, rfl, rfl, rfl, bit_and⟩
  | takeActions =>
      obtain ⟨rfl, he⟩ := runs_pure_iff.mp hr
      cases he
      exact .takes
  | replyPeek =>
      obtain ⟨rfl, he⟩ := runs_pure_iff.mp hr
      cases he
      exact .moves ⟨rfl, rfl, rfl, rfl, nofun⟩ (.refl _)
  | replyConsume n now =>
      obtain ⟨b, rfl, h⟩ := returnBool_runs hr
      obtain ⟨rfl, he⟩ := runs_pure_iff.mp h
      exact replyConsume_acts he
  | controlSpan bytes now =>
      obtain ⟨out, rfl, h⟩ := returnInput_runs hr
      exact .moves ⟨rfl, rfl, rfl, rfl, nofun⟩ (controlSpan_moves hs h)
  | passiveResult success address port now =>
      obtain ⟨b, rfl, h⟩ := returnBool_runs hr
      exact passiveResult_acts hs h
  | dataConnected now =>
      obtain ⟨b, rfl, h⟩ := returnBool_runs hr
      obtain ⟨rfl, he⟩ := runs_pure_iff.mp h
      exact dataConnected_acts he
  | uploadChunk bytes now =>
      obtain ⟨b, rfl, h⟩ := returnBool_runs hr
      exact .moves ⟨rfl, rfl, rfl, rfl, nofun⟩ (uploadChunk_moves hs h)
  | uploadSpan bytes now =>
      obtain ⟨out, rfl, h⟩ := returnInput_runs hr
      exact .moves ⟨rfl, rfl, rfl, rfl, nofun⟩ (uploadSpan_moves hs h)
  | uploadEof now =>
      obtain ⟨b, rfl, h⟩ := returnBool_runs hr
      exact .moves ⟨rfl, rfl, rfl, rfl, nofun⟩ (uploadEof_moves hs h)
  | foreground now =>
      obtain ⟨rfl, h⟩ := returnUnit_runs hr
      exact .moves ⟨rfl, rfl, rfl, rfl, nofun⟩ (foreground_moves hs h)
  | downloadSpan =>
      obtain ⟨rfl, he⟩ := runs_pure_iff.mp hr
      cases he
      exact .moves ⟨rfl, rfl, rfl, rfl, nofun⟩ (.refl _)
  | downloadEnqueued n now =>
      obtain ⟨b, rfl, h⟩ := returnBool_runs hr
      obtain ⟨rfl, he⟩ := runs_pure_iff.mp h
      exact downloadEnqueued_acts he
  | downloadAcked n now =>
      obtain ⟨b, rfl, h⟩ := returnBool_runs hr
      obtain ⟨rfl, he⟩ := runs_pure_iff.mp h
      exact downloadAcked_acts he
  | dataCloseResult accepted now =>
      obtain ⟨b, rfl, h⟩ := returnBool_runs hr
      exact dataCloseResult_acts hs h
  | dataError now =>
      obtain ⟨rfl, h⟩ := returnUnit_runs hr
      exact .moves ⟨rfl, rfl, rfl, rfl, nofun⟩ (dataError_moves hs h)
  | file =>
      obtain ⟨tr₁, view, tr₂, rfl, h₁, h₂⟩ := runs_bind_iff'.mp hr
      obtain ⟨rfl, he⟩ := runs_pure_iff.mp h₂
      cases he
      rw [List.append_nil]
      refine .moves ⟨rfl, rfl, rfl, rfl, nofun⟩ ?_
      unfold ftpCoreFile at h₁
      split at h₁
      · obtain ⟨rfl, rfl⟩ := runs_pure_iff.mp h₁
        exact .refl _
      · obtain ⟨v, rest, rfl, hk⟩ := runs_call_iff.mp h₁
        obtain ⟨rfl, rfl⟩ := runs_ret_iff.mp hk
        refine Move.moves (.asks ?_)
        trivial
  | tick now =>
      obtain ⟨rfl, h⟩ := returnUnit_runs hr
      exact .moves ⟨rfl, rfl, rfl, rfl, nofun⟩ (tick_moves hs h)

end Calls

end EkBareMetal.Ftp

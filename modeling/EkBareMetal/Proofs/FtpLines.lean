import EkBareMetal.Proofs.FtpControl
import EkBareMetal.Proofs.FtpHolding

/-!
# The grammar of a control line

A line is what stands in front of a CR LF, and everything else about it is
known from its bytes: `Unfinished` says what the parser has made of the bytes of a
line that has not ended, and a byte takes it from those bytes to the next. What
the loop over a span executes is the list of lines that end in it
(`Looped.lines`), and since no other call touches the parser of an open session
(`call_keeps`), the lines of a run are those of the bytes it accepted, however
these were cut.
-/

namespace EkBareMetal.Ftp

open Interact Transition

abbrev carriageReturn : UInt8 := 0x0d
abbrev lineFeed : UInt8 := 0x0a

/-! ## Streams of lines -/

/-- The stream is these lines, each with a CR LF behind it, and a rest. None of the lines
contains an end of its own. -/
structure Lined (stream : List UInt8) (lines : List (List UInt8)) (rest : List UInt8) : Prop where
  whole : stream = lines.flatMap (· ++ [carriageReturn, lineFeed]) ++ rest
  lines : ∀ l ∈ lines, ¬ [carriageReturn, lineFeed] <:+: l ++ [carriageReturn]
  rest : ¬ [carriageReturn, lineFeed] <:+: rest

/-- A line that is a command. -/
def Legal (line : List UInt8) : Prop :=
  line.length ≤ ftpControlCapacity - 2 ∧ ∀ b ∈ line, 32 ≤ b ∧ b ≤ 126

instance (line : List UInt8) : Decidable (Legal line) :=
  inferInstanceAs (Decidable (_ ∧ _))

section Lined

variable {stream rest line : List UInt8} {lines : List (List UInt8)} {b x y : UInt8}

theorem pair_infix_concat :
    [x, y] <:+: rest ++ [b] ↔ [x, y] <:+: rest ∨ rest.getLast? = some x ∧ b = y := by
  constructor
  · rintro ⟨pre, post, h⟩
    obtain rfl | ⟨post, z, rfl⟩ := List.eq_nil_or_concat post
    · rw [List.append_nil, show pre ++ [x, y] = (pre ++ [x]) ++ [y] by simp] at h
      obtain ⟨h₁, h₂⟩ := List.append_inj' h rfl
      exact .inr ⟨by simp [← h₁], (List.cons.inj h₂).1.symm⟩
    · rw [List.concat_eq_append, ← List.append_assoc] at h
      obtain ⟨h₁, -⟩ := List.append_inj' h rfl
      exact .inl ⟨pre, post, h₁⟩
  · rintro (⟨pre, post, rfl⟩ | ⟨hlast, rfl⟩)
    · exact ⟨pre, post ++ [b], by simp⟩
    · obtain ⟨pre, rfl⟩ := List.getLast?_eq_some_iff.mp hlast
      exact ⟨pre, [], by simp⟩

theorem Lined.nil : Lined [] [] [] := ⟨rfl, nofun, by simp⟩

/-- A byte that ends no line. -/
theorem Lined.more (h : Lined stream lines rest)
    (hb : ¬ (rest.getLast? = some carriageReturn ∧ b = lineFeed)) :
    Lined (stream ++ [b]) lines (rest ++ [b]) where
  whole := by rw [h.whole, List.append_assoc]
  lines := h.lines
  rest := by
    rw [pair_infix_concat]
    exact not_or.mpr ⟨h.rest, hb⟩

theorem Lined.finish (h : Lined stream lines (line ++ [carriageReturn])) :
    Lined (stream ++ [lineFeed]) (lines ++ [line]) [] where
  whole := by
    rw [h.whole]
    simp
  lines := by
    intro l hl
    obtain hl | hl := List.mem_append.mp hl
    · exact h.lines l hl
    · rw [List.mem_singleton.mp hl]
      exact h.rest
  rest := by simp

end Lined

/-! ## The parser on a line -/

/-- The bytes of a line without the CR that may belong to its end. -/
def contentOf (rest : List UInt8) : List UInt8 :=
  if rest.getLast? = some carriageReturn then rest.dropLast else rest

/-- What may still become a command. -/
def Clean (content : List UInt8) : Prop :=
  content.length ≤ ftpControlCapacity - 1 ∧ ∀ b ∈ content, 32 ≤ b ∧ b ≤ 126

/-- The parser after the bytes `rest` of a line that has not ended. -/
structure Unfinished (rest : List UInt8) (p : Parser) : Prop where
  cr : p.cr = true ↔ rest.getLast? = some carriageReturn
  bound : p.text.length ≤ ftpControlCapacity - 1
  bad : p.bad = false ↔ Clean (contentOf rest)
  text : p.bad = false → p.text = contentOf rest

section Unfinished

variable {rest content : List UInt8} {p q : Parser} {b : UInt8} {t : UInt32}

theorem Unfinished.nil : Unfinished [] .zero :=
  ⟨by simp [Parser.zero], by simp [Parser.zero], by simp [Parser.zero, Clean, contentOf],
    fun _ => rfl⟩

theorem clean_concat : Clean (content ++ [b]) ↔
    Clean content ∧ content.length < ftpControlCapacity - 1 ∧ 32 ≤ b ∧ b ≤ 126 := by
  simp only [Clean, List.length_append, List.length_singleton, List.mem_append,
    List.mem_singleton]
  constructor
  · rintro ⟨hlen, hall⟩
    exact ⟨⟨by omega, fun x hx => hall x (.inl hx)⟩, by omega, hall b (.inr rfl)⟩
  · rintro ⟨⟨-, hall⟩, hlen, hb⟩
    refine ⟨by omega, fun x hx => ?_⟩
    obtain hx | rfl := hx
    · exact hall x hx
    · exact hb

theorem clean_no_return (h : Clean content) : carriageReturn ∉ content := by
  intro hmem
  have := (h.2 _ hmem).1
  exact absurd this (by decide)

theorem contentOf_return : contentOf (rest ++ [carriageReturn]) = rest := by
  simp [contentOf]

theorem contentOf_other (hb : b ≠ carriageReturn) : contentOf (rest ++ [b]) = rest ++ [b] := by
  simp [contentOf, hb]

theorem contentOf_open (h : rest.getLast? ≠ some carriageReturn) : contentOf rest = rest :=
  if_neg h

/-- The byte behind a CR that does not end the line. -/
theorem content_return (h : rest.getLast? = some carriageReturn) :
    ¬ Clean (contentOf (rest ++ [b])) := by
  intro hclean
  obtain ⟨pre, rfl⟩ := List.getLast?_eq_some_iff.mp h
  apply clean_no_return hclean
  by_cases hb : b = carriageReturn
  · rw [hb, contentOf_return]
    simp
  · rw [contentOf_other hb]
    simp

theorem parseByte_bound (h : p.text.length ≤ ftpControlCapacity - 1) :
    (parseByte p b t).2.text.length ≤ ftpControlCapacity - 1 := by
  have hactive : ∀ p' : Parser, p' = (if p.active then p else { p with active := true, since := t }) →
      p'.text = p.text := by
    rintro p' rfl
    split <;> rfl
  unfold parseByte
  generalize hp : (if p.active then p else { p with active := true, since := t }) = p'
  have htext := hactive p' hp.symm
  dsimp only
  split
  · rw [htext]
    exact h
  split
  · rw [htext]
    exact h
  split
  · next hlt => simp only [List.length_append, List.length_singleton]; omega
  · rw [htext]
    exact h

/-- The first byte of a line is remembered with its time, which nothing here looks at. -/
def Parser.begun (p : Parser) (t : UInt32) : Parser :=
  if p.active then p else { p with active := true, since := t }

theorem Unfinished.begun (h : Unfinished rest p) (t : UInt32) :
    Unfinished rest (p.begun t) := by
  unfold Parser.begun
  split
  · exact h
  · exact ⟨h.cr, h.bound, h.bad, h.text⟩

/-- The byte that ends a line, and the parser's verdict on the line. -/
theorem parseByte_finish (h : Unfinished rest p) (hr : rest.getLast? = some carriageReturn) :
    ∃ q, parseByte p lineFeed t = (true, q) ∧ (q.bad = false ↔ Legal (contentOf rest)) ∧
      (q.bad = false → q.text = contentOf rest) := by
  have h' := h.begun t
  have hcr := h'.cr.mpr hr
  refine ⟨{ p.begun t with
    bad := (p.begun t).bad || decide ((p.begun t).text.length > ftpControlCapacity - 2) },
    ?_, ?_, ?_⟩
  · unfold parseByte
    rw [← Parser.begun, if_pos (by rw [hcr]; rfl)]
  · simp only [Bool.or_eq_false_iff, decide_eq_false_iff_not, Nat.not_lt]
    constructor
    · rintro ⟨hbad, hlen⟩
      rw [h'.text hbad] at hlen
      exact ⟨hlen, (h'.bad.mp hbad).2⟩
    · intro hlegal
      have hbad := h'.bad.mpr ⟨Nat.le_trans hlegal.1 (by decide), hlegal.2⟩
      refine ⟨hbad, ?_⟩
      rw [h'.text hbad]
      exact hlegal.1
  · intro hbad
    exact h'.text (Bool.or_eq_false_iff.mp hbad).1

theorem parseByte_return (hb : ¬ (p.cr = true ∧ carriageReturn = lineFeed)) :
    parseByte p carriageReturn t = (false, { p.begun t with
      bad := (p.begun t).bad || (p.begun t).cr
      cr := true }) := by
  have hcr : (p.begun t).cr = p.cr := by
    unfold Parser.begun
    split <;> rfl
  unfold parseByte
  rw [← Parser.begun, if_neg (by rw [hcr, Bool.and_eq_true, beq_iff_eq]; exact hb)]
  rfl

theorem parseByte_other (hb : ¬ (p.cr = true ∧ b = lineFeed)) (hr : b ≠ carriageReturn) :
    parseByte p b t = (false,
      if (p.begun t).text.length < ftpControlCapacity - 1 then
        { p.begun t with
          text := (p.begun t).text ++ [b]
          bad := (p.begun t).bad || (p.begun t).cr || decide (b < 32) || decide (b > 126)
          cr := false }
      else { p.begun t with bad := true, cr := false }) := by
  have hcr : (p.begun t).cr = p.cr := by
    unfold Parser.begun
    split <;> rfl
  have hbeq : (b == carriageReturn) = false := by
    rw [beq_eq_false_iff_ne]
    exact hr
  unfold parseByte
  rw [← Parser.begun, if_neg (by rw [hcr, Bool.and_eq_true, beq_iff_eq]; exact hb)]
  dsimp only
  rw [if_neg hr, hbeq]
  split
  · rfl
  · rfl

/-- Any other byte. -/
theorem parseByte_more (h : Unfinished rest p)
    (hb : ¬ (rest.getLast? = some carriageReturn ∧ b = lineFeed)) :
    ∃ q, parseByte p b t = (false, q) ∧ Unfinished (rest ++ [b]) q := by
  have h' := h.begun t
  have hbound := parseByte_bound (b := b) (t := t) h.bound
  rw [← h.cr] at hb
  have hbad := h'.bad
  have htext := h'.text
  by_cases hreturn : rest.getLast? = some carriageReturn
  · -- a CR in the middle of the line
    have hcr := h'.cr.mpr hreturn
    have hdirty := content_return (b := b) hreturn
    by_cases hr : b = carriageReturn
    · subst hr
      rw [parseByte_return hb] at hbound ⊢
      exact ⟨_, rfl, by simp, hbound, by simp [hcr, hdirty], by simp [hcr]⟩
    · rw [parseByte_other hb hr] at hbound ⊢
      refine ⟨_, rfl, ?_, hbound, ?_, ?_⟩
      · split <;> simp [hr]
      · split <;> simp [hcr, hdirty]
      · split <;> simp [hcr]
  have hcr : (p.begun t).cr = false := Bool.eq_false_iff.mpr (mt h'.cr.mp hreturn)
  rw [contentOf_open hreturn] at hbad htext
  by_cases hr : b = carriageReturn
  · subst hr
    rw [parseByte_return hb, hcr] at hbound ⊢
    refine ⟨_, rfl, by simp, hbound, ?_, ?_⟩
    · rw [contentOf_return, Bool.or_false]
      exact hbad
    · rw [contentOf_return, Bool.or_false]
      exact htext
  rw [parseByte_other hb hr, hcr] at hbound ⊢
  refine ⟨_, rfl, ?_, hbound, ?_, ?_⟩
  · split <;> simp [hr]
  · rw [contentOf_other hr, clean_concat, ← hbad]
    split
    · next hlt =>
        simp only [Bool.or_false, Bool.or_eq_false_iff, decide_eq_false_iff_not, UInt8.not_lt]
        constructor
        · rintro ⟨⟨hgood, hlow⟩, hhigh⟩
          rw [htext hgood] at hlt
          exact ⟨hgood, hlt, hlow, hhigh⟩
        · rintro ⟨hgood, -, hlow, hhigh⟩
          exact ⟨⟨hgood, hlow⟩, hhigh⟩
    · next hlt =>
        refine iff_of_false nofun ?_
        rintro ⟨hgood, hshort, -⟩
        rw [htext hgood] at hlt
        exact hlt hshort
  · rw [contentOf_other hr]
    split
    · intro hgood
      simp only [Bool.or_eq_false_iff] at hgood
      dsimp only
      rw [htext hgood.1.1.1]
    · exact nofun

end Unfinished

/-! ## The lines of a span -/

def malformedText : List UInt8 := ascii "500 Malformed command line.\r\n"

/-- What executing these lines does, whatever the parser holds: a legal line is a command, and
another one queues its reply and changes nothing else. -/
inductive Executes (now : UInt32) : FtpState → List (List UInt8) → List Ev → FtpState → Prop where
  | nil (s : FtpState) : Executes now s [] [] s
  | parsing {s s' : FtpState} {lines : List (List UInt8)} {tr : List Ev} (p : Parser)
      (h : Executes now (s.parsing p) lines tr s') : Executes now s lines tr s'
  | command {s s₁ s' : FtpState} {line : List UInt8} {lines : List (List UInt8)}
      {tr₁ tr₂ : List Ev} (hl : Legal line) (hx : Runs (command s line now) tr₁ s₁)
      (h : Executes now s₁ lines tr₂ s') : Executes now s (line :: lines) (tr₁ ++ tr₂) s'
  | malformed {s s' : FtpState} {line : List UInt8} {lines : List (List UInt8)}
      {tr : List Ev} (hl : ¬ Legal line) (hroom : s.core.replies.count < ftpReplySlots)
      (h : Executes now { s with core := s.core.queue malformedText false now hroom } lines
        tr s') : Executes now s (line :: lines) (pointEv (.queued malformedText) :: tr) s'

section Executes

variable {s s₁ s' : FtpState} {now : UInt32} {a n : Nat} {tr tr' : List Ev}
  {line rest bytes stream : List UInt8} {lines : List (List UInt8)} {p : Parser}

/-- The line that the parser has read. -/
theorem executeLine_executes (hlt : s.core.replies.count < ftpReplySlots)
    (hbad : p.bad = false ↔ Legal line) (htext : p.bad = false → p.text = line)
    (hx : Runs (executeLine s p now) tr s₁) (h : Executes now s₁ lines tr' s') :
    Executes now s (line :: lines) (tr ++ tr') s' := by
  unfold executeLine at hx
  split at hx
  · next hb =>
      have hl : ¬ Legal line := by
        rw [← hbad, hb]
        exact nofun
      obtain ⟨tr₁, ⟨b, s₂⟩, tr₂, rfl, h₁, h₂⟩ := runs_bind_iff'.mp hx
      obtain ⟨rfl, rfl⟩ := runs_pure_iff.mp h₂
      obtain ⟨rfl, -, rfl⟩ := reply_runs hlt h₁
      exact .malformed hl hlt h
  · next hb =>
      have hgood := Bool.eq_false_iff.mpr hb
      rw [htext hgood] at hx
      exact .command (hbad.mp hgood) hx h

/-- What the loop has read: some lines ended in it, and were executed in their order. Behind a
line that quits nothing is read. -/
structure ReadLines (now : UInt32) (s : FtpState) (a : Nat) (bytes : List UInt8) (tr : List Ev)
    (n : Nat) (s' : FtpState) (stream : List UInt8) (lines : List (List UInt8)) (k : Nat)
    (new : List (List UInt8)) (rest : List UInt8) : Prop where
  lower : a + k ≤ n
  upper : n ≤ a + bytes.length
  all : s'.core.quitting = false → n = a + k
  lined : Lined (stream ++ bytes.take k) (lines ++ new) rest
  parser : Unfinished rest s'.core.parser
  executes : Executes now s new tr s'

/-- A CR LF stands at the end of the line's bytes exactly when the parser says so. -/
theorem parseByte_cases (hp : Unfinished rest p) (hl : Lined stream lines rest) (byte : UInt8)
    (now : UInt32) :
    (∃ q, parseByte p byte now = (false, q) ∧ Unfinished (rest ++ [byte]) q ∧
      Lined (stream ++ [byte]) lines (rest ++ [byte])) ∨
    ∃ q line, parseByte p byte now = (true, q) ∧ (q.bad = false ↔ Legal line) ∧
      (q.bad = false → q.text = line) ∧ Lined (stream ++ [byte]) (lines ++ [line]) [] := by
  by_cases hb : rest.getLast? = some carriageReturn ∧ byte = lineFeed
  · obtain ⟨hlast, rfl⟩ := hb
    obtain ⟨q, hq, hbad, htext⟩ := parseByte_finish (t := now) hp hlast
    obtain ⟨line, rfl⟩ := List.getLast?_eq_some_iff.mp hlast
    rw [contentOf_return] at hbad htext
    exact .inr ⟨q, line, hq, hbad, htext, hl.finish⟩
  · obtain ⟨q, hq, hp'⟩ := parseByte_more (t := now) hp hb
    exact .inl ⟨q, hq, hp', hl.more hb⟩

theorem Looped.reads (h : Looped now s a bytes tr n s') (hs : Readable s now bytes)
    (hp : Unfinished rest s.core.parser) (hl : Lined stream lines rest) :
    ∃ k new rest', ReadLines now s a bytes tr n s' stream lines k new rest' := by
  induction h generalizing stream lines rest with
  | nil s a =>
      refine ⟨0, [], rest, ⟨Nat.le_refl _, Nat.le_refl _, fun _ => rfl, ?_, hp, .nil s⟩⟩
      rw [List.take_zero, List.append_nil, List.append_nil]
      exact hl
  | @skip s s' p a n byte bytes tr hparse h ih =>
      obtain ⟨q, hq, hp', hl'⟩ | ⟨q, line, hq, -⟩ := parseByte_cases hp hl byte now
      · obtain rfl : p = q := congrArg Prod.snd (hparse.symm.trans hq)
        obtain ⟨k, new, rest', hr⟩ := ih (hs.skip hparse) hp' hl'
        have hupper := hr.upper
        have hlower := hr.lower
        refine ⟨k + 1, new, rest', ⟨by omega, ?_, fun hquit => ?_, ?_, hr.parser, ?_⟩⟩
        · rw [List.length_cons]
          omega
        · have := hr.all hquit
          omega
        · rw [List.take_succ_cons, ← List.singleton_append, ← List.append_assoc]
          exact hr.lined
        · exact .parsing p hr.executes
      · cases hparse.symm.trans hq
  | @line s s₁ s' p a n byte bytes tr₁ tr₂ hparse hx hquit hopen h ih =>
      obtain ⟨q, hq, -⟩ | ⟨q, line, hq, hbad, htext, hl'⟩ := parseByte_cases hp hl byte now
      · cases hparse.symm.trans hq
      obtain rfl : p = q := congrArg Prod.snd (hparse.symm.trans hq)
      obtain ⟨k, new, rest', hr⟩ := ih (hs.line hparse hx hopen) .nil hl'
      have hupper := hr.upper
      have hlower := hr.lower
      refine ⟨k + 1, line :: new, rest', ⟨by omega, ?_, fun hquit => ?_, ?_, hr.parser, ?_⟩⟩
      · rw [List.length_cons]
        omega
      · have := hr.all hquit
        omega
      · have hlined := hr.lined
        rw [List.append_assoc, List.append_assoc] at hlined
        exact hlined
      · exact .parsing p (executeLine_executes (hs.ready hparse).lt hbad htext hx
          (.parsing .zero hr.executes))
  | @quits s s₁ p a byte bytes tr hparse hx hquit =>
      obtain ⟨q, hq, -⟩ | ⟨q, line, hq, hbad, htext, hl'⟩ := parseByte_cases hp hl byte now
      · cases hparse.symm.trans hq
      obtain rfl : p = q := congrArg Prod.snd (hparse.symm.trans hq)
      refine ⟨1, [line], [], ⟨by omega, ?_, fun h => ?_, hl', .nil, ?_⟩⟩
      · rw [List.length_cons]
        omega
      · rw [show _ = false from h] at hquit
        cases hquit
      · have hx' := executeLine_executes (hs.ready hparse).lt hbad htext hx
          (.parsing .zero (.nil (s₁.parsing .zero)))
        rw [List.append_nil] at hx'
        exact .parsing p hx'
  | @opens s s₁ p a byte bytes tr hparse hx hquit hopen =>
      obtain ⟨q, hq, -⟩ | ⟨q, line, hq, hbad, htext, hl'⟩ := parseByte_cases hp hl byte now
      · cases hparse.symm.trans hq
      obtain rfl : p = q := congrArg Prod.snd (hparse.symm.trans hq)
      refine ⟨1, [line], [], ⟨by omega, ?_, fun _ => rfl, hl', .nil, ?_⟩⟩
      · rw [List.length_cons]
        omega
      · have hx' := executeLine_executes (hs.ready hparse).lt hbad htext hx
          (.parsing .zero (.nil (s₁.parsing .zero)))
        rw [List.append_nil] at hx'
        exact .parsing p hx'

end Executes

/-! ## The other calls -/

/-- The parser is as it was, in the same session; or the session is over, and the parser empty. -/
def SameLine (s s' : FtpState) : Prop :=
  (s'.core.parser = s.core.parser ∧ s'.core.session = s.core.session ∧
    s'.core.quitting = s.core.quitting) ∨
  s'.core.session = false ∧ s'.core.parser = .zero

section SameLine

variable {s s' : FtpState} {now : UInt32}

theorem SameSession.sameLine (h : SameSession s s') : SameLine s s' := by
  obtain ⟨hp, hs, hq, -⟩ | ⟨hs, hp, -⟩ := h
  · exact .inl ⟨hp, hs, hq⟩
  · exact .inr ⟨hs, hp⟩

theorem sameLine_consume (n : Nat) : SameLine s (ftpCoreReplyConsume s n now).2 := by
  unfold ftpCoreReplyConsume
  dsimp only
  split
  · exact .inl ⟨rfl, rfl, rfl⟩
  · unfold FtpCore.drained FtpCore.consumed
    dsimp only
    repeat' split
    all_goals exact .inl ⟨rfl, rfl, rfl⟩

/-- No call but a span and the opening of a session moves the parser of a session. -/
theorem call_holds (call : FtpCall) (hspan : ∀ bytes now, call ≠ .controlSpan bytes now)
    (hopen : ∀ now, call ≠ .sessionOpen now) :
    Safe (fun _ => True) (call.perform s) fun r => SameLine s r.2 := by
  by_cases hreply : ∃ n now, call = .replyConsume n now
  · obtain ⟨n, now, rfl⟩ := hreply
    exact safe_pure (sameLine_consume n)
  · refine (call_holding call hspan hopen fun n now he => hreply ⟨n, now, he⟩).mono
      (fun _ => id) fun r hr => hr.sameLine

end SameLine

/-! ## Runs -/

/-- The bytes of the session so far: what its spans have accepted. -/
def deliveredBy (stream : List UInt8) : FtpLabel × FtpState → List UInt8
  | (⟨.sessionOpen _, _, .bool true⟩, _) => []
  | (⟨.controlSpan bytes _, _, .input _ n⟩, _) => stream ++ bytes.take n
  | _ => stream

def delivered (pre : List (FtpLabel × FtpState)) : List UInt8 := pre.foldl deliveredBy []

/-- The parser is where the bytes of the session have brought it. -/
structure Following (stream : List UInt8) (s : FtpState) : Prop where
  closed : s.core.session = false → s.core.parser = .zero
  line : ∃ rest, Unfinished rest s.core.parser
  follows : s.core.session = true → s.core.quitting = false →
    ∃ lines rest, Lined stream lines rest ∧ Unfinished rest s.core.parser

section Following

variable {s s' : FtpState} {l : FtpLabel} {stream bytes : List UInt8} {now : UInt32}
  {tr : List Ev} {r : FtpInput} {a n : Nat}

theorem Following.same (h : Following stream s) (hsame : SameLine s s') : Following stream s' := by
  obtain ⟨hp, hsession, hquit⟩ | ⟨hsession, hp⟩ := hsame
  · constructor
    · rw [hp, hsession]
      exact h.closed
    · rw [hp]
      exact h.line
    · rw [hp, hsession, hquit]
      exact h.follows
  · refine ⟨fun _ => hp, ⟨[], ?_⟩, fun ho => ?_⟩
    · rw [hp]
      exact .nil
    · rw [hsession] at ho
      cases ho

theorem Looped.session (h : Looped now s a bytes tr n s') (hs : Readable s now bytes) :
    s'.core.session = true := by
  induction h with
  | nil => exact hs.session
  | skip hp _ ih => exact ih (hs.skip hp)
  | line hp hx _ ho _ ih => exact ih (hs.line hp hx ho)
  | quits hp hx _ => exact (executeLine_effects (hs.ready hp) hx).2.session
  | opens hp hx _ _ => exact (executeLine_effects (hs.ready hp) hx).2.session

/-- What a span does to the stream of lines. -/
theorem span_reads {lines : List (List UInt8)} {rest : List UInt8} (hs : Sound s)
    (hl : Lined stream lines rest) (hp : Unfinished rest s.core.parser)
    (h : FtpStep s ⟨.controlSpan bytes now, tr, .input r n⟩ s') :
    ∃ k new rest' s₁, ReadLines now s 0 bytes tr n s₁ stream lines k new rest' ∧
      (s' = s₁ ∨ s' = s₁.heard now) := by
  obtain ⟨-, rfl, rfl, rfl⟩ | ⟨hread, -, -, s₁, hloop, -, rfl⟩ := step_span hs h
  · refine ⟨0, [], rest, s', ⟨Nat.le_refl _, Nat.zero_le _, fun _ => rfl, ?_, hp, .nil s'⟩, .inl rfl⟩
    rw [List.take_zero, List.append_nil, List.append_nil]
    exact hl
  · obtain ⟨k, new, rest', hr⟩ := hloop.reads hread hp hl
    refine ⟨k, new, rest', s₁, hr, ?_⟩
    split
    · exact .inr rfl
    · exact .inl rfl

theorem Following.span (h : Following stream s) (hs : Sound s)
    (hstep : FtpStep s ⟨.controlSpan bytes now, tr, .input r n⟩ s') :
    Following (stream ++ bytes.take n) s' := by
  obtain ⟨-, rfl, rfl, rfl⟩ | ⟨hread, hquit, -, s₁, hloop, -, rfl⟩ := step_span hs hstep
  · rw [List.take_zero, List.append_nil]
    exact h
  obtain ⟨lines, rest, hl, hp⟩ := h.follows hread.session hquit
  obtain ⟨k, new, rest', hr⟩ := hloop.reads hread hp hl
  have hsession := hloop.session hread
  refine ⟨fun hc => ?_, ⟨rest', hr.parser⟩, fun _ hq => ⟨lines ++ new, rest', ?_, hr.parser⟩⟩
  · have hclosed : s₁.core.session = false := hc
    rw [hclosed] at hsession
    cases hsession
  · have hk := hr.all hq
    rw [Nat.zero_add] at hk
    rw [hk]
    exact hr.lined

theorem Following.opens (h : Following stream s) (hs : Sound s) {result : FtpReturn}
    (hstep : FtpStep s ⟨.sessionOpen now, tr, result⟩ s') :
    (result = .bool false ∧ s' = s) ∨ (result = .bool true ∧ Following [] s') := by
  obtain ⟨b, rfl, hr⟩ := returnBool_runs hstep
  unfold ftpCoreSessionOpen at hr
  split at hr
  · obtain ⟨-, he⟩ := runs_pure_iff.mp hr
    cases he
    exact .inl ⟨rfl, rfl⟩
  · next hno =>
      simp only [not_or, Bool.not_eq_true] at hno
      have hcount : s.core.replies.count < ftpReplySlots := by
        rw [hs.empty hno.2.1]
        decide
      obtain ⟨-, rfl, rfl⟩ := reply_runs (by exact hcount) hr
      have hzero := h.closed hno.2.1
      have hline : Unfinished [] s.core.parser := by
        rw [hzero]
        exact .nil
      exact .inr ⟨rfl, nofun, ⟨[], hline⟩, fun _ _ => ⟨[], [], .nil, hline⟩⟩

theorem Following.step (h : Following stream s) (hs : Sound s) (hstep : FtpStep s l s') :
    Following (deliveredBy stream (l, s')) s' := by
  obtain ⟨call, tr, result⟩ := l
  by_cases hspan : ∃ bytes now, call = .controlSpan bytes now
  · obtain ⟨bytes, now, rfl⟩ := hspan
    obtain ⟨out, rfl, hr⟩ := returnInput_runs hstep
    exact h.span hs hstep
  by_cases hopen : ∃ now, call = .sessionOpen now
  · obtain ⟨now, rfl⟩ := hopen
    obtain ⟨rfl, rfl⟩ | ⟨rfl, h'⟩ := h.opens hs hstep
    · exact h
    · exact h'
  have hsame := (call_holds call (fun bytes now he => hspan ⟨bytes, now, he⟩)
    (fun now he => hopen ⟨now, he⟩) tr (result, s') hstep).2
  have hstream : deliveredBy stream (⟨call, tr, result⟩, s') = stream := by
    unfold deliveredBy
    split
    · next he =>
        cases he
        exact absurd ⟨_, rfl⟩ hopen
    · next he =>
        cases he
        exact absurd ⟨_, _, rfl⟩ hspan
    · rfl
  rw [hstream]
  exact h.same hsame

theorem Following.start : Following [] .start :=
  ⟨fun _ => rfl, ⟨[], .nil⟩, nofun⟩

theorem following_run {pre : List (FtpLabel × FtpState)} (h : Run FtpStep .start pre s) :
    Following (delivered pre) s := by
  refine (h.history (I := fun pre s => Sound s ∧ Following (delivered pre) s) ?_ ⟨.zero, .start⟩).2
  intro pre s l s' _ hI hstep
  refine ⟨step_sound hI.1 hstep, ?_⟩
  unfold delivered
  rw [List.foldl_append]
  exact hI.2.step hI.1 hstep

end Following

/-- In every reachable state the parser fits its buffer, and a byte leaves it so. In an open
session that does not quit it stands in the line that the bytes accepted so far have left
unfinished, and a span executes the lines that end in what it accepts, in their order. -/
theorem control_grammar {pre : List (FtpLabel × FtpState)} {s : FtpState}
    (h : Run FtpStep .start pre s) :
    s.core.parser.text.length ≤ ftpControlCapacity - 1 ∧
    (∀ p byte now, p.text.length ≤ ftpControlCapacity - 1 →
      (parseByte p byte now).2.text.length ≤ ftpControlCapacity - 1) ∧
    (s.core.session = true → s.core.quitting = false →
      ∃ lines rest, Lined (delivered pre) lines rest ∧ Unfinished rest s.core.parser ∧
        ∀ bytes now tr r n s', FtpStep s ⟨.controlSpan bytes now, tr, .input r n⟩ s' →
          ∃ k new rest' s₁, k ≤ n ∧ n ≤ bytes.length ∧ (s'.core.quitting = false → k = n) ∧
            Lined (delivered pre ++ bytes.take k) (lines ++ new) rest' ∧
            Executes now s new tr s₁ ∧ (s' = s₁ ∨ s' = s₁.heard now)) := by
  have hf := following_run h
  obtain ⟨rest, hline⟩ := hf.line
  refine ⟨hline.bound, fun p byte now => parseByte_bound, fun hsession hquit => ?_⟩
  obtain ⟨lines, rest, hl, hp⟩ := hf.follows hsession hquit
  refine ⟨lines, rest, hl, hp, fun bytes now tr r n s' hstep => ?_⟩
  obtain ⟨k, new, rest', s₁, hr, hs'⟩ := span_reads (run_sound h) hl hp hstep
  have hlower := hr.lower
  have hupper := hr.upper
  rw [Nat.zero_add] at hlower hupper
  refine ⟨k, new, rest', s₁, hlower, hupper, fun hq => ?_, hr.lined, hr.executes, hs'⟩
  have hq₁ : s₁.core.quitting = false := by
    obtain rfl | rfl := hs'
    · exact hq
    · exact hq
  have hall := hr.all hq₁
  omega

/-- A line with a bare LF behind the two of the login. -/
theorem control_grammar_loggedIn :
    loggedIn.core.parser.text.length ≤ ftpControlCapacity - 1 ∧
    ∃ lines k new rest tr s₁, k ≤ 11 ∧
      Lined (ascii "USER anonymous\r\nPASS x\r\n" ++ (ascii "NOOP\nNOOP\r\n").take k)
        (lines ++ new) rest ∧ Executes 3 loggedIn new tr s₁ := by
  have hrun : Run FtpStep .start _ loggedIn := run_play fileDevice .start emptyFile loginCalls
  obtain ⟨hbound, -, hopen⟩ := control_grammar hrun
  obtain ⟨lines, rest, hl, hp, hspan⟩ := hopen (by decide +kernel) (by decide +kernel)
  have hstep := step_loggedIn (r := .input .ok 11)
    (.controlSpan (ascii "NOOP\nNOOP\r\n") 3) (by decide +kernel)
  obtain ⟨k, new, rest', s₁, hk, -, -, hlined, hexec, -⟩ := hspan _ _ _ _ _ _ hstep
  have hstream : delivered (play fileDevice .start emptyFile loginCalls) =
      ascii "USER anonymous\r\nPASS x\r\n" := by decide +kernel
  rw [hstream] at hlined
  exact ⟨hbound, lines, k, new, rest', _, s₁, hk, hlined, hexec⟩

end EkBareMetal.Ftp

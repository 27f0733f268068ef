import EkBareMetal.Tools.Transport

/-!
# A reply, and not a byte more

What a stream has to begin with for `getmultiline` to return is said of the lines
as they are on the wire: how each of them ends, what the texts of one reply are,
and the three limits. `Takes` is the part of it that one call of `getline`
decides, and a line feed ends a line only once, so a stream begins with at most one
line. `Goes` puts such lines one behind the other, the way the loop of
`getmultiline` meets them, and inherits from `Takes` that there is at most one way
to do it.

Both methods are then followed over every stream at once: they return what the
stream begins with, or they raise and it begins with nothing of the kind. What they
hold is in their notes, and every note is within the limits, whichever way the
call ends.
-/

namespace EkBareMetal.Tools

open Leaving Leaving.Method Text

/-! ## What is a reply -/

/-- The line `wire` is the text `text`. -/
def IsLine (reader : ReplyReader) (wire : List UInt8) (text : List Char) : Prop :=
  ∃ body decoded, lineFeed ∉ body ∧ wire = body ++ [lineFeed] ∧
    reader.encoding wire = some decoded ∧ text = rstrip decoded

/-- Three digits and `separator`. -/
def Opens (separator : Char) (text : List Char) : Prop :=
  threeDigits (text.take 3) = true ∧ text[3]? = some separator

/-- A line within a reply: with the code of the reply it has `-` next. -/
def Inner (code text : List Char) : Prop := text.take 3 = code → text[3]? = some '-'

def Closes (code text : List Char) : Prop := text.take 3 = code ∧ text[3]? = some ' '

inductive IsReply : List (List Char) → Prop where
  | one {text : List Char} (h : Opens ' ' text) : IsReply [text]
  | many {first last : List Char} {middle : List (List Char)} (hf : Opens '-' first)
      (hm : ∀ text ∈ middle, Inner (first.take 3) text) (hl : Closes (first.take 3) last) :
      IsReply (first :: (middle ++ [last]))

/-- The stream begins with a reply within the limits. -/
structure BeginsWith (reader : ReplyReader) (stream : List UInt8) (wires : List (List UInt8))
    (texts : List (List Char)) (rest : List UInt8) : Prop where
  stream_eq : stream = wires.flatten ++ rest
  lines : List.Forall₂ (IsLine reader) wires texts
  reply : IsReply texts
  short : ∀ wire ∈ wires, wire.length ≤ reader.maxline
  few : wires.length ≤ reader.maxReplyLines
  fits : wires.flatten.length ≤ reader.maxReplyBytes

def Held.Fits (reader : ReplyReader) : Held → Prop
  | .line bytes => bytes.length ≤ reader.maxline
  | .lines texts => texts.length ≤ reader.maxReplyLines

/-- What is held is within its limit, and so is what has been received of `stream` by then. -/
structure Bounded (reader : ReplyReader) (stream : List UInt8) (m : Held × DeadlineFTP) : Prop where
  held : m.1.Fits reader
  received : ∃ received unread, m.2.sock = some unread ∧ stream = received ++ unread ∧
    received.length ≤ reader.maxReplyBytes

/-! ## One line -/

section Lines

variable {reader : ReplyReader} {base : Nat} {stream wire wire' rest rest' line : List UInt8}
  {text text' : List Char}

/-- The stream begins with a line, before which the reply has `base` bytes. -/
structure Takes (reader : ReplyReader) (base : Nat) (stream wire rest : List UInt8)
    (text : List Char) : Prop where
  stream_eq : stream = wire ++ rest
  line : IsLine reader wire text
  short : wire.length ≤ reader.maxline
  fits : base + wire.length ≤ reader.maxReplyBytes

theorem feed_unique {a b c d : List UInt8} (ha : lineFeed ∉ a) (hb : lineFeed ∉ b)
    (h : a ++ lineFeed :: c = b ++ lineFeed :: d) : a = b ∧ c = d := by
  induction a generalizing b with
  | nil =>
      cases b with
      | nil => exact ⟨rfl, (List.cons.inj h).2⟩
      | cons x b =>
          obtain ⟨rfl, -⟩ := List.cons.inj h
          simp at hb
  | cons x a ih =>
      cases b with
      | nil =>
          obtain ⟨rfl, -⟩ := List.cons.inj h
          simp at ha
      | cons y b =>
          obtain ⟨rfl, htail⟩ := List.cons.inj h
          obtain ⟨rfl, hcd⟩ := ih (fun hm => ha (List.mem_cons_of_mem _ hm))
            (fun hm => hb (List.mem_cons_of_mem _ hm)) htail
          exact ⟨rfl, hcd⟩

theorem takes_unique (h : Takes reader base stream wire rest text)
    (h' : Takes reader base stream wire' rest' text') :
    wire = wire' ∧ rest = rest' ∧ text = text' := by
  obtain ⟨body, decoded, hb, hw, hd, ht⟩ := h.line
  obtain ⟨body', decoded', hb', hw', hd', ht'⟩ := h'.line
  have heq : body ++ lineFeed :: rest = body' ++ lineFeed :: rest' := by
    have hs := h.stream_eq.symm.trans h'.stream_eq
    rwa [hw, hw', List.append_assoc, List.append_assoc] at hs
  obtain ⟨rfl, rfl⟩ := feed_unique hb hb' heq
  obtain rfl : wire = wire' := hw.trans hw'.symm
  rw [hd] at hd'
  obtain rfl := Option.some.inj hd'
  exact ⟨rfl, rfl, ht.trans ht'.symm⟩

/-- A line does not end in what has no line feed. -/
theorem takes_longer (hline : lineFeed ∉ line) {unread : List UInt8}
    (h : Takes reader base (line ++ unread) wire rest text) : line.length < wire.length := by
  obtain ⟨body, -, -, hw, -, -⟩ := h.line
  by_contra hle
  have hpre : wire <+: line := by
    refine List.prefix_of_prefix_length_le ?_ (List.prefix_append line unread) (by omega)
    exact ⟨rest, h.stream_eq.symm⟩
  exact hline (hpre.subset (hw ▸ List.mem_append_right _ (List.mem_singleton_self _)))

/-- A line that has its line feed is the only one that the stream may begin with. -/
theorem takes_ended (hline : lineFeed ∉ line) {unread : List UInt8}
    (h : Takes reader base (line ++ lineFeed :: unread) wire rest text) :
    wire = line ++ [lineFeed] := by
  obtain ⟨body, -, hb, hw, -, -⟩ := h.line
  have hs : body ++ lineFeed :: rest = line ++ lineFeed :: unread := by
    rw [h.stream_eq, hw, List.append_assoc]
    rfl
  rw [hw, (feed_unique hb hline hs).1]

end Lines

/-! ## getline -/

abbrev Kept (reader : ReplyReader) (stream : List UInt8) (s : Noted DeadlineFTP Held) : Prop :=
  ∀ m ∈ s.notes, Bounded reader stream m

/-- `unread` is on the socket, and the `used` bytes in front of it have been counted. -/
structure At (reader : ReplyReader) (stream unread : List UInt8) (used : Nat)
    (s : Noted DeadlineFTP Held) : Prop where
  now : s.now = ⟨some unread, some used⟩
  received : ∃ received, stream = received ++ unread ∧ received.length = used
  fits : used ≤ reader.maxReplyBytes
  kept : Kept reader stream s

section Getline

variable {reader : ReplyReader} {stream unread line : List UInt8} {used base : Nat}
  {s : Noted DeadlineFTP Held}

/-- What is held with the socket as it is may be noted when it is within its limit. -/
theorem At.note (hs : At reader stream unread used s) (held : Held) (hheld : held.Fits reader) :
    At reader stream unread used { s with notes := (held, s.now) :: s.notes } where
  now := hs.now
  received := hs.received
  fits := hs.fits
  kept := by
    intro m hm
    rcases List.mem_cons.mp hm with rfl | hm
    · obtain ⟨received, hstream, hlength⟩ := hs.received
      have hfits : received.length ≤ reader.maxReplyBytes := by
        rw [hlength]
        exact hs.fits
      exact ⟨hheld, received, unread, by rw [hs.now], hstream, hfits⟩
    · exact hs.kept m hm

/-- One byte more has been received, and it has been counted. -/
theorem At.receive {byte : UInt8} (hs : At reader stream (byte :: unread) used s)
    (hfits : used + 1 ≤ reader.maxReplyBytes) :
    At reader stream unread (used + 1) { s with now := ⟨some unread, some (used + 1)⟩ } where
  now := rfl
  received := by
    obtain ⟨received, hstream, hlength⟩ := hs.received
    refine ⟨received ++ [byte], ?_, ?_⟩
    · rw [hstream, List.append_assoc]
      rfl
    · rw [List.length_append, hlength]
      rfl
  fits := hfits
  kept := hs.kept

theorem countByte_leads (hs : s.now.replyBytes = some used) :
    Leads (countByte reader) s
      (fun _ s' => used + 1 ≤ reader.maxReplyBytes ∧
        s' = { s with now := { s.now with replyBytes := some (used + 1) } })
      (fun e s' => e.handled = true ∧ s'.notes = s.notes ∧ reader.maxReplyBytes < used + 1) := by
  refine leads_object ?_
  rw [hs]
  refine leads_change ?_
  by_cases hmax : used + 1 > reader.maxReplyBytes
  · rw [if_pos hmax]
    exact leads_change (leads_throw ⟨rfl, rfl, hmax⟩)
  · rw [if_neg hmax]
    exact leads_pure ⟨Nat.le_of_not_lt hmax, rfl⟩

theorem getlineLoop_leads (hs : At reader stream unread (base + line.length) s)
    (hline : lineFeed ∉ line) :
    Leads (getlineLoop reader unread line) s
      (fun text s' => ∃ wire rest, Takes reader base (line ++ unread) wire rest text ∧
        At reader stream rest (base + wire.length) s')
      (fun e s' => e.handled = true ∧ Kept reader stream s' ∧
        ∀ wire rest text, ¬ Takes reader base (line ++ unread) wire rest text) := by
  induction unread generalizing line s with
  | nil =>
      refine leads_throw ⟨rfl, hs.kept, ?_⟩
      intro wire rest text ht
      have hlong := takes_longer hline ht
      have heq := congrArg List.length ht.stream_eq
      simp only [List.append_nil, List.length_append] at heq
      omega
  | cons byte unread ih =>
      refine leads_change (leads_bind ?_)
      have hcount : s.now.replyBytes = some (base + line.length) := by rw [hs.now]
      refine leads_mono (countByte_leads hcount) ?_ ?_
      · rintro - s₁ ⟨hfits, rfl⟩
        have hs₁ := hs.receive hfits
        by_cases hlong : line.length + 1 > reader.maxline
        · rw [if_pos hlong]
          refine leads_change (leads_throw ⟨rfl, hs.kept, ?_⟩)
          intro wire rest text ht
          have hlonger := takes_longer hline ht
          have := ht.short
          omega
        · rw [if_neg hlong]
          have hlength : (line ++ [byte]).length = line.length + 1 := List.length_append
          have hheld : (line ++ [byte]).length ≤ reader.maxline := by omega
          have hused : base + line.length + 1 = base + (line ++ [byte]).length := by omega
          rw [hused] at hs₁ ⊢
          have hs₂ := hs₁.note (.line (line ++ [byte])) hheld
          refine leads_note ?_
          by_cases hend : byte = lineFeed
          · subst hend
            rw [if_pos rfl]
            have hsplit : line ++ lineFeed :: unread = (line ++ [lineFeed]) ++ unread := by
              rw [List.append_assoc]
              rfl
            cases hdecode : reader.encoding (line ++ [lineFeed]) with
            | none =>
                refine leads_throw ⟨rfl, hs₂.kept, ?_⟩
                intro wire rest text ht
                obtain ⟨-, decoded, -, -, hd, -⟩ := ht.line
                rw [takes_ended hline ht, hdecode] at hd
                cases hd
            | some decoded =>
                refine leads_pure ⟨_, unread, ⟨hsplit, ?_, hheld, hs₂.fits⟩, hs₂⟩
                exact ⟨line, decoded, hline, rfl, hdecode, rfl⟩
          · rw [if_neg hend]
            have hnone : lineFeed ∉ line ++ [byte] := by
              intro hm
              rcases List.mem_append.mp hm with hm | hm
              · exact hline hm
              · exact hend (List.mem_singleton.mp hm).symm
            have hloop := ih hs₂ hnone
            rwa [List.append_assoc] at hloop
      · intro e s' ⟨he, hnotes, hmax⟩
        refine ⟨he, ?_, ?_⟩
        · rw [Kept, hnotes]
          exact hs.kept
        · intro wire rest text ht
          have hlong := takes_longer hline ht
          have := ht.fits
          omega

/-- `getline` returns the line that the stream begins with, and takes nothing else. -/
theorem getline_leads (hs : At reader stream unread base s) :
    Leads (getline reader) s
      (fun text s' => ∃ wire rest, Takes reader base unread wire rest text ∧
        At reader stream rest (base + wire.length) s')
      (fun e s' => e.handled = true ∧ Kept reader stream s' ∧
        ∀ wire rest text, ¬ Takes reader base unread wire rest text) := by
  refine leads_object ?_
  rw [hs.now]
  exact getlineLoop_leads hs List.not_mem_nil

end Getline

/-! ## Lines behind the first -/

/-- The stream begins with at most `room` lines, of which the last closes the reply. -/
inductive Goes (reader : ReplyReader) (code : List Char) :
    Nat → Nat → List UInt8 → List (List UInt8) → List (List Char) → List UInt8 → Prop where
  | close {base room : Nat} {stream wire rest : List UInt8} {text : List Char}
      (ht : Takes reader base stream wire rest text) (hc : Closes code text) :
      Goes reader code base (room + 1) stream [wire] [text] rest
  | inner {base room : Nat} {stream wire unread rest : List UInt8} {text : List Char}
      {wires : List (List UInt8)} {texts : List (List Char)}
      (ht : Takes reader base stream wire unread text) (hi : Inner code text)
      (hg : Goes reader code (base + wire.length) room unread wires texts rest) :
      Goes reader code base (room + 1) stream (wire :: wires) (text :: texts) rest

section Goes

variable {reader : ReplyReader} {code : List Char} {base room : Nat}
  {stream rest rest' : List UInt8} {wires wires' : List (List UInt8)}
  {texts texts' : List (List Char)}

theorem Inner.not_closes {text : List Char} (hi : Inner code text) : ¬ Closes code text := by
  intro hc
  have hsep := hi hc.1
  rw [hc.2] at hsep
  exact absurd hsep (by decide)

theorem goes_unique (h : Goes reader code base room stream wires texts rest)
    (h' : Goes reader code base room stream wires' texts' rest') :
    texts = texts' ∧ rest = rest' := by
  induction h generalizing wires' texts' rest' with
  | close ht hc =>
      cases h' with
      | close ht' _ =>
          obtain ⟨-, rfl, rfl⟩ := takes_unique ht ht'
          exact ⟨rfl, rfl⟩
      | inner ht' hi _ =>
          obtain ⟨-, -, rfl⟩ := takes_unique ht ht'
          exact absurd hc hi.not_closes
  | inner ht hi _ ih =>
      cases h' with
      | close ht' hc =>
          obtain ⟨-, -, rfl⟩ := takes_unique ht ht'
          exact absurd hc hi.not_closes
      | inner ht' _ hg' =>
          obtain ⟨rfl, rfl, rfl⟩ := takes_unique ht ht'
          obtain ⟨rfl, rfl⟩ := ih hg'
          exact ⟨rfl, rfl⟩

/-- The lines behind the first, all of them at once. -/
theorem goes_iff : Goes reader code base room stream wires texts rest ↔
    stream = wires.flatten ++ rest ∧ List.Forall₂ (IsLine reader) wires texts ∧
      (∀ wire ∈ wires, wire.length ≤ reader.maxline) ∧ wires.length ≤ room ∧
      base + wires.flatten.length ≤ reader.maxReplyBytes ∧
      ∃ middle last, texts = middle ++ [last] ∧ (∀ text ∈ middle, Inner code text) ∧
        Closes code last := by
  constructor
  · intro h
    induction h with
    | close ht hc =>
        refine ⟨?_, .cons ht.line .nil, ?_, Nat.succ_le_succ (Nat.zero_le _), ?_, [], _, rfl, ?_, hc⟩
        · rw [List.flatten_singleton]
          exact ht.stream_eq
        · intro wire hw
          obtain rfl := List.mem_singleton.mp hw
          exact ht.short
        · rw [List.flatten_singleton]
          exact ht.fits
        · intro text hm
          cases hm
    | inner ht hi _ ih =>
        obtain ⟨hstream, hlines, hshort, hroom, hfits, middle, last, rfl, hmiddle, hlast⟩ := ih
        refine ⟨?_, .cons ht.line hlines, List.forall_mem_cons.mpr ⟨ht.short, hshort⟩,
          Nat.succ_le_succ hroom, ?_, _ :: middle, last, rfl,
          List.forall_mem_cons.mpr ⟨hi, hmiddle⟩, hlast⟩
        · rw [ht.stream_eq, hstream, List.flatten_cons, List.append_assoc]
        · rw [List.flatten_cons, List.length_append]
          omega
  · intro ⟨hstream, hlines, hshort, hroom, hfits, middle, last, htexts, hmiddle, hlast⟩
    induction middle generalizing base room stream wires texts with
    | nil =>
        subst htexts
        cases hlines with
        | cons hline hnil =>
            cases hnil
            rw [List.flatten_singleton] at hstream hfits
            obtain ⟨room, rfl⟩ := Nat.exists_eq_succ_of_ne_zero (Nat.ne_of_gt hroom)
            exact .close ⟨hstream, hline, hshort _ (List.mem_singleton_self _), hfits⟩ hlast
    | cons text middle ih =>
        subst htexts
        cases hlines with
        | @cons wire _ wires _ hline hlines =>
            rw [List.flatten_cons] at hstream hfits
            rw [List.append_assoc] at hstream
            rw [List.length_append] at hfits
            obtain ⟨hshort₁, hshort⟩ := List.forall_mem_cons.mp hshort
            obtain ⟨hinner, hmiddle⟩ := List.forall_mem_cons.mp hmiddle
            rw [List.length_cons] at hroom
            obtain ⟨room, rfl⟩ := Nat.exists_eq_succ_of_ne_zero (by omega : room ≠ 0)
            refine .inner ⟨hstream, hline, hshort₁, by omega⟩ hinner ?_
            exact ih rfl hlines hshort (by omega) (by omega) rfl hmiddle

end Goes

/-! ## getmultiline -/

section Getmultiline

variable {reader : ReplyReader} {code : List Char} {base room : Nat}
  {stream unread : List UInt8} {s : Noted DeadlineFTP Held}

/-- The loop has found the lines up to the one that closes the reply. -/
def Found (reader : ReplyReader) (stream : List UInt8) (code : List Char) (base room : Nat)
    (unread : List UInt8) (lines all : List (List Char)) (s : Noted DeadlineFTP Held) : Prop :=
  ∃ wires texts rest used, Goes reader code base room unread wires texts rest ∧
    all = lines ++ texts ∧ At reader stream rest used s

def NotFound (reader : ReplyReader) (stream : List UInt8) (code : List Char) (base room : Nat)
    (unread : List UInt8) (e : FtpError) (s : Noted DeadlineFTP Held) : Prop :=
  e.handled = true ∧ Kept reader stream s ∧
    ∀ wires texts rest, ¬ Goes reader code base room unread wires texts rest

theorem Found.inner {lines all : List (List Char)} {wire unread' : List UInt8} {text : List Char}
    (ht : Takes reader base unread wire unread' text) (hi : Inner code text)
    (h : Found reader stream code (base + wire.length) room unread' (lines ++ [text]) all s) :
    Found reader stream code base (room + 1) unread lines all s := by
  obtain ⟨wires, texts, rest, used, hg, hall, hs⟩ := h
  refine ⟨wire :: wires, text :: texts, rest, used, .inner ht hi hg, ?_, hs⟩
  rw [hall, List.append_assoc]
  rfl

theorem NotFound.inner {e : FtpError} {wire unread' : List UInt8} {text : List Char}
    (ht : Takes reader base unread wire unread' text) (hi : Inner code text)
    (h : NotFound reader stream code (base + wire.length) room unread' e s) :
    NotFound reader stream code base (room + 1) unread e s := by
  obtain ⟨he, hkept, hnone⟩ := h
  refine ⟨he, hkept, ?_⟩
  intro wires texts rest hg
  cases hg with
  | close ht' hc =>
      obtain ⟨-, -, rfl⟩ := takes_unique ht ht'
      exact hi.not_closes hc
  | inner ht' _ hg =>
      obtain ⟨rfl, rfl, rfl⟩ := takes_unique ht ht'
      exact hnone _ _ _ hg

theorem replyLoop_leads {lines : List (List Char)} (hs : At reader stream unread base s)
    (hroom : room + lines.length = reader.maxReplyLines) :
    Leads (replyLoop reader code room lines) s
      (Found reader stream code base room unread lines)
      (NotFound reader stream code base room unread) := by
  induction room generalizing base unread lines s with
  | zero =>
      refine leads_throw ⟨rfl, hs.kept, ?_⟩
      intro wires texts rest hg
      cases hg
  | succ room ih =>
      refine leads_bind (leads_mono (getline_leads hs) ?_ ?_)
      · intro text s₁ ⟨wire, unread', ht, hs₁⟩
        have hlength : (lines ++ [text]).length = lines.length + 1 := List.length_append
        have hheld : (lines ++ [text]).length ≤ reader.maxReplyLines := by omega
        have hs₂ := hs₁.note (.lines (lines ++ [text])) hheld
        refine leads_note ?_
        have hroom' : room + (lines ++ [text]).length = reader.maxReplyLines := by omega
        have hloop := ih hs₂ hroom'
        by_cases hcode : text.take 3 = code
        · rw [if_pos hcode]
          by_cases hspace : text[3]? = some ' '
          · rw [if_pos hspace]
            exact leads_pure ⟨_, _, unread', _, .close ht ⟨hcode, hspace⟩, rfl, hs₂⟩
          · rw [if_neg hspace]
            by_cases hdash : text[3]? = some '-'
            · rw [if_neg (not_not.mpr hdash)]
              have hinner : Inner code text := fun _ => hdash
              exact leads_mono hloop (fun _ _ => .inner ht hinner) fun _ _ => .inner ht hinner
            · rw [if_pos hdash]
              refine leads_throw ⟨rfl, hs₂.kept, ?_⟩
              intro wires texts rest hg
              cases hg with
              | close ht' hc =>
                  obtain ⟨-, -, rfl⟩ := takes_unique ht ht'
                  exact hspace hc.2
              | inner ht' hi _ =>
                  obtain ⟨-, -, rfl⟩ := takes_unique ht ht'
                  exact hdash (hi hcode)
        · rw [if_neg hcode]
          have hinner : Inner code text := fun h => absurd h hcode
          exact leads_mono hloop (fun _ _ => .inner ht hinner) fun _ _ => .inner ht hinner
      · intro e s' ⟨he, hkept, hnone⟩
        refine ⟨he, hkept, ?_⟩
        intro wires texts rest hg
        cases hg with
        | close ht _ => exact hnone _ _ _ ht
        | inner ht _ _ => exact hnone _ _ _ ht

/-- The first line decides which kind of reply it is. -/
theorem begins_iff {wires : List (List UInt8)} {texts : List (List Char)} {rest : List UInt8} :
    BeginsWith reader stream wires texts rest ↔
      (∃ wire text, wires = [wire] ∧ texts = [text] ∧ Takes reader 0 stream wire rest text ∧
        Opens ' ' text) ∨
      ∃ wire text wires' texts' unread, wires = wire :: wires' ∧ texts = text :: texts' ∧
        Takes reader 0 stream wire unread text ∧ Opens '-' text ∧
        Goes reader (text.take 3) (0 + wire.length) (reader.maxReplyLines - 1) unread
          wires' texts' rest := by
  have hpos := reader.lines_pos
  constructor
  · intro ⟨hstream, hlines, hreply, hshort, hfew, hfits⟩
    cases hreply with
    | one hopens =>
        cases hlines with
        | @cons wire _ _ _ hline hnil =>
            cases hnil
            rw [List.flatten_singleton] at hstream hfits
            have hshort₁ := hshort wire (List.mem_singleton_self wire)
            exact .inl ⟨wire, _, rfl, rfl, ⟨hstream, hline, hshort₁, by omega⟩, hopens⟩
    | @many text last middle hopens hmiddle hlast =>
        cases hlines with
        | @cons wire _ wires _ hline hlines =>
            rw [List.flatten_cons] at hstream hfits
            rw [List.append_assoc] at hstream
            rw [List.length_append] at hfits
            rw [List.length_cons] at hfew
            obtain ⟨hshort₁, hshort⟩ := List.forall_mem_cons.mp hshort
            have hgoes : Goes reader (text.take 3) (0 + wire.length) (reader.maxReplyLines - 1)
                (wires.flatten ++ rest) wires (middle ++ [last]) rest :=
              goes_iff.mpr ⟨rfl, hlines, hshort, by omega, by omega, middle, last, rfl, hmiddle, hlast⟩
            exact .inr ⟨wire, text, wires, _, _, rfl, rfl, ⟨hstream, hline, hshort₁, by omega⟩,
              hopens, hgoes⟩
  · rintro (⟨wire, text, rfl, rfl, ht, hopens⟩ |
      ⟨wire, text, wires, texts, unread, rfl, rfl, ht, hopens, hgoes⟩)
    · refine ⟨?_, .cons ht.line .nil, .one hopens, ?_, hpos, ?_⟩
      · rw [List.flatten_singleton]
        exact ht.stream_eq
      · intro w hw
        obtain rfl := List.mem_singleton.mp hw
        exact ht.short
      · rw [List.flatten_singleton]
        have := ht.fits
        omega
    · obtain ⟨rfl, hlines, hshort, hfew, hfits, middle, last, rfl, hmiddle, hlast⟩ :=
        goes_iff.mp hgoes
      refine ⟨?_, .cons ht.line hlines, .many hopens hmiddle hlast,
        List.forall_mem_cons.mpr ⟨ht.short, hshort⟩, ?_, ?_⟩
      · rw [ht.stream_eq, List.flatten_cons, List.append_assoc]
      · rw [List.length_cons]
        omega
      · rw [List.flatten_cons, List.length_append]
        omega

/-- A line that opens a reply passes the check of the framing. -/
theorem Opens.framed {separator : Char} {text : List Char} (h : Opens separator text)
    (hsep : separator = ' ' ∨ separator = '-') :
    ¬ (text.length < 4 ∨ ¬ threeDigits (text.take 3) ∨
      ¬ (text[3]? = some ' ' ∨ text[3]? = some '-')) := by
  obtain ⟨hlength, -⟩ := List.getElem?_eq_some_iff.mp h.2
  rintro (hshort | hdigits | hnone)
  · omega
  · exact hdigits h.1
  · rw [h.2] at hnone
    exact hnone (hsep.imp (congrArg some) (congrArg some))

theorem replyLines_leads (hs : At reader stream stream 0 s) :
    Leads (replyLines reader) s
      (fun texts s' => ∃ wires rest used, BeginsWith reader stream wires texts rest ∧
        At reader stream rest used s')
      (fun e s' => e.handled = true ∧ Kept reader stream s' ∧
        ∀ wires texts rest, ¬ BeginsWith reader stream wires texts rest) := by
  have hpos := reader.lines_pos
  refine leads_bind (leads_mono (getline_leads hs) ?_ ?_)
  · intro text s₁ ⟨wire, unread, ht, hs₁⟩
    by_cases hframing : text.length < 4 ∨ ¬ threeDigits (text.take 3) ∨
        ¬ (text[3]? = some ' ' ∨ text[3]? = some '-')
    · rw [if_pos hframing]
      refine leads_throw ⟨rfl, hs₁.kept, ?_⟩
      intro wires texts rest hb
      rcases begins_iff.mp hb with ⟨_, _, -, -, ht', hopens⟩ | ⟨_, _, _, _, _, -, -, ht', hopens, -⟩
      · obtain ⟨-, -, rfl⟩ := takes_unique ht ht'
        exact hopens.framed (.inl rfl) hframing
      · obtain ⟨-, -, rfl⟩ := takes_unique ht ht'
        exact hopens.framed (.inr rfl) hframing
    · rw [if_neg hframing]
      have hdigits : threeDigits (text.take 3) = true :=
        not_not.mp fun h => hframing (.inr (.inl h))
      have hsep : text[3]? = some ' ' ∨ text[3]? = some '-' :=
        not_not.mp fun h => hframing (.inr (.inr h))
      have hs₂ := hs₁.note (.lines [text]) hpos
      refine leads_note ?_
      by_cases hdash : text[3]? = some '-'
      · rw [if_pos hdash]
        refine leads_mono (replyLoop_leads hs₂ (Nat.sub_add_cancel hpos)) ?_ ?_
        · intro all s' ⟨wires, texts, rest, used, hg, hall, hs'⟩
          subst hall
          refine ⟨wire :: wires, rest, used, begins_iff.mpr (.inr ?_), hs'⟩
          exact ⟨wire, text, wires, texts, unread, rfl, rfl, ht, ⟨hdigits, hdash⟩, hg⟩
        · intro e s' ⟨he, hkept, hnone⟩
          refine ⟨he, hkept, ?_⟩
          intro wires texts rest hb
          rcases begins_iff.mp hb with ⟨_, _, -, -, ht', hopens⟩ |
            ⟨_, _, _, _, _, -, -, ht', -, hg⟩
          · obtain ⟨-, -, rfl⟩ := takes_unique ht ht'
            rw [hopens.2] at hdash
            exact absurd hdash (by decide)
          · obtain ⟨rfl, rfl, rfl⟩ := takes_unique ht ht'
            exact hnone _ _ _ hg
      · rw [if_neg hdash]
        have hopens : Opens ' ' text := ⟨hdigits, hsep.resolve_right hdash⟩
        exact leads_pure ⟨[wire], unread, _,
          begins_iff.mpr (.inl ⟨wire, text, rfl, rfl, ht, hopens⟩), hs₂⟩
  · intro e s' ⟨he, hkept, hnone⟩
    refine ⟨he, hkept, ?_⟩
    intro wires texts rest hb
    rcases begins_iff.mp hb with ⟨_, _, -, -, ht, -⟩ | ⟨_, _, _, _, _, -, -, ht, -, -⟩
    · exact hnone _ _ _ ht
    · exact hnone _ _ _ ht

theorem getmultiline_leads (hnow : s.now.sock = some stream) (hnotes : Kept reader stream s) :
    Leads (getmultiline reader) s
      (fun text s' => ∃ wires texts rest, BeginsWith reader stream wires texts rest ∧
        text = ['\n'].intercalate texts ∧ s'.now = ⟨some rest, none⟩ ∧ Kept reader stream s')
      (fun _ s' => (∀ wires texts rest, ¬ BeginsWith reader stream wires texts rest) ∧
        s'.now = ⟨none, none⟩ ∧ Kept reader stream s') := by
  have hs : At reader stream stream 0 { s with now := { s.now with replyBytes := some 0 } } :=
    ⟨congrArg (DeadlineFTP.mk · (some 0)) hnow, ⟨[], rfl, rfl⟩, Nat.zero_le _, hnotes⟩
  refine leads_change (leads_finally (leads_tryCatch (leads_bind ?_)))
  refine leads_mono (replyLines_leads hs) ?_ ?_
  · intro texts s' ⟨wires, rest, used, hb, hs'⟩
    exact leads_pure ⟨wires, texts, rest, hb, rfl, by rw [hs'.now], hs'.kept⟩
  · intro e s' ⟨he, hkept, hnone⟩
    show Leads (if e.handled = true then _ else _) s' _ _
    rw [if_pos he]
    exact leads_change (leads_throw ⟨hnone, rfl, hkept⟩)

theorem begins_unique {wires wires' : List (List UInt8)} {texts texts' : List (List Char)}
    {rest rest' : List UInt8} (h : BeginsWith reader stream wires texts rest)
    (h' : BeginsWith reader stream wires' texts' rest') : texts = texts' ∧ rest = rest' := by
  rcases begins_iff.mp h with ⟨_, _, -, rfl, ht, ho⟩ | ⟨_, _, _, _, _, -, rfl, ht, ho, hg⟩ <;>
    rcases begins_iff.mp h' with ⟨_, _, -, rfl, ht', ho'⟩ | ⟨_, _, _, _, _, -, rfl, ht', ho', hg'⟩ <;>
    obtain ⟨rfl, rfl, rfl⟩ := takes_unique ht ht'
  · exact ⟨rfl, rfl⟩
  · exact absurd (ho.2.symm.trans ho'.2) (by decide)
  · exact absurd (ho.2.symm.trans ho'.2) (by decide)
  · obtain ⟨rfl, rfl⟩ := goes_unique hg hg'
    exact ⟨rfl, rfl⟩

end Getmultiline

/-- `getmultiline` on an open socket with any stream, whatever the counter was before. -/
theorem getmultiline_exact (reader : ReplyReader) (stream : List UInt8) (count : Option Nat) :
    ∃ result sock notes,
      (getmultiline reader).call ⟨⟨some stream, count⟩, []⟩ = (result, ⟨⟨sock, none⟩, notes⟩) ∧
      (∀ wires texts rest, BeginsWith reader stream wires texts rest →
        result = .ok (['\n'].intercalate texts) ∧ sock = some rest) ∧
      ((∀ wires texts rest, ¬ BeginsWith reader stream wires texts rest) →
        sock = none ∧ ∃ e, result = .error e) ∧
      ∀ m ∈ notes, Bounded reader stream m := by
  have hleads : Leads (getmultiline reader) ⟨⟨some stream, count⟩, []⟩ _ _ :=
    getmultiline_leads rfl fun _ hm => absurd hm List.not_mem_nil
  rcases hleads.cases with ⟨text, s', hcall, wires, texts, rest, hb, rfl, hnow, hkept⟩ |
    ⟨e, s', hcall, hnone, hnow, hkept⟩
  · refine ⟨.ok (['\n'].intercalate texts), some rest, s'.notes, ?_, ?_, ?_, hkept⟩
    · rw [hcall, ← hnow]
    · intro wires' texts' rest' hb'
      obtain ⟨rfl, rfl⟩ := begins_unique hb hb'
      exact ⟨rfl, rfl⟩
    · intro hnone
      exact absurd hb (hnone wires texts rest)
  · refine ⟨.error e, none, s'.notes, ?_, ?_, fun _ => ⟨rfl, e, rfl⟩, hkept⟩
    · rw [hcall, ← hnow]
    · intro wires texts rest hb
      exact absurd hb (hnone wires texts rest)

example : ((getmultiline deadlineReader).call
    ⟨⟨some (ascii "220-a\r\n250 b\r\n220 c\r\n331"), none⟩, []⟩).1 =
      .ok "220-a\n250 b\n220 c".toList := by decide +kernel

end EkBareMetal.Tools

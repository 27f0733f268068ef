import EkBareMetal.Ftp.Lwip
import EkBareMetal.Proofs.FtpHolding
import Mathlib.Data.List.Perm.Basic

/-!
# The books of the adapter

Between two callbacks every byte of a chain that was taken over has been accepted
or discarded, and credited, or it stands behind the offset of the chain that is
held, or was lost with its connection. `Intact` says so of all connections, the two
that are open and those that were. Only five steps move a byte: a chain is taken
over (`Intact.take`), what the core accepted is credited (`Intact.accept`), a
session that quits drops what is held (`Intact.drop`) and what still comes
(`Intact.skip`), and a connection ends in front of what is held (`Intact.lose`).

A discarded byte does not stand in front of one that is accepted later, because
only a session that quits discards, and such a session accepts nothing any more
(`FtpCore.shut`).
-/

namespace EkBareMetal.Ftp

open Interact

/-! ## The books of a connection -/

namespace Conn

/-- What holds of every connection, open or not. -/
structure Booked (c : Conn) : Prop where
  taken : c.taken ≤ c.received.length
  credit : c.credit = c.accepted.length + c.discarded.length
  order : c.accepted <+: c.took
  bound : c.accepted.length + c.discarded.length ≤ c.took.length
  dropped : c.dropped = []

/-- Behind what was accepted of the taken bytes stands `rest`, among what was discarded. -/
def Behind (c : Conn) (rest : List UInt8) : Prop :=
  ∃ left, c.took = c.accepted ++ left ∧ left.Perm (c.discarded ++ rest) ∧
    (c.discarded = [] → left = rest)

/-- What holds of one that is open, when `rest` is what is held of its bytes. -/
structure Reading (c : Conn) (rest : List UInt8) : Prop where
  behind : c.Behind rest
  whole : c.lost = []

/-- Nothing has been read. -/
structure Unread (c : Conn) : Prop where
  taken : c.taken = 0
  accepted : c.accepted = []
  discarded : c.discarded = []
  lost : c.lost = []

variable {c : Conn} {b : Pbuf} {rest x : List UInt8} {n : Nat}

theorem Unread.behind (h : c.Unread) : c.Behind [] := by
  refine ⟨[], ?_, ?_, fun _ => rfl⟩
  · rw [took, h.taken, h.accepted]
    rfl
  · rw [h.discarded]
    exact .refl _

theorem Unread.reading (h : c.Unread) : c.Reading [] := ⟨h.behind, h.lost⟩

theorem took_next (h : c.received[c.taken]? = some b) :
    { c with taken := c.taken + 1 }.took = c.took ++ b.bytes := by
  show (c.received.take (c.taken + 1)).flatMap Pbuf.bytes = _
  rw [List.take_add_one, h, List.flatMap_append, Option.toList_some, List.flatMap_singleton]
  rfl

theorem took_arrives (h : c.taken ≤ c.received.length) :
    { c with received := c.received ++ [b] }.took = c.took := by
  show ((c.received ++ [b]).take c.taken).flatMap Pbuf.bytes = _
  rw [List.take_append_of_le_length h]
  rfl

theorem Behind.arrives (h : c.Behind rest) (htaken : c.taken ≤ c.received.length) :
    { c with received := c.received ++ [b] }.Behind rest := by
  obtain ⟨left, hleft⟩ := h
  refine ⟨left, ?_⟩
  rw [took_arrives htaken]
  exact hleft

/-- What is open is booked. -/
theorem Reading.booked (h : c.Reading rest) (htaken : c.taken ≤ c.received.length)
    (hcredit : c.credit = c.accepted.length + c.discarded.length) (hdropped : c.dropped = []) :
    c.Booked := by
  obtain ⟨left, htook, hperm, -⟩ := h.behind
  refine ⟨htaken, hcredit, ⟨left, htook.symm⟩, ?_, hdropped⟩
  rw [htook, List.length_append, hperm.length_eq, List.length_append]
  omega

/-- A chain is taken over when nothing is held. -/
theorem Reading.next (h : c.Reading []) (hb : c.received[c.taken]? = some b) :
    { c with taken := c.taken + 1 }.Reading b.bytes := by
  obtain ⟨left, htook, hperm, hleft⟩ := h.behind
  rw [List.append_nil] at hperm
  refine ⟨⟨left ++ b.bytes, ?_, hperm.append_right _, fun hd => ?_⟩, h.whole⟩
  · rw [took_next hb, htook, List.append_assoc]
  · rw [hleft hd, List.nil_append]

/-- A chain is taken over and discarded, whatever is held. -/
theorem Reading.skip (h : c.Reading rest) (hb : c.received[c.taken]? = some b) :
    { c with taken := c.taken + 1, discarded := c.discarded ++ b.bytes, credit := n }.Reading
      rest := by
  obtain ⟨left, htook, hperm, hleft⟩ := h.behind
  refine ⟨⟨left ++ b.bytes, ?_, ?_, fun hd => ?_⟩, h.whole⟩
  · show { c with taken := c.taken + 1 }.took = _
    rw [took_next hb, htook, List.append_assoc]
  · have hmoved : (c.discarded ++ rest ++ b.bytes).Perm (c.discarded ++ b.bytes ++ rest) := by
      rw [List.append_assoc, List.append_assoc]
      exact List.perm_append_comm.append_left _
    exact (hperm.append_right _).trans hmoved
  · obtain ⟨hd, hb⟩ := List.append_eq_nil_iff.mp hd
    rw [hleft hd, hb, List.append_nil]

/-- The core has accepted the front of what is held. -/
theorem Reading.accept (h : c.Reading (x ++ rest)) (hd : c.discarded = []) :
    { c with accepted := c.accepted ++ x, credit := n }.Reading rest := by
  obtain ⟨left, htook, -, hleft⟩ := h.behind
  refine ⟨⟨rest, ?_, ?_, fun _ => rfl⟩, h.whole⟩
  · show c.took = _
    rw [htook, hleft hd, List.append_assoc]
  · show rest.Perm (c.discarded ++ rest)
    rw [hd]
    exact .refl _

/-- All that is held is discarded. -/
theorem Reading.drop (h : c.Reading rest) :
    { c with discarded := c.discarded ++ rest, credit := n }.Reading [] := by
  obtain ⟨left, htook, hperm, hleft⟩ := h.behind
  refine ⟨⟨left, htook, ?_, fun hd => ?_⟩, h.whole⟩
  · rw [List.append_nil]
    exact hperm
  · obtain ⟨hd, hrest⟩ := List.append_eq_nil_iff.mp hd
    rw [hleft hd, hrest]

/-- The connection ends, and what is held of it is lost. -/
theorem Reading.lose (h : c.Reading rest) :
    { c with lost := c.lost ++ rest }.Behind (c.lost ++ rest) := by
  rw [h.whole]
  exact h.behind

end Conn

/-! ## The channels -/

namespace Channel

/-- A channel without a connection holds nothing, and the offset is in the chain. -/
structure Proper (c : Channel) : Prop where
  idle : c.pcb = none → c.rx = none
  start : c.rx = none → c.offset = 0
  bound : ∀ b, c.rx = some b → c.offset.toNat ≤ b.bytes.length

/-- The flags apart, the channel is as it was. -/
structure Same (c c' : Channel) : Prop where
  pcb : c'.pcb = c.pcb
  rx : c'.rx = c.rx
  offset : c'.offset = c.offset

/-- The channel without its connection. -/
structure Lost (c : Channel) : Prop where
  pcb : c.pcb = none
  rx : c.rx = none
  offset : c.offset = 0

variable {c c' : Channel}

theorem Same.refl (c : Channel) : c.Same c := ⟨rfl, rfl, rfl⟩

theorem Same.rest (h : c.Same c') : c'.rest = c.rest := by
  rw [Channel.rest, Channel.rest, h.rx, h.offset]

theorem Same.proper (h : c.Same c') (hc : c.Proper) : c'.Proper := by
  refine ⟨fun hp => ?_, fun hr => ?_, fun b hb => ?_⟩
  · rw [h.rx]
    exact hc.idle (h.pcb.symm.trans hp)
  · rw [h.offset]
    exact hc.start (h.rx.symm.trans hr)
  · rw [h.offset]
    exact hc.bound b (h.rx.symm.trans hb)

theorem Lost.proper (h : c.Lost) : c.Proper :=
  ⟨fun _ => h.rx, fun _ => h.offset, fun b hb => by rw [h.rx] at hb; cases hb⟩

theorem rest_nil (hrx : c.rx = none) : c.rest = [] := by
  rw [Channel.rest, hrx]

end Channel

theorem Pbuf.toNat_totLen (b : Pbuf) : b.totLen.toNat = b.bytes.length :=
  UInt16.toNat_ofNat_of_lt' b.fits

/-! ## The invariant -/

/-- The other channel. -/
def Side.other : Side → Side
  | .control => .data
  | .data => .control

namespace FtpTcp

/-- The chains that are held. -/
def held (s : FtpTcp) : List Pbuf := s.control.rx.toList ++ s.data.rx.toList

variable {s : FtpTcp} {c : Channel} {side other : Side} {b : Pbuf}

theorem put_channel (s : FtpTcp) (c : Channel) (side other : Side) :
    (s.put c side).channel other = if other = side then c else s.channel other := by
  cases side <;> cases other <;> rfl

theorem put_channel_same (s : FtpTcp) (c : Channel) (side : Side) :
    (s.put c side).channel side = c := by
  rw [put_channel, if_pos rfl]

@[simp] theorem put_core (s : FtpTcp) (c : Channel) (side : Side) :
    (s.put c side).core = s.core := by
  cases side <;> rfl

theorem put_put (s : FtpTcp) (c c' : Channel) (side : Side) :
    (s.put c side).put c' side = s.put c' side := by
  cases side <;> rfl

theorem held_perm (s : FtpTcp) (side : Side) :
    s.held.Perm ((s.channel side).rx.toList ++ (s.channel side.other).rx.toList) := by
  cases side
  · exact .refl _
  · exact List.perm_append_comm

theorem held_put (s : FtpTcp) (c : Channel) (side : Side) :
    (s.put c side).held.Perm (c.rx.toList ++ (s.channel side.other).rx.toList) := by
  cases side
  · exact .refl _
  · exact List.perm_append_comm

theorem held_same (h : c.rx = (s.channel side).rx) : (s.put c side).held.Perm s.held := by
  have hput := s.held_put c side
  rw [h] at hput
  exact hput.trans (s.held_perm side).symm

theorem held_take (hnone : (s.channel side).rx = none) (h : c.rx = some b) :
    (s.put c side).held.Perm (s.held ++ [b]) := by
  have hput := s.held_put c side
  have hheld := s.held_perm side
  rw [hnone, Option.toList_none, List.nil_append] at hheld
  rw [h, Option.toList_some] at hput
  exact hput.trans (List.perm_append_comm.trans (hheld.symm.append_right _))

theorem held_free (h : c.rx = none) :
    s.held.Perm ((s.channel side).rx.toList ++ (s.put c side).held) := by
  have hput := s.held_put c side
  rw [h, Option.toList_none, List.nil_append] at hput
  exact (s.held_perm side).trans (hput.symm.append_left _)

end FtpTcp

structure Intact (s : FtpTcp) (w : Wire) : Prop where
  booked : ∀ p, (w.conn p).Booked
  reading : ∀ side p, (s.channel side).pcb = some p →
    (w.conn p).Reading (s.channel side).rest
  gone : ∀ p, (∀ side, (s.channel side).pcb ≠ some p) → (w.conn p).Behind (w.conn p).lost
  opened : ∀ side p, (s.channel side).pcb = some p → p ∈ w.opened
  fresh : ∀ p, p ∉ w.opened → (w.conn p).Unread
  apart : ∀ p, s.control.pcb = some p → s.data.pcb ≠ some p
  proper : ∀ side, (s.channel side).Proper
  clean : ∀ p, s.data.pcb = some p → (w.conn p).discarded = []
  shut : ∀ p, s.control.pcb = some p → (w.conn p).discarded ≠ [] → s.core.core.shut
  orderly : s.core.core.Orderly
  owned : w.owned.Perm (w.freed ++ s.held)

section Intact

variable {s s' : FtpTcp} {w w' : Wire} {side : Side} {c' : Channel} {p : Pcb}

/-- No connection is that of both channels. -/
theorem Intact.unshared (h : Intact s w) {one two : Side} (hp : (s.channel one).pcb = some p)
    (hp' : (s.channel two).pcb = some p) : one = two := by
  cases one <;> cases two
  · rfl
  · exact absurd hp' (h.apart p hp)
  · exact absurd hp (h.apart p hp')
  · rfl

/-- What the channels hold does not move. -/
theorem Intact.same (h : Intact s w) (hch : ∀ side, (s.channel side).Same (s'.channel side))
    (hshut : s.core.core.shut → s'.core.core.shut)
    (horderly : s.core.core.Orderly → s'.core.core.Orderly) : Intact s' w where
  booked := h.booked
  reading := fun side p hp => by
    rw [(hch side).rest]
    exact h.reading side p ((hch side).pcb.symm.trans hp)
  gone := fun p hp => h.gone p fun side hside => hp side ((hch side).pcb.trans hside)
  opened := fun side p hp => h.opened side p ((hch side).pcb.symm.trans hp)
  fresh := h.fresh
  apart := fun p hp hp' =>
    h.apart p ((hch .control).pcb.symm.trans hp) ((hch .data).pcb.symm.trans hp')
  proper := fun side => (hch side).proper (h.proper side)
  clean := fun p hp => h.clean p ((hch .data).pcb.symm.trans hp)
  shut := fun p hp hd => hshut (h.shut p ((hch .control).pcb.symm.trans hp) hd)
  orderly := horderly h.orderly
  owned := by
    rw [FtpTcp.held, show s'.control.rx = s.control.rx from (hch .control).rx,
      show s'.data.rx = s.data.rx from (hch .data).rx]
    exact h.owned

/-- The core has moved in a call that leaves its session. -/
theorem Intact.core (h : Intact s w) {core : FtpState} {b : Bool}
    (hsame : SameSession s.core core) :
    Intact { s with core := core, serviceFailed := b } w :=
  h.same (fun side => by cases side <;> exact .refl _) hsame.shut hsame.orderly

theorem Intact.statics (h : Intact s w) (hcontrol : s'.control = s.control)
    (hdata : s'.data = s.data) (hcore : s'.core = s.core) : Intact s' w := by
  refine h.same (fun side => ?_) (fun hs => hcore ▸ hs) (fun ho => hcore ▸ ho)
  cases side with
  | control =>
      exact ⟨congrArg Channel.pcb hcontrol, congrArg Channel.rx hcontrol,
        congrArg Channel.offset hcontrol⟩
  | data =>
      exact ⟨congrArg Channel.pcb hdata, congrArg Channel.rx hdata,
        congrArg Channel.offset hdata⟩

theorem Intact.flags (h : Intact s w) (side : Side) (hsame : (s.channel side).Same c') :
    Intact (s.put c' side) w := by
  refine h.same (fun other => ?_) (fun hs => ?_) (fun ho => ?_)
  · rw [FtpTcp.put_channel]
    split
    · next heq => exact heq ▸ hsame
    · exact .refl _
  · rw [FtpTcp.put_core]
    exact hs
  · rw [FtpTcp.put_core]
    exact ho

/-- A step of an open connection, with its channel. -/
theorem Intact.update (h : Intact s w) (hp : (s.channel side).pcb = some p) (conn' : Conn)
    (hw : w'.conn = Function.update w.conn p conn') (hopened : w'.opened = w.opened)
    (hpcb : c'.pcb = some p) (hproper : c'.Proper) (hbooked : conn'.Booked)
    (hreading : conn'.Reading c'.rest) (hclean : side = .data → conn'.discarded = [])
    (hshut : conn'.discarded ≠ [] → s.core.core.shut)
    (howned : w'.owned.Perm (w'.freed ++ (s.put c' side).held)) :
    Intact (s.put c' side) w' := by
  have hself : w'.conn p = conn' := by rw [hw, Function.update_self]
  have hother : ∀ {q}, q ≠ p → w'.conn q = w.conn q := fun hq => by
    rw [hw, Function.update_of_ne hq]
  have hpcbs : ∀ other, ((s.put c' side).channel other).pcb = (s.channel other).pcb := by
    intro other
    rw [FtpTcp.put_channel]
    split
    · next heq =>
        subst heq
        rw [hpcb, hp]
    · rfl
  refine ⟨fun q => ?_, fun other q hq => ?_, fun q hq => ?_, fun other q hq => ?_,
    fun q hq => ?_, fun q hq hq' => ?_, fun other => ?_, fun q hq => ?_, fun q hq hd => ?_, ?_,
    howned⟩
  · by_cases heq : q = p
    · rw [heq, hself]
      exact hbooked
    · rw [hother heq]
      exact h.booked q
  · rw [hpcbs] at hq
    rw [FtpTcp.put_channel]
    split
    · next heq =>
        rw [heq, hp] at hq
        cases hq
        rw [hself]
        exact hreading
    · next hne =>
        have hq' : q ≠ p := fun heq => hne (h.unshared (heq ▸ hq) hp)
        rw [hother hq']
        exact h.reading other q hq
  · simp only [hpcbs] at hq
    have hq' : q ≠ p := fun heq => hq side (heq ▸ hp)
    rw [hother hq']
    exact h.gone q hq
  · rw [hpcbs] at hq
    rw [hopened]
    exact h.opened other q hq
  · rw [hopened] at hq
    have hq' : q ≠ p := fun heq => hq (heq ▸ h.opened side p hp)
    rw [hother hq']
    exact h.fresh q hq
  · exact h.apart q ((hpcbs .control).symm.trans hq) ((hpcbs .data).symm.trans hq')
  · rw [FtpTcp.put_channel]
    split
    · exact hproper
    · exact h.proper other
  · have hq' : (s.channel .data).pcb = some q := (hpcbs .data).symm.trans hq
    by_cases heq : q = p
    · rw [heq, hself]
      exact hclean (h.unshared hp (heq ▸ hq'))
    · rw [hother heq]
      exact h.clean q hq'
  · have hq' : (s.channel .control).pcb = some q := (hpcbs .control).symm.trans hq
    rw [FtpTcp.put_core]
    by_cases heq : q = p
    · rw [heq, hself] at hd
      exact hshut hd
    · rw [hother heq] at hd
      exact h.shut q hq' hd
  · rw [FtpTcp.put_core]
    exact h.orderly

/-- The chain of a channel is freed behind its last byte. -/
theorem Intact.free (h : Intact s w) (side : Side) (hpcb : c'.pcb = (s.channel side).pcb)
    (hrx : c'.rx = none) (hoffset : c'.offset = 0) (hrest : (s.channel side).rest = []) :
    Intact (s.put c' side) (w.frees (s.channel side).rx.toList) := by
  have hpcbs : ∀ other, ((s.put c' side).channel other).pcb = (s.channel other).pcb := by
    intro other
    rw [FtpTcp.put_channel]
    split
    · next heq =>
        rw [heq]
        exact hpcb
    · rfl
  have hrests : ∀ other, ((s.put c' side).channel other).rest = (s.channel other).rest := by
    intro other
    rw [FtpTcp.put_channel]
    split
    · next heq => rw [heq, hrest, Channel.rest_nil hrx]
    · rfl
  refine ⟨h.booked, fun other q hq => ?_, fun q hq => h.gone q fun other hother => ?_,
    fun other q hq => h.opened other q ((hpcbs other).symm.trans hq), h.fresh,
    fun q hq hq' => h.apart q ((hpcbs .control).symm.trans hq) ((hpcbs .data).symm.trans hq'),
    fun other => ?_, fun q hq => h.clean q ((hpcbs .data).symm.trans hq),
    fun q hq hd => ?_, ?_, ?_⟩
  · rw [hrests]
    exact h.reading other q ((hpcbs other).symm.trans hq)
  · exact hq other ((hpcbs other).trans hother)
  · rw [FtpTcp.put_channel]
    split
    · exact ⟨fun _ => hrx, fun _ => hoffset, fun b hb => by rw [hrx] at hb; cases hb⟩
    · exact h.proper other
  · rw [FtpTcp.put_core]
    exact h.shut q ((hpcbs .control).symm.trans hq) hd
  · rw [FtpTcp.put_core]
    exact h.orderly
  · show w.owned.Perm (w.freed ++ _ ++ _)
    rw [List.append_assoc]
    exact h.owned.trans ((FtpTcp.held_free hrx).append_left _)

/-- A connection ends with its chain, what was read of it or not. -/
theorem Intact.lose (h : Intact s w) (side : Side) (hp : (s.channel side).pcb = some p)
    (hpcb : c'.pcb = none) (hrx : c'.rx = none) (hoffset : c'.offset = 0) :
    Intact (s.put c' side)
      ((w.loses p (s.channel side).rest).frees (s.channel side).rx.toList) := by
  have hself : (w.loses p (s.channel side).rest).conn p =
      { w.conn p with lost := (w.conn p).lost ++ (s.channel side).rest } :=
    Function.update_self ..
  have hother : ∀ {q}, q ≠ p → (w.loses p (s.channel side).rest).conn q = w.conn q :=
    fun hq => Function.update_of_ne hq ..
  have hpcbs : ∀ other {q}, ((s.put c' side).channel other).pcb = some q →
      other ≠ side ∧ (s.channel other).pcb = some q := by
    intro other q hq
    rw [FtpTcp.put_channel] at hq
    split at hq
    · rw [hpcb] at hq
      cases hq
    · next hne => exact ⟨hne, hq⟩
  have hkept : ∀ other {q}, ((s.put c' side).channel other).pcb = some q → q ≠ p := by
    intro other q hq heq
    obtain ⟨hne, hq'⟩ := hpcbs other hq
    exact hne (h.unshared (heq ▸ hq') hp)
  refine ⟨fun q => ?_, fun other q hq => ?_, fun q hq => ?_,
    fun other q hq => h.opened other q (hpcbs other hq).2, fun q hq => ?_,
    fun q hq hq' => h.apart q (hpcbs .control hq).2 (hpcbs .data hq').2, fun other => ?_,
    fun q hq => ?_, fun q hq hd => ?_, ?_, ?_⟩
  · show ((w.loses p (s.channel side).rest).conn q).Booked
    by_cases heq : q = p
    · rw [heq, hself]
      obtain ⟨h₁, h₂, h₃, h₄, h₅⟩ := h.booked p
      exact ⟨h₁, h₂, h₃, h₄, h₅⟩
    · rw [hother heq]
      exact h.booked q
  · have hread := h.reading other q (hpcbs other hq).2
    show ((w.loses p (s.channel side).rest).conn q).Reading _
    rw [hother (hkept other hq), FtpTcp.put_channel, if_neg (hpcbs other hq).1]
    exact hread
  · show ((w.loses p (s.channel side).rest).conn q).Behind
      ((w.loses p (s.channel side).rest).conn q).lost
    by_cases heq : q = p
    · rw [heq, hself]
      exact (h.reading side p hp).lose
    · rw [hother heq]
      refine h.gone q fun other hq' => ?_
      by_cases hside : other = side
      · rw [hside, hp] at hq'
        exact heq (Option.some.inj hq').symm
      · refine hq other ?_
        rw [FtpTcp.put_channel, if_neg hside]
        exact hq'
  · show ((w.loses p (s.channel side).rest).conn q).Unread
    have hne : q ≠ p := fun heq => hq (heq ▸ h.opened side p hp)
    rw [hother hne]
    exact h.fresh q hq
  · rw [FtpTcp.put_channel]
    split
    · exact ⟨fun _ => hrx, fun _ => hoffset, fun b hb => by rw [hrx] at hb; cases hb⟩
    · exact h.proper other
  · show ((w.loses p (s.channel side).rest).conn q).discarded = []
    rw [hother (hkept .data hq)]
    exact h.clean q (hpcbs .data hq).2
  · have hd' : ((w.loses p (s.channel side).rest).conn q).discarded ≠ [] := hd
    rw [hother (hkept .control hq)] at hd'
    rw [FtpTcp.put_core]
    exact h.shut q (hpcbs .control hq).2 hd'
  · rw [FtpTcp.put_core]
    exact h.orderly
  · show w.owned.Perm (w.freed ++ _ ++ _)
    rw [List.append_assoc]
    exact h.owned.trans ((FtpTcp.held_free hrx).append_left _)

/-- A new connection, on a channel that has none. -/
theorem Intact.connect (h : Intact s w) (side : Side) (hnone : (s.channel side).pcb = none)
    (hnew : p ∈ w.opened) (hunread : (w.conn p).Unread)
    (hunused : ∀ other, (s.channel other).pcb ≠ some p)
    (hpcb : c'.pcb = some p) (hrx : c'.rx = none) (hoffset : c'.offset = 0) :
    Intact (s.put c' side) w := by
  have hpcbs : ∀ other {q}, ((s.put c' side).channel other).pcb = some q →
      other = side ∧ q = p ∨ (s.channel other).pcb = some q := by
    intro other q hq
    rw [FtpTcp.put_channel] at hq
    split at hq
    · next heq => exact .inl ⟨heq, Option.some.inj (hq.symm.trans hpcb)⟩
    · exact .inr hq
  refine ⟨h.booked, fun other q hq => ?_, fun q hq => h.gone q fun other hother => ?_,
    fun other q hq => ?_, h.fresh, fun q hq hq' => ?_, fun other => ?_, fun q hq => ?_,
    fun q hq hd => ?_, ?_, ?_⟩
  · rw [FtpTcp.put_channel] at hq ⊢
    split at hq
    · next heq =>
        rw [if_pos heq, Option.some.inj (hq.symm.trans hpcb), Channel.rest_nil hrx]
        exact hunread.reading
    · next hne =>
        rw [if_neg hne]
        exact h.reading other q hq
  · refine hq other ?_
    rw [FtpTcp.put_channel]
    split
    · next heq =>
        rw [heq, hnone] at hother
        cases hother
    · exact hother
  · obtain ⟨-, rfl⟩ | hq := hpcbs other hq
    · exact hnew
    · exact h.opened other q hq
  · obtain ⟨rfl, rfl⟩ | hq := hpcbs .control hq
    · obtain ⟨hside, -⟩ | hq' := hpcbs .data hq'
      · cases hside
      · exact hunused .data hq'
    · obtain ⟨-, rfl⟩ | hq' := hpcbs .data hq'
      · exact hunused .control hq
      · exact h.apart q hq hq'
  · rw [FtpTcp.put_channel]
    split
    · exact ⟨fun _ => hrx, fun _ => hoffset, fun b hb => by rw [hrx] at hb; cases hb⟩
    · exact h.proper other
  · obtain ⟨-, rfl⟩ | hq := hpcbs .data hq
    · exact hunread.discarded
    · exact h.clean q hq
  · rw [FtpTcp.put_core]
    obtain ⟨-, rfl⟩ | hq := hpcbs .control hq
    · exact absurd hunread.discarded hd
    · exact h.shut q hq hd
  · rw [FtpTcp.put_core]
    exact h.orderly
  · refine h.owned.trans (List.Perm.append_left _ (FtpTcp.held_same ?_).symm)
    rw [hrx, (h.proper side).idle hnone]

/-- A chain arrives on any connection. -/
theorem Intact.arrives (h : Intact s w) (p : Pcb) (b : Pbuf) : Intact s (w.arrives p b) := by
  have hself : (w.arrives p b).conn p =
      { w.conn p with received := (w.conn p).received ++ [b] } := Function.update_self ..
  have hother : ∀ {q}, q ≠ p → (w.arrives p b).conn q = w.conn q := fun hq =>
    Function.update_of_ne hq ..
  have htook := Conn.took_arrives (b := b) (h.booked p).taken
  refine ⟨fun q => ?_, fun side q hq => ?_, fun q hq => ?_, h.opened, fun q hq => ?_, h.apart,
    h.proper, fun q hq => ?_, fun q hq hd => ?_, h.orderly, h.owned⟩
  · by_cases heq : q = p
    · rw [heq, hself]
      have hbooked := h.booked p
      refine ⟨?_, hbooked.credit, ?_, ?_, hbooked.dropped⟩
      · rw [List.length_append]
        exact Nat.le_add_right_of_le hbooked.taken
      · rw [htook]
        exact hbooked.order
      · rw [htook]
        exact hbooked.bound
    · rw [hother heq]
      exact h.booked q
  · by_cases heq : q = p
    · subst heq
      have hread := h.reading side q hq
      rw [hself]
      exact ⟨hread.behind.arrives (h.booked q).taken, hread.whole⟩
    · rw [hother heq]
      exact h.reading side q hq
  · by_cases heq : q = p
    · subst heq
      rw [hself]
      exact (h.gone q hq).arrives (h.booked q).taken
    · rw [hother heq]
      exact h.gone q hq
  · by_cases heq : q = p
    · subst heq
      obtain ⟨h₁, h₂, h₃, h₄⟩ := h.fresh q hq
      rw [hself]
      exact ⟨h₁, h₂, h₃, h₄⟩
    · rw [hother heq]
      exact h.fresh q hq
  · by_cases heq : q = p
    · subst heq
      rw [hself]
      exact h.clean q hq
    · rw [hother heq]
      exact h.clean q hq
  · by_cases heq : q = p
    · subst heq
      rw [hself] at hd
      exact h.shut q hq hd
    · rw [hother heq] at hd
      exact h.shut q hq hd

/-- A connection that lwIP has just made. -/
structure Fresh (s : FtpTcp) (w : Wire) (p : Pcb) : Prop where
  opened : p ∈ w.opened
  unread : (w.conn p).Unread
  unused : ∀ side, (s.channel side).pcb ≠ some p

theorem Intact.opens (h : Intact s w) (hp : p ∉ w.opened) :
    Intact s (w.opens p) ∧ Fresh s (w.opens p) p := by
  refine ⟨?_, List.mem_cons_self, h.fresh p hp, fun side hside => hp (h.opened side p hside)⟩
  exact { h with
    opened := fun side q hq => List.mem_cons_of_mem _ (h.opened side q hq)
    fresh := fun q hq => h.fresh q fun hmem => hq (List.mem_cons_of_mem _ hmem) }

end Intact

/-! ## The wire -/

namespace Wire

variable {w : Wire} {p : Pcb} {c c' : Conn}

@[simp] theorem conn_setConn : (w.setConn p c).conn p = c := Function.update_self ..

@[simp] theorem setConn_setConn : (w.setConn p c).setConn p c' = w.setConn p c' := by
  rw [setConn, setConn, setConn, Function.update_idem]

theorem accepts_nil : w.accepts p [] = w := by
  rw [accepts, List.append_nil, setConn, Function.update_eq_self]

theorem frees_nil : w.frees [] = w := by
  rw [frees, List.append_nil]

theorem loses_nil : w.loses p [] = w := by
  rw [loses, List.append_nil, setConn, Function.update_eq_self]

end Wire

/-! ## The chain that is held -/

section Held

variable {s : FtpTcp} {w : Wire} {side : Side} {p : Pcb} {b : Pbuf} {bytes : List UInt8}
  {n : UInt16}

theorem Channel.rest_some {c : Channel} (hb : c.rx = some b) :
    c.rest = b.bytes.drop c.offset.toNat := by
  rw [Channel.rest, hb]

theorem Channel.rest_at {c : Channel} {offset : UInt16} (hb : c.rx = some b) :
    { c with offset := offset }.rest = b.bytes.drop offset.toNat :=
  Channel.rest_some (c := { c with offset := offset }) hb

/-- An offset inside the chain moves as a number does. -/
theorem Pbuf.toNat_offset {offset : UInt16} (b : Pbuf)
    (hle : offset.toNat + n.toNat ≤ b.bytes.length) :
    (offset + n).toNat = offset.toNat + n.toNat := by
  have hfits := b.fits
  rw [UInt16.toNat_add, Nat.mod_eq_of_lt (by omega)]

theorem Channel.rest_move {c : Channel} (hb : c.rx = some b)
    (hle : c.offset.toNat + n.toNat ≤ b.bytes.length) :
    { c with offset := c.offset + n }.rest = c.rest.drop n.toNat := by
  rw [Channel.rest_some hb, Channel.rest_at hb, b.toNat_offset hle, List.drop_drop]

theorem Channel.Proper.move {c : Channel} (h : c.Proper) (hb : c.rx = some b)
    (hle : c.offset.toNat + n.toNat ≤ b.bytes.length) :
    { c with offset := c.offset + n }.Proper := by
  refine ⟨h.idle, fun hnone => ?_, fun b' hb' => ?_⟩
  · rw [show c.rx = none from hnone] at hb
    cases hb
  · have heq : b' = b := Option.some.inj (hb'.symm.trans hb)
    rw [heq, b.toNat_offset hle]
    exact hle

/-- The core has accepted the front of what is held, and it is credited. -/
theorem Intact.accept (h : Intact s w) (hp : (s.channel side).pcb = some p)
    (hb : (s.channel side).rx = some b) (hx : bytes <+: (s.channel side).rest)
    (hn : n.toNat = bytes.length) (hd : (w.conn p).discarded = []) :
    Intact (s.put { s.channel side with offset := (s.channel side).offset + n } side)
      ((w.accepts p bytes).credits p n.toNat) := by
  have hproper := h.proper side
  obtain ⟨rest, hrest⟩ := hx
  have hle : (s.channel side).offset.toNat + n.toNat ≤ b.bytes.length := by
    have hbound := hproper.bound b hb
    have hlen := congrArg List.length hrest
    rw [Channel.rest_some hb, List.length_append, List.length_drop] at hlen
    omega
  have hread := h.reading side p hp
  rw [← hrest] at hread
  have hbooked := h.booked p
  have hmoved : { s.channel side with offset := (s.channel side).offset + n }.rest = rest := by
    rw [Channel.rest_move hb hle, ← hrest, hn, List.drop_left]
  have hnext := hread.accept (n := (w.conn p).credit + n.toNat) hd
  refine h.update hp { w.conn p with
    accepted := (w.conn p).accepted ++ bytes
    credit := (w.conn p).credit + n.toNat } ?_ rfl hp (hproper.move hb hle)
    (hnext.booked hbooked.taken ?_ hbooked.dropped) ?_ (fun _ => hd) (fun hne => absurd hd hne)
    ?_
  · rw [Wire.credits, Wire.accepts, Wire.conn_setConn, Wire.setConn_setConn]
    rfl
  · show (w.conn p).credit + n.toNat =
      ((w.conn p).accepted ++ bytes).length + (w.conn p).discarded.length
    rw [hbooked.credit, List.length_append, hn]
    omega
  · rw [hmoved]
    exact hnext
  · refine h.owned.trans (List.Perm.append_left _ (List.Perm.symm ?_))
    exact FtpTcp.held_same rfl

/-- A quitting session drops all that is held, and it is credited. -/
theorem Intact.drop (h : Intact s w) (hp : s.control.pcb = some p)
    (hb : s.control.rx = some b) (hquitting : s.core.core.quitting = true)
    (hn : n = b.totLen - s.control.offset) :
    Intact { s with control := { s.control with offset := s.control.offset + n } }
      ((w.drops p s.control.rest true).credits p n.toNat) := by
  have hproper : s.control.Proper := h.proper .control
  have hbound := hproper.bound b hb
  have hlen : n.toNat = b.bytes.length - s.control.offset.toNat := by
    rw [hn, UInt16.toNat_sub_of_le _ _ (by rwa [UInt16.le_iff_toNat_le, b.toNat_totLen]),
      b.toNat_totLen]
  have hle : s.control.offset.toNat + n.toNat ≤ b.bytes.length := by omega
  have hbooked := h.booked p
  have hread : (w.conn p).Reading s.control.rest := h.reading .control p hp
  have hmoved : { s.control with offset := s.control.offset + n }.rest = [] := by
    rw [Channel.rest_move hb hle, Channel.rest_some hb, List.drop_drop]
    exact List.drop_eq_nil_of_le (by omega)
  have hnext := hread.drop (n := (w.conn p).credit + n.toNat)
  show Intact (s.put { s.control with offset := s.control.offset + n } .control) _
  refine h.update (show (s.channel .control).pcb = some p from hp) { w.conn p with
    discarded := (w.conn p).discarded ++ s.control.rest
    credit := (w.conn p).credit + n.toNat } ?_ rfl hp (hproper.move hb hle)
    (hnext.booked hbooked.taken ?_ hbooked.dropped) ?_ nofun (fun _ => .inr hquitting) ?_
  · rw [Wire.credits, Wire.drops, if_pos rfl, Wire.conn_setConn, Wire.setConn_setConn]
    rfl
  · show (w.conn p).credit + n.toNat =
      (w.conn p).accepted.length + ((w.conn p).discarded ++ s.control.rest).length
    rw [hbooked.credit, List.length_append, Channel.rest_some hb, List.length_drop, hlen]
    omega
  · rw [hmoved]
    exact hnext
  · refine h.owned.trans (List.Perm.append_left _ (List.Perm.symm ?_))
    exact FtpTcp.held_same (show _ = (s.channel .control).rx from rfl)

/-- A chain that a quitting session drops as it comes is taken over, credited and
freed, and what is held stays. -/
theorem Intact.skip (h : Intact s w) (hp : s.control.pcb = some p)
    (hquitting : s.core.core.quitting = true) (hoffer : w.Offers p b) :
    Intact s ((((w.drops p b.bytes true).credits p b.totLen.toNat).frees [b]).takes p b) := by
  have hread : (w.conn p).Reading s.control.rest := h.reading .control p hp
  have hbooked := h.booked p
  have hnext := hread.skip (n := (w.conn p).credit + b.totLen.toNat) hoffer
  show Intact (s.put s.control .control) _
  refine h.update (show (s.channel .control).pcb = some p from hp) { w.conn p with
    taken := (w.conn p).taken + 1
    discarded := (w.conn p).discarded ++ b.bytes
    credit := (w.conn p).credit + b.totLen.toNat } ?_ rfl hp (h.proper .control)
    (hnext.booked ?_ ?_ hbooked.dropped) hnext nofun (fun _ => .inr hquitting) ?_
  · simp only [Wire.takes, Wire.frees, Wire.credits, Wire.drops, if_true, Wire.setConn,
      Function.update_self, Function.update_idem]
  · obtain ⟨hlt, -⟩ := List.getElem?_eq_some_iff.mp hoffer
    exact hlt
  · show (w.conn p).credit + b.totLen.toNat =
      (w.conn p).accepted.length + ((w.conn p).discarded ++ b.bytes).length
    rw [hbooked.credit, List.length_append, b.toNat_totLen]
    omega
  · show (w.owned ++ [b]).Perm (w.freed ++ [b] ++ s.held)
    rw [List.append_assoc]
    refine (h.owned.append_right [b]).trans ?_
    rw [List.append_assoc]
    exact List.perm_append_comm.append_left _

theorem Intact.take (h : Intact s w) (hp : (s.channel side).pcb = some p)
    (hrx : (s.channel side).rx = none) (hoffer : w.Offers p b) {failed : Bool} :
    Intact (s.put { s.channel side with rx := some b, failed := failed } side)
      (w.takes p b) := by
  have hproper := h.proper side
  have hstart := hproper.start hrx
  have hread := h.reading side p hp
  rw [Channel.rest_nil hrx] at hread
  have hbooked := h.booked p
  have hnext := hread.next hoffer
  have hrest : { s.channel side with rx := some b, failed := failed }.rest = b.bytes := by
    show b.bytes.drop (s.channel side).offset.toNat = _
    rw [hstart]
    rfl
  refine h.update hp { w.conn p with taken := (w.conn p).taken + 1 } rfl rfl hp
    ⟨fun hnone => ?_, nofun, fun b' hb => ?_⟩
    (hnext.booked ?_ hbooked.credit hbooked.dropped) ?_ (fun hside => ?_) (fun hd => ?_) ?_
  · rw [show (s.channel side).pcb = none from hnone] at hp
    cases hp
  · show (s.channel side).offset.toNat ≤ _
    rw [hstart]
    exact Nat.zero_le _
  · obtain ⟨hlt, -⟩ := List.getElem?_eq_some_iff.mp hoffer
    exact hlt
  · rw [hrest]
    exact hnext
  · subst hside
    exact h.clean p hp
  · cases side with
    | control => exact h.shut p hp hd
    | data => exact absurd (h.clean p hp) hd
  · show (w.owned ++ [b]).Perm (w.freed ++ _)
    refine (h.owned.append_right [b]).trans ?_
    rw [List.append_assoc]
    exact List.Perm.append_left _ (FtpTcp.held_take hrx rfl).symm

end Held

end EkBareMetal.Ftp

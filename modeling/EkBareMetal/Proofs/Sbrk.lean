import EkBareMetal.Bsp.Sbrk
import EkBareMetal.Lib.Simulation
import Mathlib.Algebra.Order.Ring.Int
import Mathlib.Algebra.BigOperators.Group.List.Basic

/-!
# The break is a counter between its bounds

Both implementations move one number by the increment, or not at all. Neither
looks at the sum before it is known to fit: the increment is compared with the
room that is left, and its magnitude is taken in an unsigned type. So every
checked operation has a result (`sbrk_settles`, `bootSbrk_settles`), and what the
two return is what the counter answers.
-/

namespace EkBareMetal.Bsp

open Checked Transition

/-! ## The types -/

section Types

variable (abi : Abi)

theorem uintptr_min : abi.uintptr.min = 0 := rfl

theorem uintmax_min : abi.uintmax.min = 0 := rfl

theorem uintptr_le_uintmax : abi.uintptr.max ≤ abi.uintmax.max := by
  have hpow : (2 : Int) ^ abi.uintptrBits ≤ 2 ^ abi.uintmaxBits :=
    pow_le_pow_right₀ (by decide) abi.uintptr_le
  show (2 : Int) ^ abi.uintptrBits - 1 ≤ 2 ^ abi.uintmaxBits - 1
  omega

/-- Even the magnitude of the minimum fits in `uintmax_t`. -/
theorem ptrdiff_range :
    abi.ptrdiff.min = -(abi.ptrdiff.max + 1) ∧ 0 ≤ abi.ptrdiff.max ∧
      abi.ptrdiff.max + 1 ≤ abi.uintmax.max := by
  obtain ⟨n, hn⟩ : ∃ n, abi.ptrdiffBits = n + 1 := Nat.exists_eq_add_of_le' abi.ptrdiff_pos
  have hpos : (0 : Int) < 2 ^ n := pow_pos (by decide) n
  have hpow : (2 : Int) ^ (n + 1) ≤ 2 ^ abi.uintmaxBits :=
    pow_le_pow_right₀ (by decide) (hn ▸ abi.ptrdiff_le)
  rw [pow_succ] at hpow
  have hmin : abi.ptrdiff.min = -2 ^ n := by
    show -(2 : Int) ^ (abi.ptrdiffBits - 1) = _
    rw [hn, Nat.add_sub_cancel]
  have hmax : abi.ptrdiff.max = 2 ^ n - 1 := by
    show (2 : Int) ^ (abi.ptrdiffBits - 1) - 1 = _
    rw [hn, Nat.add_sub_cancel]
  have hwide : abi.uintmax.max = 2 ^ abi.uintmaxBits - 1 := rfl
  rw [hmin, hmax, hwide]
  omega

end Types

/-! ## The counter -/

section Counter

variable {abi : Abi} (region : HeapRegion abi)

/-- The linker has laid the heap out. -/
def HeapRegion.Usable : Prop :=
  region.start.val ≤ region.base.val ∧ region.base.val ≤ region.stop.val

instance : Decidable region.Usable := inferInstanceAs (Decidable (_ ∧ _))

/-- What a call answers, and the break after it. -/
def settle (increment previous : Int) : SbrkReply × Int :=
  match if region.Usable then move region.base.val region.stop.val previous increment else none with
  | some next => (⟨previous, false⟩, next)
  | none => (exhausted abi, previous)

/-- In a heap that is usable the break is in it. -/
def Within (brk : Int) : Prop :=
  region.Usable → region.base.val ≤ brk ∧ brk ≤ region.stop.val

variable {region} {increment previous : Int}

theorem settle_moves (hu : region.Usable) (hlo : region.base.val ≤ previous + increment)
    (hhi : previous + increment ≤ region.stop.val) :
    settle region increment previous = (⟨previous, false⟩, previous + increment) := by
  unfold settle
  rw [if_pos hu, move_eq hlo hhi]

theorem settle_refuses (hu : region.Usable)
    (h : previous + increment < region.base.val ∨ region.stop.val < previous + increment) :
    settle region increment previous = (exhausted abi, previous) := by
  unfold settle
  rw [if_pos hu, move_none h]

theorem settle_unusable (hu : ¬ region.Usable) :
    settle region increment previous = (exhausted abi, previous) := by
  unfold settle
  rw [if_neg hu]

/-- The break moves by an increment that is accepted, and stays for one that is refused. -/
structure Settled (region : HeapRegion abi) (previous increment : Int) (reply : SbrkReply)
    (next : Int) : Prop where
  accepted : reply.enomem = false → reply.pointer = previous ∧ next = previous + increment ∧
    region.base.val ≤ next ∧ next ≤ region.stop.val
  refused : reply.enomem = true → reply.pointer = abi.uintptr.max ∧ next = previous

theorem settled_settle (region : HeapRegion abi) (previous increment : Int) :
    Settled region previous increment (settle region increment previous).1
      (settle region increment previous).2 := by
  unfold settle
  split
  · next next hnext =>
      split at hnext
      · obtain ⟨hmove, hwithin⟩ := move_within hnext
        exact ⟨fun _ => ⟨rfl, hmove, hwithin⟩, nofun⟩
      · cases hnext
  · exact ⟨nofun, fun _ => ⟨rfl, rfl⟩⟩

theorem Within.settle (h : Within region previous) (increment : Int) :
    Within region (settle region increment previous).2 := by
  intro hu
  have hs := settled_settle region previous increment
  cases hreply : (Bsp.settle region increment previous).1.enomem with
  | false => exact (hs.accepted hreply).2.2
  | true =>
      rw [(hs.refused hreply).2]
      exact h hu

end Counter

/-! ## The two implementations -/

section Calls

variable {abi : Abi} {region : HeapRegion abi} {increment previous : Int}

/-- What the checked operations of an increment that is not negative come to. -/
structure Raises (region : HeapRegion abi) (previous increment : Int) : Prop where
  amount : abi.uintmax.fit increment = some increment
  room : abi.uintptr.sub region.stop.val previous = some (region.stop.val - previous)
  wide : abi.uintmax.fit (region.stop.val - previous) = some (region.stop.val - previous)
  offset : increment ≤ region.stop.val - previous → abi.uintptr.fit increment = some increment
  next : increment ≤ region.stop.val - previous →
    abi.uintptr.add previous increment = some (previous + increment)

/-- The same for a negative one. -/
structure Lowers (region : HeapRegion abi) (previous increment : Int) : Prop where
  above : abi.ptrdiff.add increment 1 = some (increment + 1)
  negated : abi.ptrdiff.neg (increment + 1) = some (-(increment + 1))
  wide : abi.uintmax.fit (-(increment + 1)) = some (-(increment + 1))
  amount : abi.uintmax.add (-(increment + 1)) 1 = some (-(increment + 1) + 1)
  used : abi.uintptr.sub previous region.base.val = some (previous - region.base.val)
  room : abi.uintmax.fit (previous - region.base.val) = some (previous - region.base.val)
  offset : -(increment + 1) + 1 ≤ previous - region.base.val →
    abi.uintptr.fit (-(increment + 1) + 1) = some (-(increment + 1) + 1)
  next : -(increment + 1) + 1 ≤ previous - region.base.val →
    abi.uintptr.sub previous (-(increment + 1) + 1) = some (previous + increment)

theorem raises (hlo : region.base.val ≤ previous) (hhi : previous ≤ region.stop.val)
    (hmax : increment ≤ abi.ptrdiff.max) (hpos : 0 ≤ increment) :
    Raises region previous increment := by
  obtain ⟨hrange, hzero, hfits⟩ := ptrdiff_range abi
  have hwide := uintptr_le_uintmax abi
  have hptr := uintptr_min abi
  have hint := uintmax_min abi
  have hbase := region.base.property.1
  have hstop := region.stop.property.2
  exact {
    amount := IntType.fit_eq (by omega) (by omega)
    room := IntType.sub_eq (by omega) (by omega)
    wide := IntType.fit_eq (by omega) (by omega)
    offset := fun hroom => IntType.fit_eq (by omega) (by omega)
    next := fun hroom => IntType.add_eq (by omega) (by omega) }

theorem lowers (hlo : region.base.val ≤ previous) (hhi : previous ≤ region.stop.val)
    (hmin : abi.ptrdiff.min ≤ increment) (hneg : increment < 0) :
    Lowers region previous increment := by
  obtain ⟨hrange, hzero, hfits⟩ := ptrdiff_range abi
  have hwide := uintptr_le_uintmax abi
  have hptr := uintptr_min abi
  have hint := uintmax_min abi
  have hbase := region.base.property.1
  have hstop := region.stop.property.2
  have hnext : previous - (-(increment + 1) + 1) = previous + increment := by omega
  exact {
    above := IntType.add_eq (by omega) (by omega)
    negated := IntType.neg_eq (by omega) (by omega)
    wide := IntType.fit_eq (by omega) (by omega)
    amount := IntType.add_eq (by omega) (by omega)
    used := IntType.sub_eq (by omega) (by omega)
    room := IntType.fit_eq (by omega) (by omega)
    offset := fun hroom => IntType.fit_eq (by omega) (by omega)
    next := fun hroom => by
      rw [← hnext]
      exact IntType.sub_eq (by omega) (by omega) }

/-- The increments from zero on, with the reply `r` to one that does not fit. -/
theorem raise_eq {α : Type} (h : Raises region previous increment) (r : α) (k : Int → α) :
    (do
      let amount ← abi.uintmax.fit increment
      let room ← abi.uintptr.sub region.stop.val previous
      let room ← abi.uintmax.fit room
      if amount > room then pure r
      else do
        let amount ← abi.uintptr.fit increment
        let next ← abi.uintptr.add previous amount
        pure (k next) : Option α) =
      some (if previous + increment ≤ region.stop.val then k (previous + increment) else r) := by
  simp only [Option.bind_eq_bind, Option.bind_some, h.amount, h.room, h.wide]
  by_cases hroom : increment ≤ region.stop.val - previous
  · rw [if_neg (by omega), if_pos (by omega), h.offset hroom, Option.bind_some, h.next hroom]
    rfl
  · rw [if_pos (by omega), if_neg (by omega)]
    rfl

theorem lower_eq {α : Type} (h : Lowers region previous increment) (r : α) (k : Int → α) :
    (do
      let above ← abi.ptrdiff.add increment 1
      let negated ← abi.ptrdiff.neg above
      let negated ← abi.uintmax.fit negated
      let amount ← abi.uintmax.add negated 1
      let used ← abi.uintptr.sub previous region.base.val
      let used ← abi.uintmax.fit used
      if amount > used then pure r
      else do
        let amount ← abi.uintptr.fit amount
        let next ← abi.uintptr.sub previous amount
        pure (k next) : Option α) =
      some (if region.base.val ≤ previous + increment then k (previous + increment) else r) := by
  simp only [Option.bind_eq_bind, Option.bind_some, h.above, h.negated, h.wide, h.amount, h.used,
    h.room]
  by_cases hroom : -(increment + 1) + 1 ≤ previous - region.base.val
  · rw [if_neg (by omega), if_pos (by omega), h.offset hroom, Option.bind_some, h.next hroom]
    rfl
  · rw [if_pos (by omega), if_neg (by omega)]
    rfl

/-- A call leaves `heap` as it is, or sets it to the next break. -/
def landed {σ : Type} (x : SbrkReply × Int) (heap : σ) (set : Int → σ) : SbrkReply × σ :=
  (x.1, if x.1.enomem then heap else set x.2)

/-- Both branches of a call, from a break that is within the heap. -/
theorem branches_eq {σ : Type} (hu : region.Usable) (hw : Within region previous)
    (hmin : abi.ptrdiff.min ≤ increment) (hmax : increment ≤ abi.ptrdiff.max) (heap : σ)
    (set : Int → σ) :
    (if increment ≥ 0 then do
      let amount ← abi.uintmax.fit increment
      let room ← abi.uintptr.sub region.stop.val previous
      let room ← abi.uintmax.fit room
      if amount > room then pure (exhausted abi, heap)
      else do
        let amount ← abi.uintptr.fit increment
        let next ← abi.uintptr.add previous amount
        pure (⟨previous, false⟩, set next)
    else do
      let above ← abi.ptrdiff.add increment 1
      let negated ← abi.ptrdiff.neg above
      let negated ← abi.uintmax.fit negated
      let amount ← abi.uintmax.add negated 1
      let used ← abi.uintptr.sub previous region.base.val
      let used ← abi.uintmax.fit used
      if amount > used then pure (exhausted abi, heap)
      else do
        let amount ← abi.uintptr.fit amount
        let next ← abi.uintptr.sub previous amount
        pure (⟨previous, false⟩, set next) : Option (SbrkReply × σ)) =
      some (landed (settle region increment previous) heap set) := by
  obtain ⟨hlo, hhi⟩ := hw hu
  by_cases hpos : increment ≥ 0
  · rw [if_pos hpos]
    refine (raise_eq (raises hlo hhi hmax hpos) (exhausted abi, heap)
      fun next => (⟨previous, false⟩, set next)).trans ?_
    by_cases hroom : previous + increment ≤ region.stop.val
    · rw [if_pos hroom, settle_moves hu (by omega) hroom]
      rfl
    · rw [if_neg hroom, settle_refuses hu (by omega)]
      rfl
  · rw [if_neg hpos]
    refine (lower_eq (lowers hlo hhi hmin (by omega)) (exhausted abi, heap)
      fun next => (⟨previous, false⟩, set next)).trans ?_
    by_cases hroom : region.base.val ≤ previous + increment
    · rw [if_pos hroom, settle_moves hu hroom (by omega)]
      rfl
    · rw [if_neg hroom, settle_refuses hu (by omega)]
      rfl

/-- Of an application. -/
theorem sbrk_settles (heap : HeapBreak) (hw : Within region (heap.current region))
    (increment : abi.ptrdiff.Value) : ∃ heap',
      sbrk region heap increment.val =
        some ((settle region increment.val (heap.current region)).1, heap') ∧
      heap'.current region = (settle region increment.val (heap.current region)).2 := by
  obtain ⟨increment, hmin, hmax⟩ := increment
  have hs := settled_settle region (heap.current region) increment
  refine ⟨(landed (settle region increment (heap.current region)) heap fun next =>
    (⟨next, true⟩ : HeapBreak)).2, ?_, ?_⟩
  · unfold sbrk
    dsimp only
    by_cases hu : region.Usable
    · obtain ⟨hlo, hhi⟩ := hw hu
      rw [if_neg (by have := hu.1; have := hu.2; omega), if_neg (by omega)]
      exact branches_eq hu hw hmin hmax heap fun next => (⟨next, true⟩ : HeapBreak)
    · rw [settle_unusable hu, if_pos (by unfold HeapRegion.Usable at hu; omega)]
      rfl
  · unfold landed
    cases hreply : (settle region increment (heap.current region)).1.enomem with
    | false => rfl
    | true => exact (hs.refused hreply).2.symm

/-- Of the boot loader. A break at zero is the base. -/
theorem bootSbrk_settles (heapBreak : Int) (hw : Within region (bootCurrent region heapBreak))
    (increment : abi.ptrdiff.Value) : ∃ heapBreak',
      bootSbrk region heapBreak increment.val =
        some ((settle region increment.val (bootCurrent region heapBreak)).1, heapBreak') ∧
      bootCurrent region heapBreak' =
        (settle region increment.val (bootCurrent region heapBreak)).2 := by
  obtain ⟨increment, hmin, hmax⟩ := increment
  have hs := settled_settle region (bootCurrent region heapBreak) increment
  refine ⟨(landed (settle region increment (bootCurrent region heapBreak)) heapBreak id).2, ?_, ?_⟩
  · unfold bootSbrk
    dsimp only
    by_cases hu : region.Usable
    · obtain ⟨hlo, hhi⟩ := hw hu
      rw [if_neg (by have := hu.1; have := hu.2; omega)]
      exact branches_eq hu hw hmin hmax heapBreak id
    · rw [settle_unusable hu, if_pos (by unfold HeapRegion.Usable at hu; omega)]
      rfl
  · unfold landed
    cases hreply : (settle region increment (bootCurrent region heapBreak)).1.enomem with
    | false =>
        obtain ⟨-, -, hbase, -⟩ := hs.accepted hreply
        have hzero : 0 ≤ region.base.val := region.base.property.1
        by_cases hnext : (settle region increment (bootCurrent region heapBreak)).2 = 0
        · refine (if_neg (not_not.mpr hnext)).trans ?_
          show region.base.val = (settle region increment (bootCurrent region heapBreak)).2
          omega
        · exact if_pos hnext
    | true => exact (hs.refused hreply).2.symm

end Calls

/-! ## Sequences of calls -/

section Sequences

variable {abi : Abi} {region : HeapRegion abi}

/-- The sum of the increments that were not refused. -/
def acceptedSum : List Int → List SbrkReply → Int
  | increment :: increments, reply :: replies =>
      (if reply.enomem then 0 else increment) + acceptedSum increments replies
  | _, _ => 0

/-- Every call does what the counter does, and the counter is what is left of the state. -/
def Counts {σ : Type} (region : HeapRegion abi) (call : σ → Int → Option (SbrkReply × σ))
    (current : σ → Int) : Prop :=
  ∀ s, Within region (current s) → ∀ increment : abi.ptrdiff.Value, ∃ s',
    call s increment.val = some ((settle region increment.val (current s)).1, s') ∧
      current s' = (settle region increment.val (current s)).2

theorem counts_calls {σ : Type} {call : σ → Int → Option (SbrkReply × σ)} {current : σ → Int}
    (hc : Counts region call current) (increments : List abi.ptrdiff.Value) {s : σ}
    (hs : Within region (current s)) : ∃ s',
      sbrkCalls call s (increments.map Subtype.val) =
        some (answers (settle region) (current s) (increments.map Subtype.val), s') ∧
      current s' = after (settle region) (current s) (increments.map Subtype.val) ∧
      Within region (current s') := by
  induction increments generalizing s with
  | nil => exact ⟨s, rfl, rfl, hs⟩
  | cons increment increments ih =>
      obtain ⟨s₁, hcall, hcurrent⟩ := hc s hs increment
      have hs₁ : Within region (current s₁) := by
        rw [hcurrent]
        exact hs.settle increment.val
      obtain ⟨s', hrest, hcurrent', hs'⟩ := ih hs₁
      rw [hcurrent] at hrest hcurrent'
      refine ⟨s', ?_, hcurrent', hs'⟩
      rw [List.map_cons, sbrkCalls, hcall]
      simp only [Option.bind_eq_bind, Option.bind_some, hrest]
      rfl

theorem after_eq_sum (increments : List Int) (previous : Int) :
    after (settle region) previous increments = previous +
      acceptedSum increments (answers (settle region) previous increments) := by
  induction increments generalizing previous with
  | nil => exact (Int.add_zero previous).symm
  | cons increment increments ih =>
      have hs := settled_settle region previous increment
      rw [after, ih, answers, acceptedSum]
      cases hreply : (settle region increment previous).1.enomem with
      | false =>
          rw [(hs.accepted hreply).2.1, if_neg Bool.false_ne_true, Int.add_assoc]
      | true => rw [(hs.refused hreply).2, if_pos rfl, Int.zero_add]

/-- What has come of a sequence of calls. -/
structure Accounted (region : HeapRegion abi) (increments : List Int) (replies : List SbrkReply)
    (brk : Int) : Prop where
  length : replies.length = increments.length
  sum : brk = region.base.val + acceptedSum increments replies
  within : region.Usable → region.base.val ≤ brk ∧ brk ≤ region.stop.val

theorem length_answers {τ C A : Type} (spec : C → τ → A × τ) (t : τ) (cs : List C) :
    (answers spec t cs).length = cs.length := by
  induction cs generalizing t with
  | nil => rfl
  | cons c cs ih => exact congrArg Nat.succ (ih _)

end Sequences

/-- After any increments, the next call of both implementations has a result, which is the same. -/
theorem sbrk_break {abi : Abi} (region : HeapRegion abi) (increments : List abi.ptrdiff.Value)
    (increment : abi.ptrdiff.Value) :
    ∃ replies reply heap heap' heapBreak heapBreak',
      sbrkCalls (sbrk region) .zero (increments.map Subtype.val) = some (replies, heap) ∧
      sbrkCalls (bootSbrk region) 0 (increments.map Subtype.val) = some (replies, heapBreak) ∧
      sbrk region heap increment.val = some (reply, heap') ∧
      bootSbrk region heapBreak increment.val = some (reply, heapBreak') ∧
      Accounted region (increments.map Subtype.val) replies (heap.current region) ∧
      Settled region (heap.current region) increment.val reply (heap'.current region) ∧
      bootCurrent region heapBreak = heap.current region ∧
      bootCurrent region heapBreak' = heap'.current region := by
  have hzero : HeapBreak.zero.current region = region.base.val := rfl
  have hboot : bootCurrent region 0 = region.base.val := rfl
  have hstart : Within region region.base.val := fun hu => ⟨Int.le_refl _, hu.2⟩
  obtain ⟨heap, hcalls, hcurrent, hw⟩ := counts_calls (s := HeapBreak.zero) sbrk_settles increments
    (hzero ▸ hstart)
  obtain ⟨heapBreak, hcalls', hcurrent', hw'⟩ := counts_calls (s := (0 : Int)) bootSbrk_settles
    increments (hboot ▸ hstart)
  obtain ⟨heap', hcall, hnext⟩ := sbrk_settles heap hw increment
  obtain ⟨heapBreak', hcall', hnext'⟩ := bootSbrk_settles heapBreak hw' increment
  rw [hzero] at hcalls hcurrent
  rw [hboot] at hcalls' hcurrent'
  have hsame : bootCurrent region heapBreak = heap.current region := hcurrent'.trans hcurrent.symm
  rw [hsame] at hcall' hnext'
  have hsum : after (settle region) region.base.val (increments.map Subtype.val) =
      region.base.val + acceptedSum (increments.map Subtype.val)
        (answers (settle region) region.base.val (increments.map Subtype.val)) :=
    after_eq_sum _ _
  refine ⟨_, _, heap, heap', heapBreak, heapBreak', hcalls, hcalls', hcall, hcall', ⟨?_, ?_, hw⟩, ?_,
    hsame, hnext'.trans hnext.symm⟩
  · exact length_answers _ _ _
  · exact hcurrent.trans hsum
  · rw [hnext]
    exact settled_settle region (heap.current region) increment.val

/-- An application's heap, up to the continuity region. -/
def targetHeap : HeapRegion targetAbi where
  start := ⟨0x20002000, by decide⟩
  base := ⟨0x20002008, by decide⟩
  stop := ⟨0x2000dbc0, by decide⟩

/-- A rise, and `PTRDIFF_MIN`. -/
def targetIncrements : List targetAbi.ptrdiff.Value :=
  [⟨64, by decide⟩, ⟨targetAbi.ptrdiff.min, by decide⟩]

/-- The magnitude of the minimum is taken in no type that it does not fit, and refused. The
break then goes back to where it began. -/
theorem sbrk_break_minimum :
    sbrkCalls (sbrk targetHeap) .zero [64, -2147483648, -64] =
      some ([⟨0x20002008, false⟩, ⟨0xffffffff, true⟩, ⟨0x20002048, false⟩], ⟨0x20002008, true⟩) ∧
    ∃ replies heap,
      sbrkCalls (sbrk targetHeap) .zero [64, -2147483648] = some (replies, heap) ∧
      Accounted targetHeap [64, -2147483648] replies (heap.current targetHeap) := by
  obtain ⟨replies, -, heap, -, -, -, hcalls, -, -, -, haccounted, -⟩ :=
    sbrk_break targetHeap targetIncrements ⟨-64, by decide⟩
  exact ⟨by decide, replies, heap, hcalls, haccounted⟩

end EkBareMetal.Bsp

import EkBareMetal.Boot.HandoffTarget
import EkBareMetal.Lib.Moments

/-!
# The handoff sequence on the processor

The adapter advances by one operation at a time, and only the call that found it
idle can advance it: a call made while another is open finds it busy, marks it
failed and returns. So nothing that is called back into can make progress
(`busy_history`), every check of an operation leaves the sequence where it is
(`Steady`), and what was done is at any moment the beginning of the one
sequence there is.
-/

namespace EkBareMetal.Boot

open Interact

abbrev TargetMoment := Moment TargetSig TargetCall Bool TargetObjects

def TargetObjects.watchdog (s : TargetObjects) : BootWatchdog := s.continuity.capsule.watchdog

/-! ## What was seen so far -/

/-- The successful operations with their values, whether the adapter was last
seen failed or recorded, the watchdogs seen since the last call that found it
idle, what was last read from the vector table register, and the epoch taken at
the exclusion. -/
structure TargetPast where
  done : List (UInt32 × UInt32)
  failed : Bool
  recorded : Bool
  seen : List BootWatchdog
  vtor : Option UInt32
  excluded : Option UInt32

def TargetPast.start : TargetPast := ⟨[], false, false, [], none, none⟩

/-- What every moment shows. -/
def TargetPast.look (g : TargetPast) (s : TargetObjects) : TargetPast :=
  { g with
    failed := s.target.failed
    recorded := s.target.recorded
    seen := s.watchdog :: g.seen }

def TargetPast.heard (g : TargetPast) (s : TargetObjects) : Event TargetSig → TargetPast
  | ⟨.readRegister address, (true, v)⟩ =>
      { g.look s with vtor := if address = nvicVtor then some v else g.vtor }
  | _ => g.look s

def TargetPast.next (g : TargetPast) : TargetMoment → TargetPast
  | .enter _ s => if s.target.busy then g.look s else { g.look s with seen := [s.watchdog] }
  | .leave (.operation code value) true s =>
      { g.look s with
        done := g.done ++ [(code, value)]
        excluded := if code = 0 then some s.target.epoch else g.excluded }
  | .leave _ _ s => g.look s
  | .ask _ s => g.look s
  | .answer e s => g.heard s e

/-- The operations in their order, with the value each is given. -/
def issued (vtor : UInt32) : List (UInt32 × UInt32) :=
  handoffOrder.map fun op => (op.code, if op = .setVtor then vtor else 0)

/-- What holds when the terminal intent `i` has been accepted. -/
structure Recorded (g : TargetPast) (i : BootHandoffIntent) (s : TargetObjects) : Prop where
  intent : s.target.intent = i
  failed : s.target.failed = false
  done : g.done = issued i.vtor
  vtor : s.target.vtor = i.vtor
  read : g.vtor = some i.vtor
  owned : ∃ w ∈ g.seen, w.owner = .application ∧ g.excluded = some w.epoch ∧
    i.applicationEpoch = w.epoch

/-- A register is written by an adapter that has not failed, and the exclusion
takes the epoch of a watchdog that boot still owned. -/
def Granted (g : TargetPast) : TargetMoment → Prop
  | .ask (.writeRegister _ _) s => s.target.failed = false
  | .leave (.operation code _) true s =>
      code = 0 → ∃ w ∈ g.seen, w.capturable = true ∧ s.target.epoch = w.epoch + 1
  | _ => True

def Recording (g : TargetPast) : TargetMoment → Prop
  | .leave (.terminalIntent (some i)) true s => Recorded g i s
  | _ => False

/-- What is seen at a moment after those that `g` sums up. -/
structure TargetSeen (g : TargetPast) (m : TargetMoment) : Prop where
  failed : g.failed = true → m.object.target.failed = true
  granted : Granted g m
  recorded : m.object.target.recorded = true → g.recorded = true ∨ Recording g m

/-! ## While a call is open -/

/-- The fields that say how far the sequence is. -/
def BootHandoffTarget.progress (t : BootHandoffTarget) :
    UInt32 × Bool × Bool × Bool × BootHandoffIntent :=
  (t.next, t.initialized, t.busy, t.recorded, t.intent)

def BootHandoffTarget.spine (t : BootHandoffTarget) :
    (UInt32 × Bool × Bool × Bool × BootHandoffIntent) × UInt32 × UInt32 :=
  (t.progress, t.vtor, t.epoch)

/-- `d` is the past as it was when something began that is still going on. -/
structure During (d g : TargetPast) (s : TargetObjects) : Prop where
  done : g.done = d.done
  excluded : g.excluded = d.excluded
  seen : d.seen ⊆ g.seen
  failed : g.failed = true → s.target.failed = true
  recorded : s.target.recorded = true → g.recorded = true
  watchdog : s.watchdog ∈ g.seen

abbrev Stays (s : TargetObjects) (ms : List TargetMoment) (s' : TargetObjects) : Prop :=
  ∀ d, Keeping TargetPast.next TargetSeen (During d) s ms s'

theorem Stays.nil (s : TargetObjects) : Stays s [] s := fun _ => Keeping.nil s

theorem Stays.append {s s₁ s' : TargetObjects} {ms ns : List TargetMoment}
    (h₁ : Stays s ms s₁) (h₂ : Stays s₁ ns s') : Stays s (ms ++ ns) s' :=
  fun d => (h₁ d).append (h₂ d)

/-- A store that touches neither the sequence nor the watchdog. -/
structure Touches (s s' : TargetObjects) : Prop where
  spine : s'.target.spine = s.target.spine
  failed : s.target.failed = true → s'.target.failed = true
  watchdog : s'.watchdog = s.watchdog

theorem recorded_of_spine {s s' : TargetObjects} (h : s'.target.spine = s.target.spine) :
    s'.target.recorded = s.target.recorded := by
  simp only [BootHandoffTarget.spine, BootHandoffTarget.progress, Prod.mk.injEq] at h
  exact h.1.2.2.2.1

theorem busy_of_spine {s s' : TargetObjects} (h : s'.target.spine = s.target.spine) :
    s'.target.busy = s.target.busy := by
  simp only [BootHandoffTarget.spine, BootHandoffTarget.progress, Prod.mk.injEq] at h
  exact h.1.2.2.1

theorem stays_store {s s' : TargetObjects} (hf : s.target.failed = true → s'.target.failed = true)
    (hr : s'.target.recorded = s.target.recorded) (hw : s'.watchdog = s.watchdog) :
    Stays s [] s' := by
  refine fun d g hg => ⟨trivial, ?_⟩
  exact {
    done := hg.done
    excluded := hg.excluded
    seen := hg.seen
    failed := fun h => hf (hg.failed h)
    recorded := fun h => hg.recorded (hr ▸ h)
    watchdog := hw ▸ hg.watchdog }

theorem Touches.stays {s s' : TargetObjects} (h : Touches s s') : Stays s [] s' :=
  stays_store h.failed (recorded_of_spine h.spine) h.watchdog

theorem During.look {d g : TargetPast} {s : TargetObjects} (h : During d g s) :
    During d (g.look s) s where
  done := h.done
  excluded := h.excluded
  seen := List.Subset.trans h.seen (List.subset_cons_self _ _)
  failed := id
  recorded := id
  watchdog := List.mem_cons_self

theorem During.heard {d g : TargetPast} {s : TargetObjects} (h : During d g s)
    (e : Event TargetSig) : During d (g.heard s e) s := by
  have hl := h.look
  rw [TargetPast.heard.eq_def]
  split
  · exact { hl with }
  · exact hl

theorem seen_ask {d g : TargetPast} {s : TargetObjects} {op : TargetOp} (h : During d g s)
    (hop : Granted g (.ask op s)) : TargetSeen g (.ask op s) where
  failed := h.failed
  granted := hop
  recorded := fun hr => .inl (h.recorded hr)

theorem seen_answer {d g : TargetPast} {s : TargetObjects} {e : Event TargetSig}
    (h : During d g s) : TargetSeen g (.answer e s) where
  failed := h.failed
  granted := trivial
  recorded := fun hr => .inl (h.recorded hr)

/-! ## Calls made from inside -/

variable {H : TargetObjects → List TargetMoment → TargetObjects → Prop}
variable {s s' : TargetObjects} {ms : List TargetMoment}

theorem passes_enter {ok : Bool} (h : Passes H targetEnter s ms ok s') :
    ms = [] ∧ ((ok = false ∧ s' = s.poison ∧ (s.target.busy = true ∨ s.target.failed = true ∨
        s.target.recorded = true ∨ s.target.initialized = false)) ∨
      (ok = true ∧ s.target.initialized = true ∧ s.target.busy = false ∧
        s.target.failed = false ∧ s.target.recorded = false ∧
        s' = s.onTarget fun t => { t with busy := true })) := by
  rw [targetEnter, passes_load_iff] at h
  split at h
  · rename_i hno
    have hend := passes_modify_iff.mp h
    obtain ⟨rfl, rfl, rfl⟩ := passes_pure_iff.mp hend
    simp only [Bool.or_eq_true, Bool.not_eq_true'] at hno
    exact ⟨rfl, .inl ⟨rfl, rfl, by tauto⟩⟩
  · rename_i hgo
    have hend := passes_modify_iff.mp h
    obtain ⟨rfl, rfl, rfl⟩ := passes_pure_iff.mp hend
    simp only [Bool.or_eq_true, Bool.not_eq_true', not_or, Bool.not_eq_false,
      Bool.not_eq_true] at hgo
    exact ⟨rfl, .inr ⟨rfl, hgo.1.1.1, hgo.1.1.2, hgo.1.2, hgo.2, rfl⟩⟩

/-- A call that finds the adapter busy only marks it failed. -/
theorem busy_call {c : TargetCall} {r : Bool} (hb : s.target.busy = true)
    (h : Passes H (targetCall c) s ms r s') :
    ms = [] ∧ s'.target.spine = s.target.spine ∧
      (s.target.failed = true → s'.target.failed = true) ∧
      ((∃ d, c = .others d) ∨ (r = false ∧ s'.watchdog = s.watchdog)) := by
  cases c with
  | operation code value =>
      obtain ⟨ms₁, ok, s₁, ms₂, rfl, henter, hk⟩ := passes_bind_iff.mp h
      obtain ⟨rfl, ⟨rfl, rfl, -⟩ | ⟨-, -, hfree, -⟩⟩ := passes_enter henter
      · obtain ⟨rfl, rfl, rfl⟩ := passes_pure_iff.mp hk
        exact ⟨rfl, rfl, fun _ => rfl, .inr ⟨rfl, rfl⟩⟩
      · rw [hb] at hfree
        cases hfree
  | terminalIntent intent =>
      obtain ⟨ms₁, ok, s₁, ms₂, rfl, henter, hk⟩ := passes_bind_iff.mp h
      obtain ⟨rfl, ⟨rfl, rfl, -⟩ | ⟨-, -, hfree, -⟩⟩ := passes_enter henter
      · obtain ⟨rfl, rfl, rfl⟩ := passes_pure_iff.mp hk
        exact ⟨rfl, rfl, fun _ => rfl, .inr ⟨rfl, rfl⟩⟩
      · rw [hb] at hfree
        cases hfree
  | others d =>
      have hset := passes_modify_iff.mp h
      obtain ⟨rfl, -, rfl⟩ := passes_pure_iff.mp hset
      exact ⟨rfl, rfl, id, .inl ⟨d, rfl⟩⟩

theorem next_enter_busy {g : TargetPast} {c : TargetCall} (hb : s.target.busy = true) :
    g.next (.enter c s) = g.look s := if_pos hb

theorem next_leave_others {g : TargetPast} {d : TargetContinuity} {r : Bool} :
    g.next (.leave (.others d) r s) = g.look s := by
  cases r <;> rfl

theorem next_leave_false {g : TargetPast} {c : TargetCall} :
    g.next (.leave c false s) = g.look s := by
  cases c <;> rfl

theorem seen_enter {g : TargetPast} {c : TargetCall}
    (hf : g.failed = true → s.target.failed = true)
    (hr : s.target.recorded = true → g.recorded = true) : TargetSeen g (.enter c s) where
  failed := hf
  granted := trivial
  recorded := fun h => .inl (hr h)

/-- The end of a call that leaves the sequence alone. -/
theorem seen_leave_false {g : TargetPast} {c : TargetCall}
    (hf : g.failed = true → s.target.failed = true)
    (hr : s.target.recorded = true → g.recorded = true) : TargetSeen g (.leave c false s) where
  failed := hf
  granted := by cases c <;> trivial
  recorded := fun h => .inl (hr h)

theorem seen_leave_others {g : TargetPast} {d : TargetContinuity} {r : Bool}
    (hf : g.failed = true → s.target.failed = true)
    (hr : s.target.recorded = true → g.recorded = true) :
    TargetSeen g (.leave (.others d) r s) where
  failed := hf
  granted := by cases r <;> trivial
  recorded := fun h => .inl (hr h)

/-- A call that finds the adapter busy, as it is seen. -/
theorem busy_stays {c : TargetCall} {r : Bool} (hb : s.target.busy = true)
    (h : Passes H (targetCall c) s ms r s') :
    s'.target.spine = s.target.spine ∧
      Stays s (.enter c s :: (ms ++ [.leave c r s'])) s' := by
  obtain ⟨rfl, hspine, hfailed, hc⟩ := busy_call hb h
  refine ⟨hspine, fun d => Keeping.call fun g hg => ?_⟩
  have hrec := recorded_of_spine hspine
  have hf : s.target.failed = true → s'.target.failed = true := hfailed
  have hr : s'.target.recorded = true → s.target.recorded = true := fun h => hrec ▸ h
  rw [next_enter_busy hb]
  have hleave : During d ((g.look s).look s') s' := {
    done := hg.done
    excluded := hg.excluded
    seen := List.Subset.trans hg.look.seen (List.subset_cons_self _ _)
    failed := id
    recorded := id
    watchdog := List.mem_cons_self }
  obtain ⟨x, rfl⟩ | ⟨rfl, -⟩ := hc
  · refine ⟨seen_enter hg.failed hg.recorded, trivial, seen_leave_others hf hr, ?_⟩
    rw [List.foldl_nil, next_leave_others]
    exact hleave
  · refine ⟨seen_enter hg.failed hg.recorded, trivial, seen_leave_false hf hr, ?_⟩
    rw [List.foldl_nil, next_leave_false]
    exact hleave

/-- Whatever is called while the adapter is busy, the sequence stays where it is. -/
theorem busy_history (h : History targetCall s ms s') (hb : s.target.busy = true) :
    s'.target.spine = s.target.spine ∧ Stays s ms s' := by
  revert hb
  refine h.relates (R := fun s ms s' => s.target.busy = true →
    s'.target.spine = s.target.spine ∧ Stays s ms s') ?_ ?_
  · exact fun s _ => ⟨rfl, Stays.nil s⟩
  · intro c s ns r s₁ ms s' hc hrest hb
    obtain ⟨hspine, hone⟩ := busy_stays hb hc
    obtain ⟨hspine', hall⟩ := hrest ((busy_of_spine hspine).trans hb)
    have happ := hone.append hall
    rw [List.cons_append, List.append_assoc, List.singleton_append] at happ
    exact ⟨hspine'.trans hspine, happ⟩

/-! ## Checks -/

/-- What happens to a busy adapter while something that must not advance the
sequence is done. -/
def Steady {α : Type} (p : TargetProg α) : Prop :=
  ∀ s ms a s', s.target.busy = true → Passes (History targetCall) p s ms a s' →
    s'.target.spine = s.target.spine ∧ Stays s ms s'

theorem steady_pure {α : Type} (a : α) : Steady (pure a : TargetProg α) := by
  intro s ms b s' _ h
  obtain ⟨rfl, -, rfl⟩ := passes_pure_iff.mp h
  exact ⟨rfl, Stays.nil s'⟩

theorem steady_load {α : Type} {f : TargetObjects → TargetProg α} (h : ∀ s, Steady (f s)) :
    Steady (Prog.loadObj >>= f) :=
  fun s ms a s' hb hp => h s s ms a s' hb (passes_load_iff.mp hp)

theorem steady_bind {α β : Type} {p : TargetProg α} {f : α → TargetProg β} (hp : Steady p)
    (hf : ∀ a, Steady (f a)) : Steady (p >>= f) := by
  intro s ms b s' hb h
  obtain ⟨ms₁, a, s₁, ms₂, rfl, h₁, h₂⟩ := passes_bind_iff.mp h
  obtain ⟨hspine₁, hs₁⟩ := hp s ms₁ a s₁ hb h₁
  obtain ⟨hspine₂, hs₂⟩ := hf a s₁ ms₂ b s' ((busy_of_spine hspine₁).trans hb) h₂
  exact ⟨hspine₂.trans hspine₁, hs₁.append hs₂⟩

theorem steady_modify {α : Type} {g : TargetObjects → TargetObjects}
    {f : Unit → TargetProg α} (hg : ∀ s, Touches s (g s)) (hf : Steady (f ())) :
    Steady (Prog.modifyObj g >>= f) := by
  intro s ms a s' hb h
  have ht := hg s
  obtain ⟨hspine, hs⟩ :=
    hf (g s) ms a s' ((busy_of_spine ht.spine).trans hb) (passes_modify_iff.mp h)
  exact ⟨hspine.trans ht.spine, ht.stays.append hs⟩

theorem stays_ask {op : TargetOp} {r : TargetSig.Ans op} (hop : ∀ g, Granted g (.ask op s))
    (h : Stays s ms s') : Stays s (.ask op s :: (ms ++ [.answer ⟨op, r⟩ s'])) s' := by
  have hfirst : Stays s [.ask op s] s :=
    fun d => Keeping.one fun g hg => ⟨seen_ask hg (hop g), hg.look⟩
  have hlast : Stays s' [.answer ⟨op, r⟩ s'] s' :=
    fun d => Keeping.one fun g hg => ⟨seen_answer hg, hg.heard _⟩
  exact hfirst.append (h.append hlast)

theorem steady_asked {α : Type} {op : TargetOp} {f : TargetSig.Ans op → TargetProg α} {a : α}
    (hop : ∀ g, Granted g (.ask op s)) (hf : ∀ r, Steady (f r)) (hb : s.target.busy = true)
    (h : Passes (History targetCall)
      (Prog.ask (S := ObjSig TargetObjects TargetSig) (.outside op) >>= f) s ms a s') :
    s'.target.spine = s.target.spine ∧ Stays s ms s' := by
  obtain ⟨r, ns, s₁, ks, rfl, hn, hk⟩ := passes_ask_iff.mp h
  obtain ⟨hspine₁, hs₁⟩ := busy_history hn hb
  obtain ⟨hspine₂, hs₂⟩ := hf r s₁ ks a s' ((busy_of_spine hspine₁).trans hb) hk
  refine ⟨hspine₂.trans hspine₁, ?_⟩
  have happ := (stays_ask (r := r) hop hs₁).append hs₂
  rwa [List.cons_append, List.append_assoc, List.singleton_append] at happ

theorem steady_ask {α : Type} {op : TargetOp} {f : TargetSig.Ans op → TargetProg α}
    (hop : ∀ s g, Granted g (.ask op s)) (hf : ∀ r, Steady (f r)) :
    Steady (Prog.ask (S := ObjSig TargetObjects TargetSig) (.outside op) >>= f) :=
  fun s _ _ _ hb h => steady_asked (hop s) hf hb h

theorem steady_ite {α : Type} {b : Prop} [Decidable b] {p q : TargetProg α} (hp : Steady p)
    (hq : Steady q) : Steady (if b then p else q) := by
  split
  · exact hp
  · exact hq

theorem steady_every {ps : List (TargetProg Bool)} (h : ∀ p ∈ ps, Steady p) :
    Steady (Prog.every ps) := by
  induction ps with
  | nil => exact steady_pure true
  | cons p ps ih =>
      obtain ⟨hp, hps⟩ := List.forall_mem_cons.mp h
      exact steady_bind hp fun ok => steady_ite (ih hps) (steady_pure false)

theorem touches_poison (s : TargetObjects) : Touches s s.poison := ⟨rfl, fun _ => rfl, rfl⟩

theorem touches_gptm (state : UInt32) (s : TargetObjects) : Touches s (s.onGptm state) :=
  ⟨rfl, id, rfl⟩

/-- A store into one of the places of a capture. -/
def Places {β : Type} (place : β → BootHandoffTarget → BootHandoffTarget) : Prop :=
  ∀ v t, (place v t).spine = t.spine ∧ (place v t).failed = t.failed

theorem touches_place {β : Type} {place : β → BootHandoffTarget → BootHandoffTarget}
    (h : Places place) (v : β) (s : TargetObjects) : Touches s (s.onTarget (place v)) :=
  ⟨(h v s.target).1, fun hf => (h v s.target).2.trans hf, rfl⟩

theorem steady_readInto {address : UInt32}
    {place : UInt32 → BootHandoffTarget → BootHandoffTarget} (h : Places place) :
    Steady (readInto address place) :=
  steady_load fun _ => steady_ite (steady_pure none) <|
    steady_ask (fun _ _ => trivial) fun answer =>
      steady_modify (touches_place h answer.2) <|
        steady_ite (steady_modify touches_poison (steady_pure none))
          (steady_load fun _ => steady_pure _)

theorem steady_observeInto {place : BootHandoffContext → BootHandoffTarget → BootHandoffTarget}
    (h : Places place) : Steady (observeInto place) :=
  steady_load fun _ => steady_ite (steady_pure none) <|
    steady_ask (fun _ _ => trivial) fun answer =>
      steady_modify (touches_place h answer.2) <|
        steady_ite (steady_modify touches_poison (steady_pure none))
          (steady_load fun _ => steady_pure _)

theorem steady_readReg (address : UInt32) : Steady (readReg address) :=
  steady_readInto fun _ _ => ⟨rfl, rfl⟩

theorem steady_readIs (address : UInt32) (good : UInt32 → Bool) :
    Steady (readIs address good) :=
  steady_bind (steady_readReg address) fun _ => steady_pure _

theorem steady_matches (address mask expected : UInt32) :
    Steady (matchesReg address mask expected) := steady_readIs address _

/-- The one request that needs an adapter which has not failed. -/
theorem steady_writeReg (address value : UInt32) : Steady (writeReg address value) := by
  intro s ms a s' hb h
  have hgo := passes_load_iff.mp h
  split at hgo
  · obtain ⟨rfl, -, rfl⟩ := passes_pure_iff.mp hgo
    exact ⟨rfl, Stays.nil s'⟩
  · rename_i hf
    refine steady_asked (fun g => ?_) (fun ok => ?_) hb hgo
    · exact Bool.eq_false_iff.mpr hf
    · exact steady_ite (steady_modify touches_poison (steady_pure false))
        (steady_load fun _ => steady_pure _)

theorem steady_synchronize (kind : TargetBarrier) : Steady (synchronize kind) :=
  steady_load fun _ => steady_ite (steady_pure false) <|
    steady_ask (fun _ _ => trivial) fun _ =>
      steady_ite (steady_modify touches_poison (steady_pure false))
        (steady_load fun _ => steady_pure _)

theorem steady_coreUnchanged : Steady coreUnchanged :=
  steady_bind (steady_observeInto fun _ _ => ⟨rfl, rfl⟩) fun _ =>
    steady_load fun _ => steady_pure _

theorem steady_coreKept (op : BootHandoffOperation) : Steady (coreKept op) :=
  steady_ite (steady_pure true) steady_coreUnchanged

theorem steady_banksIdle : Steady banksIdle := by
  refine steady_every ?_
  simp only [List.forall_mem_cons, List.not_mem_nil, false_imp_iff, implies_true, and_true]
  exact ⟨steady_matches _ _ _, steady_matches _ _ _, steady_matches _ _ _, steady_matches _ _ _,
    steady_matches _ _ _, steady_matches _ _ _, steady_matches _ _ _⟩

theorem steady_banksIdlePre : Steady banksIdlePre := by
  refine steady_every ?_
  simp only [List.forall_mem_cons, List.not_mem_nil, false_imp_iff, implies_true, and_true]
  exact ⟨steady_readIs _ _, steady_readIs _ _, steady_readIs _ _, steady_readIs _ _,
    steady_readIs _ _, steady_readIs _ _, steady_matches _ _ _⟩

/-! ### The clock -/

theorem steady_gptmReadReg (address : UInt32) : Steady (gptmReadReg address) :=
  steady_load fun _ => steady_ite (steady_pure none) <|
    steady_ask (fun _ _ => trivial) fun _ =>
      steady_load fun _ => steady_ite
        (steady_modify (touches_gptm gptmFailed) (steady_pure none)) (steady_pure _)

theorem steady_gptmEqual (address : UInt32) (value : BootStartupGptm → UInt32) :
    Steady (gptmEqual address value) :=
  steady_load fun _ => steady_bind (steady_gptmReadReg address) fun _ => steady_pure _

theorem steady_gptmMatched (held : UInt32) : Steady (gptmMatched held) := by
  refine steady_load fun s => steady_ite (steady_pure false) ?_
  refine steady_bind (steady_gptmReadReg _) fun gate => steady_load fun s => ?_
  refine steady_ite (steady_pure false) (steady_every ?_)
  simp only [List.forall_mem_cons, List.not_mem_nil, false_imp_iff, implies_true, and_true]
  exact ⟨steady_gptmEqual _ _, steady_gptmEqual _ _, steady_gptmEqual _ _, steady_gptmEqual _ _,
    steady_gptmEqual _ _, steady_gptmEqual _ _, steady_gptmEqual _ _⟩

theorem steady_gptmSample : Steady gptmSample := by
  refine steady_bind (steady_gptmMatched _) fun first => steady_load fun s => ?_
  refine steady_ite (steady_pure none) ?_
  refine steady_bind (steady_gptmReadReg _) fun before => steady_ite (steady_pure none) ?_
  refine steady_bind (steady_gptmReadReg _) fun counter => steady_ite (steady_pure none) ?_
  refine steady_bind (steady_gptmReadReg _) fun after => steady_ite (steady_pure none) ?_
  exact steady_bind (steady_gptmMatched _) fun again => steady_pure _

theorem steady_gptmRead : Steady bootStartupGptmRead := by
  refine steady_load fun s => steady_ite
    (steady_modify (touches_gptm _) (steady_pure none)) <| steady_ite (steady_pure none) ?_
  refine steady_modify (touches_gptm _) (steady_bind steady_gptmSample fun counter => ?_)
  cases counter with
  | none => exact steady_modify (touches_gptm _) (steady_pure none)
  | some counter =>
      exact steady_load fun _ => steady_modify (touches_gptm _) (steady_pure _)

theorem steady_sourcesIdle : Steady sourcesIdle := by
  refine steady_load fun s => steady_ite (steady_pure false) (steady_every ?_)
  have hm := steady_matches
  have hc : ∀ address expected, Steady (matchesClock address expected) :=
    fun _ _ => steady_load fun _ => steady_matches _ _ _
  have hr : Steady clockMatches :=
    steady_bind steady_gptmRead fun _ => steady_load fun _ => steady_pure _
  simp only [List.forall_mem_cons, List.not_mem_nil, false_imp_iff, implies_true, and_true]
  exact ⟨hm _ _ _, hm _ _ _, hm _ _ _, hm _ _ _, hm _ _ _, hm _ _ _, hm _ _ _, hm _ _ _,
    hm _ _ _, hm _ _ _, hm _ _ _, hm _ _ _, hm _ _ _, hm _ _ _, hm _ _ _, hm _ _ _,
    hc _ _, hc _ _, hr, hm _ _ _⟩

theorem steady_captureReads : Steady captureReads := by
  refine steady_every ?_
  simp only [List.forall_mem_cons, List.not_mem_nil, false_imp_iff, implies_true, and_true]
  refine ⟨?_, ?_, ?_, ?_, ?_, ?_, ?_, ?_⟩ <;>
    exact steady_bind (steady_readInto fun _ _ => ⟨rfl, rfl⟩) fun _ => steady_pure _

/-! ## One operation -/

/-- What the body of an operation did that returned `a`. -/
structure Applied (op : BootHandoffOperation) (value : UInt32) (s : TargetObjects)
    (ms : List TargetMoment) (a : Bool) (s' : TargetObjects) : Prop where
  stays : Stays s ms s'
  progress : s'.target.progress = s.target.progress
  epoch : op ≠ .exclude → s'.target.epoch = s.target.epoch
  vtor : op ≠ .setVtor → s'.target.vtor = s.target.vtor
  captured : op = .exclude → a = true → ∀ d g, During d g s →
    ∃ w ∈ (ms.foldl TargetPast.next g).seen, w.capturable = true ∧
      s'.target.epoch = w.epoch + 1
  set : op = .setVtor → a = true → s'.target.vtor = value

theorem progress_of_spine (h : s'.target.spine = s.target.spine) :
    s'.target.progress = s.target.progress := (Prod.mk.inj h).1

theorem vtor_of_spine (h : s'.target.spine = s.target.spine) :
    s'.target.vtor = s.target.vtor := (Prod.mk.inj (Prod.mk.inj h).2).1

theorem epoch_of_spine (h : s'.target.spine = s.target.spine) :
    s'.target.epoch = s.target.epoch := (Prod.mk.inj (Prod.mk.inj h).2).2

theorem applied_steady {op : BootHandoffOperation} {value : UInt32} {p : TargetProg Bool}
    {a : Bool} (hp : Steady p) (he : op ≠ .exclude) (hv : op ≠ .setVtor)
    (hb : s.target.busy = true) (h : Passes (History targetCall) p s ms a s') :
    Applied op value s ms a s' := by
  obtain ⟨hspine, hstays⟩ := hp s ms a s' hb h
  exact {
    stays := hstays
    progress := progress_of_spine hspine
    epoch := fun _ => epoch_of_spine hspine
    vtor := fun _ => vtor_of_spine hspine
    captured := fun h => absurd h he
    set := fun h => absurd h hv }

/-- A body that comes to nothing. -/
theorem applied_false {op : BootHandoffOperation} {value : UInt32}
    (hspine : s'.target.spine = s.target.spine) (hstays : Stays s ms s') :
    Applied op value s ms false s' where
  stays := hstays
  progress := progress_of_spine hspine
  epoch := fun _ => epoch_of_spine hspine
  vtor := fun _ => vtor_of_spine hspine
  captured := nofun
  set := nofun

theorem applied_captureEpoch {value : UInt32} {a : Bool} (hb : s.target.busy = true)
    (h : Passes (History targetCall) captureEpoch s ms a s') :
    Applied .exclude value s ms a s' := by
  have h₁ := passes_load_iff.mp h
  split at h₁
  · obtain ⟨rfl, rfl, rfl⟩ := passes_pure_iff.mp h₁
    exact applied_false rfl (Stays.nil _)
  obtain ⟨ms₁, idle, s₁, ms₂, rfl, hidle, hk⟩ := passes_bind_iff.mp h₁
  obtain ⟨hspine, hstays⟩ := steady_sourcesIdle s ms₁ idle s₁ hb hidle
  have h₂ := passes_load_iff.mp hk
  dsimp only at h₂
  split at h₂
  · obtain ⟨rfl, rfl, rfl⟩ := passes_pure_iff.mp h₂
    rw [List.append_nil]
    exact applied_false hspine hstays
  rename_i hown
  simp only [Bool.or_eq_true, Bool.not_eq_true', not_or, Bool.not_eq_false] at hown
  have hend := passes_modify_iff.mp h₂
  have hlast : Steady (Prog.every [synchronize .exclude, coreUnchanged]) := by
    refine steady_every ?_
    simp only [List.forall_mem_cons, List.not_mem_nil, false_imp_iff, implies_true, and_true]
    exact ⟨steady_synchronize _, steady_coreUnchanged⟩
  have hstore : Stays s₁ [] (s₁.onTarget fun t =>
    { t with epoch := s₁.continuity.capsule.watchdog.epoch + 1 }) := stays_store id rfl rfl
  generalize hs₂ : (s₁.onTarget fun t =>
    { t with epoch := s₁.continuity.capsule.watchdog.epoch + 1 }) = s₂ at hend hstore
  have hb₂ : s₂.target.busy = true := hs₂ ▸ (busy_of_spine hspine).trans hb
  have hprogress₂ : s₂.target.progress = s₁.target.progress := hs₂ ▸ rfl
  have hvtor₂ : s₂.target.vtor = s₁.target.vtor := hs₂ ▸ rfl
  have hepoch₂ : s₂.target.epoch = s₁.watchdog.epoch + 1 := hs₂ ▸ rfl
  obtain ⟨hspine₂, hstays₂⟩ := hlast s₂ ms₂ a s' hb₂ hend
  have hafter := hstore.append hstays₂
  have hprogress : s'.target.progress = s.target.progress :=
    (progress_of_spine hspine₂).trans (hprogress₂.trans (progress_of_spine hspine))
  exact {
    stays := hstays.append hafter
    progress := hprogress
    epoch := fun h => absurd rfl h
    vtor := fun _ => (vtor_of_spine hspine₂).trans (hvtor₂.trans (vtor_of_spine hspine))
    captured := by
      intro _ _ d g hg
      -- the watchdog was looked at while nothing else could run
      obtain ⟨-, hd⟩ := hstays d g hg
      have hself : During (ms₁.foldl TargetPast.next g) (ms₁.foldl TargetPast.next g) s₁ :=
        ⟨rfl, rfl, List.Subset.refl _, hd.failed, hd.recorded, hd.watchdog⟩
      obtain ⟨-, hd'⟩ := hafter _ _ hself
      rw [List.foldl_append]
      exact ⟨s₁.watchdog, hd'.seen hd.watchdog, hown.2, (epoch_of_spine hspine₂).trans hepoch₂⟩
    set := nofun }

theorem Applied.after {op : BootHandoffOperation} {value : UInt32} {a : Bool}
    {s₁ : TargetObjects} {ns : List TargetMoment} (hspine : s₁.target.spine = s.target.spine)
    (hstays : Stays s ms s₁) (h : Applied op value s₁ ns a s') :
    Applied op value s (ms ++ ns) a s' where
  stays := hstays.append h.stays
  progress := h.progress.trans (progress_of_spine hspine)
  epoch := fun hop => (h.epoch hop).trans (epoch_of_spine hspine)
  vtor := fun hop => (h.vtor hop).trans (vtor_of_spine hspine)
  captured := by
    intro hop ha d g hg
    rw [List.foldl_append]
    exact h.captured hop ha d _ (hstays d g hg).2
  set := h.set

theorem applied_capture {value : UInt32} {a : Bool} (hb : s.target.busy = true)
    (h : Passes (History targetCall) captureTarget s ms a s') :
    Applied .exclude value s ms a s' := by
  obtain ⟨ms₁, o, s₁, ms₂, rfl, hobserve, h₁⟩ := passes_bind_iff.mp h
  have hobs : Steady (observeInto fun o t => { t with original := o }) :=
    steady_observeInto fun _ _ => ⟨rfl, rfl⟩
  obtain ⟨hspine₁, hstays₁⟩ := hobs s ms₁ o s₁ hb hobserve
  have hb₁ := (busy_of_spine hspine₁).trans hb
  refine Applied.after hspine₁ hstays₁ ?_
  split at h₁
  · obtain ⟨rfl, rfl, rfl⟩ := passes_pure_iff.mp h₁
    exact applied_false rfl (Stays.nil _)
  obtain ⟨ms₃, read, s₂, ms₄, rfl, hreads, h₂⟩ := passes_bind_iff.mp h₁
  obtain ⟨hspine₂, hstays₂⟩ := steady_captureReads s₁ ms₃ read s₂ hb₁ hreads
  refine Applied.after hspine₂ hstays₂ ?_
  split at h₂
  · obtain ⟨rfl, rfl, rfl⟩ := passes_pure_iff.mp h₂
    exact applied_false rfl (Stays.nil _)
  · exact applied_captureEpoch ((busy_of_spine hspine₂).trans hb₁) h₂

theorem applied_setVtor {value : UInt32} {a : Bool} (hb : s.target.busy = true)
    (h : Passes (History targetCall) (applyTarget .setVtor value) s ms a s') :
    Applied .setVtor value s ms a s' := by
  obtain ⟨ms₁, ok, s₁, ms₂, rfl, hwrite, h₁⟩ := passes_bind_iff.mp h
  have hp : Steady (Prog.every [writeReg nvicVtor value, matchesReg nvicVtor uint32Max value]) := by
    refine steady_every ?_
    simp only [List.forall_mem_cons, List.not_mem_nil, false_imp_iff, implies_true, and_true]
    exact ⟨steady_writeReg _ _, steady_matches _ _ _⟩
  obtain ⟨hspine, hstays⟩ := hp s ms₁ ok s₁ hb hwrite
  split at h₁
  · obtain ⟨rfl, rfl, rfl⟩ := passes_pure_iff.mp h₁
    rw [List.append_nil]
    exact applied_false hspine hstays
  · have hend := passes_modify_iff.mp h₁
    obtain ⟨rfl, rfl, rfl⟩ := passes_pure_iff.mp hend
    have hprogress : s₁.target.progress = s.target.progress := progress_of_spine hspine
    have hepoch : s₁.target.epoch = s.target.epoch := epoch_of_spine hspine
    exact {
      stays := hstays.append (stays_store id rfl rfl)
      progress := hprogress
      epoch := fun _ => hepoch
      vtor := fun h => absurd rfl h
      captured := nofun
      set := fun _ _ => rfl }

theorem steady_settled (after : Bool) : Steady (settled after) := by
  refine steady_bind (steady_every ?_) fun ok => ?_
  · simp only [List.forall_mem_cons, List.not_mem_nil, false_imp_iff, implies_true, and_true]
    exact ⟨steady_synchronize _, steady_coreUnchanged, steady_sourcesIdle, steady_banksIdle⟩
  · exact steady_ite (steady_pure false) <| steady_ite (steady_pure true) <|
      steady_load fun _ => steady_matches _ _ _

/-- Most operations only check and write registers. -/
theorem steady_apply {op : BootHandoffOperation} (he : op ≠ .exclude) (hv : op ≠ .setVtor)
    (value : UInt32) : Steady (applyTarget op value) := by
  have hpre := steady_banksIdlePre
  have hidle := steady_banksIdle
  have hw := steady_writeReg
  have hm := steady_matches
  cases op with
  | exclude => exact absurd rfl he
  | setVtor => exact absurd rfl hv
  | barrierBeforeVtor => exact steady_settled false
  | barrierAfterVtor => exact steady_settled true
  | stopSystick =>
      refine steady_bind (steady_readReg _) fun v => ?_
      cases v with
      | none => exact steady_pure false
      | some v =>
          refine steady_every ?_
          simp only [List.forall_mem_cons, List.not_mem_nil, false_imp_iff, implies_true,
            and_true]
          exact ⟨hw _ _, hm _ _ _⟩
  | quiesceSources =>
      refine steady_every ?_
      simp only [List.forall_mem_cons, List.not_mem_nil, false_imp_iff, implies_true, and_true]
      exact ⟨steady_sourcesIdle, hpre⟩
  | clearCorePending =>
      refine steady_every ?_
      simp only [List.forall_mem_cons, List.not_mem_nil, false_imp_iff, implies_true, and_true]
      exact ⟨hpre, hw _ _, hm _ _ _⟩
  | clearBank1Pending =>
      refine steady_every ?_
      simp only [List.forall_mem_cons, List.not_mem_nil, false_imp_iff, implies_true, and_true]
      exact ⟨hidle, hw _ _, hm _ _ _, hidle⟩
  | clearBank0Pending =>
      refine steady_every ?_
      simp only [List.forall_mem_cons, List.not_mem_nil, false_imp_iff, implies_true, and_true]
      exact ⟨hpre, hw _ _, hm _ _ _, hidle⟩
  | disableBank0 =>
      refine steady_every ?_
      simp only [List.forall_mem_cons, List.not_mem_nil, false_imp_iff, implies_true, and_true]
      exact ⟨hpre, hw _ _, hm _ _ _, hpre⟩
  | disableBank1 =>
      refine steady_every ?_
      simp only [List.forall_mem_cons, List.not_mem_nil, false_imp_iff, implies_true, and_true]
      exact ⟨hpre, hw _ _, hm _ _ _, hpre⟩

theorem applied_apply {op : BootHandoffOperation} {value : UInt32} {a : Bool}
    (hb : s.target.busy = true)
    (h : Passes (History targetCall) (applyTarget op value) s ms a s') :
    Applied op value s ms a s' := by
  by_cases he : op = .exclude
  · subst he
    exact applied_capture hb h
  · by_cases hv : op = .setVtor
    · subst hv
      exact applied_setVtor hb h
    · exact applied_steady (steady_apply he hv value) he hv hb h

/-! ## The sequence -/

theorem operationOf_code {code : UInt32} {op : BootHandoffOperation}
    (h : operationOf code = some op) : op.code = code := by
  have hfound := List.find?_some h
  exact of_decide_eq_true hfound

/-- One more of the sequence. -/
theorem issued_succ (op : BootHandoffOperation) (vtor : UInt32) :
    (issued vtor).take (op.code.toNat + 1) = (issued vtor).take op.code.toNat ++
      [(op.code, if op = .setVtor then vtor else 0)] := by
  cases op <;> rfl

/-- Before the vector table is set its value does not matter. -/
theorem issued_before (vtor vtor' : UInt32) :
    (issued vtor).take BootHandoffOperation.setVtor.code.toNat =
      (issued vtor').take BootHandoffOperation.setVtor.code.toNat := rfl

theorem validValue_zero {op : BootHandoffOperation} {value : UInt32} (hop : op ≠ .setVtor)
    (h : validValue op value = true) : value = 0 := by
  cases op <;> first | exact absurd rfl hop | exact of_decide_eq_true h

theorem code_lt (op : BootHandoffOperation) : op.code.toNat < 11 := by
  cases op <;> decide

/-- Between calls: what was done is the beginning of the sequence. -/
structure Sequenced (g : TargetPast) (s : TargetObjects) : Prop where
  failed : g.failed = true → s.target.failed = true
  recorded : s.target.recorded = true → g.recorded = true
  next : s.target.next.toNat ≤ 11
  done : g.done = (issued s.target.vtor).take s.target.next.toNat
  excluded : s.target.next ≠ 0 → g.excluded = some s.target.epoch

theorem sequenced_start (c : TargetContinuity) :
    Sequenced .start ⟨bootHandoffTargetInit, c⟩ :=
  ⟨nofun, nofun, Nat.zero_le 11, rfl, fun h => absurd rfl h⟩

/-- A call that finds the adapter free, at its beginning. -/
theorem during_enter {g : TargetPast} {c : TargetCall} (hb : s.target.busy = false) :
    let g₁ := g.next (.enter c s)
    g₁.done = g.done ∧ g₁.excluded = g.excluded ∧
      During g₁ g₁ (s.onTarget fun t => { t with busy := true }) := by
  rw [TargetPast.next, if_neg (by rw [hb]; decide)]
  exact ⟨rfl, rfl, rfl, rfl, List.Subset.refl _, id, id, List.mem_cons_self⟩

/-- How an operation ends that found the adapter free. -/
inductive Operated (code value : UInt32) (s : TargetObjects) (ms : List TargetMoment) :
    Bool → TargetObjects → Prop
  | failed {t : TargetObjects} (hs : Stays s ms t)
      (hp : t.target.progress = s.target.progress)
      (he : s.target.next ≠ 0 → t.target.epoch = s.target.epoch)
      (hv : (issued t.target.vtor).take s.target.next.toNat =
        (issued s.target.vtor).take s.target.next.toNat) :
      Operated code value s ms false
        (t.onTarget fun t => { t with failed := true, busy := false })
  | done {op : BootHandoffOperation} {t : TargetObjects} (hop : op.code = code)
      (hnext : code = s.target.next) (hvalue : validValue op value = true)
      (ha : Applied op value s ms true t) (hf : t.target.failed = false) :
      Operated code value s ms true
        (t.onTarget fun t => { t with next := t.next + 1, busy := false })

theorem passes_leave {ok r : Bool} (h : Passes H (targetLeave ok) s ms r s') :
    ms = [] ∧ r = !(s.target.failed || !ok) ∧
      s' = s.onTarget fun t => { t with failed := t.failed || !ok, busy := false } := by
  have hend := passes_load_iff.mp (passes_modify_iff.mp h)
  exact passes_pure_iff.mp hend

theorem operated_refused {code value : UInt32} {r : Bool} {t : TargetObjects}
    {ks : List TargetMoment} (hs : Stays s ms t) (hp : t.target.progress = s.target.progress)
    (he : s.target.next ≠ 0 → t.target.epoch = s.target.epoch)
    (hv : (issued t.target.vtor).take s.target.next.toNat =
      (issued s.target.vtor).take s.target.next.toNat)
    (h : Passes H (targetLeave false) t ks r s') : Operated code value s (ms ++ ks) r s' := by
  obtain ⟨rfl, rfl, rfl⟩ := passes_leave h
  simp only [Bool.not_false, Bool.or_true, Bool.not_true, List.append_nil]
  exact .failed hs hp he hv

theorem passes_operation {code value : UInt32} {r : Bool}
    (h : Passes (History targetCall) (bootHandoffTargetOperation code value) s ms r s') :
    (r = false ∧ ms = [] ∧ s' = s.poison) ∨
      (s.target.busy = false ∧ s.target.recorded = false ∧
        Operated code value (s.onTarget fun t => { t with busy := true }) ms r s') := by
  obtain ⟨ms₁, entered, s₁, ms₂, rfl, henter, h₁⟩ := passes_bind_iff.mp h
  obtain ⟨rfl, ⟨rfl, rfl, -⟩ | ⟨rfl, -, hbusy, -, hrec, rfl⟩⟩ := passes_enter henter
  · obtain ⟨rfl, rfl, rfl⟩ := passes_pure_iff.mp h₁
    exact .inl ⟨rfl, rfl, rfl⟩
  refine .inr ⟨hbusy, hrec, ?_⟩
  generalize hs₁ : (s.onTarget fun t => { t with busy := true }) = s₁ at h₁ ⊢
  have hb : s₁.target.busy = true := hs₁ ▸ rfl
  have hgo := passes_load_iff.mp h₁
  rw [List.nil_append]
  cases hop : operationOf code with
  | none =>
      rw [hop] at hgo
      exact operated_refused (Stays.nil _) rfl (fun _ => rfl) rfl hgo
  | some op =>
      rw [hop] at hgo
      dsimp only at hgo
      split at hgo
      · exact operated_refused (Stays.nil _) rfl (fun _ => rfl) rfl hgo
      rename_i hvalid
      simp only [ne_eq, Bool.or_eq_true, decide_eq_true_eq, Bool.not_eq_true', not_or, not_not,
        Bool.not_eq_false] at hvalid
      obtain ⟨hnext, hvalue⟩ := hvalid
      have hcode := operationOf_code hop
      obtain ⟨ms₃, core, s₂, ms₄, rfl, hcore, h₂⟩ := passes_bind_iff.mp hgo
      obtain ⟨hspine, hstays⟩ := steady_coreKept op s₁ ms₃ core s₂ hb hcore
      split at h₂
      · exact operated_refused hstays (progress_of_spine hspine)
          (fun _ => epoch_of_spine hspine) (vtor_of_spine hspine ▸ rfl) h₂
      obtain ⟨ms₅, done, t, ms₆, rfl, happly, h₃⟩ := passes_bind_iff.mp h₂
      have ha := (applied_apply ((busy_of_spine hspine).trans hb) happly).after hspine hstays
      have hend := passes_load_iff.mp h₃
      rw [← List.append_assoc]
      split at hend
      · refine operated_refused ha.stays ha.progress (fun hne => ha.epoch ?_) ?_ hend
        · rintro rfl
          exact hne (hnext.symm.trans hcode.symm)
        · by_cases hv : op = .setVtor
          · subst hv
            rw [← hnext, ← hcode]
            exact issued_before _ _
          · rw [ha.vtor hv]
      · rename_i hok
        simp only [Bool.or_eq_true, Bool.not_eq_true', not_or, Bool.not_eq_false,
          Bool.not_eq_true] at hok
        obtain ⟨rfl, hf⟩ := hok
        obtain ⟨rfl, rfl, rfl⟩ := passes_leave (passes_modify_iff.mp hend)
        have hdone := Operated.done hcode hnext hvalue ha hf
        simp only [TargetObjects.onTarget, hf, Bool.not_true, Bool.or_false, Bool.not_false,
          List.append_nil]
        simpa only [TargetObjects.onTarget, hf] using hdone

theorem next_enter (g : TargetPast) (c : TargetCall) (s : TargetObjects) :
    ∃ seen, g.next (.enter c s) = { g.look s with seen := seen } := by
  rw [TargetPast.next]
  split
  · exact ⟨_, rfl⟩
  · exact ⟨_, rfl⟩

/-- A call that is turned away at the entry. -/
theorem refused_keeps (c : TargetCall) (s : TargetObjects) :
    Keeping TargetPast.next TargetSeen Sequenced s
      (.enter c s :: ([] ++ [.leave c false s.poison])) s.poison := by
  refine Keeping.call fun g hg => ?_
  obtain ⟨seen, hseen⟩ := next_enter g c s
  rw [List.foldl_nil, next_leave_false, hseen]
  refine ⟨seen_enter hg.failed hg.recorded, trivial, seen_leave_false (fun _ => rfl) id, ?_⟩
  exact { failed := id, recorded := id, next := hg.next, done := hg.done, excluded := hg.excluded }

theorem next_of_progress (h : s'.target.progress = s.target.progress) :
    s'.target.next = s.target.next := (Prod.mk.inj h).1

theorem recorded_of_progress (h : s'.target.progress = s.target.progress) :
    s'.target.recorded = s.target.recorded := by
  simp only [BootHandoffTarget.progress, Prod.mk.injEq] at h
  exact h.2.2.2.1

/-- How the fields between calls follow from those after a call. -/
theorem sequenced_failed {g g' : TargetPast} {t : TargetObjects} (hg : Sequenced g s)
    (hd : g'.done = g.done) (he : g'.excluded = g.excluded) (hnext : t.target.next = s.target.next)
    (hepoch : s.target.next ≠ 0 → t.target.epoch = s.target.epoch)
    (hv : (issued t.target.vtor).take s.target.next.toNat =
      (issued s.target.vtor).take s.target.next.toNat) : Sequenced (g'.look t) t where
  failed := id
  recorded := id
  next := hnext ▸ hg.next
  done := by
    rw [hnext, hv]
    exact hd.trans hg.done
  excluded := by
    intro hne
    rw [hnext] at hne
    exact (he.trans (hg.excluded hne)).trans (congrArg some (hepoch hne).symm)

theorem operation_keeps {code value : UInt32} {r : Bool}
    (h : Passes (History targetCall) (targetCall (.operation code value)) s ms r s') :
    Keeping TargetPast.next TargetSeen Sequenced s
      (.enter (.operation code value) s :: (ms ++ [.leave (.operation code value) r s'])) s' := by
  obtain ⟨rfl, rfl, rfl⟩ | ⟨hbusy, hrec, hop⟩ := passes_operation h
  · exact refused_keeps _ _
  refine Keeping.call fun g hg => ?_
  obtain ⟨hdone₁, hexcl₁, hduring⟩ := during_enter (g := g) (c := .operation code value) hbusy
  generalize g.next (.enter (.operation code value) s) = g₁ at hdone₁ hexcl₁ hduring ⊢
  generalize hs₁ : (s.onTarget fun t => { t with busy := true }) = s₁ at hop hduring
  have hnext₁ : s₁.target.next = s.target.next := hs₁ ▸ rfl
  have hvtor₁ : s₁.target.vtor = s.target.vtor := hs₁ ▸ rfl
  have hepoch₁ : s₁.target.epoch = s.target.epoch := hs₁ ▸ rfl
  have hrec₁ : s₁.target.recorded = false := hs₁ ▸ hrec
  refine ⟨seen_enter hg.failed hg.recorded, ?_⟩
  cases hop with
  | @failed t hs hp he hv =>
      obtain ⟨halong, hd⟩ := hs _ _ hduring
      rw [hnext₁, hepoch₁] at he
      rw [hnext₁, hvtor₁] at hv
      refine ⟨halong, seen_leave_false (fun _ => rfl) hd.recorded, ?_⟩
      rw [next_leave_false]
      exact sequenced_failed hg (hd.done.trans hdone₁) (hd.excluded.trans hexcl₁)
        ((next_of_progress hp).trans hnext₁) he hv
  | @done op t hcode hnext hvalue ha hf =>
      obtain ⟨halong, hd⟩ := ha.stays _ _ hduring
      have hcodeNext : s.target.next = op.code := (hcode.trans (hnext.trans hnext₁)).symm
      have hnext' : t.target.next = op.code := (next_of_progress ha.progress).trans
        (hnext₁.trans hcodeNext)
      have hrec' : t.target.recorded = false := (recorded_of_progress ha.progress).trans hrec₁
      have hadd : (t.target.next + 1).toNat = op.code.toNat + 1 := by
        have hlt := code_lt op
        rw [hnext', UInt32.toNat_add]
        simp only [UInt32.toNat_one]
        omega
      refine ⟨halong, ⟨hd.failed, ?_, ?_⟩, ?_⟩
      · intro hzero
        have hex : op = .exclude := by
          rw [← hcode] at hzero
          cases op <;> first | rfl | exact absurd hzero (by decide)
        exact ha.captured hex rfl _ _ hduring
      · intro (hr : t.target.recorded = true)
        rw [hrec'] at hr
        cases hr
      · exact {
          failed := id
          recorded := id
          next := by
            have hlt := code_lt op
            change (t.target.next + 1).toNat ≤ 11
            omega
          done := by
            change (ms.foldl TargetPast.next g₁).done ++ [(code, value)] =
              (issued t.target.vtor).take (t.target.next + 1).toNat
            rw [hadd, issued_succ, hd.done, hdone₁, hg.done, hcodeNext, ← hcode]
            by_cases hv : op = .setVtor
            · rw [if_pos hv, ha.set hv rfl, hv]
              rfl
            · rw [if_neg hv, ha.vtor hv, hvtor₁, validValue_zero hv hvalue]
          excluded := by
            intro _
            change (if code = 0 then some t.target.epoch else _) = some t.target.epoch
            split
            · rfl
            · rename_i hne
              have hs : s.target.next ≠ 0 := by
                rw [hcodeNext, hcode]
                exact hne
              have hop : op ≠ .exclude := by
                rintro rfl
                exact hne hcode.symm
              rw [ha.epoch hop, hepoch₁]
              exact hd.excluded.trans (hexcl₁.trans (hg.excluded hs)) }

/-! ## The terminal intent -/

/-- A read that came out well. -/
theorem passes_readIs {address : UInt32} {good : UInt32 → Bool}
    (h : Passes H (readIs address good) s ms true s') :
    s'.target.failed = false ∧ ∃ ns v, good v = true ∧
      ms = .ask (.readRegister address) s ::
        (ns ++ [.answer ⟨.readRegister address, (true, v)⟩ s']) := by
  obtain ⟨ms₁, value, s₁, ms₂, rfl, hread, hk⟩ := passes_bind_iff.mp h
  obtain ⟨rfl, hany, rfl⟩ := passes_pure_iff.mp hk
  have hgo := passes_load_iff.mp hread
  split at hgo
  · obtain ⟨rfl, rfl, rfl⟩ := passes_pure_iff.mp hgo
    cases hany
  obtain ⟨answer, ns, s₂, ks, rfl, -, hanswer⟩ := passes_ask_iff.mp hgo
  have hset := passes_modify_iff.mp hanswer
  split at hset
  · have hend := passes_modify_iff.mp hset
    obtain ⟨rfl, rfl, rfl⟩ := passes_pure_iff.mp hend
    cases hany
  rename_i hok
  have hend := passes_load_iff.mp hset
  obtain ⟨rfl, rfl, rfl⟩ := passes_pure_iff.mp hend
  have hok' : answer = (true, answer.2) := Prod.ext (by simpa using hok) rfl
  split at hany
  · cases hany
  · rename_i hf
    rw [List.append_nil]
    refine ⟨Bool.eq_false_iff.mpr hf, ns, answer.2, hany.symm, ?_⟩
    rw [← hok']
    rfl

theorem and_uint32Max (v : UInt32) : v &&& uint32Max = v := UInt32.and_neg_one

theorem foldl_vtor (g : TargetPast) (ns : List TargetMoment) (m : TargetMoment) (v : UInt32)
    (ks : List TargetMoment) (t : TargetObjects) :
    ((ns ++ (m :: (ks ++ [.answer ⟨.readRegister nvicVtor, (true, v)⟩ t]))).foldl
      TargetPast.next g).vtor = some v := by
  rw [List.foldl_append, List.foldl_cons, List.foldl_append]
  rfl

/-- How a terminal intent ends that found the adapter free. -/
inductive Terminated (intent : Option BootHandoffIntent) (s : TargetObjects)
    (ms : List TargetMoment) : Bool → TargetObjects → Prop
  | failed {t : TargetObjects} (hs : Stays s ms t) (hp : t.target.spine = s.target.spine) :
      Terminated intent s ms false
        (t.onTarget fun t => { t with failed := true, busy := false })
  | done {i : BootHandoffIntent} {t : TargetObjects} (hi : intent = some i)
      (hnext : s.target.next = 11) (hgood : intentGood s.target s.watchdog i = true)
      (hs : Stays s ms t) (hp : t.target.spine = s.target.spine) (hf : t.target.failed = false)
      (hread : ∀ g, (ms.foldl TargetPast.next g).vtor = some i.vtor) :
      Terminated intent s ms true
        (t.onTarget fun t => { t with intent := i, recorded := true, busy := false })

theorem terminated_refused {intent : Option BootHandoffIntent} {r : Bool} {t : TargetObjects}
    {ks : List TargetMoment} (hs : Stays s ms t) (hp : t.target.spine = s.target.spine)
    (h : Passes H (targetLeave false) t ks r s') : Terminated intent s (ms ++ ks) r s' := by
  obtain ⟨rfl, rfl, rfl⟩ := passes_leave h
  simp only [Bool.not_false, Bool.or_true, Bool.not_true, List.append_nil]
  exact .failed hs hp

/-- The checks before the last one, which reads the vector table register. -/
abbrev terminalChecks : List (TargetProg Bool) :=
  [coreUnchanged, sourcesIdle, banksIdle, matchesReg nvicStctrl 3 0]

theorem passes_terminal {intent : Option BootHandoffIntent} {r : Bool}
    (h : Passes (History targetCall) (bootHandoffTargetTerminalIntent intent) s ms r s') :
    (r = false ∧ ms = [] ∧ s' = s.poison) ∨
      (s.target.busy = false ∧ s.target.recorded = false ∧
        Terminated intent (s.onTarget fun t => { t with busy := true }) ms r s') := by
  obtain ⟨ms₁, entered, s₁, ms₂, rfl, henter, h₁⟩ := passes_bind_iff.mp h
  obtain ⟨rfl, ⟨rfl, rfl, -⟩ | ⟨rfl, -, hbusy, -, hrec, rfl⟩⟩ := passes_enter henter
  · obtain ⟨rfl, rfl, rfl⟩ := passes_pure_iff.mp h₁
    exact .inl ⟨rfl, rfl, rfl⟩
  refine .inr ⟨hbusy, hrec, ?_⟩
  generalize hs₁ : (s.onTarget fun t => { t with busy := true }) = s₁ at h₁ ⊢
  have hb : s₁.target.busy = true := hs₁ ▸ rfl
  have hgo := passes_load_iff.mp h₁
  rw [List.nil_append]
  cases intent with
  | none => exact terminated_refused (Stays.nil _) rfl hgo
  | some i =>
      dsimp only at hgo
      split at hgo
      · exact terminated_refused (Stays.nil _) rfl hgo
      rename_i hnext
      split at hgo
      · exact terminated_refused (Stays.nil _) rfl hgo
      rename_i hgood
      have hchecks : Steady (Prog.every (terminalChecks ++
          [matchesReg nvicVtor uint32Max i.vtor])) := by
        refine steady_every ?_
        simp only [terminalChecks, List.cons_append, List.nil_append, List.forall_mem_cons,
          List.not_mem_nil, false_imp_iff, implies_true, and_true]
        exact ⟨steady_coreUnchanged, steady_sourcesIdle, steady_banksIdle, steady_matches _ _ _,
          steady_matches _ _ _⟩
      obtain ⟨ms₃, idle, t, ms₄, rfl, hidle, h₂⟩ := passes_bind_iff.mp hgo
      obtain ⟨hspine, hstays⟩ := hchecks s₁ ms₃ idle t hb hidle
      split at h₂
      · exact terminated_refused hstays hspine h₂
      rename_i hidle'
      have hidleTrue : idle = true := by simpa using hidle'
      subst hidleTrue
      obtain ⟨rfl, rfl, rfl⟩ := passes_leave (passes_modify_iff.mp h₂)
      have hall : Passes _ (Prog.every (terminalChecks ++
          [matchesReg nvicVtor uint32Max i.vtor])) s₁ ms₃ true t := hidle
      obtain ⟨ns, s₂, ks, rfl, hlast⟩ := passes_every_last hall
      obtain ⟨hf, ns', v, hv, rfl⟩ := passes_readIs hlast
      rw [and_uint32Max, decide_eq_true_eq] at hv
      subst hv
      rw [Bool.not_eq_true, Bool.not_eq_false'] at hgood
      have hdone := Terminated.done rfl (by simpa using hnext) hgood hstays hspine hf
        fun g => foldl_vtor g _ _ _ _ _
      simp only [TargetObjects.onTarget, hf, Bool.not_true, Bool.or_false, Bool.not_false,
        List.append_nil]
      simpa only [TargetObjects.onTarget, hf] using hdone

theorem intentGood_spec {t : BootHandoffTarget} {w : BootWatchdog} {i : BootHandoffIntent}
    (h : intentGood t w i = true) :
    i.vtor = t.vtor ∧ i.applicationEpoch = t.epoch ∧ w.owner = .application ∧
      w.epoch = t.epoch := by
  simp only [intentGood, Bool.and_eq_true, decide_eq_true_eq] at h
  obtain ⟨⟨⟨⟨⟨⟨⟨⟨⟨⟨⟨⟨⟨hv, -⟩, -⟩, -⟩, -⟩, -⟩, -⟩, -⟩, -⟩, he⟩, -⟩, -⟩, ho⟩, hw⟩ := h
  exact ⟨hv, he, ho, hw⟩

theorem terminal_keeps {intent : Option BootHandoffIntent} {r : Bool}
    (h : Passes (History targetCall) (targetCall (.terminalIntent intent)) s ms r s') :
    Keeping TargetPast.next TargetSeen Sequenced s
      (.enter (.terminalIntent intent) s :: (ms ++ [.leave (.terminalIntent intent) r s']))
      s' := by
  obtain ⟨rfl, rfl, rfl⟩ | ⟨hbusy, hrec, hend⟩ := passes_terminal h
  · exact refused_keeps _ _
  refine Keeping.call fun g hg => ?_
  obtain ⟨hdone₁, hexcl₁, hduring⟩ := during_enter (g := g) (c := .terminalIntent intent) hbusy
  generalize g.next (.enter (.terminalIntent intent) s) = g₁ at hdone₁ hexcl₁ hduring ⊢
  generalize hs₁ : (s.onTarget fun t => { t with busy := true }) = s₁ at hend hduring
  have hnext₁ : s₁.target.next = s.target.next := hs₁ ▸ rfl
  have hvtor₁ : s₁.target.vtor = s.target.vtor := hs₁ ▸ rfl
  have hepoch₁ : s₁.target.epoch = s.target.epoch := hs₁ ▸ rfl
  refine ⟨seen_enter hg.failed hg.recorded, ?_⟩
  cases hend with
  | @failed t hs hp =>
      obtain ⟨halong, hd⟩ := hs _ _ hduring
      refine ⟨halong, seen_leave_false (fun _ => rfl) hd.recorded, ?_⟩
      rw [next_leave_false]
      refine sequenced_failed hg (hd.done.trans hdone₁) (hd.excluded.trans hexcl₁)
        ((next_of_progress (progress_of_spine hp)).trans hnext₁)
        (fun _ => (epoch_of_spine hp).trans hepoch₁) ?_
      have hvtor : t.target.vtor = s.target.vtor := (vtor_of_spine hp).trans hvtor₁
      change (issued t.target.vtor).take _ = _
      rw [hvtor]
  | @done i t hi hnext hgood hs hp hf hread =>
      subst hi
      obtain ⟨halong, hd⟩ := hs _ _ hduring
      obtain ⟨hv, he, howner, hepoch⟩ := intentGood_spec hgood
      have hnext' : s.target.next = 11 := hnext₁.symm.trans hnext
      have htnext : t.target.next = s.target.next :=
        (next_of_progress (progress_of_spine hp)).trans hnext₁
      have htvtor : t.target.vtor = s.target.vtor := (vtor_of_spine hp).trans hvtor₁
      have htepoch : t.target.epoch = s.target.epoch := (epoch_of_spine hp).trans hepoch₁
      have hne : s.target.next ≠ 0 := by
        rw [hnext']
        decide
      have hdone := hd.done.trans (hdone₁.trans hg.done)
      have hexcl := hd.excluded.trans (hexcl₁.trans (hg.excluded hne))
      refine ⟨halong, ⟨hd.failed, trivial, fun _ => .inr ?_⟩, ?_⟩
      · exact {
          intent := rfl
          failed := hf
          done := by
            rw [hdone, hv, hvtor₁, hnext']
            rfl
          vtor := htvtor.trans (hvtor₁.symm.trans hv.symm)
          read := hread g₁
          owned := ⟨s₁.watchdog, hd.seen hduring.watchdog, howner,
            hexcl.trans (congrArg some (hepoch₁.symm.trans hepoch.symm)),
            he.trans hepoch.symm⟩ }
      · exact {
          failed := id
          recorded := id
          next := htnext ▸ hg.next
          done := by
            change (ms.foldl TargetPast.next g₁).done =
              (issued t.target.vtor).take t.target.next.toNat
            rw [hdone, htvtor, htnext]
          excluded := by
            intro _
            exact hexcl.trans (congrArg some htepoch.symm) }

theorem others_keeps {d : TargetContinuity} {r : Bool}
    (h : Passes H (targetCall (.others d)) s ms r s') :
    Keeping TargetPast.next TargetSeen Sequenced s
      (.enter (.others d) s :: (ms ++ [.leave (.others d) r s'])) s' := by
  have hset := passes_modify_iff.mp h
  obtain ⟨rfl, rfl, rfl⟩ := passes_pure_iff.mp hset
  refine Keeping.call fun g hg => ?_
  obtain ⟨seen, hseen⟩ := next_enter g (.others d) s
  rw [List.foldl_nil, next_leave_others, hseen]
  refine ⟨seen_enter hg.failed hg.recorded, trivial, seen_leave_others id id, ?_⟩
  exact { failed := id, recorded := id, next := hg.next, done := hg.done, excluded := hg.excluded }

/-- Every moment of every history of a fresh adapter. -/
theorem handoff_target_along {c : TargetContinuity} {ms : List TargetMoment} {s' : TargetObjects}
    (h : History targetCall ⟨bootHandoffTargetInit, c⟩ ms s') :
    Along TargetPast.next TargetSeen .start ms := by
  refine (h.along (P := TargetSeen) (I := Sequenced) ?_ .start (sequenced_start c)).1
  intro call s ns r s' hc
  have hc' := hc.mono fun _ _ _ hn => hn.1
  cases call with
  | operation code value => exact operation_keeps hc'
  | terminalIntent intent => exact terminal_keeps hc'
  | others d => exact others_keeps hc'

end EkBareMetal.Boot

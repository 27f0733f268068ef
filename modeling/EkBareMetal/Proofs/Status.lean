import EkBareMetal.Boot.Service
import EkBareMetal.Proofs.Accounting
import EkBareMetal.Proofs.Reachable
import EkBareMetal.Tools.Workflow

/-!
# The status text and its parser

The device prints what a snapshot says and the PC reads it back. `statusItem`
is the snapshot's side, the value of a key or nothing, and `status` returns
exactly the texts of these values: the two programs agree on the keys, on the
range of every value and on the word for an absent one.
-/

namespace EkBareMetal.Boot

open Words Text Tools

/-! ## Numbers -/

theorem length_decimal_word (n : UInt32) : (Text.decimal n.toNat).length ≤ 10 :=
  length_decimal_le (k := 9) (Nat.lt_trans n.toNat_lt (by decide))

@[simp] theorem printNumber_eq (n : UInt32) : printNumber n = Text.decimal n.toNat :=
  List.take_of_length_le (length_decimal_word n)

@[simp] theorem printWord_eq (n : UInt32) : printWord n = hex 8 n.toNat :=
  List.take_of_length_le (Nat.le_of_eq (length_hex 8 _))

theorem all_plain_decimal (n : Nat) : (Text.decimal n).all plain = true := by
  rw [List.all_eq_true]
  intro b hb
  exact plain_of_isHex (isHex_of_isDigit (isDigit_of_mem_decimal n hb))

theorem all_plain_hex (width n : Nat) : (hex width n).all plain = true := by
  rw [List.all_eq_true]
  intro b hb
  exact plain_of_isHex (isHex_of_mem_hex width n hb)

theorem hexText_eq (bytes : List UInt8) :
    (bytes.flatMap fun b => (hex 2 b.toNat).take 2) = hexText bytes := rfl

theorem length_hexText (bytes : List UInt8) :
    (hexText bytes).length = 2 * bytes.length := by
  induction bytes with
  | nil => rfl
  | cons b bytes ih =>
      rw [hexText, List.flatMap_cons, List.length_append, length_hex, ← hexText, ih,
        List.length_cons]
      omega

theorem all_isHex_hexText (bytes : List UInt8) : (hexText bytes).all isHex = true := by
  rw [List.all_eq_true]
  intro c hc
  obtain ⟨b, -, hb⟩ := List.mem_flatMap.mp hc
  exact isHex_of_mem_hex 2 _ hb

/-! ## What a snapshot says -/

/-- The keys of the status, in their order. -/
inductive StatusKey where
  | format
  | sequence
  | runningSlot
  | hash
  | release
  | confirmedSlot
  | candidateSlot
  | permittedSlot
  | trialId
  | trialState
  | slotAFailures
  | slotAReasons
  | slotARollback
  | slotBFailures
  | slotBReasons
  | slotBRollback
  | health
  | stage
  | fault
  | detail
  | resetFlags
  deriving DecidableEq

namespace StatusKey

def name : StatusKey → List UInt8
  | format => ascii "format"
  | sequence => ascii "sequence"
  | runningSlot => ascii "running_slot"
  | hash => ascii "hash"
  | release => ascii "release"
  | confirmedSlot => ascii "confirmed_slot"
  | candidateSlot => ascii "candidate_slot"
  | permittedSlot => ascii "permitted_slot"
  | trialId => ascii "trial_id"
  | trialState => ascii "trial_state"
  | slotAFailures => ascii "slot_a_failures"
  | slotAReasons => ascii "slot_a_reasons"
  | slotARollback => ascii "slot_a_rollback"
  | slotBFailures => ascii "slot_b_failures"
  | slotBReasons => ascii "slot_b_reasons"
  | slotBRollback => ascii "slot_b_rollback"
  | health => ascii "health"
  | stage => ascii "stage"
  | fault => ascii "fault"
  | detail => ascii "detail"
  | resetFlags => ascii "reset_flags"

def all : List StatusKey :=
  [format, sequence, runningSlot, hash, release, confirmedSlot, candidateSlot,
    permittedSlot, trialId, trialState, slotAFailures, slotAReasons,
    slotARollback, slotBFailures, slotBReasons, slotBRollback, health, stage,
    fault, detail, resetFlags]

theorem mem_all (k : StatusKey) : k ∈ all := by cases k <;> decide

theorem map_name : all.map name = KEYS := rfl

theorem nodup_names : (all.map name).Nodup := by decide

end StatusKey

/-- A value that is there to be shown. -/
inductive StatusItem where
  | number (n : UInt32)
  | word (n : UInt32)
  | hash (h : Bytes 32)
  | slot (s : UInt32)
  | state (s : UInt32)
  | reasons (qs : List UInt32)

/-- What a reason is called. -/
def reasonText (q : UInt32) : List UInt8 :=
  if q = bootReasonWatchdog then ascii "watchdog"
  else if q = bootReasonExternal then ascii "external"
  else if q = bootReasonBrownout then ascii "brownout"
  else if q = bootReasonDeadline then ascii "network_deadline"
  else ascii "combined"

/-- The decimal, hexadecimal or name form of a value. -/
def StatusItem.text : StatusItem → List UInt8
  | .number n => Text.decimal n.toNat
  | .word n => hex 8 n.toNat
  | .hash h => hexText h.val
  | .slot s => if s = bootSlotA then ascii "A" else ascii "B"
  | .state s =>
      if s = bootStateReady then ascii "ready"
      else if s = bootStateTrial then ascii "trial" else ascii "rejected"
  | .reasons qs => (ascii ",").intercalate (qs.map reasonText)

/-- A role, absent when it is NONE. -/
def roleItem (s : UInt32) : Option StatusItem :=
  if s = bootSlotNone then none else some (.slot s)

/-- A fact about an image, absent when its entry is empty. -/
def entryItem (e : BootImageEntry) (item : Option StatusItem) : Option StatusItem :=
  if e.payloadLength = 0 then none else item

def failuresItem (e : BootImageEntry) : Option StatusItem :=
  entryItem e (some (.number (accountCount e.accounting)))

/-- Absent too when there are no failures. -/
def reasonsItem (e : BootImageEntry) : Option StatusItem :=
  entryItem e <|
    if accountCount e.accounting = 0 then none
    else some (.reasons (accountReasons e.accounting))

def rollbackItem (e : BootImageEntry) : Option StatusItem :=
  entryItem e (some (.number (if e.accounting &&& bootAccountRollback ≠ 0 then 1 else 0)))

/-- Diagnostic evidence, absent when it is unavailable. -/
def knownItem (known : Bool) (item : StatusItem) : Option StatusItem :=
  if known then some item else none

/-- The slot an upload may go to: the one that is not running, if what runs is the
confirmed current image and there is no candidate. -/
def permittedItem (m : BootMetadata) (running : UInt32) : Option StatusItem :=
  if m.candidateSlot = bootSlotNone ∧ m.currentSlot = running ∧ m.confirmed running then
    some (.slot (if running = bootSlotA then bootSlotB else bootSlotA))
  else none

/-- The slot whose trial is shown: the candidate, or without one what is running. -/
def trialSlot (m : BootMetadata) (running : UInt32) : UInt32 :=
  if m.candidateSlot = bootSlotNone then running else m.candidateSlot

/-- What a snapshot says under a key, if anything. -/
def statusItem (s : BootSnapshot) : StatusKey → Option StatusItem
  | .format => some (.number 1)
  | .sequence => some (.number s.metadata.record.sequence)
  | .runningSlot => some (.slot s.running.manifest.slot)
  | .hash => some (.hash s.running.manifest.payloadHash)
  | .release => some (.number s.running.manifest.release)
  | .confirmedSlot => roleItem s.metadata.record.currentSlot
  | .candidateSlot => roleItem s.metadata.record.candidateSlot
  | .permittedSlot => permittedItem s.metadata.record s.running.manifest.slot
  | .trialId =>
      let source := trialSlot s.metadata.record s.running.manifest.slot
      some (.number (s.metadata.record.image source).trialId)
  | .trialState =>
      let source := trialSlot s.metadata.record s.running.manifest.slot
      if s.metadata.record.state source = bootStateNone then none
      else some (.state (s.metadata.record.state source))
  | .slotAFailures => failuresItem s.metadata.record.images.a
  | .slotAReasons => reasonsItem s.metadata.record.images.a
  | .slotARollback => rollbackItem s.metadata.record.images.a
  | .slotBFailures => failuresItem s.metadata.record.images.b
  | .slotBReasons => reasonsItem s.metadata.record.images.b
  | .slotBRollback => rollbackItem s.metadata.record.images.b
  | .health => knownItem s.diagnosticContext.healthKnown (.word s.diagnostic.health)
  | .stage => knownItem s.diagnosticContext.stageKnown (.number s.diagnostic.stage)
  | .fault => some (.number s.diagnostic.fault)
  | .detail => some (.number s.diagnostic.detail)
  | .resetFlags =>
      knownItem s.diagnosticContext.resetFlagsKnown (.word s.diagnostic.resetFlags)

/-- What is shown of a value that may be absent. -/
def shown (item : Option StatusItem) : List UInt8 :=
  item.elim (ascii "none") StatusItem.text

/-- The snapshots the renderer accepts. -/
structure SnapshotOk (s : BootSnapshot) : Prop where
  record : bootMetadataValidate s.metadata.record = .ok
  diagnostic : bootDiagValidate s.diagnostic = .ok
  manifest : bootManifestValidate s.running.manifest = .ok
  matching : bootMetadataImageMatches s.metadata.record s.running.manifest = .ok

/-! ## The renderer prints what the snapshot says -/

theorem slotName_role {s : UInt32} (h : roleValid s = true) :
    slotName s = shown (roleItem s) := by
  rcases roleValid_iff.mp h with h | rfl
  · rcases slotValid_iff.mp h with rfl | rfl <;> rfl
  · rfl

theorem slotName_slot {s : UInt32} (h : slotValid s = true) :
    slotName s = (StatusItem.slot s).text := by
  rcases slotValid_iff.mp h with rfl | rfl <;> rfl

theorem stateNames_eq (w : UInt32) :
    stateNames.getD (accountState w).toNat [] =
      shown (if accountState w = bootStateNone then none
        else some (.state (accountState w))) := by
  have hlt : (accountState w).toNat < 4 := by
    rw [toNat_accountState]
    omega
  generalize accountState w = q at hlt
  have hq : q = 0 ∨ q = 1 ∨ q = 2 ∨ q = 3 := by
    simp only [← UInt32.toNat_inj, UInt32.reduceToNat]
    omega
  rcases hq with rfl | rfl | rfl | rfl <;> rfl

theorem entryFailures_eq (e : BootImageEntry) :
    entryFailures e = shown (failuresItem e) := by
  rw [entryFailures, failuresItem, entryItem]
  split
  · rfl
  · exact printNumber_eq _

/-- The reasons of an entry with failures: one to three known codes. -/
def ReasonsOk (qs : List UInt32) : Prop :=
  qs ≠ [] ∧ qs.length ≤ 3 ∧ ∀ q ∈ qs, q ∈ reasonCodes

/-- The reasons of a valid entry with failures. -/
theorem reasonsOk_of_valid {w : UInt32} (h : accountValidate w = .ok)
    (hc : accountCount w ≠ 0) : ReasonsOk (accountReasons w) := by
  obtain ⟨-, h0, h1, h2, -⟩ := accountValidate_fields h
  have hcount := accountCount_le w
  have hlen := length_accountReasons w
  refine ⟨?_, by omega, fun q hq => ?_⟩
  · intro hnil
    rw [hnil, List.length_nil] at hlen
    rw [ne_eq, ← UInt32.toNat_inj] at hc
    exact hc hlen.symm
  · obtain ⟨i, hi, rfl⟩ := List.mem_map.mp hq
    rw [List.mem_range] at hi
    have hlt : i < 3 := Nat.lt_of_lt_of_le hi hcount
    have hbad : reasonBad w (UInt32.ofNat i) = false := by
      match i, hlt with
      | 0, _ => exact h0
      | 1, _ => exact h1
      | 2, _ => exact h2
    refine mem_reasonCodes ((reasonBad_eq_false hbad).1 ?_)
    rw [UInt32.lt_iff_toNat_lt, UInt32.toNat_ofNat']
    omega

theorem reasonName_eq {q : UInt32} (h : q ∈ reasonCodes) : reasonName q = reasonText q := by
  have hall : (reasonCodes.all fun q => reasonName q == reasonText q) = true := by decide
  exact beq_iff_eq.mp (List.all_eq_true.mp hall q h)

theorem reasons_eq {e : BootImageEntry} (h : accountValidate e.accounting = .ok) :
    reasons e = shown (if accountCount e.accounting = 0 then none
      else some (.reasons (accountReasons e.accounting))) := by
  rw [reasons]
  split
  · rfl
  · next hc =>
      obtain ⟨-, -, hcodes⟩ := reasonsOk_of_valid h hc
      have hnames : (accountReasons e.accounting).map reasonName =
          (accountReasons e.accounting).map reasonText :=
        List.map_congr_left fun q hq => reasonName_eq (hcodes q hq)
      rw [shown, Option.elim_some, StatusItem.text, ← hnames, accountReasons, List.map_map]
      rfl

theorem entryReasons_eq {e : BootImageEntry}
    (h : e.payloadLength ≠ 0 → accountValidate e.accounting = .ok) :
    entryReasons e = shown (reasonsItem e) := by
  rw [entryReasons, reasonsItem, entryItem]
  split
  · rfl
  · next hne => exact reasons_eq (h hne)

theorem entryRollback_eq (e : BootImageEntry) :
    entryRollback e = shown (rollbackItem e) := by
  rw [entryRollback, rollbackItem, entryItem]
  split
  · rfl
  · exact printNumber_eq _

theorem known_eq (known : Bool) {text : List UInt8} {item : StatusItem}
    (h : text = item.text) :
    (if known then text else ascii "none") = shown (knownItem known item) := by
  cases known with
  | false => rfl
  | true => exact h

section Valid

variable {s : BootSnapshot}

theorem SnapshotOk.slot (h : SnapshotOk s) : slotValid s.running.manifest.slot = true :=
  (manifestValidate_eq_ok h.manifest).1

theorem SnapshotOk.metadata (h : SnapshotOk s) : MetadataOk s.metadata.record :=
  metadataValidate_eq_ok.mp h.record

theorem SnapshotOk.permitted (h : SnapshotOk s) :
    roleValid (statusPermitted s.metadata.record s.running.manifest) = true := by
  rw [statusPermitted]
  split
  · rcases slotValid_iff.mp h.slot with hs | hs <;> rw [hs] <;> decide
  · decide

theorem statusSource_eq (m : BootMetadata) (running : BootManifest) :
    statusSource m running = trialSlot m running.slot := by
  rw [statusSource, trialSlot, ite_not]

/-- The renderer takes the other slot by its last bit. -/
theorem permitted_shown (h : SnapshotOk s) :
    slotName (statusPermitted s.metadata.record s.running.manifest) =
      shown (permittedItem s.metadata.record s.running.manifest.slot) := by
  rw [statusPermitted, permittedItem]
  split
  · rcases slotValid_iff.mp h.slot with hs | hs <;> rw [hs] <;> decide
  · rfl

theorem shown_one : shown (some (.number 1)) = ascii "1" := by
  show Text.decimal 1 = ascii "1"
  rw [Text.decimal, if_pos (by decide)]
  rfl

/-- The format string, read as the list of the keys. -/
theorem statusFields_eq (h : SnapshotOk s) :
    statusFields s = StatusKey.all.map fun k => (k.name, shown (statusItem s k)) := by
  have hslot := slotName_slot h.slot
  have hcurrent := slotName_role h.metadata.current
  have hcandidate := slotName_role h.metadata.candidate
  have hpermitted := permitted_shown h
  have hreasons : ∀ {slot : UInt32}, slotValid slot = true →
      entryReasons (s.metadata.record.image slot) =
        shown (reasonsItem (s.metadata.record.image slot)) := fun hslot =>
    entryReasons_eq fun hne => h.metadata.account hslot hne
  have ha := hreasons (show slotValid bootSlotA = true by decide)
  have hb := hreasons (show slotValid bootSlotB = true by decide)
  have hword : ∀ known (n : UInt32), (if known then hex 8 n.toNat else ascii "none") =
      shown (knownItem known (.word n)) := fun known n => known_eq known rfl
  have hnumber : ∀ known (n : UInt32),
      (if known then Text.decimal n.toNat else ascii "none") =
        shown (knownItem known (.number n)) := fun known n => known_eq known rfl
  have hstate := stateNames_eq
    (s.metadata.record.image (trialSlot s.metadata.record s.running.manifest.slot)).accounting
  simp only [statusFields, StatusKey.all, List.map_cons, List.map_nil, StatusKey.name,
    statusItem, statusSource_eq, ← shown_one, hslot, hcurrent, hcandidate, hpermitted,
    printNumber_eq, hexText_eq, entryFailures_eq, ha, hb, entryRollback_eq, BootMetadata.state,
    hstate, printWord_eq, hword, hnumber]
  rfl

end Valid

/-! ## Texts without separators -/

theorem all_plain_reasonText (q : UInt32) : (reasonText q).all plain = true := by
  unfold reasonText
  split
  · decide
  split
  · decide
  split
  · decide
  split <;> decide

theorem all_plain_intercalate {names : List (List UInt8)}
    (h : ∀ name ∈ names, name.all plain = true) :
    ((ascii ",").intercalate names).all plain = true := by
  induction names with
  | nil => rfl
  | cons name names ih =>
      have hname := h name List.mem_cons_self
      cases names with
      | nil => simpa using hname
      | cons next names =>
          have hrest := ih fun n hn => h n (List.mem_cons_of_mem _ hn)
          rw [List.intercalate_cons_cons, List.all_append, List.all_append, hname, hrest]
          rfl

theorem StatusItem.all_plain_text (i : StatusItem) : i.text.all plain = true := by
  cases i with
  | number n => exact all_plain_decimal _
  | word n => exact all_plain_hex 8 _
  | hash h =>
      rw [List.all_eq_true]
      exact fun b hb => plain_of_isHex (List.all_eq_true.mp (all_isHex_hexText h.val) b hb)
  | slot s =>
      rw [StatusItem.text]
      split <;> decide
  | state s =>
      rw [StatusItem.text]
      split
      · decide
      · split <;> decide
  | reasons qs =>
      refine all_plain_intercalate fun name hname => ?_
      obtain ⟨q, -, rfl⟩ := List.mem_map.mp hname
      exact all_plain_reasonText q

theorem all_plain_shown (item : Option StatusItem) : (shown item).all plain = true := by
  cases item with
  | none => decide
  | some i => exact i.all_plain_text

theorem StatusKey.all_plain_name (k : StatusKey) : k.name.all plain = true := by
  cases k <;> decide

theorem mem_reasonTexts {q : UInt32} (h : q ∈ reasonCodes) : reasonText q ∈ REASONS := by
  have hall : (reasonCodes.all fun q => REASONS.contains (reasonText q)) = true := by
    decide
  exact List.contains_iff_mem.mp (List.all_eq_true.mp hall q h)

theorem length_le_intercalate (name : List UInt8) (names : List (List UInt8)) :
    name.length ≤ ((ascii ",").intercalate (name :: names)).length := by
  cases names with
  | nil => simp
  | cons next names =>
      rw [List.intercalate_cons_cons, List.append_assoc, List.length_append]
      exact Nat.le_add_right _ _

/-- No value is shown by the word for an absent one. -/
theorem StatusItem.text_ne_none {i : StatusItem}
    (h : ∀ qs, i = .reasons qs → ReasonsOk qs) : i.text ≠ ascii "none" := by
  have hlen : (ascii "none").length = 4 := rfl
  intro he
  have hsize := congrArg List.length he
  rw [hlen] at hsize
  cases i with
  | number n =>
      have hn : (0x6e : UInt8) ∈ Text.decimal n.toNat := by
        rw [show Text.decimal n.toNat = ascii "none" from he]
        decide
      exact absurd (isDigit_of_mem_decimal _ hn) (by decide)
  | word n =>
      rw [StatusItem.text, length_hex] at hsize
      cases hsize
  | hash b =>
      rw [StatusItem.text, length_hexText, b.property] at hsize
      cases hsize
  | slot s =>
      rw [StatusItem.text] at hsize
      split at hsize <;> exact absurd hsize (by decide)
  | state s =>
      rw [StatusItem.text] at hsize
      split at hsize
      · exact absurd hsize (by decide)
      · split at hsize <;> exact absurd hsize (by decide)
  | reasons qs =>
      obtain ⟨hne, -, hcodes⟩ := h qs rfl
      cases qs with
      | nil => exact hne rfl
      | cons q qs =>
          have hmem := mem_reasonTexts (hcodes q List.mem_cons_self)
          have hlong : (REASONS.all fun name => decide (8 ≤ name.length)) = true := by
            decide
          have hq : 8 ≤ (reasonText q).length :=
            of_decide_eq_true (List.all_eq_true.mp hlong _ hmem)
          have hle := length_le_intercalate (reasonText q) (qs.map reasonText)
          rw [StatusItem.text, List.map_cons] at hsize
          omega

/-! ## The parser takes what has the right shape -/

section Parser

variable {key value : List UInt8} {fields : List (List UInt8 × List UInt8)}

theorem not_mem_of_plain {c : UInt8} {s : List UInt8} (hs : s.all plain = true)
    (hc : plain c = false) : c ∉ s := by
  intro h
  rw [List.all_eq_true.mp hs c h] at hc
  cases hc

theorem statusLine_eq (f : List UInt8 × List UInt8) :
    statusLine f = f.1 ++ 0x3d :: f.2 := by
  rw [statusLine, List.append_assoc]
  rfl

theorem keyValue_line (hk : key.all plain = true) (hv : value.all plain = true) :
    keyValue (statusLine (key, value)) = some (key, value) := by
  have hkey : (0x3d : UInt8) ∉ key := not_mem_of_plain hk (by decide)
  have hvalue : (0x3d : UInt8) ∉ value := not_mem_of_plain hv (by decide)
  rw [keyValue, statusLine_eq, List.splitOn_append_cons_self_of_not_mem hkey,
    List.splitOn_eq_singleton hvalue]

theorem mapM_keyValue (hplain : ∀ f ∈ fields, f.1.all plain = true ∧ f.2.all plain = true) :
    (fields.map statusLine).mapM keyValue = some fields := by
  induction fields with
  | nil => rfl
  | cons f fields ih =>
      obtain ⟨hk, hv⟩ := hplain f List.mem_cons_self
      have hrest := ih fun g hg => hplain g (List.mem_cons_of_mem _ hg)
      rw [List.map_cons, List.mapM_cons, keyValue_line hk hv, hrest]
      rfl

theorem lineFeed_not_mem_line (hk : key.all plain = true) (hv : value.all plain = true) :
    lineFeed ∉ statusLine (key, value) := by
  rw [statusLine_eq, List.mem_append, List.mem_cons]
  rintro (h | h | h)
  · exact not_mem_of_plain hk (by decide) h
  · exact absurd h (by decide)
  · exact not_mem_of_plain hv (by decide) h

theorem ascii_of_plain {b : UInt8} (h : plain b = true) : ¬ b ≥ 0x80 := by
  rw [plain, Bool.and_eq_true, Bool.and_eq_true, decide_eq_true_eq, decide_eq_true_eq,
    UInt8.lt_iff_toNat_lt] at h
  rw [ge_iff_le, UInt8.le_iff_toNat_le]
  have h7 := h.1.2
  simp only [UInt8.reduceToNat] at h7 ⊢
  omega

theorem all_ascii_unlines (hplain : ∀ f ∈ fields, f.1.all plain = true ∧ f.2.all plain = true) :
    (unlines (fields.map statusLine)).any (· ≥ 0x80) = false := by
  rw [List.any_eq_false]
  intro b hb
  obtain ⟨line, hline, hb⟩ := List.mem_flatMap.mp hb
  obtain ⟨f, hf, rfl⟩ := List.mem_map.mp hline
  obtain ⟨hk, hv⟩ := hplain f hf
  rw [statusLine_eq, List.mem_append, List.mem_append, List.mem_cons,
    List.mem_singleton] at hb
  rw [decide_eq_true_eq]
  rcases hb with (h | rfl | h) | rfl
  · exact ascii_of_plain (List.all_eq_true.mp hk b h)
  · decide
  · exact ascii_of_plain (List.all_eq_true.mp hv b h)
  · decide

theorem lookup_of_nodup {κ ν : Type} [BEq κ] [LawfulBEq κ] {fields : List (κ × ν)} {f : κ × ν}
    (hf : f ∈ fields) (hnodup : (fields.map (·.1)).Nodup) :
    fields.lookup f.1 = some f.2 := by
  induction fields with
  | nil => cases hf
  | cons g fields ih =>
      obtain ⟨k, v⟩ := g
      rw [List.map_cons, List.nodup_cons] at hnodup
      rw [List.lookup_cons]
      rcases List.mem_cons.mp hf with rfl | hm
      · simp
      · have hne : f.1 ≠ k := fun he => hnodup.1 (List.mem_map.mpr ⟨f, hm, he⟩)
        rw [beq_eq_false_iff_ne.mpr hne]
        exact ih hm hnodup.2

theorem checkValues_ok {keys : List (List UInt8)}
    (h : ∀ key ∈ keys, (fields.lookup key).getD [] = ascii "none" ∨
      valueValid key ((fields.lookup key).getD []) = true) :
    checkValues fields keys = .ok () := by
  induction keys with
  | nil => rfl
  | cons key keys ih =>
      rw [checkValues]
      exact (if_pos (h key List.mem_cons_self)).trans
        (ih fun k hk => h k (List.mem_cons_of_mem _ hk))

/-- A text of the right lines is read as its fields. -/
theorem status_unlines (hkeys : fields.map (·.1) = KEYS)
    (hplain : ∀ f ∈ fields, f.1.all plain = true ∧ f.2.all plain = true)
    (hlen : (unlines (fields.map statusLine)).length ≤ 1024)
    (hformat : fields.lookup (ascii "format") = some (ascii "1"))
    (hvalid : ∀ key ∈ KEYS.tail, (fields.lookup key).getD [] = ascii "none" ∨
      valueValid key ((fields.lookup key).getD []) = true) :
    status (unlines (fields.map statusLine)) = .ok fields := by
  have hne : fields ≠ [] := by
    rintro rfl
    cases hkeys
  obtain ⟨front, last, rfl⟩ := List.eq_nil_or_concat fields |>.resolve_left hne
  rw [List.concat_eq_append] at *
  have hlines : ((front ++ [last]).map statusLine) =
      front.map statusLine ++ [statusLine last] := by
    rw [List.map_append]
    rfl
  have hlast : (unlines ((front ++ [last]).map statusLine)).getLast? = some lineFeed :=
    getLast?_unlines (by simp)
  have hsplit : ((unlines ((front ++ [last]).map statusLine)).dropLast.splitOn lineFeed) =
      (front ++ [last]).map statusLine := by
    rw [hlines, dropLast_unlines]
    refine splitOn_unlines_append fun line hline => ?_
    rw [← hlines] at hline
    obtain ⟨f, hf, rfl⟩ := List.mem_map.mp hline
    exact lineFeed_not_mem_line (hplain f hf).1 (hplain f hf).2
  rw [status, if_neg (by rw [hlast]; simpa using hlen), all_ascii_unlines hplain]
  rw [if_neg (by decide), hsplit, mapM_keyValue hplain]
  dsimp only
  rw [if_neg (not_not_intro hkeys), hformat, if_neg (by simp), checkValues_ok hvalid]
  rfl

end Parser

/-! ## Every value is in its range -/

/-- The check of a value, by the kind of its key. -/
inductive ValueKind where
  | slot
  | hash
  | word (health : Bool)
  | state
  | reasons
  | number (limit : Nat)
  deriving DecidableEq

def kindOf (key : List UInt8) : ValueKind :=
  if endsWith key (ascii "slot") then .slot
  else if key = ascii "hash" then .hash
  else if key = ascii "health" ∨ key = ascii "reset_flags" then
    .word (key = ascii "health")
  else if key = ascii "trial_state" then .state
  else if endsWith key (ascii "reasons") then .reasons
  else .number (numberLimit key)

def ValueKind.accepts (value : List UInt8) : ValueKind → Prop
  | .slot => value = ascii "A" ∨ value = ascii "B"
  | .hash => value.length = 64 ∧ value.all isHex = true
  | .word health =>
      (value.length = 8 ∧ value.all isHex = true) ∧ (health → Text.number 16 value ≤ 7)
  | .state => value = ascii "ready" ∨ value = ascii "trial" ∨ value = ascii "rejected"
  | .reasons =>
      (value.splitOn 0x2c).length ≤ 3 ∧ ∀ part ∈ value.splitOn 0x2c, part ∈ REASONS
  | .number limit =>
      (value ≠ [] ∧ value.all isDigit = true) ∧ value.length ≤ 1024 ∧
        Text.number 10 value ≤ limit

theorem valueValid_iff {key value : List UInt8} :
    valueValid key value = true ↔ (kindOf key).accepts value := by
  rw [valueValid, kindOf]
  split
  · simp [ValueKind.accepts]
  split
  · simp [ValueKind.accepts]
  split
  · simp [ValueKind.accepts, imp_iff_not_or]
  split
  · simp [ValueKind.accepts, or_assoc]
  split
  · simp [ValueKind.accepts]
  · simp [ValueKind.accepts, and_assoc]

namespace StatusKey

def kind : StatusKey → ValueKind
  | runningSlot | confirmedSlot | candidateSlot | permittedSlot => .slot
  | hash => .hash
  | health => .word true
  | resetFlags => .word false
  | trialState => .state
  | slotAReasons | slotBReasons => .reasons
  | slotAFailures | slotBFailures => .number 3
  | slotARollback | slotBRollback => .number 1
  | stage | fault => .number 5
  | detail => .number 20
  | format | sequence | release | trialId => .number 0xffffffff

theorem kindOf_name (k : StatusKey) : kindOf k.name = k.kind := by
  cases k <;> decide

end StatusKey

theorem accepts_number {limit : Nat} {n : UInt32} (h : n.toNat ≤ limit) :
    (ValueKind.number limit).accepts (StatusItem.number n).text := by
  refine ⟨⟨decimal_ne_nil _, ?_⟩, ?_, ?_⟩
  · rw [List.all_eq_true]
    exact fun b hb => isDigit_of_mem_decimal _ hb
  · exact Nat.le_trans (length_decimal_word n) (by decide)
  · rw [StatusItem.text, number_decimal]
    exact h

theorem accepts_word {n : UInt32} {health : Bool} (h : health = true → n.toNat ≤ 7) :
    (ValueKind.word health).accepts (StatusItem.word n).text := by
  refine ⟨⟨length_hex 8 _, ?_⟩, fun hh => ?_⟩
  · rw [List.all_eq_true]
    exact fun b hb => isHex_of_mem_hex 8 _ hb
  · rw [StatusItem.text, number_hex 8 n.toNat_lt]
    exact h hh

theorem accepts_hash (b : Bytes 32) : ValueKind.hash.accepts (StatusItem.hash b).text := by
  refine ⟨?_, all_isHex_hexText _⟩
  rw [StatusItem.text, length_hexText, b.property]

theorem accepts_slot (s : UInt32) : ValueKind.slot.accepts (StatusItem.slot s).text := by
  rw [StatusItem.text]
  split
  · exact .inl rfl
  · exact .inr rfl

theorem accepts_state (s : UInt32) : ValueKind.state.accepts (StatusItem.state s).text := by
  rw [StatusItem.text]
  split
  · exact .inl rfl
  · split
    · exact .inr (.inl rfl)
    · exact .inr (.inr rfl)

theorem accepts_reasons {qs : List UInt32} (h : ReasonsOk qs) :
    ValueKind.reasons.accepts (StatusItem.reasons qs).text := by
  obtain ⟨hne, hlen, hcodes⟩ := h
  have hcomma : (REASONS.all fun name => !name.contains 0x2c) = true := by decide
  have hsplit : (StatusItem.reasons qs).text.splitOn 0x2c = qs.map reasonText := by
    refine List.splitOn_intercalate 0x2c ?_ (by simpa using hne)
    intro name hname hmem
    obtain ⟨q, hq, rfl⟩ := List.mem_map.mp hname
    have hc := List.all_eq_true.mp hcomma _ (mem_reasonTexts (hcodes q hq))
    rw [List.contains_iff_mem.mpr hmem] at hc
    cases hc
  rw [ValueKind.accepts, hsplit]
  refine ⟨by simpa using hlen, fun part hpart => ?_⟩
  obtain ⟨q, hq, rfl⟩ := List.mem_map.mp hpart
  exact mem_reasonTexts (hcodes q hq)

/-- The longest value of a kind. -/
def ValueKind.width : ValueKind → Nat
  | .hash => 64
  | .reasons => 50
  | _ => 10

/-- A value that may stand under a key of the kind. -/
structure Fits (kind : ValueKind) (i : StatusItem) : Prop where
  accepts : kind.accepts i.text
  length : i.text.length ≤ kind.width
  reasons : ∀ qs, i = .reasons qs → ReasonsOk qs

theorem fits_number {limit : Nat} {n : UInt32} (h : n.toNat ≤ limit) :
    Fits (.number limit) (.number n) :=
  ⟨accepts_number h, length_decimal_word n, nofun⟩

theorem fits_any (n : UInt32) : Fits (.number 0xffffffff) (.number n) :=
  fits_number (Nat.le_of_lt_succ n.toNat_lt)

theorem fits_word {n : UInt32} {health : Bool} (h : health = true → n.toNat ≤ 7) :
    Fits (.word health) (.word n) := by
  refine ⟨accepts_word h, ?_, nofun⟩
  rw [StatusItem.text, length_hex]
  exact (by decide : 8 ≤ 10)

theorem fits_hash (b : Bytes 32) : Fits .hash (.hash b) := by
  refine ⟨accepts_hash b, ?_, nofun⟩
  rw [StatusItem.text, length_hexText, b.property]
  exact Nat.le_refl 64

theorem fits_slot (s : UInt32) : Fits .slot (.slot s) := by
  refine ⟨accepts_slot s, ?_, nofun⟩
  rw [StatusItem.text]
  split <;> decide

theorem fits_state (s : UInt32) : Fits .state (.state s) := by
  refine ⟨accepts_state s, ?_, nofun⟩
  rw [StatusItem.text]
  split
  · decide
  · split <;> decide

theorem length_reasonText_le {q : UInt32} (h : q ∈ reasonCodes) :
    (reasonText q).length ≤ 16 := by
  have hall : (REASONS.all fun name => decide (name.length ≤ 16)) = true := by
    decide
  exact of_decide_eq_true (List.all_eq_true.mp hall _ (mem_reasonTexts h))

theorem fits_reasons {qs : List UInt32} (h : ReasonsOk qs) :
    Fits .reasons (.reasons qs) := by
  refine ⟨accepts_reasons h, ?_, fun qs' he => ?_⟩
  · obtain ⟨hne, hlen, hcodes⟩ := h
    have hname : ∀ q ∈ qs, (reasonText q).length ≤ 16 := fun q hq =>
      length_reasonText_le (hcodes q hq)
    have hcomma : (ascii ",").length = 1 := by decide
    rw [ValueKind.width, StatusItem.text]
    match qs, hne, hlen with
    | [a], _, _ =>
        have ha := hname a (by simp)
        simp only [List.map_cons, List.map_nil, List.intercalate_singleton]
        omega
    | [a, b], _, _ =>
        have ha := hname a (by simp)
        have hb := hname b (by simp)
        simp only [List.map_cons, List.map_nil, List.intercalate_cons_cons,
          List.intercalate_singleton, List.length_append, hcomma]
        omega
    | [a, b, c], _, _ =>
        have ha := hname a (by simp)
        have hb := hname b (by simp)
        have hc := hname c (by simp)
        simp only [List.map_cons, List.map_nil, List.intercalate_cons_cons,
          List.intercalate_singleton, List.length_append, hcomma]
        omega
    | _ :: _ :: _ :: _ :: qs, _, hlen =>
        simp only [List.length_cons] at hlen
        omega
  · cases he
    exact h

theorem diagValidate_bounds {r : BootDiag} (h : bootDiagValidate r = .ok) :
    r.stage.toNat ≤ 5 ∧ r.fault.toNat ≤ 5 ∧ r.detail.toNat ≤ 20 ∧ r.health.toNat ≤ 7 := by
  rw [bootDiagValidate] at h
  split at h
  · cases h
  next hstage =>
  split at h
  · cases h
  next hfault =>
  split at h
  · cases h
  next hdetail =>
  split at h
  · cases h
  split at h
  · cases h
  split at h
  · cases h
  next hhealth =>
  rw [not_not] at hhealth
  have hmask := (and_high_eq_zero (w := r.health) (k := 3) (by decide)).mp hhealth
  rw [gt_iff_lt, UInt32.lt_iff_toNat_lt] at hstage hfault hdetail
  simp only [UInt32.reduceToNat] at hstage hfault hdetail
  omega

section Valid

variable {s : BootSnapshot}

/-- Each value has the kind of its key. -/
theorem statusItem_fits (h : SnapshotOk s) {k : StatusKey} {i : StatusItem}
    (hi : statusItem s k = some i) : Fits k.kind i := by
  have hentry : ∀ {e : BootImageEntry} {item : Option StatusItem} {kind : ValueKind}
      {i : StatusItem}, entryItem e item = some i →
      (e.payloadLength ≠ 0 → item = some i → Fits kind i) → Fits kind i := by
    intro e item kind i he hf
    rw [entryItem] at he
    split at he
    · cases he
    · next hne => exact hf hne he
  have hfailures : ∀ {e : BootImageEntry} {i : StatusItem},
      failuresItem e = some i → Fits (.number 3) i := by
    intro e i he
    refine hentry he fun _ hi => ?_
    cases hi
    exact fits_number (accountCount_le _)
  have hrollback : ∀ {e : BootImageEntry} {i : StatusItem},
      rollbackItem e = some i → Fits (.number 1) i := by
    intro e i he
    refine hentry he fun _ hi => ?_
    cases hi
    refine fits_number ?_
    split <;> decide
  have hreasons : ∀ {slot : UInt32} {i : StatusItem}, slotValid slot = true →
      reasonsItem (s.metadata.record.image slot) = some i → Fits .reasons i := by
    intro slot i hslot he
    refine hentry he fun hne hi => ?_
    split at hi
    · cases hi
    · next hc =>
        cases hi
        exact fits_reasons (reasonsOk_of_valid (h.metadata.account hslot hne) hc)
  have hrole : ∀ {slot : UInt32} {i : StatusItem},
      roleItem slot = some i → Fits .slot i := by
    intro slot i he
    rw [roleItem] at he
    split at he
    · cases he
    · cases he
      exact fits_slot slot
  have hknown : ∀ {known : Bool} {item i : StatusItem} {kind : ValueKind},
      Fits kind item → knownItem known item = some i → Fits kind i := by
    intro known item i kind hf he
    cases known with
    | false => cases he
    | true =>
        cases he
        exact hf
  obtain ⟨hstage, hfault, hdetail, hhealth⟩ := diagValidate_bounds h.diagnostic
  cases k with
  | format | sequence | release | trialId => cases hi; exact fits_any _
  | runningSlot => cases hi; exact fits_slot _
  | hash => cases hi; exact fits_hash _
  | confirmedSlot | candidateSlot => exact hrole hi
  | permittedSlot =>
      rw [statusItem, permittedItem] at hi
      split at hi
      · cases hi
        exact fits_slot _
      · cases hi
  | trialState =>
      rw [statusItem] at hi
      split at hi
      · cases hi
      · cases hi
        exact fits_state _
  | slotAFailures | slotBFailures => exact hfailures hi
  | slotAReasons => exact hreasons (show slotValid bootSlotA = true by decide) hi
  | slotBReasons => exact hreasons (show slotValid bootSlotB = true by decide) hi
  | slotARollback | slotBRollback => exact hrollback hi
  | health => exact hknown (fits_word fun _ => hhealth) hi
  | stage => exact hknown (fits_number hstage) hi
  | fault => cases hi; exact fits_number hfault
  | detail => cases hi; exact fits_number hdetail
  | resetFlags => exact hknown (fits_word nofun) hi

theorem shown_eq_none (h : SnapshotOk s) (k : StatusKey) :
    shown (statusItem s k) = ascii "none" ↔ statusItem s k = none := by
  cases hi : statusItem s k with
  | none => exact ⟨fun _ => rfl, fun _ => rfl⟩
  | some i =>
      have hne := StatusItem.text_ne_none (statusItem_fits h hi).reasons
      exact ⟨fun he => absurd he hne, nofun⟩

theorem shown_valid (h : SnapshotOk s) (k : StatusKey) :
    shown (statusItem s k) = ascii "none" ∨
      valueValid k.name (shown (statusItem s k)) = true := by
  cases hi : statusItem s k with
  | none => exact .inl rfl
  | some i =>
      refine .inr (valueValid_iff.mpr ?_)
      rw [k.kindOf_name]
      exact (statusItem_fits h hi).accepts

theorem length_shown_le (h : SnapshotOk s) (k : StatusKey) :
    (shown (statusItem s k)).length ≤ k.kind.width := by
  cases hi : statusItem s k with
  | none =>
      have hwidth : 4 ≤ k.kind.width := by cases k <;> decide
      exact hwidth
  | some i => exact (statusItem_fits h hi).length

theorem length_statusBody (h : SnapshotOk s) : (statusBody s).length < 1024 := by
  have hle : ∀ ks : List StatusKey,
      (unlines ((ks.map fun k => (k.name, shown (statusItem s k))).map statusLine)).length ≤
        (ks.map fun k => k.name.length + k.kind.width + 2).sum := by
    intro ks
    induction ks with
    | nil => exact Nat.le_refl 0
    | cons k ks ih =>
        have hk := length_shown_le h k
        simp only [List.map_cons, unlines_cons, statusLine_eq, List.length_append,
          List.length_cons, List.sum_cons]
        omega
  rw [statusBody, statusFields_eq h]
  refine Nat.lt_of_le_of_lt (hle StatusKey.all) ?_
  decide

theorem render_eq (h : SnapshotOk s) :
    bootStatusRender s bootStatusCapacity = some (statusBody s) := by
  have hlen := length_statusBody h
  rw [bootStatusRender, if_neg (by simp [h.record, h.diagnostic, h.manifest, h.matching])]
  exact if_neg (by simp only [bootStatusCapacity]; omega)

/-- The dictionary the PC reads from a snapshot's text. -/
def statusValues (s : BootSnapshot) : StatusValues :=
  StatusKey.all.map fun k => (k.name, shown (statusItem s k))

theorem lookup_statusValues (s : BootSnapshot) (k : StatusKey) :
    (statusValues s).lookup k.name = some (shown (statusItem s k)) := by
  refine lookup_of_nodup (f := (k.name, shown (statusItem s k))) ?_ ?_
  · exact List.mem_map.mpr ⟨k, k.mem_all, rfl⟩
  · rw [statusValues, List.map_map]
    exact StatusKey.nodup_names

theorem status_render (h : SnapshotOk s) :
    status (statusBody s) = .ok (statusValues s) := by
  have hlen := length_statusBody h
  rw [statusBody, statusFields_eq h, ← statusValues] at hlen ⊢
  refine status_unlines ?_ ?_ (Nat.le_of_lt hlen) ?_ ?_
  · rw [statusValues, List.map_map]
    exact StatusKey.map_name
  · intro f hf
    obtain ⟨k, -, rfl⟩ := List.mem_map.mp hf
    exact ⟨k.all_plain_name, all_plain_shown _⟩
  · have hone : shown (statusItem s .format) = ascii "1" := shown_one
    rw [← hone]
    exact lookup_statusValues s .format
  · intro key hkey
    rw [← StatusKey.map_name] at hkey
    obtain ⟨k, -, rfl⟩ := List.mem_map.mp (List.mem_of_mem_tail hkey)
    rw [lookup_statusValues]
    exact shown_valid h k

end Valid

/-- The device's text is never cut short, and the PC reads from it what the
snapshot says: every value in its form, and the word for an absent one where
there is no value and nowhere else. -/
theorem status_agreement {s : BootSnapshot}
    (hrecord : bootMetadataValidate s.metadata.record = .ok)
    (hdiagnostic : bootDiagValidate s.diagnostic = .ok)
    (hmanifest : bootManifestValidate s.running.manifest = .ok)
    (hmatching :
      bootMetadataImageMatches s.metadata.record s.running.manifest = .ok) :
    ∃ text, bootStatusRender s bootStatusCapacity = some text ∧
      text.length < bootStatusCapacity ∧
      status text = .ok (StatusKey.all.map fun k => (k.name, shown (statusItem s k))) ∧
      ∀ k, shown (statusItem s k) = ascii "none" ↔ statusItem s k = none := by
  have h : SnapshotOk s := ⟨hrecord, hdiagnostic, hmanifest, hmatching⟩
  exact ⟨statusBody s, render_eq h, length_statusBody h, status_render h,
    shown_eq_none h⟩

/-- The second slot on trial, and the health not known. -/
def trialSnapshot : BootSnapshot where
  diagnostic := (bootDiagInit 4).1
  diagnosticContext := (bootDiagInit 4).2
  metadata := ⟨trialRecord, 0⟩
  running := packageImage bootSlotB

theorem status_agreement_trial :
    ∃ text, bootStatusRender trialSnapshot bootStatusCapacity = some text ∧
      text.length < bootStatusCapacity ∧
      status text =
        .ok (StatusKey.all.map fun k => (k.name, shown (statusItem trialSnapshot k))) ∧
      ∀ k, shown (statusItem trialSnapshot k) = ascii "none" ↔
        statusItem trialSnapshot k = none :=
  status_agreement (by decide) (by decide) (by decide) (by decide)

end EkBareMetal.Boot

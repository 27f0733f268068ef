import EkBareMetal.Proofs.Advertised
import Mathlib.Data.List.TakeWhile

/-!
# The grammar of a confirmation

A confirmation is four lines, one for each key and in any order, and the
parser takes these texts and no others, however they are cut into feeds. The
grammar is stated over the whole text; the parser is followed line by line,
the lines it has seen being the bits of its mask.
-/

namespace EkBareMetal.Boot

open Words Text Tools Interact

inductive ConfirmKey where
  | format
  | slot
  | hash
  | trialId
  deriving DecidableEq

namespace ConfirmKey

def name : ConfirmKey → List UInt8
  | format => ascii "format"
  | slot => ascii "slot"
  | hash => ascii "hash"
  | trialId => ascii "trial_id"

def all : List ConfirmKey := [format, slot, hash, trialId]

def bit : ConfirmKey → UInt32
  | format => 1
  | slot => 2
  | hash => 4
  | trialId => 8

theorem mem_all (k : ConfirmKey) : k ∈ all := by cases k <;> decide

/-- The values a key may have. -/
def ValueOk (value : List UInt8) : ConfirmKey → Prop
  | format => value ≠ [] ∧ value.all isDigit = true ∧ number 10 value = 1
  | slot => value = ascii "A" ∨ value = ascii "B"
  | hash => value.length = 64 ∧ value.all isHex = true
  | trialId =>
      value ≠ [] ∧ value.all isDigit = true ∧ number 10 value ≤ 0xffffffff

/-- What a value says about the request. -/
def Holds (r : BootConfirmRequest) (value : List UInt8) : ConfirmKey → Prop
  | format => True
  | slot => slotName r.slot = value
  | hash => hexText r.payloadHash.val = value
  | trialId => r.trialId.toNat = number 10 value

def line (k : ConfirmKey) (value : List UInt8) : List UInt8 := statusLine (k.name, value)

end ConfirmKey

/-- Four lines, one for each key, with these values. -/
def ConfirmText (c : ConfirmKey → List UInt8) (text : List UInt8) : Prop :=
  ∃ keys : List ConfirmKey, keys.Perm ConfirmKey.all ∧ text = unlines (keys.map fun k => k.line (c k))

/-- The texts of the grammar. -/
def ConfirmGrammar (c : ConfirmKey → List UInt8) (text : List UInt8) : Prop :=
  text.length ≤ bootConfirmCapacity ∧ (∀ k : ConfirmKey, k.ValueOk (c k)) ∧ ConfirmText c text

/-! ## The parsers of values -/

theorem number_cons (base : Nat) (b : UInt8) (s : List UInt8) (n : Nat) :
    (b :: s).foldl (fun n b => base * n + digitValue b) n =
      s.foldl (fun n b => base * n + digitValue b) (base * n + digitValue b) := rfl

theorem le_foldl_number (s : List UInt8) (n : Nat) :
    n ≤ s.foldl (fun n b => 10 * n + digitValue b) n := by
  induction s generalizing n with
  | nil => exact Nat.le_refl n
  | cons b s ih =>
      rw [number_cons]
      have := ih (10 * n + digitValue b)
      omega

theorem isDigit_iff {b : UInt8} : isDigit b = true ↔ 0x30 ≤ b ∧ b ≤ 0x39 := by
  rw [isDigit, Bool.and_eq_true, decide_eq_true_eq, decide_eq_true_eq]

theorem digit_word {b : UInt8} (h : isDigit b = true) :
    (b - 0x30).toUInt32.toNat = digitValue b ∧ digitValue b ≤ 9 := by
  obtain ⟨hlow, hhigh⟩ := isDigit_iff.mp h
  have hsub := UInt8.toNat_sub_of_le b 0x30 hlow
  have hzero : (0x30 : UInt8).toNat = 0x30 := rfl
  have hnine : (0x39 : UInt8).toNat = 0x39 := rfl
  rw [UInt8.le_iff_toNat_le] at hlow hhigh
  rw [digitValue, if_pos h, UInt8.toNat_toUInt32, hsub]
  omega

/-- The overflow test refuses exactly the numbers that do not fit. -/
theorem decimalLoop_iff {s : List UInt8} {n v : UInt32} :
    decimalLoop n s = some v ↔ s.all isDigit = true ∧
      s.foldl (fun n b => 10 * n + digitValue b) n.toNat = v.toNat := by
  induction s generalizing n with
  | nil =>
      rw [decimalLoop, Option.some.injEq, ← UInt32.toNat_inj]
      exact ⟨fun h => ⟨rfl, h⟩, fun h => h.2⟩
  | cons b s ih =>
      rw [decimalLoop, List.all_cons, Bool.and_eq_true, number_cons]
      by_cases hdigit : isDigit b = true
      · obtain ⟨hlow, hhigh⟩ := isDigit_iff.mp hdigit
        obtain ⟨hd, hnine⟩ := digit_word hdigit
        rw [if_neg (by simp only [gt_iff_lt, UInt8.not_lt, not_or]; exact ⟨hlow, hhigh⟩)]
        have hmax : (uint32Max - (b - 0x30).toUInt32).toNat =
            4294967295 - digitValue b := by
          rw [UInt32.toNat_sub_of_le, hd]
          · rfl
          · rw [UInt32.le_iff_toNat_le, hd]
            exact Nat.le_trans hnine (by decide)
        have hv := v.toNat_lt
        dsimp only
        by_cases hover : n > (uint32Max - (b - 0x30).toUInt32) / 10
        · rw [if_pos hover]
          rw [gt_iff_lt, UInt32.lt_iff_toNat_lt, UInt32.toNat_div, hmax] at hover
          simp only [UInt32.reduceToNat] at hover
          have hle := le_foldl_number s (10 * n.toNat + digitValue b)
          refine ⟨nofun, fun h => ?_⟩
          have := h.2
          omega
        · rw [if_neg hover]
          rw [gt_iff_lt, UInt32.lt_iff_toNat_lt, UInt32.toNat_div, hmax] at hover
          simp only [UInt32.reduceToNat] at hover
          have hstep : (n * 10 + (b - 0x30).toUInt32).toNat =
              10 * n.toNat + digitValue b := by
            rw [UInt32.toNat_add, UInt32.toNat_mul, hd]
            simp only [UInt32.reduceToNat]
            omega
          rw [ih, hstep]
          exact ⟨fun h => ⟨⟨hdigit, h.1⟩, h.2⟩, fun h => ⟨h.1.2, h.2⟩⟩
      · rw [if_pos]
        · exact ⟨nofun, fun h => absurd h.1.1 hdigit⟩
        · rw [isDigit_iff, not_and_or, UInt8.not_le, UInt8.not_le] at hdigit
          exact hdigit

theorem decimal_iff {s : List UInt8} {v : UInt32} :
    decimal s = some v ↔ s ≠ [] ∧ s.all isDigit = true ∧ number 10 s = v.toNat := by
  rw [decimal]
  split
  · next h => exact ⟨nofun, fun hs => absurd h hs.1⟩
  · next h =>
      rw [decimalLoop_iff]
      exact ⟨fun hs => ⟨h, hs⟩, fun hs => hs.2⟩

/-! ## The hash -/

set_option maxRecDepth 20000 in
theorem nibble_iff {c v : UInt8} :
    nibble c = some v ↔ isHex c = true ∧ v.toNat = digitValue c := by
  have hall : ∀ n : Fin 256, (match nibble (UInt8.ofNat n) with
      | some v => isHex (UInt8.ofNat n) && v.toNat == digitValue (UInt8.ofNat n)
      | none => !isHex (UInt8.ofNat n)) = true := by decide
  have hc := hall ⟨c.toNat, c.toNat_lt⟩
  rw [UInt8.ofNat_toNat] at hc
  cases hn : nibble c with
  | none =>
      rw [hn] at hc
      refine ⟨nofun, fun h => ?_⟩
      simp only [h.1] at hc
      cases hc
  | some w =>
      rw [hn] at hc
      simp only [Bool.and_eq_true, beq_iff_eq] at hc
      rw [Option.some.injEq]
      constructor
      · rintro rfl
        exact hc
      · rintro ⟨-, hv⟩
        rw [← UInt8.toNat_inj, hv, hc.2]

set_option maxRecDepth 20000 in
theorem nibble_digit {c v : UInt8} (h : nibble c = some v) :
    v.toNat < 16 ∧ c = digitChar v.toNat := by
  have hall : ∀ n : Fin 256, isHex (UInt8.ofNat n) = true →
      digitValue (UInt8.ofNat n) < 16 ∧
        UInt8.ofNat n = digitChar (digitValue (UInt8.ofNat n)) := by decide
  obtain ⟨hc, hv⟩ := nibble_iff.mp h
  have hd := hall ⟨c.toNat, c.toNat_lt⟩
  rw [UInt8.ofNat_toNat] at hd
  rw [hv]
  exact hd hc

/-- Two digits make the byte that prints as them. -/
theorem hex_pair {a b x y : UInt8} (ha : nibble a = some x) (hb : nibble b = some y) :
    hex 2 (x * 16 + y).toNat = [a, b] := by
  have hall : ∀ n m : Fin 16, hex 2 (UInt8.ofNat n * 16 + UInt8.ofNat m).toNat =
      [digitChar n, digitChar m] := by decide
  obtain ⟨hx, rfl⟩ := nibble_digit ha
  obtain ⟨hy, rfl⟩ := nibble_digit hb
  have h := hall ⟨x.toNat, hx⟩ ⟨y.toNat, hy⟩
  rw [UInt8.ofNat_toNat, UInt8.ofNat_toNat] at h
  exact h

set_option maxRecDepth 20000 in
theorem exists_nibble {c : UInt8} (h : isHex c = true) : ∃ v, nibble c = some v := by
  refine ⟨UInt8.ofNat (digitValue c), nibble_iff.mpr ⟨h, ?_⟩⟩
  have hall : ∀ n : Fin 256, isHex (UInt8.ofNat n) = true →
      (UInt8.ofNat (digitValue (UInt8.ofNat n))).toNat =
        digitValue (UInt8.ofNat n) := by decide
  have hd := hall ⟨c.toNat, c.toNat_lt⟩
  rw [UInt8.ofNat_toNat] at hd
  exact hd h

/-- An even number of digits is read as the bytes that print as them. -/
theorem hashLoop_spec {n : Nat} {s : List UInt8} (hlen : s.length = 2 * n) :
    (s.all isHex = true → ∃ hash, hashLoop s = some hash) ∧
      ∀ hash, hashLoop s = some hash →
        s.all isHex = true ∧ hash.length = n ∧ hexText hash = s := by
  induction n generalizing s with
  | zero =>
      rw [List.length_eq_zero_iff.mp hlen]
      exact ⟨fun _ => ⟨[], rfl⟩, fun hash h => by cases h; exact ⟨rfl, rfl, rfl⟩⟩
  | succ n ih =>
      match s, hlen with
      | a :: b :: s, hlen =>
          have hrest : s.length = 2 * n := by
            simp only [List.length_cons] at hlen
            omega
          obtain ⟨hsome, hall⟩ := ih hrest
          constructor
          · intro h
            simp only [List.all_cons, Bool.and_eq_true] at h
            obtain ⟨x, hx⟩ := exists_nibble h.1
            obtain ⟨y, hy⟩ := exists_nibble h.2.1
            obtain ⟨hash, hh⟩ := hsome h.2.2
            exact ⟨(x * 16 + y) :: hash, by simp [hashLoop, hx, hy, hh]⟩
          · intro hash h
            rw [hashLoop] at h
            split at h
            · next x y hx hy =>
                obtain ⟨rest, hr, rfl⟩ := Option.map_eq_some_iff.mp h
                obtain ⟨hhex, hl, htext⟩ := hall rest hr
                refine ⟨?_, by rw [List.length_cons, hl], ?_⟩
                · simp only [List.all_cons, Bool.and_eq_true]
                  exact ⟨(nibble_iff.mp hx).1, (nibble_iff.mp hy).1, hhex⟩
                · rw [hexText, List.flatMap_cons, hex_pair hx hy, ← hexText, htext]
                  rfl
            · cases h

/-! ## One line -/

theorem cutAt_eq_some {c : UInt8} {s front rest : List UInt8} :
    cutAt c s = some (front, rest) ↔ s = front ++ c :: rest ∧ c ∉ front := by
  induction s generalizing front with
  | nil => exact ⟨nofun, fun h => by simp at h⟩
  | cons b s ih =>
      rw [cutAt]
      split
      · next hb =>
          subst hb
          constructor
          · intro h
            cases h
            exact ⟨rfl, List.not_mem_nil⟩
          · rintro ⟨he, hm⟩
            cases front with
            | nil =>
                cases he
                rfl
            | cons d front =>
                injection he with hd _
                exact absurd (hd ▸ List.mem_cons_self) hm
      · next hb =>
          rw [Option.map_eq_some_iff]
          constructor
          · rintro ⟨⟨front', rest'⟩, h', he⟩
            cases he
            obtain ⟨rfl, hm⟩ := ih.mp h'
            exact ⟨rfl, by simp [Ne.symm hb, hm]⟩
          · rintro ⟨he, hm⟩
            cases front with
            | nil =>
                injection he with hd _
                exact absurd hd hb
            | cons d front =>
                injection he with hd hs
                subst hd
                have hm' : c ∉ front := fun h => hm (List.mem_cons_of_mem _ h)
                exact ⟨(front, rest), ih.mpr ⟨hs, hm'⟩, rfl⟩

/-! ## The keys seen -/

def mask (format slot hash trialId : Bool) : UInt32 :=
  (if format then 1 else 0) ||| (if slot then 2 else 0) |||
    (if hash then 4 else 0) ||| (if trialId then 8 else 0)

theorem mask_and : ∀ f s h t,
    (mask f s h t &&& 1 ≠ 0 ↔ f) ∧ (mask f s h t &&& 2 ≠ 0 ↔ s) ∧
      (mask f s h t &&& 4 ≠ 0 ↔ h) ∧ (mask f s h t &&& 8 ≠ 0 ↔ t) := by decide

theorem mask_or : ∀ f s h t,
    mask f s h t ||| 1 = mask true s h t ∧ mask f s h t ||| 2 = mask f true h t ∧
      mask f s h t ||| 4 = mask f s true t ∧ mask f s h t ||| 8 = mask f s h true := by
  decide

theorem mask_eq_all : ∀ f s h t, mask f s h t = 15 ↔ f ∧ s ∧ h ∧ t := by decide

/-- The bits of the keys seen. -/
def maskOf (keys : List ConfirmKey) : UInt32 :=
  mask (.format ∈ keys) (.slot ∈ keys) (.hash ∈ keys) (.trialId ∈ keys)

theorem maskOf_and (keys : List ConfirmKey) (k : ConfirmKey) :
    maskOf keys &&& k.bit ≠ 0 ↔ k ∈ keys := by
  obtain ⟨hf, hs, hh, ht⟩ := mask_and (.format ∈ keys) (.slot ∈ keys) (.hash ∈ keys)
    (.trialId ∈ keys)
  cases k with
  | format => exact hf.trans decide_eq_true_iff
  | slot => exact hs.trans decide_eq_true_iff
  | hash => exact hh.trans decide_eq_true_iff
  | trialId => exact ht.trans decide_eq_true_iff

theorem maskOf_or (keys : List ConfirmKey) (k : ConfirmKey) :
    maskOf keys ||| k.bit = maskOf (k :: keys) := by
  obtain ⟨hf, hs, hh, ht⟩ := mask_or (.format ∈ keys) (.slot ∈ keys) (.hash ∈ keys)
    (.trialId ∈ keys)
  cases k with
  | format => simpa [maskOf, ConfirmKey.bit] using hf
  | slot => simpa [maskOf, ConfirmKey.bit] using hs
  | hash => simpa [maskOf, ConfirmKey.bit] using hh
  | trialId => simpa [maskOf, ConfirmKey.bit] using ht

theorem maskOf_eq_all (keys : List ConfirmKey) :
    maskOf keys = 15 ↔ ∀ k, k ∈ keys := by
  rw [maskOf, mask_eq_all]
  simp only [decide_eq_true_eq]
  constructor
  · rintro ⟨hf, hs, hh, ht⟩ k
    cases k <;> assumption
  · intro h
    exact ⟨h _, h _, h _, h _⟩

/-! ## One line -/

section Line

variable {r r' : BootConfirmRequest} {key value : List UInt8} {bit : UInt32}

/-- The request after a field: the field holds, and so does what held of the
others. -/
structure Stores (r r' : BootConfirmRequest) (k : ConfirmKey) (value : List UInt8) :
    Prop where
  here : k.Holds r' value
  others : ∀ j v, j ≠ k → j.Holds r v → j.Holds r' v

theorem confirmField_ok (h : confirmField r key value = some (bit, r')) :
    ∃ k : ConfirmKey, key = k.name ∧ bit = k.bit ∧ k.ValueOk value ∧
      Stores r r' k value := by
  rw [confirmField] at h
  split at h
  · next hkey =>
      obtain ⟨format, hd, h⟩ := Option.bind_eq_some_iff.mp h
      split at h
      · cases h
      · next hone =>
          cases h
          obtain ⟨hne, hall, hn⟩ := decimal_iff.mp hd
          refine ⟨.format, hkey, rfl, ⟨hne, hall, ?_⟩, trivial, fun j v _ hj => hj⟩
          rw [hn, not_not.mp hone]
          rfl
  split at h
  · next hkey =>
      split at h
      · next hv =>
          cases h
          refine ⟨.slot, hkey, rfl, .inl hv, hv.symm, fun j v hj hr => ?_⟩
          cases j with
          | slot => exact absurd rfl hj
          | format | hash | trialId => exact hr
      split at h
      · next hv =>
          cases h
          refine ⟨.slot, hkey, rfl, .inr hv, hv.symm, fun j v hj hr => ?_⟩
          cases j with
          | slot => exact absurd rfl hj
          | format | hash | trialId => exact hr
      · cases h
  split at h
  · next hkey =>
      split at h
      · cases h
      next hlen =>
      rw [not_not] at hlen
      obtain ⟨hash, hh, h⟩ := Option.bind_eq_some_iff.mp h
      split at h
      · next hsize =>
          cases h
          obtain ⟨hhex, -, htext⟩ := (hashLoop_spec (n := 32) hlen).2 hash hh
          refine ⟨.hash, hkey, rfl, ⟨hlen, hhex⟩, htext, fun j v hj hr => ?_⟩
          cases j with
          | hash => exact absurd rfl hj
          | format | slot | trialId => exact hr
      · cases h
  split at h
  · next hkey =>
      obtain ⟨trialId, hd, he⟩ := Option.map_eq_some_iff.mp h
      cases he
      obtain ⟨hne, hall, hn⟩ := decimal_iff.mp hd
      refine ⟨.trialId, hkey, rfl, ⟨hne, hall, ?_⟩, hn.symm, fun j v hj hr => ?_⟩
      · rw [hn]
        exact Nat.le_of_lt_succ trialId.toNat_lt
      · cases j with
        | trialId => exact absurd rfl hj
        | format | slot | hash => exact hr
  · cases h

theorem ConfirmKey.name_injective {j k : ConfirmKey} (h : j.name = k.name) : j = k := by
  revert h
  cases j <;> cases k <;> decide

/-- Every value its key may have is taken. -/
theorem confirmField_some (r : BootConfirmRequest) {k : ConfirmKey}
    (h : k.ValueOk value) : ∃ r', confirmField r k.name value = some (k.bit, r') := by
  cases k with
  | format =>
      obtain ⟨hne, hall, hone⟩ := h
      have hd : decimal value = some 1 := decimal_iff.mpr ⟨hne, hall, hone⟩
      refine ⟨r, ?_⟩
      show confirmField r (ascii "format") value = some (1, r)
      rw [confirmField, if_pos rfl, hd]
      rfl
  | slot =>
      show ∃ r', confirmField r (ascii "slot") value = some (2, r')
      rw [confirmField, if_neg (by decide), if_pos rfl]
      rcases h with h | h
      · exact ⟨_, if_pos h⟩
      · have hne : value ≠ ascii "A" := by
          rw [h]
          decide
        exact ⟨_, (if_neg hne).trans (if_pos h)⟩
  | hash =>
      obtain ⟨hlen, hhex⟩ := h
      obtain ⟨hsome, hall⟩ := hashLoop_spec (n := 32) hlen
      obtain ⟨hash, hh⟩ := hsome hhex
      have hsize := (hall hash hh).2.1
      refine ⟨{ r with payloadHash := ⟨hash, hsize⟩ }, ?_⟩
      show confirmField r (ascii "hash") value = some (4, _)
      rw [confirmField, if_neg (by decide), if_neg (by decide),
        if_pos rfl, if_neg (not_not_intro hlen), hh]
      exact dif_pos hsize
  | trialId =>
      obtain ⟨hne, hall, hmax⟩ := h
      have hlt : number 10 value < 2 ^ 32 := Nat.lt_succ_of_le hmax
      have hd : decimal value = some (UInt32.ofNat (number 10 value)) := by
        refine decimal_iff.mpr ⟨hne, hall, ?_⟩
        rw [UInt32.toNat_ofNat', Nat.mod_eq_of_lt hlt]
      refine ⟨{ r with trialId := UInt32.ofNat (number 10 value) }, ?_⟩
      show confirmField r (ascii "trial_id") value = some (8, _)
      rw [confirmField, if_neg (by decide), if_neg (by decide),
        if_neg (by decide), if_pos rfl, hd]
      rfl

variable {text : List UInt8} {seen : List ConfirmKey} {seen' : UInt32}

theorem confirmLine_ok (h : confirmLine text (maskOf seen) r = some (seen', r')) :
    ∃ k value, text = ConfirmKey.line k value ∧ k ∉ seen ∧ k.ValueOk value ∧
      seen' = maskOf (k :: seen) ∧ Stores r r' k value := by
  obtain ⟨⟨key, value⟩, hcut, h⟩ := Option.bind_eq_some_iff.mp h
  obtain ⟨⟨bit, r₁⟩, hfield, h⟩ := Option.bind_eq_some_iff.mp h
  obtain ⟨k, rfl, rfl, hok, hstores⟩ := confirmField_ok hfield
  dsimp only at h
  split at h
  · cases h
  · next hbit =>
      cases h
      refine ⟨k, value, ?_, fun hk => hbit ((maskOf_and seen k).mpr hk), hok,
        maskOf_or seen k, hstores⟩
      rw [ConfirmKey.line, statusLine_eq]
      exact (cutAt_eq_some.mp hcut).1

theorem ConfirmKey.all_plain_name (k : ConfirmKey) : k.name.all plain = true := by
  cases k <;> decide

theorem confirmLine_some (r : BootConfirmRequest) {k : ConfirmKey} (hk : k ∉ seen)
    (hok : k.ValueOk value) :
    ∃ r', confirmLine (k.line value) (maskOf seen) r =
      some (maskOf (k :: seen), r') ∧ Stores r r' k value := by
  obtain ⟨r', hfield⟩ := confirmField_some r hok
  obtain ⟨j, hname, -, -, hstores⟩ := confirmField_ok hfield
  rw [← ConfirmKey.name_injective hname] at hstores
  have hkey : (0x3d : UInt8) ∉ k.name := not_mem_of_plain k.all_plain_name (by decide)
  have hcut : cutAt 0x3d (k.line value) = some (k.name, value) := by
    rw [cutAt_eq_some, ConfirmKey.line, statusLine_eq]
    exact ⟨rfl, hkey⟩
  have hbit : ¬ maskOf seen &&& k.bit ≠ 0 := fun h => hk ((maskOf_and seen k).mp h)
  refine ⟨r', ?_, hstores⟩
  rw [confirmLine, hcut, Option.bind_some]
  dsimp only
  rw [hfield, Option.bind_some]
  exact (if_neg hbit).trans (by rw [maskOf_or])

end Line

/-! ## All the lines -/

theorem ConfirmKey.ValueOk.plain {k : ConfirmKey} {value : List UInt8}
    (h : k.ValueOk value) : value.all plain = true := by
  rw [List.all_eq_true]
  intro b hb
  cases k with
  | format => exact plain_of_isHex (isHex_of_isDigit (List.all_eq_true.mp h.2.1 b hb))
  | slot =>
      have hletters : ((ascii "A").all Text.plain && (ascii "B").all Text.plain) = true := by
        decide
      rw [Bool.and_eq_true] at hletters
      rcases h with rfl | rfl
      · exact List.all_eq_true.mp hletters.1 b hb
      · exact List.all_eq_true.mp hletters.2 b hb
  | hash => exact plain_of_isHex (List.all_eq_true.mp h.2 b hb)
  | trialId => exact plain_of_isHex (isHex_of_isDigit (List.all_eq_true.mp h.2.1 b hb))

theorem lineFeed_not_mem {k : ConfirmKey} {value : List UInt8} (h : k.ValueOk value) :
    lineFeed ∉ k.line value := lineFeed_not_mem_line k.all_plain_name h.plain

/-- A key with its value. -/
abbrev ConfirmField := ConfirmKey × List UInt8

def ConfirmField.line (f : ConfirmField) : List UInt8 := f.1.line f.2

section Lines

variable {r r' : BootConfirmRequest} {seen : List ConfirmKey} {seen' : UInt32}

/-- What a run over some lines has found. -/
structure Collected (fields : List ConfirmField) (seen done : List ConfirmKey)
    (r r' : BootConfirmRequest) : Prop where
  nodup : (fields.map (·.1)).Nodup
  fresh : ∀ f ∈ fields, f.1 ∉ seen
  valid : ∀ f ∈ fields, f.1.ValueOk f.2
  done : ∀ k, k ∈ done ↔ k ∈ fields.map (·.1) ∨ k ∈ seen
  holds : ∀ f ∈ fields, f.1.Holds r' f.2
  others : ∀ j v, j ∉ fields.map (·.1) → j.Holds r v → j.Holds r' v

theorem Collected.cons {fields : List ConfirmField} {done : List ConfirmKey}
    {k : ConfirmKey} {value : List UInt8} {r₁ : BootConfirmRequest} (hk : k ∉ seen)
    (hok : k.ValueOk value) (hstores : Stores r r₁ k value)
    (h : Collected fields (k :: seen) done r₁ r') :
    Collected ((k, value) :: fields) seen done r r' := by
  have hfresh : k ∉ fields.map (·.1) := by
    intro hm
    obtain ⟨f, hf, rfl⟩ := List.mem_map.mp hm
    exact h.fresh f hf List.mem_cons_self
  refine ⟨?_, ?_, ?_, ?_, ?_, ?_⟩
  · rw [List.map_cons, List.nodup_cons]
    exact ⟨hfresh, h.nodup⟩
  · intro f hf
    rcases List.mem_cons.mp hf with rfl | hf
    · exact hk
    · exact fun hm => h.fresh f hf (List.mem_cons_of_mem _ hm)
  · intro f hf
    rcases List.mem_cons.mp hf with rfl | hf
    · exact hok
    · exact h.valid f hf
  · intro j
    rw [h.done j, List.map_cons, List.mem_cons, List.mem_cons]
    tauto
  · intro f hf
    rcases List.mem_cons.mp hf with rfl | hf
    · exact h.others k value hfresh hstores.here
    · exact h.holds f hf
  · intro j v hj hr
    rw [List.map_cons, List.mem_cons, not_or] at hj
    exact h.others j v hj.2 (hstores.others j v hj.1 hr)

theorem confirmLoop_nil (seen : UInt32) (r : BootConfirmRequest) :
    confirmLoop [] seen r = some (seen, r) := by
  rw [confirmLoop, if_pos rfl]

theorem confirmLoop_line {k : ConfirmKey} {value rest : List UInt8} {seen : UInt32}
    (hok : k.ValueOk value) :
    confirmLoop (k.line value ++ lineFeed :: rest) seen r =
      match confirmLine (k.line value) seen r with
      | none => none
      | some (seen, r) => confirmLoop rest seen r := by
  have hcut : cutAt 0x0a (k.line value ++ lineFeed :: rest) = some (k.line value, rest) :=
    cutAt_eq_some.mpr ⟨rfl, lineFeed_not_mem hok⟩
  rw [confirmLoop, if_neg (by simp)]
  split
  · next hnone =>
      rw [hcut] at hnone
      cases hnone
  · next line' rest' hsome =>
      rw [hcut] at hsome
      cases hsome
      rfl

/-- The parser takes only texts of lines. -/
theorem confirmLoop_ok {text : List UInt8}
    (h : confirmLoop text (maskOf seen) r = some (seen', r')) :
    ∃ fields done, text = unlines (fields.map ConfirmField.line) ∧
      seen' = maskOf done ∧ Collected fields seen done r r' := by
  induction hn : text.length using Nat.strong_induction_on generalizing text seen r with
  | _ n ih =>
      rw [confirmLoop] at h
      split at h
      · next hnil =>
          cases h
          refine ⟨[], seen, hnil, rfl, List.nodup_nil, nofun, nofun, fun k => ?_, nofun,
            fun j v _ hj => hj⟩
          exact ⟨.inr, fun h => h.resolve_left List.not_mem_nil⟩
      split at h
      · cases h
      · next line rest hcut =>
          split at h
          · cases h
          · next seen₁ r₁ hline =>
              obtain ⟨k, value, rfl, hk, hok, rfl, hstores⟩ := confirmLine_ok hline
              obtain ⟨fields, done, rfl, rfl, hc⟩ :=
                ih rest.length (hn ▸ length_cutAt hcut) h rfl
              refine ⟨(k, value) :: fields, done, ?_, rfl, hc.cons hk hok hstores⟩
              rw [(cutAt_eq_some.mp hcut).1, List.map_cons, unlines_cons]
              rfl

/-- And it takes all of them. -/
theorem confirmLoop_some {fields : List ConfirmField} (r : BootConfirmRequest)
    (hnodup : (fields.map (·.1)).Nodup) (hfresh : ∀ f ∈ fields, f.1 ∉ seen)
    (hvalid : ∀ f ∈ fields, f.1.ValueOk f.2) :
    ∃ done r', confirmLoop (unlines (fields.map ConfirmField.line)) (maskOf seen) r =
        some (maskOf done, r') ∧ Collected fields seen done r r' := by
  induction fields generalizing seen r with
  | nil =>
      refine ⟨seen, r, confirmLoop_nil _ _, List.nodup_nil, nofun, nofun, fun k => ?_,
        nofun, fun j v _ hj => hj⟩
      exact ⟨.inr, fun h => h.resolve_left List.not_mem_nil⟩
  | cons f fields ih =>
      obtain ⟨k, value⟩ := f
      rw [List.map_cons, List.nodup_cons] at hnodup
      have hk : k ∉ seen := hfresh (k, value) List.mem_cons_self
      have hok : k.ValueOk value := hvalid (k, value) List.mem_cons_self
      obtain ⟨r₁, hline, hstores⟩ := confirmLine_some r hk hok
      have hnext : ∀ f ∈ fields, f.1 ∉ k :: seen := by
        intro f hf hm
        rcases List.mem_cons.mp hm with he | hm
        · exact hnodup.1 (List.mem_map.mpr ⟨f, hf, he⟩)
        · exact hfresh f (List.mem_cons_of_mem _ hf) hm
      obtain ⟨done, r', hloop, hc⟩ := ih r₁ hnodup.2 hnext
        fun f hf => hvalid f (List.mem_cons_of_mem _ hf)
      refine ⟨done, r', ?_, hc.cons hk hok hstores⟩
      rw [List.map_cons, unlines_cons, ConfirmField.line, confirmLoop_line hok, hline]
      exact hloop

end Lines

/-! ## Feeds -/

def goodByte (b : UInt8) : Bool := !(b != 0x0a && (b < 32 || b > 126))

/-- A text the buffer takes. -/
def Feedable (text : List UInt8) : Prop :=
  text.length ≤ bootConfirmCapacity ∧ text.all goodByte = true

instance (text : List UInt8) : Decidable (Feedable text) :=
  inferInstanceAs (Decidable (_ ∧ _))

/-- What each feed returns, and the parser after the last. -/
def feedAll (p : BootConfirmParser) : List (List UInt8) → List Bool × BootConfirmParser
  | [] => ([], p)
  | chunk :: chunks =>
      let (fed, p) := bootConfirmFeed p chunk
      let (rest, p) := feedAll p chunks
      (fed :: rest, p)

structure ConfirmOutcome where
  accepted : Bool
  out : BootConfirmRequest

/-- The feeds of a body and the finish, with `out` the request that was in the
caller's output. -/
def confirmOutcome (chunks : List (List UInt8)) (out : BootConfirmRequest) :
    ConfirmOutcome :=
  let fed := feedAll .zeroed chunks
  let written := (bootConfirmFinish fed.2).1
  ⟨fed.1.all id && written.isSome, written.getD out⟩

theorem feedAll_failed {p : BootConfirmParser} (hp : p.failed = true)
    (chunks : List (List UInt8)) : (feedAll p chunks).2 = p := by
  induction chunks with
  | nil => rfl
  | cons chunk chunks ih =>
      have hfeed : bootConfirmFeed p chunk = (false, p) := by
        rw [bootConfirmFeed, hp]
        rfl
      rw [feedAll, hfeed]
      exact ih

theorem feed_eq (text chunk : List UInt8) (htext : Feedable text) :
    bootConfirmFeed ⟨text, false, false⟩ chunk =
      if Feedable (text ++ chunk) then (true, ⟨text ++ chunk, false, false⟩)
      else (false, ⟨text, true, false⟩) := by
  obtain ⟨hlen, hgood⟩ := htext
  have hany : (chunk.any fun b => b != 0x0a && (b < 32 || b > 126)) =
      !chunk.all goodByte := by
    rw [List.not_all_eq_any_not]
    congr 1
    funext b
    rw [goodByte, Bool.not_not]
  rw [bootConfirmFeed, hany]
  simp only [bootConfirmCapacity] at hlen
  by_cases hfits : text.length + chunk.length ≤ 128
  · have hroom : ¬ (text.length > bootConfirmCapacity ||
        chunk.length > bootConfirmCapacity - text.length) = true := by
      simp only [bootConfirmCapacity, Bool.or_eq_true, decide_eq_true_eq]
      omega
    rw [if_neg (by simp), if_neg hroom]
    cases hchunk : chunk.all goodByte with
    | true =>
        rw [if_neg (by simp), if_pos]
        refine ⟨by rw [List.length_append]; exact hfits, ?_⟩
        rw [List.all_append, hgood, hchunk]
        rfl
    | false =>
        rw [if_pos (by simp), if_neg]
        rintro ⟨-, hall⟩
        rw [List.all_append, hchunk, Bool.and_false] at hall
        cases hall
  · have hroom : (text.length > bootConfirmCapacity ||
        chunk.length > bootConfirmCapacity - text.length) = true := by
      simp only [bootConfirmCapacity, Bool.or_eq_true, decide_eq_true_eq]
      omega
    rw [if_neg (by simp), if_pos hroom, if_neg]
    rintro ⟨hle, -⟩
    rw [List.length_append] at hle
    exact hfits hle

/-- A text that does not fit stops fitting somewhere. -/
theorem Feedable.of_append {text rest : List UInt8} (h : Feedable (text ++ rest)) :
    Feedable text := by
  obtain ⟨hlen, hgood⟩ := h
  rw [List.all_append, Bool.and_eq_true] at hgood
  rw [List.length_append] at hlen
  exact ⟨by omega, hgood.1⟩

theorem feedAll_eq {text : List UInt8} (htext : Feedable text)
    (chunks : List (List UInt8)) :
    if Feedable (text ++ chunks.flatten) then
      (feedAll ⟨text, false, false⟩ chunks).1.all id = true ∧
        (feedAll ⟨text, false, false⟩ chunks).2 = ⟨text ++ chunks.flatten, false, false⟩
    else
      (feedAll ⟨text, false, false⟩ chunks).1.all id = false ∧
        (feedAll ⟨text, false, false⟩ chunks).2.failed = true := by
  induction chunks generalizing text with
  | nil =>
      rw [List.flatten_nil, List.append_nil, if_pos htext]
      exact ⟨rfl, rfl⟩
  | cons chunk chunks ih =>
      rw [List.flatten_cons, ← List.append_assoc, feedAll, feed_eq text chunk htext]
      by_cases hchunk : Feedable (text ++ chunk)
      · rw [if_pos hchunk]
        exact ih hchunk
      · rw [if_neg hchunk, if_neg fun h => hchunk h.of_append]
        exact ⟨rfl, congrArg _ (feedAll_failed rfl chunks)⟩

/-- The outcome is one of the whole text. -/
theorem confirmOutcome_eq (chunks : List (List UInt8)) (out : BootConfirmRequest) :
    confirmOutcome chunks out =
      if Feedable chunks.flatten then
        let written := (bootConfirmFinish ⟨chunks.flatten, false, false⟩).1
        ⟨written.isSome, written.getD out⟩
      else ⟨false, out⟩ := by
  have hempty : Feedable [] := ⟨by decide, rfl⟩
  have h := feedAll_eq hempty chunks
  rw [List.nil_append] at h
  rw [confirmOutcome, BootConfirmParser.zeroed]
  dsimp only
  split at h
  · next hfeed =>
      rw [if_pos hfeed, h.1, h.2]
      rfl
  · next hfeed =>
      have hfinish : (bootConfirmFinish (feedAll ⟨[], false, false⟩ chunks).2).1 = none := by
        rw [bootConfirmFinish, h.2]
        rfl
      rw [if_neg hfeed, h.1, hfinish]
      rfl

/-! ## The whole text -/

set_option maxRecDepth 20000 in
theorem goodByte_of_plain {b : UInt8} (h : plain b = true) : goodByte b = true := by
  have hall : ∀ n : Fin 256, plain (UInt8.ofNat n) = true →
      goodByte (UInt8.ofNat n) = true := by decide
  have hb := hall ⟨b.toNat, b.toNat_lt⟩
  rw [UInt8.ofNat_toNat] at hb
  exact hb h

section Grammar

variable {c : ConfirmKey → List UInt8} {text : List UInt8} {r : BootConfirmRequest}

theorem ConfirmGrammar.feedable (h : ConfirmGrammar c text) : Feedable text := by
  obtain ⟨hlen, hok, keys, -, rfl⟩ := h
  refine ⟨hlen, ?_⟩
  rw [List.all_eq_true]
  intro b hb
  obtain ⟨line, hline, hb⟩ := List.mem_flatMap.mp hb
  obtain ⟨k, -, rfl⟩ := List.mem_map.mp hline
  rw [ConfirmKey.line, statusLine_eq, List.mem_append, List.mem_append, List.mem_cons,
    List.mem_singleton] at hb
  rcases hb with (h | rfl | h) | rfl
  · exact goodByte_of_plain (List.all_eq_true.mp k.all_plain_name b h)
  · decide
  · exact goodByte_of_plain (List.all_eq_true.mp (hok k).plain b h)
  · decide

theorem finish_eq (hfeed : Feedable text) :
    (bootConfirmFinish ⟨text, false, false⟩).1 =
      if text.getLast? ≠ some lineFeed then none
      else (confirmLoop text (maskOf []) .zeroed).bind fun (seen, r) =>
        if seen ≠ 15 then none else some r := by
  obtain ⟨hlen, hgood⟩ := hfeed
  have hnul : text.takeWhile (· ≠ 0) = text := by
    rw [List.takeWhile_eq_self_iff]
    intro b hb
    have hb' := List.all_eq_true.mp hgood b hb
    rw [decide_eq_true_eq]
    rintro rfl
    exact absurd hb' (by decide)
  rw [bootConfirmFinish, if_neg (by simp), hnul]
  dsimp only
  by_cases hlast : text.getLast? = some lineFeed
  · have hne : text ≠ [] := by
      rintro rfl
      cases hlast
    rw [if_neg, if_neg (not_not_intro hlast)]
    · show (match confirmLoop text (maskOf []) .zeroed with
        | none => (none, _)
        | some (seen, r) => _).1 = _
      cases confirmLoop text (maskOf []) .zeroed with
      | none => rfl
      | some x => rfl
    · rintro (h | h | h)
      · exact hne h
      · exact Nat.not_lt.mpr hlen h
      · exact h hlast
  · rw [if_pos (.inr (.inr hlast)), if_pos hlast]

/-- What the parser takes is in the grammar. -/
theorem finish_ok (hfeed : Feedable text)
    (h : (bootConfirmFinish ⟨text, false, false⟩).1 = some r) :
    ∃ c, ConfirmGrammar c text := by
  rw [finish_eq hfeed] at h
  split at h
  · cases h
  obtain ⟨⟨seen, r'⟩, hloop, h⟩ := Option.bind_eq_some_iff.mp h
  dsimp only at h
  split at h
  · cases h
  next hseen =>
  obtain ⟨fields, done, htext, rfl, hc⟩ := confirmLoop_ok hloop
  have hall : ∀ k, k ∈ fields.map (·.1) := fun k =>
    ((hc.done k).mp ((maskOf_eq_all done).mp (not_not.mp hseen) k)).resolve_right
      List.not_mem_nil
  have hvalue : ∀ f ∈ fields, (fields.lookup f.1).getD [] = f.2 := by
    intro f hf
    rw [lookup_of_nodup hf hc.nodup]
    rfl
  refine ⟨fun k => (fields.lookup k).getD [], hfeed.1, fun k => ?_,
    fields.map (·.1), ?_, ?_⟩
  · obtain ⟨f, hf, rfl⟩ := List.mem_map.mp (hall k)
    dsimp only
    rw [hvalue f hf]
    exact hc.valid f hf
  · refine (List.perm_ext_iff_of_nodup hc.nodup (by decide)).mpr fun k => ?_
    exact ⟨fun _ => k.mem_all, fun _ => hall k⟩
  · rw [htext, List.map_map]
    congr 1
    refine List.map_congr_left fun f hf => ?_
    rw [Function.comp_apply]
    dsimp only
    rw [hvalue f hf]
    rfl

/-- And everything in the grammar is taken, with the values it spells. -/
theorem finish_some (h : ConfirmGrammar c text) :
    ∃ r, (bootConfirmFinish ⟨text, false, false⟩).1 = some r ∧
      ∀ k : ConfirmKey, k.Holds r (c k) := by
  have hfeed := h.feedable
  obtain ⟨-, hok, keys, hperm, rfl⟩ := h
  have hmem : ∀ k, k ∈ keys := fun k => hperm.mem_iff.mpr k.mem_all
  have hkeys : (keys.map fun k => ((k, c k) : ConfirmField)).map (·.1) = keys := by
    rw [List.map_map]
    exact List.map_id keys
  have hlines : (keys.map fun k => ((k, c k) : ConfirmField)).map ConfirmField.line =
      keys.map fun k => k.line (c k) := by
    rw [List.map_map]
    rfl
  have hfresh : ∀ f ∈ keys.map fun k => ((k, c k) : ConfirmField),
      f.1 ∉ ([] : List ConfirmKey) := fun _ _ => List.not_mem_nil
  have hvalid : ∀ f ∈ keys.map fun k => ((k, c k) : ConfirmField), f.1.ValueOk f.2 := by
    intro f hf
    obtain ⟨k, -, rfl⟩ := List.mem_map.mp hf
    exact hok k
  have hnodup : ((keys.map fun k => ((k, c k) : ConfirmField)).map (·.1)).Nodup := by
    rw [hkeys]
    exact hperm.nodup_iff.mpr (by decide)
  obtain ⟨done, r, hloop, hc⟩ := confirmLoop_some .zeroed hnodup hfresh hvalid
  rw [hlines] at hloop
  have hlast : (unlines (keys.map fun k => k.line (c k))).getLast? = some lineFeed := by
    refine getLast?_unlines fun hnil => ?_
    rw [List.map_eq_nil_iff.mp hnil] at hmem
    exact List.not_mem_nil (hmem .format)
  refine ⟨r, ?_, fun k => hc.holds (k, c k) (List.mem_map.mpr ⟨k, hmem k, rfl⟩)⟩
  rw [finish_eq hfeed, if_neg (not_not_intro hlast), hloop, Option.bind_some]
  refine if_neg (not_not_intro ((maskOf_eq_all done).mpr fun k => ?_))
  rw [hc.done k, hkeys]
  exact .inl (hmem k)

end Grammar

/-! ## The body the PC sends -/

theorem checkValues_valid {values : StatusValues} {keys : List (List UInt8)}
    (h : checkValues values keys = .ok ()) : ∀ key ∈ keys,
      (values.lookup key).getD [] = ascii "none" ∨
        valueValid key ((values.lookup key).getD []) = true := by
  induction keys with
  | nil => exact nofun
  | cons key keys ih =>
      rw [checkValues] at h
      split at h
      · next hvalid =>
          intro k hk
          rcases List.mem_cons.mp hk with rfl | hk
          · exact hvalid
          · exact ih h k hk
      · cases h

/-- Every value of a status the PC took is in its range. -/
theorem status_valid {body : List UInt8} {values : StatusValues}
    (h : status body = .ok values) (k : StatusKey) (hk : k.name ∈ KEYS.tail) :
    (values.lookup k.name).getD [] = ascii "none" ∨
      k.kind.accepts ((values.lookup k.name).getD []) := by
  rw [status] at h
  split at h
  · cases h
  split at h
  · cases h
  split at h
  · cases h
  split at h
  · cases h
  split at h
  · cases h
  cases hc : checkValues _ KEYS.tail with
  | error e =>
      rw [hc] at h
      cases h
  | ok _ =>
      rw [hc] at h
      cases h
      rw [← k.kindOf_name, ← valueValid_iff]
      exact checkValues_valid hc k.name hk

theorem passed_check {ε α : Type} {c : Prop} [Decidable c] {e : ε} {x : Except ε α} {a : α}
    (h : (if c then .error e else x) = .ok a) : ¬ c ∧ x = .ok a := by
  by_cases hc : c
  · rw [if_pos hc] at h
    cases h
  · rw [if_neg hc] at h
    exact ⟨hc, h⟩

/-- What a package tells about itself. -/
theorem fromBytes_ok {sha256 : List UInt8 → List UInt8} {package : List UInt8}
    {a : Artifact} (h : Artifact.fromBytes sha256 package = .ok a) :
    (a.slot = ascii "A" ∨ a.slot = ascii "B") ∧ a.digest.length = 64 ∧
      a.digest.all isHex = true := by
  rw [Artifact.fromBytes] at h
  obtain ⟨hdomain, h⟩ := passed_check h
  obtain ⟨-, h⟩ := passed_check h
  obtain ⟨-, h⟩ := passed_check h
  obtain ⟨-, h⟩ := passed_check h
  obtain ⟨-, h⟩ := passed_check h
  obtain ⟨-, h⟩ := passed_check h
  cases h
  rw [not_or, Nat.not_lt] at hdomain
  refine ⟨?_, ?_, all_isHex_hexText _⟩
  · dsimp only
    split
    · exact .inl rfl
    · exact .inr rfl
  · rw [length_hexText, length_slice (by omega)]

def bodyValues (a : Artifact) (trialId : Nat) : ConfirmKey → List UInt8
  | .format => ascii "1"
  | .slot => a.slot
  | .hash => a.digest
  | .trialId => Text.decimal trialId

theorem confirmBody_grammar {sha256 : List UInt8 → List UInt8} {package : List UInt8}
    {a : Artifact} (h : Artifact.fromBytes sha256 package = .ok a) {trialId : Nat}
    (ht : trialId ≤ 0xffffffff) :
    ConfirmGrammar (bodyValues a trialId) (Workflow.confirmBody a trialId) := by
  obtain ⟨hslot, hlen, hhex⟩ := fromBytes_ok h
  have hdigits : (Text.decimal trialId).length ≤ 10 :=
    length_decimal_le (k := 9) (Nat.lt_of_le_of_lt ht (by decide))
  have hslotlen : a.slot.length = 1 := by
    rcases hslot with hs | hs <;> rw [hs] <;> decide
  have htext : Workflow.confirmBody a trialId = unlines (ConfirmKey.all.map fun k =>
      k.line (bodyValues a trialId k)) := by
    simp only [Workflow.confirmBody, ConfirmKey.all, List.map_cons, List.map_nil,
      unlines_cons, ConfirmKey.line, statusLine_eq, ConfirmKey.name, bodyValues,
      List.append_assoc]
    rfl
  refine ⟨?_, fun k => ?_, ConfirmKey.all, List.Perm.refl _, htext⟩
  · have h1 : (ascii "format=1\nslot=").length = 14 := by decide
    have h2 : (ascii "\nhash=").length = 6 := by decide
    have h3 : (ascii "\ntrial_id=").length = 10 := by decide
    have h4 : (ascii "\n").length = 1 := by decide
    simp only [Workflow.confirmBody, List.length_append, h1, h2, h3, h4, hslotlen, hlen,
      bootConfirmCapacity]
    omega
  · cases k with
    | format =>
        have hone : ascii "1" ≠ [] ∧ (ascii "1").all isDigit = true ∧
            number 10 (ascii "1") = 1 := by decide
        exact hone
    | slot => exact hslot
    | hash => exact ⟨hlen, hhex⟩
    | trialId =>
        refine ⟨decimal_ne_nil _, ?_, ?_⟩
        · rw [List.all_eq_true]
          exact fun b hb => isDigit_of_mem_decimal _ hb
        · show number 10 (Text.decimal trialId) ≤ _
          rw [number_decimal]
          exact ht

/-- A trial is classified for the selected artifact, with the id it showed. -/
theorem classify_trial {w w' : Workflow} {observed : StatusValues}
    (h : w.classify observed = (.ok .trial, w')) :
    observed.get "trial_id" ≠ ascii "none" ∧ w'.artifact = w.artifact ∧
      w'.trialId = some (intOf (observed.get "trial_id")) := by
  rw [Workflow.classify] at h
  split at h
  · cases h
  dsimp only at h
  split at h
  · cases h
  split at h
  · split at h <;> cases h
  split at h
  · cases h
  next hnone =>
  split at h
  · cases h
  split at h
  · cases h
  split at h
  · cases h
  split at h
  · cases h
  -- Healthy or not, the id is the one that was shown.
  injection h with _ hw
  exact ⟨hnone, by rw [← hw], by rw [← hw]⟩

/-- What is sent is the body for the artifact and the id of the trial. -/
theorem confirm_sends {w w' : Workflow} {strict : Bool}
    {validate : StatusValues → Option PyError} {tr : List (Event TransportSig)}
    {reply : Workflow.Reply Verdict}
    (h : Runs (w.confirm strict validate) tr (reply, w')) {e : Event TransportSig}
    (he : e ∈ tr) {name body : List UInt8} (hop : e.op = .stor name body) :
    ∃ a trialId, w.artifact = some a ∧ w'.trialId = some trialId ∧
      trialId ≤ 0xffffffff ∧ body = Workflow.confirmBody a trialId := by
  rw [Workflow.confirm] at h
  obtain ⟨tr₁, read, tr₂, rfl, hread, h⟩ := runs_bind_iff'.mp h
  obtain ⟨hnone, hseen⟩ := runs_read hread
  have hin : e ∈ tr₂ := (List.mem_append.mp he).resolve_left
    fun hm => hnone e hm name body hop
  have hsilent : ∀ {x : Workflow.Reply Verdict × Workflow} {y},
      Runs (pure x : Prog TransportSig _) tr₂ y → False := by
    intro x y hr
    obtain ⟨rfl, -⟩ := runs_pure_iff.mp hr
    cases hin
  cases read with
  | error er =>
      exfalso
      dsimp only at h
      split at h
      · exact hsilent h
      · next er' _ =>
          split at h
          · exact hsilent h
          · exact hsilent h
      · next hok => cases hok
  | ok observed =>
      dsimp only at h
      split at h
      · exact (hsilent h).elim
      split at h
      · exact (hsilent h).elim
      · exact (hsilent h).elim
      · next w₁ hclass =>
          obtain ⟨hid, hartifact, htrial⟩ := classify_trial hclass
          have hmax : intOf (observed.get "trial_id") ≤ 0xffffffff := by
            obtain ⟨seen, hstatus, -⟩ := hseen observed rfl
            have hvalid := status_valid hstatus .trialId (by decide)
            exact (hvalid.resolve_left hid).2.2
          split at h
          · next a trialId ha ht =>
              rw [hartifact] at ha
              rw [htrial] at ht
              cases ht
              obtain ⟨answer, rest, rfl, hk⟩ := runs_ask_iff.mp h
              have hret : rest = [] ∧ w'.trialId = w₁.trialId := by
                split at hk
                · split at hk
                  · obtain ⟨rfl, hw⟩ := runs_pure_iff.mp hk
                    injection hw with _ hw
                    exact ⟨rfl, by rw [hw]⟩
                  · obtain ⟨rfl, hw⟩ := runs_pure_iff.mp hk
                    injection hw with _ hw
                    exact ⟨rfl, by rw [hw]⟩
                · obtain ⟨rfl, hw⟩ := runs_pure_iff.mp hk
                  injection hw with _ hw
                  exact ⟨rfl, by rw [hw]⟩
                · obtain ⟨rfl, hw⟩ := runs_pure_iff.mp hk
                  injection hw with _ hw
                  exact ⟨rfl, by rw [hw]⟩
              rw [hret.1, List.mem_singleton] at hin
              rw [hin] at hop
              injection hop with _ hbody
              exact ⟨a, _, ha, hret.2.trans htrial, hmax, hbody.symm⟩
          · exact (hsilent h).elim
      · exact (hsilent h).elim

/-! ## The grammar -/

theorem accepted_iff (chunks : List (List UInt8)) (out : BootConfirmRequest) :
    (confirmOutcome chunks out).accepted = true ↔ ∃ c, ConfirmGrammar c chunks.flatten := by
  rw [confirmOutcome_eq]
  by_cases hfeed : Feedable chunks.flatten
  · rw [if_pos hfeed]
    dsimp only
    constructor
    · intro h
      obtain ⟨r, hr⟩ := Option.isSome_iff_exists.mp h
      exact finish_ok hfeed hr
    · rintro ⟨c, h⟩
      obtain ⟨r, hr, -⟩ := finish_some h
      rw [hr]
      rfl
  · rw [if_neg hfeed]
    exact ⟨nofun, fun ⟨c, h⟩ => absurd h.feedable hfeed⟩

theorem outcome_holds {chunks : List (List UInt8)} {c : ConfirmKey → List UInt8}
    (h : ConfirmGrammar c chunks.flatten) (out : BootConfirmRequest) (k : ConfirmKey) :
    k.Holds (confirmOutcome chunks out).out (c k) := by
  obtain ⟨r, hr, hholds⟩ := finish_some h
  rw [confirmOutcome_eq, if_pos h.feedable]
  dsimp only
  rw [hr]
  exact hholds k

theorem outcome_unchanged {chunks : List (List UInt8)} {out : BootConfirmRequest}
    (h : (confirmOutcome chunks out).accepted = false) :
    (confirmOutcome chunks out).out = out := by
  rw [confirmOutcome_eq] at h ⊢
  split
  · next hfeed =>
      rw [if_pos hfeed] at h
      rw [Option.isSome_eq_false_iff.mp h |> Option.isNone_iff_eq_none.mp]
      rfl
  · rfl

/-- Feeds and finish succeed on exactly the texts of the grammar, in whatever
pieces they come; the request then holds the values of the text, and is left
alone otherwise. The PC's own body is such a text, for the artifact and the id
it confirms. -/
theorem confirm_grammar :
    (∀ chunks out, (confirmOutcome chunks out).accepted = true ↔
      ∃ c, ConfirmGrammar c chunks.flatten) ∧
    (∀ chunks out c, ConfirmGrammar c chunks.flatten →
      ∀ k : ConfirmKey, k.Holds (confirmOutcome chunks out).out (c k)) ∧
    (∀ chunks chunks' out, chunks.flatten = chunks'.flatten →
      confirmOutcome chunks out = confirmOutcome chunks' out) ∧
    (∀ chunks out, (confirmOutcome chunks out).accepted = false →
      (confirmOutcome chunks out).out = out) ∧
    ∀ sha256 package a, Artifact.fromBytes sha256 package = .ok a →
      (∀ trialId chunks out, trialId ≤ 0xffffffff →
        chunks.flatten = Workflow.confirmBody a trialId →
        (confirmOutcome chunks out).accepted = true ∧
          slotName (confirmOutcome chunks out).out.slot = a.slot ∧
          hexText (confirmOutcome chunks out).out.payloadHash.val = a.digest ∧
          (confirmOutcome chunks out).out.trialId.toNat = trialId) ∧
      ∀ (w w' : Workflow) strict validate reply (sent : List (Event TransportSig)),
        w.artifact = some a → Runs (w.confirm strict validate) sent (reply, w') →
        ∀ e ∈ sent, ∀ name body, e.op = .stor name body →
          ∃ trialId, w'.trialId = some trialId ∧ trialId ≤ 0xffffffff ∧
            body = Workflow.confirmBody a trialId := by
  refine ⟨accepted_iff, fun chunks out c h k => outcome_holds h out k, ?_,
    fun chunks out h => outcome_unchanged h, fun sha256 package a ha => ⟨?_, ?_⟩⟩
  · intro chunks chunks' out h
    rw [confirmOutcome_eq, confirmOutcome_eq, h]
  · intro trialId chunks out ht hbody
    have h := confirmBody_grammar ha ht
    rw [← hbody] at h
    have hid := outcome_holds h out .trialId
    refine ⟨(accepted_iff chunks out).mpr ⟨_, h⟩, outcome_holds h out .slot,
      outcome_holds h out .hash, ?_⟩
    exact hid.trans (number_decimal trialId)
  · intro w w' strict validate reply sent hartifact hrun e he name body hop
    obtain ⟨a', trialId, ha', htrial, hmax, hbody⟩ := confirm_sends hrun he hop
    rw [hartifact] at ha'
    cases ha'
    exact ⟨trialId, htrial, hmax, hbody⟩

end EkBareMetal.Boot

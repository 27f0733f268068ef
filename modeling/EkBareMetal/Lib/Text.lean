import Mathlib.Tactic.Common
import Mathlib.Tactic.Ring

/-!
# Byte text

Numbers as the digits a formatter prints, and lines as a parser cuts them.
`decimal` and `hex` print, `number` reads in either base, and reading what was
printed gives the number back. A text of lines ends every line with a line
feed; cutting it there gives the lines back when none of them holds one.
-/

namespace Text

def ascii (s : String) : List UInt8 := s.toList.map fun c => UInt8.ofNat c.toNat

abbrev lineFeed : UInt8 := 0x0a

def isDigit (b : UInt8) : Bool := 0x30 ≤ b && b ≤ 0x39

/-- A digit or one of the letters `a` to `f`; a capital is none. -/
def isHex (b : UInt8) : Bool := isDigit b || (0x61 ≤ b && b ≤ 0x66)

/-- The value of a digit of either base. -/
def digitValue (b : UInt8) : Nat := if isDigit b then b.toNat - 0x30 else b.toNat - 0x57

def digitChar (n : Nat) : UInt8 := UInt8.ofNat (if n < 10 then 0x30 + n else 0x57 + n)

/-- The number a string of digits spells, leading zeros or not. -/
def number (base : Nat) (s : List UInt8) : Nat :=
  s.foldl (fun n b => base * n + digitValue b) 0

/-- The decimal digits of `n`, most significant first. -/
def decimal (n : Nat) : List UInt8 :=
  if n < 10 then [digitChar n] else decimal (n / 10) ++ [digitChar (n % 10)]
termination_by n

/-- The last `width` hexadecimal digits of `n`. -/
def hex : Nat → Nat → List UInt8
  | 0, _ => []
  | width + 1, n => hex width (n / 16) ++ [digitChar (n % 16)]

/-! ## Digits -/

section Digits

variable {n base : Nat}

theorem digitChar_cases (h : n < 16) :
    isHex (digitChar n) = true ∧ digitValue (digitChar n) = n := by
  have hall : ∀ i : Fin 16, isHex (digitChar i) = true ∧
      digitValue (digitChar i) = i := by decide
  exact hall ⟨n, h⟩

theorem isDigit_digitChar (h : n < 10) : isDigit (digitChar n) = true := by
  have hall : ∀ i : Fin 10, isDigit (digitChar i) = true := by decide
  exact hall ⟨n, h⟩

theorem digitValue_digitChar (h : n < 16) : digitValue (digitChar n) = n :=
  (digitChar_cases h).2

@[simp] theorem number_nil : number base [] = 0 := rfl

@[simp] theorem number_concat (s : List UInt8) (b : UInt8) :
    number base (s ++ [b]) = base * number base s + digitValue b := by
  rw [number, List.foldl_append]
  rfl

theorem decimal_eq (n : Nat) :
    decimal n = (if n < 10 then [] else decimal (n / 10)) ++ [digitChar (n % 10)] := by
  rw [decimal]
  split
  · next h => rw [Nat.mod_eq_of_lt h, List.nil_append]
  · rfl

theorem decimal_ne_nil (n : Nat) : decimal n ≠ [] := by
  rw [decimal_eq]
  simp

theorem isDigit_of_mem_decimal {b : UInt8} (n : Nat) :
    b ∈ decimal n → isDigit b = true := by
  induction n using Nat.strong_induction_on with
  | _ n ih =>
      intro h
      rw [decimal_eq, List.mem_append, List.mem_singleton] at h
      rcases h with h | rfl
      · split at h
        · cases h
        · next hn => exact ih (n / 10) (by omega) h
      · exact isDigit_digitChar (Nat.mod_lt _ (by decide))

/-- Reading a printed number gives it back. -/
theorem number_decimal (n : Nat) : number 10 (decimal n) = n := by
  induction n using Nat.strong_induction_on with
  | _ n ih =>
      have hlast : digitValue (digitChar (n % 10)) = n % 10 :=
        digitValue_digitChar (by omega)
      rw [decimal_eq, number_concat, hlast]
      split
      · rw [number_nil]
        omega
      · rw [ih (n / 10) (by omega)]
        omega

theorem length_decimal_le {k : Nat} (hn : n < 10 ^ (k + 1)) :
    (decimal n).length ≤ k + 1 := by
  induction k generalizing n with
  | zero =>
      rw [decimal_eq, if_pos (by simpa using hn)]
      simp
  | succ k ih =>
      rw [decimal_eq, List.length_append, List.length_singleton]
      split
      · simp
      · have hk : n / 10 < 10 ^ (k + 1) := by
          rw [Nat.pow_succ] at hn
          omega
        have := ih hk
        omega

@[simp] theorem length_hex (width n : Nat) : (hex width n).length = width := by
  induction width generalizing n with
  | zero => rfl
  | succ width ih => rw [hex, List.length_append, ih, List.length_singleton]

theorem isHex_of_mem_hex {b : UInt8} (width n : Nat) :
    b ∈ hex width n → isHex b = true := by
  induction width generalizing n with
  | zero => intro h; cases h
  | succ width ih =>
      intro h
      rw [hex, List.mem_append, List.mem_singleton] at h
      rcases h with h | rfl
      · exact ih (n / 16) h
      · exact (digitChar_cases (Nat.mod_lt _ (by decide))).1

theorem number_hex (width : Nat) (hn : n < 16 ^ width) :
    number 16 (hex width n) = n := by
  induction width generalizing n with
  | zero =>
      rw [hex, number_nil]
      simp only [Nat.pow_zero] at hn
      omega
  | succ width ih =>
      rw [Nat.pow_succ] at hn
      have hlast : digitValue (digitChar (n % 16)) = n % 16 :=
        digitValue_digitChar (by omega)
      rw [hex, number_concat, hlast, ih (by omega)]
      omega

end Digits

/-! ## Plain characters -/

/-- Neither a line feed nor an equals sign, and seven bits. -/
def plain (b : UInt8) : Bool := 0x20 ≤ b && b < 0x7f && b != 0x3d

set_option maxRecDepth 20000 in
theorem plain_of_isHex {b : UInt8} (h : isHex b = true) : plain b = true := by
  have hall : ∀ n : Fin 256, isHex (UInt8.ofNat n) = true →
      plain (UInt8.ofNat n) = true := by decide
  have hb := hall ⟨b.toNat, b.toNat_lt⟩
  rw [UInt8.ofNat_toNat] at hb
  exact hb h

theorem isHex_of_isDigit {b : UInt8} (h : isDigit b = true) : isHex b = true := by
  rw [isHex, h, Bool.true_or]

/-! ## Lines -/

/-- Every line with its line feed. -/
def unlines (lines : List (List UInt8)) : List UInt8 := lines.flatMap (· ++ [lineFeed])

@[simp] theorem unlines_cons (l : List UInt8) (ls : List (List UInt8)) :
    unlines (l :: ls) = l ++ lineFeed :: unlines ls := by
  simp [unlines]

theorem getLast?_unlines {lines : List (List UInt8)} (h : lines ≠ []) :
    (unlines lines).getLast? = some lineFeed := by
  obtain ⟨front, last, rfl⟩ := List.eq_nil_or_concat lines |>.resolve_left h
  rw [List.concat_eq_append, unlines, List.flatMap_append, List.flatMap_singleton,
    ← List.append_assoc]
  exact List.getLast?_concat

/-- The text without its last line feed. -/
theorem dropLast_unlines (lines : List (List UInt8)) (l : List UInt8) :
    (unlines (lines ++ [l])).dropLast = unlines lines ++ l := by
  rw [unlines, List.flatMap_append, List.flatMap_singleton, ← List.append_assoc,
    List.dropLast_concat]
  rfl

theorem splitOn_unlines_append {lines : List (List UInt8)} {l : List UInt8}
    (h : ∀ l' ∈ lines ++ [l], lineFeed ∉ l') :
    (unlines lines ++ l).splitOn lineFeed = lines ++ [l] := by
  induction lines with
  | nil => exact List.splitOn_eq_singleton (h l (by simp))
  | cons l' ls ih =>
      rw [unlines_cons, List.append_assoc, List.cons_append,
        List.splitOn_append_cons_self_of_not_mem (h l' (by simp)),
        ih fun m hm => h m (List.mem_cons_of_mem _ hm)]
      rfl

end Text

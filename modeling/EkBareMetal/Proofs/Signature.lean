import EkBareMetal.Tools.Package
import Mathlib.Data.Nat.Size

/-!
# A signature has one encoding

What `der_to_raw` accepts is compared with the encoding itself, written from the
top: a number takes as many bytes as its bits and a sign need, and a value stands
behind its tag and its length. One turn of the loop accepts a byte string exactly
when it begins with the encoding of a number in range, so the whole is accepted
exactly when it is the encoding of two.
-/

namespace EkBareMetal.Tools

open Words Text

/-! ## The encoding -/

/-- The bytes of a number and a sign bit in front of it. -/
def derWidth (n : Nat) : Nat := n.size / 8 + 1

/-- A length in the short form below 128, and from there on behind the count of its bytes. -/
def derLength (n : Nat) : List UInt8 :=
  if n < 128 then [UInt8.ofNat n]
  else UInt8.ofNat (0x80 + (n.size + 7) / 8) :: toBigEndian ((n.size + 7) / 8) n

def derValue (tag : UInt8) (content : List UInt8) : List UInt8 :=
  tag :: (derLength content.length ++ content)

def derNumber (n : Nat) : List UInt8 := derValue 0x02 (toBigEndian (derWidth n) n)

/-- `SEQUENCE { r INTEGER, s INTEGER }` -/
def derSignature (r s : Nat) : List UInt8 := derValue 0x30 (derNumber r ++ derNumber s)

/-! ## Big-endian numbers -/

section BigEndian

variable {b : UInt8} {bs : List UInt8} {w v : Nat}

theorem foldl_bigEndian (bs : List UInt8) (n : Nat) : bs.foldl (fun n b => n * 256 + b.toNat) n =
    n * 256 ^ bs.length + fromBigEndian bs := by
  unfold fromBigEndian
  induction bs generalizing n with
  | nil => simp
  | cons b bs ih =>
      rw [List.foldl_cons, ih, List.foldl_cons, ih (0 * 256 + b.toNat), List.length_cons,
        Nat.pow_succ]
      ring

theorem fromBigEndian_cons :
    fromBigEndian (b :: bs) = b.toNat * 256 ^ bs.length + fromBigEndian bs := by
  have h := foldl_bigEndian bs b.toNat
  rw [← h]
  simp [fromBigEndian]

theorem fromBigEndian_lt (bs : List UInt8) : fromBigEndian bs < 256 ^ bs.length := by
  induction bs with
  | nil => simp [fromBigEndian]
  | cons b bs ih =>
      have hb := b.toNat_lt
      have hmul : b.toNat * 256 ^ bs.length ≤ 255 * 256 ^ bs.length :=
        Nat.mul_le_mul_right _ (by omega)
      rw [fromBigEndian_cons, List.length_cons, Nat.pow_succ]
      omega

theorem toBigEndian_succ (w v : Nat) :
    toBigEndian (w + 1) v = toBigEndian w (v / 256) ++ [UInt8.ofNat v] := rfl

/-- The most significant byte first. -/
theorem toBigEndian_cons (w v : Nat) :
    toBigEndian (w + 1) v = UInt8.ofNat (v / 256 ^ w) :: toBigEndian w v := by
  induction w generalizing v with
  | zero => simp [toBigEndian]
  | succ w ih =>
      rw [toBigEndian_succ, ih, List.cons_append, ← toBigEndian_succ, Nat.div_div_eq_div_mul,
        ← Nat.pow_succ']

/-- Only as many low bytes count as there is room for. -/
theorem toBigEndian_add (w v k : Nat) : toBigEndian w (k * 256 ^ w + v) = toBigEndian w v := by
  induction w generalizing v with
  | zero => rfl
  | succ w ih =>
      have hdiv : (k * 256 ^ (w + 1) + v) / 256 = k * 256 ^ w + v / 256 := by
        rw [Nat.pow_succ, ← Nat.mul_assoc, Nat.mul_comm _ 256, Nat.mul_add_div (by decide)]
      have hlow : UInt8.ofNat (k * 256 ^ (w + 1) + v) = UInt8.ofNat v := by
        rw [← UInt8.toNat_inj, UInt8.toNat_ofNat', UInt8.toNat_ofNat', Nat.pow_succ,
          ← Nat.mul_assoc]
        omega
      rw [toBigEndian_succ, hdiv, ih, hlow, ← toBigEndian_succ]

theorem toBigEndian_fromBigEndian : toBigEndian bs.length (fromBigEndian bs) = bs := by
  induction bs with
  | nil => rfl
  | cons b bs ih =>
      have hlt := fromBigEndian_lt bs
      rw [List.length_cons, toBigEndian_cons, fromBigEndian_cons, toBigEndian_add, ih,
        Nat.mul_comm, Nat.mul_add_div (Nat.pow_pos (by decide)), Nat.div_eq_of_lt hlt, Nat.add_zero,
        UInt8.ofNat_toNat]

theorem fromBigEndian_toBigEndian (h : v < 256 ^ w) : fromBigEndian (toBigEndian w v) = v := by
  induction w generalizing v with
  | zero =>
      rw [Nat.pow_zero] at h
      obtain rfl : v = 0 := by omega
      rfl
  | succ w ih =>
      have hdiv : v / 256 < 256 ^ w := by
        rw [Nat.div_lt_iff_lt_mul (by decide), ← Nat.pow_succ]
        exact h
      have hfold : fromBigEndian (toBigEndian w (v / 256) ++ [UInt8.ofNat v]) =
          fromBigEndian (toBigEndian w (v / 256)) * 256 + (UInt8.ofNat v).toNat := by
        simp [fromBigEndian]
      rw [toBigEndian_succ, hfold, ih hdiv, UInt8.toNat_ofNat']
      omega

end BigEndian

/-! ## The width of a number -/

section Width

variable {v w : Nat}

/-- The width is the one that leaves room for the sign and for no byte more. -/
theorem derWidth_eq (hw : 1 ≤ w) (hhi : v < 2 ^ (8 * w - 1))
    (hlo : w = 1 ∨ 2 ^ (8 * w - 9) ≤ v) : derWidth v = w := by
  have hsize : v.size ≤ 8 * w - 1 := Nat.size_le.mpr hhi
  unfold derWidth
  obtain rfl | hlo := hlo
  · omega
  · have hlt : 8 * w - 9 < v.size := Nat.lt_size.mpr hlo
    omega

theorem lt_derWidth (v : Nat) : v < 2 ^ (8 * derWidth v - 1) := by
  have hsize : v.size ≤ 8 * derWidth v - 1 := by
    unfold derWidth
    omega
  exact Nat.size_le.mp hsize

theorem derWidth_le (v : Nat) : derWidth v = 1 ∨ 2 ^ (8 * derWidth v - 9) ≤ v := by
  by_cases h : v.size < 8
  · left
    unfold derWidth
    omega
  · right
    refine Nat.lt_size.mp ?_
    unfold derWidth
    omega

theorem derWidth_bound (h : v < ORDER) : derWidth v ≤ 33 := by
  have hlt : v < 2 ^ 256 := Nat.lt_trans h (by decide)
  have hsize : v.size ≤ 256 := Nat.size_le.mpr hlt
  unfold derWidth
  omega

theorem lt_pow_derWidth (v : Nat) : v < 256 ^ derWidth v := by
  have hlt := lt_derWidth v
  have hle : 2 ^ (8 * derWidth v - 1) ≤ 2 ^ (8 * derWidth v) :=
    Nat.pow_le_pow_right (by decide) (by omega)
  rw [show 256 ^ derWidth v = 2 ^ (8 * derWidth v) by rw [Nat.pow_mul]]
  omega

set_option maxRecDepth 20000 in
/-- The sign bit of a byte. -/
theorem sign_clear (b : UInt8) : b &&& 0x80 = 0 ↔ b.toNat < 128 := by
  have hall : ∀ n : Fin 256, UInt8.ofNat n &&& 0x80 = 0 ↔ n.val < 128 := by
    decide
  have h := hall ⟨b.toNat, b.toNat_lt⟩
  rwa [UInt8.ofNat_toNat] at h

/-- Bytes with a clear sign bit and no byte to spare are as many as their number needs. -/
theorem derWidth_bytes {first : UInt8} {bs : List UInt8} (hsign : first.toNat < 128)
    (hmin : bs.length = 0 ∨ first ≠ 0 ∨ 128 ≤ (bs.getD 0 0).toNat) :
    derWidth (fromBigEndian (first :: bs)) = bs.length + 1 := by
  have hlt := fromBigEndian_lt bs
  have hpow : 256 ^ bs.length = 2 ^ (8 * bs.length) := by rw [Nat.pow_mul]
  rw [hpow] at hlt
  rw [fromBigEndian_cons, hpow]
  refine derWidth_eq (Nat.le_add_left _ _) ?_ ?_
  · have hmul : first.toNat * 2 ^ (8 * bs.length) ≤ 127 * 2 ^ (8 * bs.length) :=
      Nat.mul_le_mul_right _ (by omega)
    have hsplit : 2 ^ (8 * (bs.length + 1) - 1) = 128 * 2 ^ (8 * bs.length) := by
      rw [show 8 * (bs.length + 1) - 1 = 7 + 8 * bs.length by omega, Nat.pow_add]
    omega
  · obtain hnil | hfirst | hsecond := hmin
    · exact .inl (by omega)
    · right
      have hpos : 1 ≤ first.toNat := Nat.pos_of_ne_zero fun h => hfirst (UInt8.toNat_inj.mp h)
      have hmul : 1 * 2 ^ (8 * bs.length) ≤ first.toNat * 2 ^ (8 * bs.length) :=
        Nat.mul_le_mul_right _ hpos
      have hle : 2 ^ (8 * (bs.length + 1) - 9) ≤ 2 ^ (8 * bs.length) :=
        Nat.pow_le_pow_right (by decide) (by omega)
      omega
    · right
      cases bs with
      | nil => exact absurd hsecond (by decide)
      | cons second bs =>
          have hsecond' : 128 ≤ second.toNat := hsecond
          have hmul : 128 * 256 ^ bs.length ≤ second.toNat * 256 ^ bs.length :=
            Nat.mul_le_mul_right _ hsecond'
          have hsplit : 2 ^ (8 * ((second :: bs).length + 1) - 9) = 128 * 256 ^ bs.length := by
            rw [List.length_cons, show 8 * (bs.length + 1 + 1) - 9 = 7 + 8 * bs.length by omega,
              Nat.pow_add, Nat.pow_mul]
          rw [hsplit, fromBigEndian_cons]
          omega

/-- The bytes of a number in its width have no byte to spare. -/
theorem minimal_derWidth {first : UInt8} {bs : List UInt8}
    (h : toBigEndian (derWidth v) v = first :: bs) :
    first.toNat < 128 ∧ (derWidth v = 1 ∨ first ≠ 0 ∨ 128 ≤ (bs.getD 0 0).toNat) := by
  have hvalue := fromBigEndian_toBigEndian (lt_pow_derWidth v)
  have hlen := congrArg List.length h
  rw [length_toBigEndian, List.length_cons] at hlen
  have hhi := lt_derWidth v
  have hlo := derWidth_le v
  rw [h, fromBigEndian_cons] at hvalue
  rw [hlen] at hhi hlo ⊢
  constructor
  · by_contra hsign
    have hmul : 128 * 256 ^ bs.length ≤ first.toNat * 256 ^ bs.length :=
      Nat.mul_le_mul_right _ (Nat.not_lt.mp hsign)
    rw [show 8 * (bs.length + 1) - 1 = 7 + 8 * bs.length by omega, Nat.pow_add, Nat.pow_mul,
      show 2 ^ 8 = 256 from rfl] at hhi
    omega
  · by_contra hspare
    obtain ⟨hone, hfirst, hsecond⟩ : bs.length + 1 ≠ 1 ∧ first = 0 ∧ (bs.getD 0 0).toNat < 128 := by
      simpa only [not_or, Decidable.not_not, Nat.not_le] using hspare
    cases bs with
    | nil => exact hone rfl
    | cons second bs =>
        have hlt := fromBigEndian_lt bs
        have hsecond' : second.toNat < 128 := hsecond
        have hmul : second.toNat * 256 ^ bs.length ≤ 127 * 256 ^ bs.length :=
          Nat.mul_le_mul_right _ (by omega)
        have hle := hlo.resolve_left hone
        rw [List.length_cons, show 8 * (bs.length + 1 + 1) - 9 = 7 + 8 * bs.length by omega,
          Nat.pow_add, Nat.pow_mul, show 2 ^ 8 = 256 from rfl] at hle
        rw [hfirst, show (0 : UInt8).toNat = 0 from rfl, Nat.zero_mul, Nat.zero_add,
          fromBigEndian_cons] at hvalue
        omega

end Width

/-! ## One integer -/

section Integer

variable {pre rest : List UInt8} {v pos : Nat}

theorem derNumber_eq (h : v < ORDER) :
    derNumber v = 0x02 :: UInt8.ofNat (derWidth v) :: toBigEndian (derWidth v) v := by
  have hwidth := derWidth_bound h
  unfold derNumber derValue derLength
  rw [length_toBigEndian, if_pos (by omega)]
  rfl

theorem length_derNumber (h : v < ORDER) : (derNumber v).length = 2 + derWidth v := by
  rw [derNumber_eq h, List.length_cons, List.length_cons, length_toBigEndian]
  omega

/-- The checks of one turn, of a tag, a size and what is behind them. -/
theorem derInteger_cons (tag size : UInt8) (body : List UInt8) :
    derInteger (pre ++ tag :: size :: body) pre.length =
      if tag ≠ 2 then packageError "invalid DER integer tag"
      else if ¬ (1 ≤ size.toNat ∧ size.toNat ≤ 33 ∧ (body.take size.toNat).length = size.toNat ∧
          (body.take size.toNat).getD 0 0 &&& 0x80 = 0) then
        packageError "invalid DER integer length/sign"
      else if ¬ (size.toNat = 1 ∨ (body.take size.toNat).getD 0 0 ≠ 0 ∨
          (body.take size.toNat).getD 1 0 &&& 0x80 ≠ 0) then
        packageError "nonminimal DER integer"
      else if ¬ (1 ≤ fromBigEndian (body.take size.toNat) ∧
          fromBigEndian (body.take size.toNat) < ORDER) then
        packageError "signature scalar outside P-256 range"
      else .ok (fromBigEndian (body.take size.toNat), pre.length + 2 + size.toNat) := by
  have htag : (pre ++ tag :: size :: body).getD pre.length 0 = tag := by simp
  have hsize : (pre ++ tag :: size :: body).getD (pre.length + 1) 0 = size := by simp
  have hslice : slice (pre ++ tag :: size :: body) (pre.length + 2) size.toNat =
      body.take size.toNat := by
    rw [slice_append_right (by omega), Nat.add_sub_cancel_left]
    rfl
  have hlen : pre.length + 2 ≤ (pre ++ tag :: size :: body).length := by simp
  unfold derInteger
  dsimp only
  rw [htag, hsize, hslice]
  simp only [hlen, true_and]

theorem derInteger_short (h : rest.length < 2) :
    derInteger (pre ++ rest) pre.length = packageError "invalid DER integer tag" := by
  unfold derInteger
  rw [if_pos]
  rw [List.length_append]
  omega

/-- A turn accepts exactly the encoding of a number in range. -/
theorem derInteger_ok_iff : derInteger (pre ++ rest) pre.length = .ok (v, pos) ↔
    1 ≤ v ∧ v < ORDER ∧ ∃ rest', rest = derNumber v ++ rest' ∧
      pos = pre.length + (derNumber v).length := by
  constructor
  · intro h
    match rest with
    | [] => rw [derInteger_short (by decide)] at h; cases h
    | [tag] => rw [derInteger_short (by simp)] at h; cases h
    | tag :: size :: body =>
        rw [derInteger_cons] at h
        split at h
        · cases h
        next htag =>
        split at h
        · cases h
        next hlength =>
        split at h
        · cases h
        next hminimal =>
        split at h
        · cases h
        next hrange =>
        rw [Decidable.not_not] at htag hlength hminimal hrange
        obtain ⟨hpos, -, hlen, hsign⟩ := hlength
        generalize hencoded : body.take size.toNat = encoded at h hlen hsign hminimal hrange
        obtain ⟨rfl, rfl⟩ := Prod.mk.inj (Except.ok.inj h)
        cases encoded with
        | nil =>
            rw [List.length_nil] at hlen
            omega
        | cons first bs =>
            have hlen' : bs.length + 1 = size.toNat := hlen
            rw [List.getD_cons_zero, sign_clear] at hsign
            have hwidth : derWidth (fromBigEndian (first :: bs)) = bs.length + 1 := by
              refine derWidth_bytes hsign ?_
              obtain hone | hfirst | hsecond := hminimal
              · exact .inl (by omega)
              · exact .inr (.inl hfirst)
              · rw [List.getD_cons_succ] at hsecond
                rw [ne_eq, sign_clear] at hsecond
                exact .inr (.inr (Nat.not_lt.mp hsecond))
            refine ⟨hrange.1, hrange.2, body.drop size.toNat, ?_, ?_⟩
            · rw [derNumber_eq hrange.2, hwidth, hlen', UInt8.ofNat_toNat, ← hlen',
                show bs.length + 1 = (first :: bs).length from rfl, toBigEndian_fromBigEndian,
                ← hencoded, htag, List.cons_append, List.cons_append, hencoded,
                show (first :: bs).length = size.toNat from hlen', ← hencoded,
                List.take_append_drop]
            · rw [length_derNumber hrange.2, hwidth, hlen']
              omega
  · rintro ⟨hpos, hlt, rest', rfl, rfl⟩
    have hwidth := derWidth_bound hlt
    have hsize : (UInt8.ofNat (derWidth v)).toNat = derWidth v := by
      rw [UInt8.toNat_ofNat']
      omega
    have htake : (toBigEndian (derWidth v) v ++ rest').take (derWidth v) =
        toBigEndian (derWidth v) v := List.take_left' (length_toBigEndian _ _)
    rw [length_derNumber hlt, derNumber_eq hlt, List.cons_append, List.cons_append,
      derInteger_cons, hsize, htake, fromBigEndian_toBigEndian (lt_pow_derWidth v)]
    have hlen : (toBigEndian (derWidth v) v).length = derWidth v := length_toBigEndian _ _
    have hone : 1 ≤ derWidth v := Nat.le_add_left _ _
    cases hbytes : toBigEndian (derWidth v) v with
    | nil =>
        rw [hbytes, List.length_nil] at hlen
        omega
    | cons first bs =>
        obtain ⟨hsign, hminimal⟩ := minimal_derWidth hbytes
        rw [hbytes] at hlen
        have hminimal' : derWidth v = 1 ∨ first ≠ 0 ∨ (bs.getD 0 0) &&& 0x80 ≠ 0 := by
          rw [ne_eq (bs.getD 0 0 &&& 0x80), sign_clear, Nat.not_lt]
          exact hminimal
        rw [if_neg (by simp), List.getD_cons_zero, List.getD_cons_succ,
          if_neg (not_not_intro ⟨hone, hwidth, hlen, (sign_clear first).mpr hsign⟩),
          if_neg (not_not_intro hminimal'), if_neg (not_not_intro ⟨hpos, hlt⟩), Nat.add_assoc]

end Integer

/-! ## The signature -/

section Signature

variable {d : List UInt8} {r s : Nat}

/-- What a refusal raises. -/
def Refuses {α : Type} (x : Except PyError α) : Prop := ∃ message, x = packageError message

theorem derInteger_cases (der : List UInt8) (pos : Nat) :
    (∃ x, derInteger der pos = .ok x) ∨ Refuses (derInteger der pos) := by
  unfold derInteger
  dsimp only
  split
  · exact .inr ⟨_, rfl⟩
  split
  · exact .inr ⟨_, rfl⟩
  split
  · exact .inr ⟨_, rfl⟩
  split
  · exact .inr ⟨_, rfl⟩
  · exact .inl ⟨_, rfl⟩

theorem derToRaw_cases (d : List UInt8) :
    (∃ raw, derToRaw d = .ok raw) ∨ Refuses (derToRaw d) := by
  unfold derToRaw
  split
  · exact .inr ⟨_, rfl⟩
  obtain ⟨⟨r, pos⟩, hr⟩ | ⟨message, hr⟩ := derInteger_cases d 2
  · rw [hr]
    dsimp only
    obtain ⟨⟨s, pos'⟩, hs⟩ | ⟨message, hs⟩ := derInteger_cases d pos
    · rw [hs]
      dsimp only
      split
      · exact .inr ⟨_, rfl⟩
      · exact .inl ⟨_, rfl⟩
    · rw [hs]
      exact .inr ⟨message, rfl⟩
  · rw [hr]
    exact .inr ⟨message, rfl⟩

theorem length_numbers (hr : r < ORDER) (hs : s < ORDER) :
    (derNumber r ++ derNumber s).length = 4 + derWidth r + derWidth s := by
  rw [List.length_append, length_derNumber hr, length_derNumber hs]
  omega

theorem derSignature_eq (hr : r < ORDER) (hs : s < ORDER) :
    derSignature r s =
      [0x30, UInt8.ofNat (4 + derWidth r + derWidth s)] ++ (derNumber r ++ derNumber s) := by
  have hwr := derWidth_bound hr
  have hws := derWidth_bound hs
  unfold derSignature derValue derLength
  rw [length_numbers hr hs, if_pos (by omega)]
  rfl

/-- The two scalars, each in 32 bytes. -/
def rawSignature (r s : Nat) : List UInt8 := toBigEndian 32 r ++ toBigEndian 32 s

theorem derToRaw_ok_iff {raw : Bytes 64} : derToRaw d = .ok raw ↔
    ∃ r s, (1 ≤ r ∧ r < ORDER) ∧ (1 ≤ s ∧ s < ORDER) ∧ d = derSignature r s ∧
      raw.val = rawSignature r s := by
  constructor
  · intro h
    unfold derToRaw at h
    split at h
    · cases h
    next hhead =>
    rw [Decidable.not_not] at hhead
    obtain ⟨hlo, hhi, htag, hsize⟩ := hhead
    match d with
    | [] => exact absurd hlo (by simp)
    | [_] => exact absurd hlo (by simp)
    | tag :: size :: body =>
        have hfirst : derInteger (tag :: size :: body) 2 =
            derInteger ([tag, size] ++ body) [tag, size].length := rfl
        split at h
        · cases h
        next r pos hr =>
        split at h
        · cases h
        next s pos' hs =>
        split at h
        · cases h
        next hend =>
        rw [Decidable.not_not] at hend
        rw [hfirst] at hr
        obtain ⟨hr1, hr2, rest, rfl, rfl⟩ := derInteger_ok_iff.mp hr
        have hsecond : derInteger (tag :: size :: (derNumber r ++ rest))
            ([tag, size].length + (derNumber r).length) =
            derInteger (([tag, size] ++ derNumber r) ++ rest)
              ([tag, size] ++ derNumber r).length := by
          rw [List.append_assoc, List.length_append]
          rfl
        rw [hsecond] at hs
        obtain ⟨hs1, hs2, rest', rfl, rfl⟩ := derInteger_ok_iff.mp hs
        have hlen := length_numbers hr2 hs2
        have hwr := derWidth_bound hr2
        have hws := derWidth_bound hs2
        simp only [List.length_append, List.length_cons, List.length_nil] at hend hsize hlo hhi hlen
        obtain rfl : rest' = [] := List.eq_nil_of_length_eq_zero (by omega)
        have hbyte : size = UInt8.ofNat (4 + derWidth r + derWidth s) := by
          rw [← UInt8.toNat_inj, UInt8.toNat_ofNat']
          have hsize' : size.toNat = _ := hsize
          simp only [List.length_nil] at hsize'
          omega
        refine ⟨r, s, ⟨hr1, hr2⟩, ⟨hs1, hs2⟩, ?_, ?_⟩
        · rw [derSignature_eq hr2 hs2, List.append_nil, ← hbyte,
            show tag = 0x30 from htag]
          rfl
        · rw [← Except.ok.inj h]
          rfl
  · rintro ⟨r, s, ⟨hr1, hr2⟩, ⟨hs1, hs2⟩, rfl, hraw⟩
    have hlen := length_numbers hr2 hs2
    have hwr := derWidth_bound hr2
    have hws := derWidth_bound hs2
    have hwr1 : 1 ≤ derWidth r := Nat.le_add_left _ _
    have hws1 : 1 ≤ derWidth s := Nat.le_add_left _ _
    have hfirst : derInteger ([0x30, UInt8.ofNat (4 + derWidth r + derWidth s)] ++
        (derNumber r ++ derNumber s)) 2 = .ok (r, 2 + (derNumber r).length) :=
      derInteger_ok_iff.mpr ⟨hr1, hr2, derNumber s, rfl, rfl⟩
    have hsecond : derInteger (([0x30, UInt8.ofNat (4 + derWidth r + derWidth s)] ++
        derNumber r) ++ derNumber s)
        ([0x30, UInt8.ofNat (4 + derWidth r + derWidth s)] ++ derNumber r).length =
        .ok (s, ([0x30, UInt8.ofNat (4 + derWidth r + derWidth s)] ++ derNumber r).length +
          (derNumber s).length) :=
      derInteger_ok_iff.mpr ⟨hs1, hs2, [], (List.append_nil _).symm, rfl⟩
    have hpos : ([0x30, UInt8.ofNat (4 + derWidth r + derWidth s)] ++ derNumber r).length =
        2 + (derNumber r).length := by
      rw [List.length_append]
      rfl
    have hwhole : ([0x30, UInt8.ofNat (4 + derWidth r + derWidth s)] ++
        (derNumber r ++ derNumber s)).length = 6 + derWidth r + derWidth s := by
      rw [List.length_append, hlen]
      simp only [List.length_cons, List.length_nil]
      omega
    have hbyte : (UInt8.ofNat (4 + derWidth r + derWidth s)).toNat =
        4 + derWidth r + derWidth s := by
      rw [UInt8.toNat_ofNat']
      omega
    have hhead : 8 ≤ 6 + derWidth r + derWidth s ∧ 6 + derWidth r + derWidth s ≤ 72 ∧
        ([0x30, UInt8.ofNat (4 + derWidth r + derWidth s)] ++
          (derNumber r ++ derNumber s)).getD 0 0 = 0x30 ∧
        (([0x30, UInt8.ofNat (4 + derWidth r + derWidth s)] ++
          (derNumber r ++ derNumber s)).getD 1 0).toNat = 6 + derWidth r + derWidth s - 2 := by
      refine ⟨by omega, by omega, rfl, ?_⟩
      show (UInt8.ofNat (4 + derWidth r + derWidth s)).toNat = _
      omega
    rw [hpos, List.append_assoc] at hsecond
    unfold derToRaw
    rw [derSignature_eq hr2 hs2, hwhole, if_neg (not_not_intro hhead), hfirst]
    dsimp only
    rw [hsecond]
    dsimp only
    have hend : 2 + (derNumber r).length + (derNumber s).length =
        6 + derWidth r + derWidth s := by
      rw [length_derNumber hr2, length_derNumber hs2]
      omega
    rw [if_neg (not_not_intro hend)]
    exact congrArg Except.ok (Subtype.ext hraw.symm)

/-- The bytes give the scalars back. -/
theorem rawSignature_inj {r' s' : Nat} (hr : r < ORDER) (hs : s < ORDER) (hr' : r' < ORDER)
    (hs' : s' < ORDER) (h : rawSignature r s = rawSignature r' s') : r = r' ∧ s = s' := by
  have hfits : ∀ {v}, v < ORDER → v < 256 ^ 32 := fun hv => Nat.lt_trans hv (by decide)
  have hlen : (toBigEndian 32 r).length = (toBigEndian 32 r').length := by
    rw [length_toBigEndian, length_toBigEndian]
  obtain ⟨h₁, h₂⟩ := List.append_inj h hlen
  constructor
  · rw [← fromBigEndian_toBigEndian (hfits hr), h₁, fromBigEndian_toBigEndian (hfits hr')]
  · rw [← fromBigEndian_toBigEndian (hfits hs), h₂, fromBigEndian_toBigEndian (hfits hs')]

/-- The conversion succeeds exactly on the encoding of two scalars in range and returns
their bytes; it is injective; and what it does not convert raises `PackageError`. -/
theorem der_to_raw_exact (d : List UInt8) :
    (∀ raw : Bytes 64, derToRaw d = .ok raw ↔
      ∃ r s, (1 ≤ r ∧ r < ORDER) ∧ (1 ≤ s ∧ s < ORDER) ∧ d = derSignature r s ∧
        raw.val = rawSignature r s) ∧
    (∀ raw d', derToRaw d = .ok raw → derToRaw d' = .ok raw → d = d') ∧
    ((∃ raw, derToRaw d = .ok raw) ∨ Refuses (derToRaw d)) := by
  refine ⟨fun raw => derToRaw_ok_iff, fun raw d' h h' => ?_, derToRaw_cases d⟩
  obtain ⟨r, s, ⟨-, hr⟩, ⟨-, hs⟩, rfl, hraw⟩ := derToRaw_ok_iff.mp h
  obtain ⟨r', s', ⟨-, hr'⟩, ⟨-, hs'⟩, rfl, hraw'⟩ := derToRaw_ok_iff.mp h'
  obtain ⟨rfl, rfl⟩ := rawSignature_inj hr hs hr' hs' (hraw.symm.trans hraw')
  rfl

/-- The smallest signature, with the sign byte on one scalar. -/
theorem der_to_raw_exact_small : derSignature 1 128 = [0x30, 7, 2, 1, 1, 2, 2, 0, 128] ∧
    (∃ raw, derToRaw (derSignature 1 128) = .ok raw) ∧
    Refuses (derToRaw [0x30, 8, 2, 2, 0, 1, 2, 2, 0, 128]) := by
  refine ⟨by decide +kernel, ?_, ?_⟩
  · have hraw : (rawSignature 1 128).length = 64 := by decide +kernel
    exact ⟨⟨rawSignature 1 128, hraw⟩, ((der_to_raw_exact _).1 _).mpr
      ⟨1, 128, by decide, by decide, rfl, rfl⟩⟩
  · exact ⟨"nonminimal DER integer", by decide +kernel⟩

end Signature

end EkBareMetal.Tools

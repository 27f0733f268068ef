import EkBareMetal.Proofs.Lifecycle

/-!
# The packed accounting word

State, failure count, rollback bit and three reason fields share one word,
updated with shifts and masks. A valid word in state TRIAL has no freedom left
beyond its one or two reasons, so there are thirty-one of them, and what the
three updates do to a word is checked over that list. Everything else speaks
of the word through its state and the list of its reasons.
-/

namespace EkBareMetal.Boot

open Words

/-- The reasons stored in a word, oldest first. -/
def accountReasons (accounting : UInt32) : List UInt32 :=
  (List.range (accountCount accounting).toNat).map fun i =>
    accountReason accounting (UInt32.ofNat i)

theorem length_accountReasons (accounting : UInt32) :
    (accountReasons accounting).length = (accountCount accounting).toNat := by
  simp [accountReasons]

theorem toNat_accountState (w : UInt32) :
    (accountState w).toNat = w.toNat % 4 := toNat_and_mask w (n := 2) (by decide)

theorem toNat_accountCount (w : UInt32) :
    (accountCount w).toNat = w.toNat / 4 % 4 :=
  toNat_shiftRight_and w (k := 2) (n := 2) (by decide) (by decide)

theorem accountCount_le (w : UInt32) : (accountCount w).toNat ≤ 3 := by
  rw [toNat_accountCount]
  omega

theorem toNat_accountReason (w : UInt32) :
    (accountReason w 0).toNat = w.toNat / 32 % 8 ∧
    (accountReason w 1).toNat = w.toNat / 256 % 8 ∧
    (accountReason w 2).toNat = w.toNat / 2048 % 8 :=
  ⟨toNat_shiftRight_and w (k := 5) (n := 3) (by decide) (by decide),
    toNat_shiftRight_and w (k := 8) (n := 3) (by decide) (by decide),
    toNat_shiftRight_and w (k := 11) (n := 3) (by decide) (by decide)⟩

theorem and_rollback_eq_zero {w : UInt32} :
    w &&& bootAccountRollback = 0 ↔ w.toNat / 16 % 2 = 0 := by
  rw [← UInt32.toNat_inj, UInt32.toNat_and,
    show bootAccountRollback.toNat = 2 ^ 4 from rfl, Nat.and_two_pow,
    Nat.testBit_eq_decide_div_mod_eq]
  simp

theorem reserved_eq_zero {w : UInt32} :
    w &&& bootAccountReservedMask = 0 ↔ w.toNat < 16384 :=
  and_high_eq_zero (w := w) (k := 14) (by decide)

/-- The reason field `i` of a word that passed the loop. -/
theorem reasonBad_eq_false {w i : UInt32} (h : reasonBad w i = false) :
    (i < accountCount w → 1 ≤ (accountReason w i).toNat ∧
      (accountReason w i).toNat ≤ 5) ∧
    (accountCount w ≤ i → (accountReason w i).toNat = 0) := by
  simp only [reasonBad, Bool.or_eq_false_iff, Bool.and_eq_false_iff,
    decide_eq_false_iff_not, beq_eq_false_iff_ne, bne_eq_false_iff_eq] at h
  obtain ⟨h₁, h₂⟩ := h
  constructor
  · intro hlt
    obtain ⟨h0, h5⟩ := h₁.resolve_left (not_not.mpr hlt)
    have hmax : bootReasonCombined.toNat = 5 := rfl
    rw [gt_iff_lt, UInt32.lt_iff_toNat_lt] at h5
    rw [ne_eq, ← UInt32.toNat_inj] at h0
    simp only [UInt32.reduceToNat] at h0
    omega
  · intro hle
    rw [h₂.resolve_left (not_not.mpr hle)]
    rfl

/-- The fields of a valid word. -/
theorem accountValidate_fields {w : UInt32} (h : accountValidate w = .ok) :
    w.toNat < 16384 ∧ reasonBad w 0 = false ∧ reasonBad w 1 = false ∧
      reasonBad w 2 = false ∧
      (accountState w = bootStateReady → w = bootStateReady) ∧
      (accountState w ≠ bootStateRejected →
        accountCount w ≠ 3 ∧ w &&& bootAccountRollback = 0) ∧
      (accountState w = bootStateRejected →
        accountCount w = 3 ∧ w &&& bootAccountRollback ≠ 0) := by
  unfold accountValidate at h
  dsimp only at h
  split at h
  · cases h
  split at h
  · cases h
  split at h
  · cases h
  · next hres hbad hst =>
      simp only [Bool.or_eq_true, not_or, Bool.not_eq_true] at hbad
      rw [not_not, reserved_eq_zero] at hres
      simp only [not_or, not_and, not_not] at hst
      refine ⟨hres, hbad.1.1, hbad.1.2, hbad.2, hst.1, ?_, ?_⟩
      · intro hne
        exact hst.2.1 hne
      · intro heq
        exact hst.2.2 heq

def reasonCodes : List UInt32 := [1, 2, 3, 4, 5]

theorem mem_reasonCodes {q : UInt32} (h : 1 ≤ q.toNat ∧ q.toNat ≤ 5) :
    q ∈ reasonCodes := by
  simp only [reasonCodes, List.mem_cons, List.not_mem_nil, or_false,
    ← UInt32.toNat_inj, UInt32.reduceToNat]
  omega

/-- The accounting words of a trial with no, one and two failures. -/
def trialWords : List UInt32 :=
  [2] ++ reasonCodes.map (fun q => 6 + 32 * q) ++
    reasonCodes.flatMap fun q => reasonCodes.map fun p => 10 + 32 * q + 256 * p

theorem trialWords_complete {w : UInt32} (h : accountValidate w = .ok)
    (hs : accountState w = bootStateTrial) : w ∈ trialWords := by
  obtain ⟨hlt, h0, h1, h2, -, hnr, -⟩ := accountValidate_fields h
  obtain ⟨h3, hrb⟩ := hnr (by rw [hs]; decide)
  have hst := toNat_accountState w
  have hct := toNat_accountCount w
  obtain ⟨hr0, hr1, hr2⟩ := toNat_accountReason w
  have hstate : (accountState w).toNat = 2 := by rw [hs]; rfl
  rw [and_rollback_eq_zero] at hrb
  replace h0 := reasonBad_eq_false h0
  replace h1 := reasonBad_eq_false h1
  replace h2 := reasonBad_eq_false h2
  rw [UInt32.lt_iff_toNat_lt, UInt32.le_iff_toNat_le] at h0 h1 h2
  rw [ne_eq, ← UInt32.toNat_inj] at h3
  simp only [UInt32.reduceToNat] at h0 h1 h2 h3
  have hcount := accountCount_le w
  -- One case for each number of failures; the reasons name the word.
  rcases Nat.lt_or_ge (accountCount w).toNat 1 with hc | hc
  · refine List.mem_append_left _ (List.mem_append_left _ ?_)
    rw [List.mem_singleton, ← UInt32.toNat_inj]
    simp only [UInt32.reduceToNat]
    omega
  rcases Nat.lt_or_ge (accountCount w).toNat 2 with hc' | hc'
  · refine List.mem_append_left _ (List.mem_append_right _ ?_)
    refine List.mem_map.mpr ⟨accountReason w 0, mem_reasonCodes (h0.1 hc), ?_⟩
    rw [← UInt32.toNat_inj, UInt32.toNat_add, UInt32.toNat_mul]
    simp only [UInt32.reduceToNat]
    omega
  · refine List.mem_append_right _ (List.mem_flatMap.mpr ⟨accountReason w 0,
      mem_reasonCodes (h0.1 hc), ?_⟩)
    refine List.mem_map.mpr ⟨accountReason w 1, mem_reasonCodes (h1.1 hc'), ?_⟩
    rw [← UInt32.toNat_inj, UInt32.toNat_add, UInt32.toNat_add,
      UInt32.toNat_mul, UInt32.toNat_mul]
    simp only [UInt32.reduceToNat]
    omega

/-! ## The three updates -/

theorem trialWords_append : ∀ w ∈ trialWords, ∀ q ∈ reasonCodes,
    accountCount w ≠ 2 →
      accountReasons (appendReason w (accountCount w) q) =
        accountReasons w ++ [q] ∧
      accountState (appendReason w (accountCount w) q) = bootStateTrial ∧
      accountValidate (appendReason w (accountCount w) q) = .ok := by
  have h : (trialWords.all fun w => reasonCodes.all fun q =>
      accountCount w == 2 ||
        accountReasons (appendReason w (accountCount w) q) ==
          accountReasons w ++ [q] &&
        accountState (appendReason w (accountCount w) q) == bootStateTrial &&
        accountValidate (appendReason w (accountCount w) q) == .ok) = true := by
    decide
  intro w hw q hq hne
  have hwq := List.all_eq_true.mp (List.all_eq_true.mp h w hw) q hq
  simp only [Bool.or_eq_true, Bool.and_eq_true, beq_iff_eq] at hwq
  exact and_assoc.mp (hwq.resolve_left hne)

theorem trialWords_reject : ∀ w ∈ trialWords, ∀ q ∈ reasonCodes,
    accountCount w = 2 →
      accountReasons (rejectedWord (appendReason w (accountCount w) q)) =
        accountReasons w ++ [q] ∧
      accountState (rejectedWord (appendReason w (accountCount w) q)) =
        bootStateRejected ∧
      rejectedWord (appendReason w (accountCount w) q) &&&
        bootAccountRollback ≠ 0 ∧
      accountValidate (rejectedWord (appendReason w (accountCount w) q)) =
        .ok := by
  have h : (trialWords.all fun w => reasonCodes.all fun q =>
      accountCount w != 2 ||
        accountReasons (rejectedWord (appendReason w (accountCount w) q)) ==
          accountReasons w ++ [q] &&
        (accountState (rejectedWord (appendReason w (accountCount w) q)) ==
          bootStateRejected &&
        (rejectedWord (appendReason w (accountCount w) q) &&&
          bootAccountRollback != 0 &&
        accountValidate (rejectedWord (appendReason w (accountCount w) q)) ==
          .ok))) = true := by
    decide
  intro w hw q hq htwo
  have hwq := List.all_eq_true.mp (List.all_eq_true.mp h w hw) q hq
  simp only [Bool.or_eq_true, Bool.and_eq_true, beq_iff_eq, bne_iff_ne] at hwq
  exact hwq.resolve_left (not_not_intro htwo)

theorem trialWords_confirm : ∀ w ∈ trialWords,
    accountReasons (w &&& ~~~bootAccountStateMask) = accountReasons w := by
  have h : (trialWords.all fun w =>
      accountReasons (w &&& ~~~bootAccountStateMask) == accountReasons w) = true := by
    decide
  intro w hw
  exact beq_iff_eq.mp (List.all_eq_true.mp h w hw)

theorem countable_reason {r : BootMetadata} {f : BootCountedFailure}
    (h : Countable r f) : f.reason ∈ reasonCodes := by
  have hr := h.reason
  have h1 : bootReasonWatchdog.toNat = 1 := rfl
  have h5 : bootReasonCombined.toNat = 5 := rfl
  simp only [not_or, gt_iff_lt, UInt32.not_lt, UInt32.le_iff_toNat_le] at hr
  exact mem_reasonCodes (by omega)

end EkBareMetal.Boot

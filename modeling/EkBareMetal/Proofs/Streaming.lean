import EkBareMetal.Proofs.Admission

/-!
# Verification, read by read

The whole-buffer specification says which payloads an image may have. The
program never holds one: it reads it in chunks and keeps a running hash and
the two vectors of the first chunk. A run of it either asks everything and then
says what the specification says of the bytes it was given, or it stops at the
first request that failed, whatever the reader answers.
-/

namespace EkBareMetal.Boot

open Words Interact

/-! ## What was asked and what was given -/

/-- The reads of a transcript, in order. -/
def readsOf : List (Event VerifySig) → List (UInt32 × Nat)
  | [] => []
  | ⟨.read address requested, _⟩ :: tr => (address, requested) :: readsOf tr
  | _ :: tr => readsOf tr

/-- The bytes the reads have returned. -/
def fedBytes : List (Event VerifySig) → List UInt8
  | [] => []
  | ⟨.read _ _, some bytes⟩ :: tr => bytes.val ++ fedBytes tr
  | _ :: tr => fedBytes tr

/-- Reads of at most 256 bytes that go from `a` to `b` without a gap. -/
def Consecutive : Nat → List (UInt32 × Nat) → Nat → Prop
  | a, [], b => a = b
  | a, (address, requested) :: rest, b =>
      address.toNat = a ∧ 0 < requested ∧ requested ≤ 256 ∧
        Consecutive (a + requested) rest b

/-- The result of an attempt that ends at a request of this kind. -/
def failureOf : VerifyOp → BootVerifyResult
  | .read _ _ => .errorRead
  | .progress _ _ _ => .errorAborted
  | .library => .errorCrypto

/-- The last request did not do what it was for, and the call has ended there. -/
def Interrupted {α : Type} (tr : List (Event VerifySig)) (r : Except BootVerifyResult α) : Prop :=
  ∃ a e, tr = a ++ [e] ∧ (∀ x ∈ a, Completes x) ∧ ¬ Completes e ∧ r = .error (failureOf e.op)

section Transcripts

variable {α β : Type} {tr tr₁ tr₂ : List (Event VerifySig)}
  {r : Except BootVerifyResult α} {e : BootVerifyResult} {ev : Event VerifySig}

@[simp] theorem readsOf_nil : readsOf [] = [] := rfl

@[simp] theorem fedBytes_nil : fedBytes [] = [] := rfl

@[simp] theorem readsOf_library {a : Bool} :
    readsOf (⟨.library, a⟩ :: tr) = readsOf tr := rfl

@[simp] theorem fedBytes_library {a : Bool} :
    fedBytes (⟨.library, a⟩ :: tr) = fedBytes tr := rfl

theorem readsOf_append : readsOf (tr₁ ++ tr₂) = readsOf tr₁ ++ readsOf tr₂ := by
  induction tr₁ with
  | nil => rfl
  | cons ev tr₁ ih =>
      obtain ⟨op, answer⟩ := ev
      cases op with
      | read address requested => simp only [List.cons_append, readsOf, ih]
      | progress phase completed total => exact ih
      | library => exact ih

theorem fedBytes_append : fedBytes (tr₁ ++ tr₂) = fedBytes tr₁ ++ fedBytes tr₂ := by
  induction tr₁ with
  | nil => rfl
  | cons ev tr₁ ih =>
      obtain ⟨op, answer⟩ := ev
      cases op with
      | read address requested =>
          cases answer with
          | none => exact ih
          | some bytes => simp only [List.cons_append, fedBytes, ih, List.append_assoc]
      | progress phase completed total => exact ih
      | library => exact ih

theorem Consecutive.append {a b c : Nat} {l₁ l₂ : List (UInt32 × Nat)}
    (h₁ : Consecutive a l₁ b) (h₂ : Consecutive b l₂ c) : Consecutive a (l₁ ++ l₂) c := by
  induction l₁ generalizing a with
  | nil =>
      obtain rfl : a = b := h₁
      exact h₂
  | cons x l₁ ih =>
      obtain ⟨ha, hpos, hmax, hrest⟩ := h₁
      exact ⟨ha, hpos, hmax, ih hrest⟩

theorem Interrupted.single (h : ¬ Completes ev) : Interrupted [ev] (.error (failureOf ev.op) : Except _ α) :=
  ⟨[], ev, rfl, fun _ hx => absurd hx List.not_mem_nil, h, rfl⟩

theorem Interrupted.after (h₁ : ∀ x ∈ tr₁, Completes x) (h : Interrupted tr₂ r) : Interrupted (tr₁ ++ tr₂) r := by
  obtain ⟨a, e, rfl, ha, he, hr⟩ := h
  exact ⟨tr₁ ++ a, e, (List.append_assoc _ _ _).symm,
    List.forall_mem_append.mpr ⟨h₁, ha⟩, he, hr⟩

/-- The failure is passed on as it is, whatever the type of the result. -/
theorem Interrupted.error (h : Interrupted tr r) : ∃ e, r = .error e ∧ Interrupted tr (.error e : Except _ β) := by
  obtain ⟨a, e, htr, ha, he, rfl⟩ := h
  exact ⟨_, rfl, a, e, htr, ha, he, rfl⟩

theorem Interrupted.not_completes (h : Interrupted tr r) : ¬ ∀ x ∈ tr, Completes x := by
  obtain ⟨a, e, rfl, -, he, -⟩ := h
  exact fun hall => he (hall e (List.mem_append_right _ List.mem_cons_self))

/-- The request that failed is the last one. -/
theorem Interrupted.stops {a b : List (Event VerifySig)} (h : Interrupted tr r)
    (htr : tr = a ++ ev :: b) (he : ¬ Completes ev) :
    b = [] ∧ r = .error (failureOf ev.op) := by
  obtain ⟨a', e', rfl, ha', -, hr⟩ := h
  rcases List.eq_nil_or_concat b with rfl | ⟨b', x, rfl⟩
  · obtain ⟨rfl, hlast⟩ := List.append_inj' htr rfl
    injection hlast with hlast
    subst hlast
    exact ⟨rfl, hr⟩
  · rw [List.concat_eq_append, ← List.cons_append, ← List.append_assoc] at htr
    obtain ⟨rfl, -⟩ := List.append_inj' htr rfl
    exact absurd (ha' ev (List.mem_append_right _ List.mem_cons_self)) he

theorem not_completes_progress {phase : BootVerifyPhase} {completed total : UInt32} :
    ¬ Completes ⟨.progress phase completed total, false⟩ := nofun

theorem not_completes_library : ¬ Completes ⟨.library, false⟩ := nofun

end Transcripts

/-! ## The manifest -/

section Manifest

variable {C : Crypto} {wire : List UInt8} {slot : UInt32} {tr : List (Event VerifySig)}

/-- The manifest half reads nothing of the payload, and decides alone. -/
theorem verifyManifest_runs {r : Except BootVerifyResult BootManifest}
    (h : Runs (bootVerifyManifest C wire slot) tr r) :
    readsOf tr = [] ∧
      ((∀ x ∈ tr, Completes x) ∧ r = admittedManifest C wire slot ∨ Interrupted tr r) := by
  have hnil : ∀ x ∈ ([] : List (Event VerifySig)), Completes x :=
    fun x hx => absurd hx List.not_mem_nil
  unfold bootVerifyManifest at h
  unfold admittedManifest
  split at h
  · next hs =>
      obtain ⟨rfl, rfl⟩ := runs_pure_iff.mp h
      exact ⟨rfl, .inl ⟨hnil, (if_pos hs).symm⟩⟩
  next hs =>
  rw [if_neg hs]
  cases hd : bootManifestDecode wire with
  | error e =>
      rw [hd] at h
      obtain ⟨rfl, rfl⟩ := runs_pure_iff.mp h
      exact ⟨rfl, .inl ⟨hnil, rfl⟩⟩
  | ok m =>
  rw [hd] at h
  dsimp only at h ⊢
  split at h
  · next hslot =>
      obtain ⟨rfl, rfl⟩ := runs_pure_iff.mp h
      exact ⟨rfl, .inl ⟨hnil, (if_pos hslot).symm⟩⟩
  next hslot =>
  rw [if_neg hslot]
  obtain ⟨go, tr₁, rfl, h₁⟩ := runs_ask_iff.mp h
  cases go with
  | false =>
      obtain ⟨rfl, rfl⟩ := runs_pure_iff.mp h₁
      exact ⟨rfl, .inr (Interrupted.single not_completes_progress)⟩
  | true =>
  have hbegin : Completes ⟨.progress .manifestBegin 0 m.payloadLength, true⟩ := rfl
  obtain ⟨available, tr₂, rfl, h₂⟩ := runs_ask_iff.mp h₁
  cases available with
  | false =>
      obtain ⟨rfl, rfl⟩ := runs_pure_iff.mp h₂
      exact ⟨rfl, .inr (Interrupted.after (List.forall_mem_singleton.mpr hbegin)
        (Interrupted.single not_completes_library))⟩
  | true =>
  have hsofar : ∀ x ∈ ([⟨.progress .manifestBegin 0 m.payloadLength, true⟩,
      ⟨.library, true⟩] : List (Event VerifySig)), Completes x :=
    List.forall_mem_cons.mpr ⟨hbegin, List.forall_mem_singleton.mpr rfl⟩
  rw [if_neg (by decide)] at h₂
  split at h₂
  · next hsig =>
      obtain ⟨rfl, rfl⟩ := runs_pure_iff.mp h₂
      exact ⟨rfl, .inl ⟨hsofar, (if_pos hsig).symm⟩⟩
  next hsig =>
  rw [if_neg hsig]
  obtain ⟨go, tr₃, rfl, h₃⟩ := runs_ask_iff.mp h₂
  cases go with
  | false =>
      obtain ⟨rfl, rfl⟩ := runs_pure_iff.mp h₃
      exact ⟨rfl, .inr (Interrupted.after hsofar (Interrupted.single not_completes_progress))⟩
  | true =>
      obtain ⟨rfl, rfl⟩ := runs_pure_iff.mp h₃
      have hlast : Completes ⟨.progress .manifestAuthenticated 0 m.payloadLength, true⟩ := rfl
      exact ⟨rfl, .inl ⟨List.forall_mem_append.mpr ⟨hsofar,
        List.forall_mem_singleton.mpr hlast⟩, rfl⟩⟩

end Manifest

/-! ## The payload -/

section Payload

variable {m : BootManifest} {tr : List (Event VerifySig)}

/-- The loop reads on from `completed` without a gap; if nothing fails it reads to the
end, and has hashed what it was given. -/
theorem hashPayload_runs (hm : bootManifestValidate m = .ok) {completed : UInt32}
    {sha vectors : List UInt8} {r : Except BootVerifyResult (List UInt8 × List UInt8)}
    (hle : completed ≤ m.payloadLength)
    (h : Runs (hashPayload m completed sha vectors) tr r) :
    (∃ b, b ≤ m.executionBase.toNat + m.payloadLength.toNat ∧
      Consecutive (m.executionBase.toNat + completed.toNat) (readsOf tr) b) ∧
    ((∀ x ∈ tr, Completes x) ∧
      Consecutive (m.executionBase.toNat + completed.toNat) (readsOf tr)
        (m.executionBase.toNat + m.payloadLength.toNat) ∧
      (fedBytes tr).length = m.payloadLength.toNat - completed.toNat ∧
      r = .ok (sha ++ fedBytes tr,
        if completed = 0 then slice (fedBytes tr) 0 8 else vectors) ∨ Interrupted tr r) := by
  obtain ⟨-, hend⟩ := payload_bounds hm
  obtain ⟨-, -, hmin, -⟩ := manifestValidate_eq_ok hm
  have h236 : bootPayloadMin.toNat = 236 := rfl
  rw [UInt32.le_iff_toNat_le] at hmin hle
  induction hn : (m.payloadLength - completed).toNat using Nat.strong_induction_on
    generalizing completed sha vectors tr with
  | _ n ih =>
  rw [hashPayload] at h
  split at h
  swap
  · next hge =>
      have heq : completed.toNat = m.payloadLength.toNat := by
        rw [UInt32.lt_iff_toNat_lt] at hge
        omega
      have h0 : completed ≠ 0 := by
        intro h0
        rw [h0] at heq
        have hz : (0 : UInt32).toNat = 0 := rfl
        omega
      obtain ⟨rfl, rfl⟩ := runs_pure_iff.mp h
      have hcover : Consecutive (m.executionBase.toNat + completed.toNat) (readsOf [])
          (m.executionBase.toNat + m.payloadLength.toNat) := by
        show _ = _
        rw [heq]
      refine ⟨⟨_, Nat.le_refl _, hcover⟩, .inl ⟨fun x hx => absurd hx List.not_mem_nil,
        hcover, ?_, ?_⟩⟩
      · show 0 = _
        omega
      · rw [if_neg h0, fedBytes, List.append_nil]
  next hlt =>
  obtain ⟨hpos, hroom, hmax, hadd⟩ := chunk_bounds hlt
  have hdec := chunk_decreases hlt
  have hfirst : completed = 0 → 8 ≤ (if m.payloadLength - completed > bootVerifyChunkBytes
      then bootVerifyChunkBytes else m.payloadLength - completed).toNat := by
    rintro rfl
    exact first_chunk_size (by omega)
  dsimp only at h
  generalize (if m.payloadLength - completed > bootVerifyChunkBytes then
    bootVerifyChunkBytes else m.payloadLength - completed) = requested at *
  have haddr : (m.executionBase + completed).toNat =
      m.executionBase.toNat + completed.toNat := by
    rw [UInt32.toNat_add]
    omega
  obtain ⟨answer, tr₁, rfl, h₁⟩ := runs_ask_iff.mp h
  have hone : ∀ {l : List (UInt32 × Nat)} {b : Nat},
      Consecutive (m.executionBase.toNat + (completed + requested).toNat) l b →
      Consecutive (m.executionBase.toNat + completed.toNat)
        ((m.executionBase + completed, requested.toNat) :: l) b := by
    intro l b hl
    refine ⟨haddr, hpos, hmax, ?_⟩
    rwa [hadd, ← Nat.add_assoc] at hl
  have hstop : ∃ b, b ≤ m.executionBase.toNat + m.payloadLength.toNat ∧
      Consecutive (m.executionBase.toNat + completed.toNat)
        [(m.executionBase + completed, requested.toNat)] b :=
    ⟨_, by rw [hadd]; omega, hone rfl⟩
  cases answer with
  | none =>
      obtain ⟨rfl, rfl⟩ := runs_pure_iff.mp h₁
      exact ⟨hstop, .inr (Interrupted.single fun hc => hc rfl)⟩
  | some buffer =>
  have hread : Completes ⟨.read (m.executionBase + completed) requested.toNat, some buffer⟩ := by
    intro hnone
    cases hnone
  obtain ⟨available, tr₂, rfl, h₂⟩ := runs_ask_iff.mp h₁
  cases available with
  | false =>
      obtain ⟨rfl, rfl⟩ := runs_pure_iff.mp h₂
      exact ⟨hstop, .inr (Interrupted.after (List.forall_mem_singleton.mpr hread)
        (Interrupted.single not_completes_library))⟩
  | true =>
  have hsofar : ∀ x ∈ ([⟨.read (m.executionBase + completed) requested.toNat, some buffer⟩,
      ⟨.library, true⟩] : List (Event VerifySig)), Completes x :=
    List.forall_mem_cons.mpr ⟨hread, List.forall_mem_singleton.mpr rfl⟩
  obtain ⟨go, tr₃, rfl, h₃⟩ := runs_ask_iff.mp h₂
  cases go with
  | false =>
      obtain ⟨rfl, rfl⟩ := runs_pure_iff.mp h₃
      exact ⟨hstop, .inr (Interrupted.after hsofar (Interrupted.single not_completes_progress))⟩
  | true =>
  have hgo : Completes ⟨.progress .payloadProgress (completed + requested) m.payloadLength,
    true⟩ := rfl
  have hall : ∀ x ∈ ([⟨.read (m.executionBase + completed) requested.toNat, some buffer⟩,
      ⟨.library, true⟩] ++
        [⟨.progress .payloadProgress (completed + requested) m.payloadLength, true⟩] :
      List (Event VerifySig)), Completes x :=
    List.forall_mem_append.mpr ⟨hsofar, List.forall_mem_singleton.mpr hgo⟩
  obtain ⟨⟨b, hb, hbefore⟩, hrest⟩ := ih _ (hn ▸ hdec) (by rw [hadd]; exact hroom) h₃ rfl
  refine ⟨⟨b, hb, hone hbefore⟩, ?_⟩
  rcases hrest with ⟨htr, hcover, hlen, rfl⟩ | hcut
  swap
  · exact .inr (hcut.after hall)
  have hfed : ∀ x, fedBytes (⟨.read (m.executionBase + completed) requested.toNat,
      some buffer⟩ :: ⟨.library, true⟩ :: ⟨.progress .payloadProgress (completed + requested)
        m.payloadLength, true⟩ :: x) = buffer.val ++ fedBytes x := fun _ => rfl
  have hsize : buffer.val.length = requested.toNat := buffer.property
  refine .inl ⟨List.forall_mem_append.mpr ⟨hall, htr⟩, hone hcover, ?_, ?_⟩
  · rw [hfed, List.length_append, hlen, hadd, hsize]
    omega
  · have hnext : completed + requested ≠ 0 := by
      intro h0
      rw [h0] at hadd
      have hz : (0 : UInt32).toNat = 0 := rfl
      omega
    rw [hfed, if_neg hnext, List.append_assoc]
    by_cases h0 : completed = 0
    · rw [if_pos h0, if_pos h0, slice_append_left (by rw [hsize]; exact hfirst h0)]
    · rw [if_neg h0, if_neg h0]

end Payload

/-! ## The whole call -/

/-- `image` is what the specification makes of the wire and of the whole payload. -/
structure Whole (C : Crypto) (wire : List UInt8) (slot : UInt32) (payload : List UInt8)
    (image : BootVerifiedImage) : Prop where
  isSlot : slotValid slot = true
  decoded : bootManifestDecode wire = .ok image.manifest
  target : image.manifest.slot = slot
  signature : authentic C wire image.manifest = true
  hash : C.sha256 payload = image.manifest.payloadHash
  vectors : bootVectorsValidate image.manifest payload = .ok
  initialMsp : image.initialMsp = get32 (slice payload 0 4)
  resetVector : image.resetVector = get32 (slice payload 4 4)

/-- The two functions say the same of the vectors, each with its own codes. -/
inductive Agrees : BootVerifyResult → BootResult → Prop where
  | ok : Agrees .ok .ok
  | msp : Agrees .errorMsp .errorMsp
  | thumb : Agrees .errorThumb .errorThumb
  | range : Agrees .errorVectorRange .errorVectorRange

/-- What a verification does, whatever its callbacks answer. -/
structure VerifyRun (C : Crypto) (wire : List UInt8) (slot : UInt32)
    (tr : List (Event VerifySig)) (r : Except BootVerifyResult BootVerifiedImage) :
    Prop where
  refused : ∀ e, admittedManifest C wire slot = .error e →
    readsOf tr = [] ∧ ((∀ x ∈ tr, Completes x) → r = .error e)
  reads : ∀ m, admittedManifest C wire slot = .ok m →
    ∃ b, b ≤ m.executionBase.toNat + m.payloadLength.toNat ∧
      Consecutive m.executionBase.toNat (readsOf tr) b ∧
      ((∀ x ∈ tr, Completes x) → b = m.executionBase.toNat + m.payloadLength.toNat)
  whole : (∀ x ∈ tr, Completes x) →
    ∀ image, r = .ok image ↔ Whole C wire slot (fedBytes tr) image
  hash : (∀ x ∈ tr, Completes x) → ∀ m, admittedManifest C wire slot = .ok m →
    C.sha256 (fedBytes tr) ≠ m.payloadHash → r = .error .errorHash
  vectors : (∀ x ∈ tr, Completes x) → ∀ m, admittedManifest C wire slot = .ok m →
    C.sha256 (fedBytes tr) = m.payloadHash →
      Agrees (verifyCode r) (bootVectorsValidate m (fedBytes tr))
  stops : ∀ a e b, tr = a ++ e :: b → ¬ Completes e →
    b = [] ∧ r = .error (failureOf e.op)
  output : ∀ image, r = .ok image → ∀ x ∈ tr, Completes x

section Stored

variable {C : Crypto} {wire payload : List UInt8} {slot : UInt32} {m : BootManifest}
  {tr : List (Event VerifySig)} {r : Except BootVerifyResult BootVerifiedImage}
  {image : BootVerifiedImage}

theorem fedBytes_of_readsOf (h : readsOf tr = []) : fedBytes tr = [] := by
  induction tr with
  | nil => rfl
  | cons ev tr ih =>
      obtain ⟨op, answer⟩ := ev
      cases op with
      | read address requested => cases h
      | progress phase completed total => exact ih h
      | library => exact ih h

theorem get32_slice_eight : get32 (slice payload 0 8) = get32 (slice payload 0 4) := by
  simp [get32, le32, slice, List.getD_eq_getElem?_getD]

theorem drop_slice_eight : (slice payload 0 8).drop 4 = slice payload 4 4 := by
  simp [slice, List.drop_take]

/-- The last checks of the program are those of the specification. -/
theorem vectorResult_agrees (hm : bootManifestValidate m = .ok)
    (hlen : payload.length = m.payloadLength.toNat) :
    Agrees (vectorResult m (get32 (slice payload 0 4)) (get32 (slice payload 4 4)))
      (bootVectorsValidate m payload) := by
  have hsize : ¬ payload.length < m.payloadLength.toNat := by omega
  unfold vectorResult bootVectorsValidate
  rw [span_of_valid hm]
  dsimp only
  rw [if_neg hsize]
  split
  · exact .msp
  split
  · exact .thumb
  split
  · exact .range
  · exact .ok

theorem imageResult_agrees (hm : bootManifestValidate m = .ok)
    (hlen : payload.length = m.payloadLength.toNat)
    (hhash : C.sha256 payload = m.payloadHash) :
    Agrees (verifyCode (imageResult C m payload (slice payload 0 8)))
        (bootVectorsValidate m payload) ∧
      ∀ image, imageResult C m payload (slice payload 0 8) = .ok image ↔
        bootVectorsValidate m payload = .ok ∧
          image = ⟨m, get32 (slice payload 0 4), get32 (slice payload 4 4)⟩ := by
  have hagree := vectorResult_agrees hm hlen
  unfold imageResult
  rw [if_neg (not_not_intro hhash), get32_slice_eight, drop_slice_eight]
  dsimp only
  generalize hv : vectorResult m (get32 (slice payload 0 4))
    (get32 (slice payload 4 4)) = v at hagree
  generalize bootVectorsValidate m payload = b at hagree
  cases hagree with
  | ok =>
      refine ⟨.ok, fun image => ⟨fun h => ?_, fun h => ?_⟩⟩
      · injection h with h
        exact ⟨rfl, h.symm⟩
      · rw [h.2]
  | msp => exact ⟨.msp, fun image => ⟨nofun, nofun⟩⟩
  | thumb => exact ⟨.thumb, fun image => ⟨nofun, nofun⟩⟩
  | range => exact ⟨.range, fun image => ⟨nofun, nofun⟩⟩

/-- A call either asks everything and decides on what it was given, or it is cut off. -/
theorem verifyStored_runs (h : Runs (bootVerifyStored C wire slot) tr r) :
    (∀ e, admittedManifest C wire slot = .error e → readsOf tr = [] ∧
      ((∀ x ∈ tr, Completes x) ∧ r = .error e ∨ Interrupted tr r)) ∧
    (∀ m, admittedManifest C wire slot = .ok m →
      (∃ b, b ≤ m.executionBase.toNat + m.payloadLength.toNat ∧
        Consecutive m.executionBase.toNat (readsOf tr) b) ∧
      ((∀ x ∈ tr, Completes x) ∧
        Consecutive m.executionBase.toNat (readsOf tr)
          (m.executionBase.toNat + m.payloadLength.toNat) ∧
        (fedBytes tr).length = m.payloadLength.toNat ∧
        r = imageResult C m (fedBytes tr) (slice (fedBytes tr) 0 8) ∨ Interrupted tr r)) := by
  obtain ⟨tr₁, decided, tr₂, rfl, h₁, h₂⟩ := runs_bind_iff'.mp h
  obtain ⟨hno, hdecided⟩ := verifyManifest_runs h₁
  have hreads : readsOf (tr₁ ++ tr₂) = readsOf tr₂ := by
    rw [readsOf_append, hno, List.nil_append]
  have hfed : fedBytes (tr₁ ++ tr₂) = fedBytes tr₂ := by
    rw [fedBytes_append, fedBytes_of_readsOf hno, List.nil_append]
  rw [hreads, hfed]
  rcases hdecided with ⟨hall, rfl⟩ | hcut
  swap
  · obtain ⟨e, rfl, hcut'⟩ := hcut.error (β := BootVerifiedImage)
    obtain ⟨rfl, rfl⟩ := runs_pure_iff.mp h₂
    rw [List.append_nil]
    exact ⟨fun _ _ => ⟨rfl, .inr hcut'⟩,
      fun m _ => ⟨⟨_, Nat.le_add_right _ _, rfl⟩, .inr hcut'⟩⟩
  cases hadm : admittedManifest C wire slot with
  | error e =>
      rw [hadm] at h₂
      obtain ⟨rfl, rfl⟩ := runs_pure_iff.mp h₂
      rw [List.append_nil]
      refine ⟨fun e' he => ⟨rfl, .inl ⟨hall, ?_⟩⟩, nofun⟩
      injection he with he
      rw [he]
  | ok m =>
  rw [hadm] at h₂
  dsimp only at h₂
  refine ⟨nofun, fun m' hm' => ?_⟩
  injection hm' with hm'
  subst hm'
  have hvalid := manifestDecode_ok (admittedManifest_ok.mp hadm).2.1
  have hhere : ∃ b, b ≤ m.executionBase.toNat + m.payloadLength.toNat ∧
      Consecutive m.executionBase.toNat [] b := ⟨_, Nat.le_add_right _ _, rfl⟩
  obtain ⟨available, tr₃, rfl, h₃⟩ := runs_ask_iff.mp h₂
  cases available with
  | false =>
      obtain ⟨rfl, rfl⟩ := runs_pure_iff.mp h₃
      exact ⟨hhere, .inr (Interrupted.after hall (Interrupted.single not_completes_library))⟩
  | true =>
  have hstarted : Completes ⟨.library, true⟩ := rfl
  obtain ⟨tr₄, hashed, tr₅, rfl, h₄, h₅⟩ := runs_bind_iff'.mp h₃
  obtain ⟨hpart, hend⟩ := hashPayload_runs hvalid UInt32.zero_le h₄
  have hsofar : ∀ x ∈ tr₁ ++ [⟨.library, true⟩], Completes x :=
    List.forall_mem_append.mpr ⟨hall, List.forall_mem_singleton.mpr hstarted⟩
  have hcat : ∀ x, tr₁ ++ ⟨.library, true⟩ :: x = (tr₁ ++ [⟨.library, true⟩]) ++ x :=
    fun x => by rw [List.append_assoc]; rfl
  have hreads' : readsOf (⟨.library, true⟩ :: (tr₄ ++ tr₅)) = readsOf tr₄ ++ readsOf tr₅ :=
    readsOf_append
  have hfed' : fedBytes (⟨.library, true⟩ :: (tr₄ ++ tr₅)) = fedBytes tr₄ ++ fedBytes tr₅ :=
    fedBytes_append
  rw [hreads', hfed', hcat]
  rcases hend with ⟨hpayload, hcover, hlen, rfl⟩ | hcut
  swap
  · obtain ⟨e, rfl, hcut'⟩ := hcut.error (β := BootVerifiedImage)
    obtain ⟨rfl, rfl⟩ := runs_pure_iff.mp h₅
    rw [List.append_nil, readsOf_nil, List.append_nil]
    exact ⟨hpart, .inr (hcut'.after hsofar)⟩
  dsimp only at h₅
  obtain ⟨finished, tr₆, rfl, h₆⟩ := runs_ask_iff.mp h₅
  rw [← List.append_assoc]
  have hrest : ∀ x ∈ (tr₁ ++ [⟨.library, true⟩]) ++ tr₄, Completes x :=
    List.forall_mem_append.mpr ⟨hsofar, hpayload⟩
  cases finished with
  | false =>
      obtain ⟨rfl, rfl⟩ := runs_pure_iff.mp h₆
      rw [readsOf_library, readsOf_nil, List.append_nil]
      exact ⟨hpart, .inr (Interrupted.after hrest (Interrupted.single not_completes_library))⟩
  | true =>
      obtain ⟨rfl, rfl⟩ := runs_pure_iff.mp h₆
      rw [readsOf_library, fedBytes_library, readsOf_nil, fedBytes_nil, List.append_nil,
        List.append_nil]
      refine ⟨hpart, .inl ⟨?_, hcover, hlen, ?_⟩⟩
      · exact List.forall_mem_append.mpr ⟨hrest, List.forall_mem_singleton.mpr hstarted⟩
      · rw [List.nil_append, if_pos rfl]

theorem verifyStored_cases (h : Runs (bootVerifyStored C wire slot) tr r) :
    (∀ x ∈ tr, Completes x) ∨ Interrupted tr r := by
  obtain ⟨hrefused, hadmitted⟩ := verifyStored_runs h
  cases hadm : admittedManifest C wire slot with
  | error e => exact (hrefused e hadm).2.imp_left And.left
  | ok m => exact (hadmitted m hadm).2.imp_left And.left

/-- The image of a successful call is what the specification makes of the bytes
the call was given. -/
theorem verifyStored_whole (h : Runs (bootVerifyStored C wire slot) tr (.ok image)) :
    Whole C wire slot (fedBytes tr) image := by
  obtain ⟨hrefused, hadmitted⟩ := verifyStored_runs h
  cases hadm : admittedManifest C wire slot with
  | error e =>
      rcases (hrefused e hadm).2 with ⟨-, he⟩ | hcut
      · cases he
      · obtain ⟨a, e', -, -, -, he⟩ := hcut
        cases he
  | ok m =>
      rcases (hadmitted m hadm).2 with ⟨-, -, hlen, hr⟩ | hcut
      · obtain ⟨hs, hd, hslot, hsig⟩ := admittedManifest_ok.mp hadm
        obtain ⟨hhash, -, -⟩ := imageResult_ok hr.symm
        obtain ⟨hv, rfl⟩ :=
          ((imageResult_agrees (manifestDecode_ok hd) hlen hhash).2 image).mp hr.symm
        exact ⟨hs, hd, hslot, hsig, hhash, hv, rfl, rfl⟩
      · obtain ⟨a, e', -, -, -, he⟩ := hcut
        cases he

/-- A streamed verification is the one-shot verification of the bytes it was given. It
reads them once, in order and in small pieces, nothing before the manifest is admitted,
and nothing after a request that failed. -/
theorem verify_streamed (h : Runs (bootVerifyStored C wire slot) tr r) :
    VerifyRun C wire slot tr r := by
  obtain ⟨hrefused, hadmitted⟩ := verifyStored_runs h
  have hno : ∀ {x : Except BootVerifyResult BootVerifiedImage}, Interrupted tr x →
      ¬ ∀ x ∈ tr, Completes x := fun hcut => hcut.not_completes
  have hcases := verifyStored_cases h
  have hdone : ∀ m, (∀ x ∈ tr, Completes x) → admittedManifest C wire slot = .ok m →
      (fedBytes tr).length = m.payloadLength.toNat ∧
        r = imageResult C m (fedBytes tr) (slice (fedBytes tr) 0 8) := by
    intro m hall hadm
    rcases (hadmitted m hadm).2 with ⟨-, -, hlen, hr⟩ | hcut
    · exact ⟨hlen, hr⟩
    · exact absurd hall (hno hcut)
  have hvalid : ∀ m, admittedManifest C wire slot = .ok m → bootManifestValidate m = .ok :=
    fun m hadm => manifestDecode_ok (admittedManifest_ok.mp hadm).2.1
  refine ⟨fun e he => ?_, fun m hadm => ?_, fun hall image => ?_, fun hall m hadm hne => ?_,
    fun hall m hadm hhash => ?_, fun a e b htr he => ?_, fun image hr => ?_⟩
  · obtain ⟨hnone, hend⟩ := hrefused e he
    refine ⟨hnone, fun hall => ?_⟩
    rcases hend with ⟨-, hr⟩ | hcut
    · exact hr
    · exact absurd hall (hno hcut)
  · obtain ⟨⟨b, hb, hpart⟩, hend⟩ := hadmitted m hadm
    rcases hend with ⟨-, hcover, -, -⟩ | hcut
    · exact ⟨_, Nat.le_refl _, hcover, fun _ => rfl⟩
    · exact ⟨b, hb, hpart, fun hall => absurd hall (hno hcut)⟩
  · constructor
    · rintro rfl
      exact verifyStored_whole h
    · rintro ⟨hs, hd, hslot, hsig, hhash, hv, hmsp, hreset⟩
      have hadm := admittedManifest_ok.mpr ⟨hs, hd, hslot, hsig⟩
      obtain ⟨hlen, himage⟩ := hdone _ hall hadm
      rw [himage]
      refine ((imageResult_agrees (hvalid _ hadm) hlen hhash).2 image).mpr ⟨hv, ?_⟩
      rw [← hmsp, ← hreset]
  · rw [(hdone m hall hadm).2, imageResult, if_pos hne]
  · obtain ⟨hlen, himage⟩ := hdone m hall hadm
    rw [himage]
    exact (imageResult_agrees (hvalid m hadm) hlen hhash).1
  · rcases hcases with hall | hcut
    · exact absurd (hall e (by rw [htr]; exact List.mem_append_right _ List.mem_cons_self)) he
    · exact hcut.stops htr he
  · rcases hcases with hall | ⟨a, e, -, -, -, he⟩
    · exact hall
    · rw [hr] at he
      cases he

/-- A slot A that holds the package's payload. -/
def packageMemory : ByteMem := fun x => (packagePayload bootSlotA).getD (x - 34816) 0

theorem verify_streamed_package :
    ∃ tr, Whole packageCrypto (packageWire bootSlotA) bootSlotA (fedBytes tr)
      (packageImage bootSlotA) := by
  have hread : packageMemory.read (slotBase bootSlotA).toNat 236 = packagePayload bootSlotA := by
    decide +kernel
  have hstored := package_stored rfl hread
  obtain ⟨tr, hrun, htr⟩ := runs_eval (verifyAnswers packageMemory)
    (bootVerifyStored packageCrypto (packageWire bootSlotA) bootSlotA)
  rw [board_verify, hstored] at hrun
  have hstreamed := verify_streamed hrun
  exact ⟨tr, (hstreamed.whole (hstreamed.output _ rfl) _).mp rfl⟩

end Stored

end EkBareMetal.Boot

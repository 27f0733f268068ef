import EkBareMetal.Boot.Receive

/-!
# The phases of the receiver

What a call makes of the phase, whatever the flash and the host answer: the
end of the stream is known from the manifest page on, an acceptance comes from
the last phase only, and a receiver that was begun is stopped by an abort.
-/

namespace EkBareMetal.Boot

open Words Interact

/-- The payload is programmed, and the manifest page is being written. -/
def BootReceivePhase.Written (p : BootReceivePhase) : Prop :=
  p = .writeManifest ∨ p = .verify ∨ p = .ready

/-- Not between its first and its last call. -/
def Dormant (r : BootReceive) : Prop := r.phase = .new ∨ r.phase = .terminal

/-- A receiver behind its payload has been told the end of it. -/
def Ended (r : BootReceive) : Prop := r.phase.Written → r.eof = true

/-- What any call but an end of file leaves of the end of file. -/
structure Phased (r : BootReceive) (reply : ReceiveReply) : Prop where
  eof : reply.receiver.eof = r.eof
  ended : Ended r → Ended reply.receiver
  accepted : reply.result = .accepted → r.phase = .ready ∧
    reply.receiver.phase = .terminal ∧
    ∃ a, reply.acceptance = some a ∧ a.resetRequested = true

section Phases

variable {C : Crypto} {r r' : BootReceive} {result : BootReceiveResult}

/-- Any transcript at all. -/
abbrev Anything : Event ReceiveSig → Prop := fun _ => True

theorem Phased.stop (heof : r'.eof = r.eof) (hne : result ≠ .accepted) :
    Phased r (stop r' result) := by
  refine ⟨heof, fun _ h => ?_, fun h => absurd h hne⟩
  rcases h with h | h | h <;> cases h

theorem Phased.keep {reply : ReceiveReply} (heof : reply.receiver.eof = r.eof)
    (hphase : reply.receiver.phase.Written → r.phase.Written ∨ r.eof = true)
    (hne : reply.result ≠ .accepted) : Phased r reply := by
  refine ⟨heof, fun he hw => ?_, fun h => absurd h hne⟩
  rw [heof]
  exact (hphase hw).elim he id

theorem Phased.refuse (hne : result ≠ .accepted) : Phased r (refuse r result) :=
  .keep rfl .inl hne

/-- A step that stays behind the payload or goes on in front of it. -/
theorem Phased.proceed (heof : r'.eof = r.eof)
    (hphase : r'.phase.Written → r.phase.Written ∨ r.eof = true) :
    Phased r (proceed r') := .keep heof hphase nofun

theorem stopUnlessBlocked_phased (heof : r'.eof = r.eof) (hne : result ≠ .accepted) :
    Safe Anything (stopUnlessBlocked r' result) (Phased r) := by
  refine safe_ask fun blocked => ⟨trivial, safe_pure (.stop heof ?_)⟩
  split
  · nofun
  · exact hne

theorem storeFailure_phased (heof : r'.eof = r.eof) :
    Safe Anything (storeFailure r') (Phased r) := by
  rw [storeFailure]
  split
  · exact safe_pure (.stop heof nofun)
  · exact stopUnlessBlocked_phased heof nofun

theorem flashFailure_phased (heof : r'.eof = r.eof) :
    Safe Anything (flashFailure r') (Phased r) := stopUnlessBlocked_phased heof nofun

/-- Whatever a program asks, it may be asked. -/
theorem safe_anything (p : Prog ReceiveSig α) : Safe Anything p fun _ => True :=
  fun _ _ _ => ⟨fun _ _ => trivial, trivial⟩

theorem not_written {p : BootReceivePhase} (h : p.code < 6) : ¬ p.Written := by
  rintro (rfl | rfl | rfl) <;> revert h <;> decide

theorem stepAuthenticate_phased : Safe Anything (stepAuthenticate C r) (Phased r) := by
  refine safe_bind (safe_anything _) fun x _ => ?_
  obtain ⟨verified, flashResult⟩ := x
  cases verified with
  | error e => exact safe_pure (.stop rfl nofun)
  | ok incoming =>
      dsimp only
      split
      · exact safe_pure (.proceed rfl fun h => absurd h (not_written (p := .invalidate) (by decide)))
      · exact safe_pure (.stop rfl nofun)

theorem stepInvalidate_phased : Safe Anything (stepInvalidate r) (Phased r) := by
  refine safe_bind (safe_anything _) fun x _ => ?_
  obtain ⟨replaced, flashResult⟩ := x
  cases replaced with
  | error e => exact storeFailure_phased rfl
  | ok committed =>
      dsimp only
      split
      · exact flashFailure_phased rfl
      · exact safe_pure (.proceed rfl fun h => absurd h (not_written (p := .erase) (by decide)))

theorem stepErase_phased : Safe Anything (stepErase r) (Phased r) := by
  refine safe_bind (safe_anything _) fun x _ => ?_
  obtain ⟨erased, plan⟩ := x
  dsimp only
  split
  · exact safe_pure (.proceed rfl fun h => absurd h (not_written (p := .payload) (by decide)))
  split
  · exact flashFailure_phased rfl
  · exact safe_pure (.proceed rfl .inl)

theorem payloadEnd_phased (heof : r'.eof = r.eof) (hphase : r'.phase = r.phase)
    (hne : result ≠ .accepted) : Phased r (payloadEnd r' result) := by
  rw [payloadEnd]
  split
  · next h => exact .proceed heof fun _ => .inr (heof ▸ h.1)
  · refine .keep heof (fun h => .inl ?_) hne
    rw [← hphase]
    exact h

theorem stepPayload_phased : Safe Anything (stepPayload r) (Phased r) := by
  rw [stepPayload]
  split
  · refine safe_ask fun programmed => ⟨trivial, ?_⟩
    dsimp only
    split
    · exact flashFailure_phased rfl
    · exact safe_pure (payloadEnd_phased rfl rfl nofun)
  · exact safe_pure (payloadEnd_phased rfl rfl nofun)

theorem stepWriteManifest_phased (h : r.phase = .writeManifest) :
    Safe Anything (stepWriteManifest r) (Phased r) := by
  refine safe_ask fun programmed => ⟨trivial, ?_⟩
  dsimp only
  split
  · exact flashFailure_phased rfl
  · exact safe_pure (.proceed rfl fun _ => .inl (.inl h))

theorem stepVerifyWire_phased {wire : List UInt8} (h : r.phase = .verify)
    (heof : r'.eof = r.eof) : Safe Anything (stepVerifyWire C wire r') (Phased r) := by
  refine safe_bind (safe_anything _) fun x _ => ?_
  obtain ⟨verified, flashResult⟩ := x
  cases verified with
  | error e => exact stopUnlessBlocked_phased heof nofun
  | ok image =>
      dsimp only
      split
      · exact safe_pure (.proceed heof fun _ => .inl (.inr (.inl h)))
      · exact safe_pure (.stop heof nofun)

theorem stepVerify_phased (h : r.phase = .verify) :
    Safe Anything (stepVerify C r) (Phased r) := by
  refine safe_ask fun wire => ⟨trivial, ?_⟩
  cases wire with
  | error e => exact flashFailure_phased rfl
  | ok wire =>
      dsimp only
      split
      · exact safe_pure (.stop rfl nofun)
      · exact stepVerifyWire_phased h rfl

theorem stepReady_phased (h : r.phase = .ready) :
    Safe Anything (stepReady r) (Phased r) := by
  refine safe_bind (safe_anything _) fun x _ => ?_
  obtain ⟨replaced, flashResult⟩ := x
  cases replaced with
  | error e => exact storeFailure_phased rfl
  | ok committed =>
      refine safe_pure ⟨rfl, fun _ hw => ?_, fun _ => ⟨h, rfl, _, rfl, rfl⟩⟩
      rcases hw with hw | hw | hw <;> cases hw

theorem step_phased : Safe Anything (bootReceiveStep C r) (Phased r) := by
  unfold bootReceiveStep
  split
  · exact safe_pure (.refuse nofun)
  · exact safe_pure (.refuse nofun)
  · exact safe_pure (.refuse nofun)
  · exact stepAuthenticate_phased
  · exact stepInvalidate_phased
  · exact stepErase_phased
  · exact stepPayload_phased
  · next h => exact stepWriteManifest_phased h
  · next h => exact stepVerify_phased h
  · next h => exact stepReady_phased h

theorem feed_phased {bytes : List UInt8} : Phased r (bootReceiveFeed r bytes) := by
  rw [bootReceiveFeed]
  split
  · exact .refuse nofun
  split
  · exact .refuse nofun
  split
  · exact .refuse nofun
  split
  · exact .stop rfl nofun
  split
  · refine .keep rfl (fun h => ?_) nofun
    dsimp only at h
    split at h
    · exact absurd h (not_written (p := .authenticate) (by decide))
    · exact .inl h
  split
  · dsimp only
    split
    · exact .refuse nofun
    · exact .keep rfl .inl nofun
  · exact .refuse nofun

theorem abort_phased : Phased r (bootReceiveAbort r) ∧
    Dormant (bootReceiveAbort r).receiver := by
  rw [bootReceiveAbort]
  split
  · next h => exact ⟨.refuse nofun, .inr h⟩
  split
  · next h => exact ⟨.refuse nofun, .inl h⟩
  · exact ⟨.stop rfl nofun, .inr rfl⟩

/-- An end of file is refused, ends the receiver, or is noted. -/
theorem eof_phased : (bootReceiveEof r).result ≠ .accepted ∧
    (Ended r → Ended (bootReceiveEof r).receiver) ∧
    ((bootReceiveEof r).result = .ok ∧ (bootReceiveEof r).receiver.eof = true ∨
      (bootReceiveEof r).result ≠ .ok ∧ (bootReceiveEof r).receiver.eof = r.eof) := by
  rw [bootReceiveEof]
  split
  · exact ⟨nofun, id, .inr ⟨nofun, rfl⟩⟩
  split
  · exact ⟨nofun, id, .inr ⟨nofun, rfl⟩⟩
  split
  · have h : Phased r (stop r .length) := .stop rfl nofun
    exact ⟨nofun, h.ended, .inr ⟨nofun, rfl⟩⟩
  · exact ⟨nofun, fun _ _ => rfl, .inl ⟨rfl, rfl⟩⟩

/-- A begin takes a new receiver to its first phase, or leaves it new or
stopped. -/
theorem begin_phased {config : BootReceiveConfig} (h : r.phase = .new) :
    Safe Anything (bootReceiveBegin config r) fun reply =>
      reply.receiver.eof = r.eof ∧ Ended reply.receiver ∧
        (reply.result = .ok ∨ Dormant reply.receiver) := by
  have hstop : ∀ {r' : BootReceive} {result : BootReceiveResult}, r'.eof = r.eof →
      (stop r' result).receiver.eof = r.eof ∧ Ended (stop r' result).receiver ∧
        ((stop r' result).result = .ok ∨ Dormant (stop r' result).receiver) :=
    fun heof => ⟨heof, fun hw => absurd hw (by rintro (h | h | h) <;> cases h),
      .inr (.inr rfl)⟩
  rw [bootReceiveBegin, if_neg (not_not_intro h)]
  split
  · refine safe_pure ⟨rfl, fun hw => ?_, .inr (.inl h)⟩
    exact absurd (h ▸ hw : BootReceivePhase.Written .new) (not_written (by decide))
  refine safe_bind (safe_anything _) fun x _ => ?_
  obtain ⟨loaded, flashResult⟩ := x
  cases loaded with
  | error e => exact safe_ask fun blocked => ⟨trivial, safe_pure (hstop rfl)⟩
  | ok snapshot =>
      dsimp only [beginRunning]
      split
      · exact safe_pure (hstop rfl)
      refine safe_bind (safe_anything _) fun running _ => ?_
      cases running with
      | none =>
          refine safe_ask fun blocked => ⟨trivial, ?_⟩
          cases blocked with
          | none => exact safe_pure (hstop rfl)
          | some cause => exact safe_pure (hstop rfl)
      | some image =>
          refine safe_pure ⟨rfl, fun hw => ?_, .inl rfl⟩
          exact absurd hw (not_written (p := .header) (by decide))

end Phases

end EkBareMetal.Boot

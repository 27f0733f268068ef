import EkBareMetal.Proofs.Arrival

/-!
# Crash consistency

The invariant of a station's run is read off for the record its board loads.
The run that shows it is not empty is that of a package that arrives: the power
goes in the last request of the last call, when the record with the candidate
is already there.
-/

namespace EkBareMetal.Boot

open Words Interact Transition ByteMem

/-- Whatever calls are made of a fresh receiver, and wherever the power goes,
the record the board loads vouches for the bytes of its slots, and the
commands of the run worked in the metadata pages and the destination, outside
the running slot. -/
theorem update_crash_consistent {C : Crypto} {f : BootFlash} {d : FlashDevice}
    {a : BootStoreSnapshot} {tr : List (Called × Station FlashDevice)}
    {s : Station FlashDevice}
    (hload : bootStoreLoad.eval (storeAnswers d.board.mem) = .ok a)
    (hbacked : ∀ slot, slotValid slot = true →
      Backed C d.board.mem a.record slot)
    (hlog : d.board.log = []) (hquiet : Quiet f d)
    (hrun : Run (StationStep C (controllerDevice.sum hostDevice))
      ⟨bootReceiveInit, f, d, true⟩ tr s) :
    (∃ a', bootStoreLoad.eval (storeAnswers s.device.board.mem) = .ok a' ∧
      a'.record.currentSlot = a.record.currentSlot ∧
      ∀ slot, slotValid slot = true →
        Backed C s.device.board.mem a'.record slot) ∧
    ∀ c ∈ s.device.board.log, ∀ x, c.Touches x →
      (InMetadata x ∨ InSlot s.receiver.permittedSlot x) ∧
        ¬ InSlot a.record.currentSlot x := by
  have hfresh : StationInv C (fun _ => True) a.record.currentSlot [] id
      ⟨bootReceiveInit, f, d, true⟩ :=
    station_fresh hload (fun slot hs _ => hbacked slot hs) hlog hquiet
  have hinv := station_run views_id hrun hfresh
  obtain ⟨⟨page, r, hvouched⟩, hsent⟩ := hinv.cut
  refine ⟨⟨⟨r, page⟩, hvouched.authority.loaded, hvouched.current_eq, ?_⟩,
    hsent.places⟩
  intro slot hs
  exact hvouched.backed slot hs trivial

/-! ## A supply that goes -/

/-- The working controller on a supply that may go in any request. -/
def suppliedController : Handler (FlashSig.sum HostSig) WorkingDevice where
  step op d answer d' := workingController op d = (answer, d')
  cut op d d' := (controllerDevice.sum hostDevice).cut op d.flash d'.flash

theorem suppliedController_views :
    suppliedController.Views (controllerDevice.sum hostDevice) WorkingDevice.flash :=
  ⟨workingController_views.step, fun _ _ _ hc => hc⟩

/-- The power may go when a request has just done what it does. -/
theorem cut_works (op : (FlashSig.sum HostSig).Op) (d : WorkingDevice) :
    ∃ d', suppliedController.cut op d d' ∧ d'.mem = (workingController op d).2.mem := by
  match op with
  | .inl (.readRegister a) =>
      rw [workingController]
      split
      · obtain ⟨d₁, hw, hd⟩ := d.finished_works
        refine ⟨{ d with flash := d₁ }, hw, ?_⟩
        show d₁.board.mem = d.finished.flash.board.mem
        rw [hd]
      · split <;> exact ⟨d, works_refl d.flash, rfl⟩
  | .inl (.writeRegister a v) => exact ⟨_, fun _ => .inl (d.written_flash a v), rfl⟩
  | .inl (.readFlash a n) => exact ⟨d, works_refl d.flash, rfl⟩
  | .inr op => exact ⟨d, rfl, rfl⟩

section Cuts

variable {C : Crypto} {σ : Type} {h : Replies σ} {H : Handler (FlashSig.sum HostSig) σ}
  {x x' : Delivery σ}

/-- A delivery under way, as a station. -/
def Delivery.station (x : Delivery σ) : Station σ := ⟨x.receiver, x.flash, x.device, true⟩

theorem call_station (hh : ∀ op s, H.step op s (h op s).1 (h op s).2) (call : ReceiveCall) :
    ∃ c, StationStep C H x.station c (x.call C h call).station :=
  ⟨_, .returns rfl (exec_run hh (call.perform C x.receiver x.flash) x.device)⟩

/-- A delivery is a run of calls. -/
theorem delivery_station (hh : ∀ op s, H.step op s (h op s).1 (h op s).2)
    {tr : List (DeliveryMove × Delivery σ)} (hr : Run (DeliveryStep C h) x tr x') :
    Reaches (StationStep C H) x.station x'.station := by
  induction hr with
  | nil x => exact .refl x.station
  | @cons x x₁ x' m tr hs _ ih =>
      obtain ⟨-, rfl⟩ := hs
      have hcall : ∀ call, Reaches (StationStep C H) x.station (x.call C h call).station :=
        fun call => (call_station hh call).elim fun _ hc => .single hc
      cases m with
      | feed n => exact (hcall (.feed (x.rest.take n))).trans ih
      | step => exact (hcall .step).trans ih
      | eof => exact (hcall .eof).trans ih

end Cuts

/-- The package arrives, and the power goes with the last request of all. -/
theorem arrives_cut {C : Crypto} {e : BootUploadEvidence} {page : UInt32}
    {r₀ r₁ r₂ : BootMetadata} {image : BootVerifiedImage} {wire payload : List UInt8}
    {f : BootFlash} {d : WorkingDevice}
    (hp : Deliverable C e page r₀ r₁ r₂ image wire payload) (hr : AtRest f d)
    (h : Authority d.mem page r₀) :
    ∃ tr s p, Run (StationStep C (controllerDevice.sum hostDevice))
        ⟨bootReceiveInit, f, d.flash, true⟩ tr s ∧
      s.powered = false ∧ Authority s.device.board.mem p r₂ := by
  have hsupplied : ∀ op s, suppliedController.step op s (workingController op s).1
      (workingController op s).2 := fun _ _ => rfl
  obtain ⟨x, ⟨tr, hx⟩, hpoised⟩ := poises hp hr h
  have hstation : Reaches (StationStep C suppliedController) ⟨bootReceiveInit, f, d, true⟩
      x.station :=
    .trans ((call_station hsupplied (x := ⟨bootReceiveInit, f, d, wire ++ payload, none⟩)
      (.begin ⟨e.permittedSlot, pure (some e.running)⟩)).elim fun _ hc => .single hc)
      (delivery_station hsupplied hx)
  obtain ⟨⟨hauth, -, -⟩, -⟩ := @perform_works C x.receiver x.flash x.device .step _
    hpoised.atRest (ready_works hp hpoised.authority hpoised.phase hpoised.snapshot
      hpoised.proposal)
  have hmoved : ((ReceiveCall.step.perform C x.receiver x.flash).run workingController
      x.device).2 ≠ x.device := fun hsame =>
    hpoised.authority.moved hp.accepted.next hauth (congrArg WorkingDevice.mem hsame)
  obtain ⟨op, d₁, hlast, hcut⟩ := exec_cut_last hsupplied hmoved
  obtain ⟨d', hc, hmem⟩ := cut_works op d₁
  rw [hlast] at hmem
  obtain ⟨tr, hrun⟩ := hstation.trans (.single (.cut rfl (hcut d' hc)))
  refine ⟨_, _, 1 - (1 - page), hrun.map (f := Station.seen WorkingDevice.flash)
    (StationStep.seen suppliedController_views), rfl, ?_⟩
  show Authority d'.mem _ r₂
  rw [hmem]
  exact hauth

/-- The station is cut when the package for slot B is its candidate. -/
theorem update_crash_consistent_station :
    ∃ tr s p, Run (StationStep packageCrypto (controllerDevice.sum hostDevice))
        ⟨bootReceiveInit, workingDriver, stationBoard.flash, true⟩ tr s ∧
      s.powered = false ∧
      bootStoreLoad.eval (storeAnswers s.device.board.mem) = .ok ⟨readyRecord, p⟩ ∧
      ∀ slot, slotValid slot = true →
        Backed packageCrypto s.device.board.mem readyRecord slot := by
  obtain ⟨tr, s, p, hr, hoff, hauth⟩ :=
    arrives_cut station_deliverable ⟨rfl, rfl⟩ station_authority
  obtain ⟨⟨a, hload, -, hbacked⟩, -⟩ :=
    @update_crash_consistent packageCrypto workingDriver stationBoard.flash
      ⟨factoryRecord, 0⟩ tr s station_loaded (fun _ hs => station_backed hs) rfl
      (fun _ => rfl) hr
  rw [hauth.loaded] at hload
  cases hload
  exact ⟨tr, s, p, hr, hoff, hauth.loaded, hbacked⟩

end EkBareMetal.Boot

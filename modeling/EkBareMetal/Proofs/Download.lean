import EkBareMetal.Proofs.Freshness
import EkBareMetal.Tools.Demo

/-!
# One download

What a download sends and reports, against everything it has seen. The session
is read as a history of requests with their answers, whatever these are: a
lost reply, a refusal, another status at every turn. A turn of the loop is
followed from the status it reads to the decision it takes, and what the loop
carries from one turn to the next is that its last status was one of the new
image, and its report one of the same trial.
-/

namespace EkBareMetal.Tools

open Text Interact
open Boot (BoundTo TrialRoles RolesFor Binding classify_binding runs_read)

variable {T : Type}

/-! ## Sessions -/

abbrev Session (T : Type) := List (Event (BenchSig T))

/-- A STOR under this name. -/
def stores (name : String) (e : Event (BenchSig T)) : Bool :=
  match e.op with
  | .inl (.stor n _) => n = ascii name
  | _ => false

/-- A line of the output that begins with SUCCESS. -/
def succeeds (e : Event (BenchSig T)) : Bool :=
  match e.op with
  | .inr (.print text) => (ascii "SUCCESS").isPrefixOf text
  | _ => false

def retrieved (name : String) (body : List UInt8) : Event (BenchSig T) :=
  ⟨.inl (.retr (ascii name)), .ok body⟩

/-- A status that was read in the session. -/
def ReadIn (h : Session T) (values : StatusValues) : Prop :=
  ∃ body, status body = .ok values ∧ retrieved "boot-status" body ∈ h

/-- What the upload of `a` was decided on: the status `before` admits one to the
slot it permits, and `a` is what the package for that slot was checked to be. -/
structure AdmittedBy (sha256 packages : List UInt8 → List UInt8) (a : Artifact)
    (before : StatusValues) : Prop where
  admits : Workflow.notAdmitted before (before.get "permitted_slot") = false
  package : a.body = packages (before.get "permitted_slot")
  checked : Artifact.fromBytes sha256 a.body = .ok a
  target : a.slot = before.get "permitted_slot"

/-- The session from the upload of `a` on. The last thing in front of it is the
status it was decided on. -/
def UploadedIn (sha256 packages : List UInt8 → List UInt8) (h : Session T) (a : Artifact)
    (before : StatusValues) (since : Session T) : Prop :=
  ∃ front text ans, h = front ++ ⟨.inl (.stor (ascii "firmware") a.body), ans⟩ :: since ∧
    front.getLast? = some (retrieved "boot-status" text) ∧ status text = .ok before ∧
    AdmittedBy sha256 packages a before

/-! ## Evidence -/

/-- The status is one of the uploaded image, after an acceptance that is newer
than `before`. -/
structure Authority (a : Artifact) (before observed : StatusValues) : Prop where
  running : observed.get "running_slot" = a.slot
  hash : observed.get "hash" = a.digest
  release : intOf (observed.get "release") = intOf a.release
  younger : sequenceOf before < intOf (observed.get "trial_id")
  reached : intOf (observed.get "trial_id") ≤ sequenceOf observed

structure Healthy (observed : StatusValues) : Prop where
  health : observed.get "health" = ascii "00000007"
  fault : observed.get "fault" = ascii "0"

structure ConfirmedAs (a : Artifact) (before observed : StatusValues) : Prop
    extends Authority a before observed, Healthy observed where
  confirmed : observed.get "confirmed_slot" = a.slot

structure TriedAs (a : Artifact) (before observed : StatusValues) : Prop
    extends Authority a before observed, Healthy observed where
  roles : TrialRoles a observed

/-- The report is one of the application of the slot, on the same trial. -/
structure ReportOf (a : Artifact) (report : BootReport) (observed : StatusValues) :
    Prop where
  application : APPLICATIONS.lookup a.slot = some report.application
  identity : ∀ key ∈ IMAGE_KEYS ++ ["trial_id"],
    report.snapshot.get key = observed.get key
  healthy : Healthy report.snapshot

/-- A report of the trial that `observed` shows was read. -/
def Reported (a : Artifact) (h : Session T) (observed : StatusValues) : Prop :=
  ∃ body report, bootReport body = .ok report ∧ retrieved "boot-report" body ∈ h ∧
    ReportOf a report observed

/-- Everything behind a request to confirm, the healthy trial being what was
read last. -/
def Confirmable (a : Artifact) (before : StatusValues) (past : Session T)
    (body : List UInt8) : Prop :=
  ∃ front text observed, past = front ++ [retrieved "boot-status" text] ∧
    status text = .ok observed ∧ TriedAs a before observed ∧ Reported a front observed ∧
    body = Workflow.confirmBody a (intOf (observed.get "trial_id"))

/-- What may be requested after the upload. -/
structure Permitted (a : Artifact) (before : StatusValues) (past : Session T)
    (e : Event (BenchSig T)) : Prop where
  upload : stores "firmware" e = false
  once : stores "confirm" e = true → ∀ e' ∈ past, stores "confirm" e' = false
  evidence : ∀ body, e.op = .inl (.stor (ascii "confirm") body) →
    Confirmable a before past body
  success : succeeds e = true → ∃ observed, ReadIn past observed ∧
    ConfirmedAs a before observed

/-- Neither a STOR nor the line of success. -/
structure Quiet (e : Event (BenchSig T)) : Prop where
  upload : stores "firmware" e = false
  confirm : stores "confirm" e = false
  success : succeeds e = false

section Vocabulary

variable {a : Artifact} {before observed : StatusValues} {h tr : Session T}
  {e : Event (BenchSig T)}

theorem ReadIn.append (hr : ReadIn h observed) (tr : Session T) :
    ReadIn (h ++ tr) observed := by
  obtain ⟨body, hb, hm⟩ := hr
  exact ⟨body, hb, List.mem_append_left _ hm⟩

theorem Reported.append (hr : Reported a h observed) (tr : Session T) :
    Reported a (h ++ tr) observed := by
  obtain ⟨body, report, hb, hm, ho⟩ := hr
  exact ⟨body, report, hb, List.mem_append_left _ hm, ho⟩

theorem Quiet.permitted (he : Quiet e) (past : Session T) : Permitted a before past e := by
  refine ⟨he.upload, fun hc => ?_, fun body hop => ?_, fun hs => ?_⟩
  · rw [he.confirm] at hc
    cases hc
  · have hc := he.confirm
    simp [stores, hop] at hc
  · rw [he.success] at hs
    cases hs

theorem quiet_left {e : Event TransportSig} (he : ∀ name body, e.op ≠ .stor name body) :
    Quiet (T := T) (Event.left e) := by
  obtain ⟨op, ans⟩ := e
  cases op with
  | stor name body => exact absurd rfl (he name body)
  | connect | binary | retr name => exact ⟨rfl, rfl, rfl⟩

end Vocabulary

/-! ## What the checks let pass -/

theorem raiseIf_ok {c : Prop} [Decidable c] {message : String} {u : Unit}
    (h : raiseIf c message = .ok u) : ¬ c := by
  intro hc
  rw [raiseIf, if_pos hc] at h
  cases h

theorem except_bind_ok {ε α β : Type} {x : Except ε α} {f : α → Except ε β} {b : β}
    (h : (x >>= f) = .ok b) : ∃ a, x = .ok a ∧ f a = .ok b := by
  cases x with
  | error e => cases h
  | ok a => exact ⟨a, rfl, h⟩

theorem requireHealthy_ok {observed : StatusValues} {u : Unit}
    (h : requireHealthy observed = .ok u) : Healthy observed := by
  have hne := raiseIf_ok h
  simp only [ne_eq, not_or, not_not] at hne
  exact ⟨hne.1, hne.2⟩

/-- Two statuses in order are of one image and one trial. -/
theorem forwardSnapshot_ok {previous current : StatusValues} {u : Unit}
    (h : forwardSnapshot previous current = .ok u) :
    ∀ key ∈ IMAGE_KEYS ++ ["trial_id"], previous.get key = current.get key := by
  obtain ⟨_, -, h⟩ := except_bind_ok h
  obtain ⟨_, -, h⟩ := except_bind_ok h
  obtain ⟨_, -, h⟩ := except_bind_ok h
  obtain ⟨_, hkeys, -⟩ := except_bind_ok h
  have hany := raiseIf_ok hkeys
  intro key hkey
  by_contra hne
  exact hany (List.any_eq_true.mpr ⟨key, hkey, by simpa using hne⟩)

theorem Authority.of_bound {w : Workflow} {a : Artifact} {before observed : StatusValues}
    (h : BoundTo w a observed) (hb : w.beforeUpload = some before) :
    Authority a before observed :=
  ⟨h.running, h.hash, h.release, h.younger before hb, h.reached⟩

theorem ReportOf.forward {a : Artifact} {report : BootReport}
    {previous current : StatusValues} {u : Unit} (h : ReportOf a report previous)
    (hf : forwardSnapshot previous current = .ok u) : ReportOf a report current :=
  ⟨h.application, fun key hkey => (h.identity key hkey).trans (forwardSnapshot_ok hf key hkey),
    h.healthy⟩

/-! ## The object -/

/-- All that a status changes of the object is the id, which is pinned. -/
def Pins (flow flow' : Workflow) : Prop :=
  ∃ t, flow' = { flow with trialId := t } ∧ ∀ id, flow.trialId = some id → t = some id

theorem Pins.refl (flow : Workflow) : Pins flow flow := ⟨flow.trialId, rfl, fun _ h => h⟩

theorem Pins.trans {a b c : Workflow} (h : Pins a b) (h' : Pins b c) : Pins a c := by
  obtain ⟨t, rfl, ht⟩ := h
  obtain ⟨u, rfl, hu⟩ := h'
  exact ⟨u, rfl, fun id hid => hu id (ht id hid)⟩

theorem Pins.trialId {flow flow' : Workflow} (h : Pins flow flow') {id : Nat}
    (hid : flow.trialId = some id) : flow'.trialId = some id := by
  obtain ⟨t, rfl, ht⟩ := h
  exact ht id hid

theorem Pins.artifact {flow flow' : Workflow} (h : Pins flow flow') :
    flow'.artifact = flow.artifact := by
  obtain ⟨t, rfl, -⟩ := h
  rfl

theorem Pins.beforeUpload {flow flow' : Workflow} (h : Pins flow flow') :
    flow'.beforeUpload = flow.beforeUpload := by
  obtain ⟨t, rfl, -⟩ := h
  rfl

theorem classify_pins (flow : Workflow) (observed : StatusValues) :
    Pins flow (flow.classify observed).2 := by
  have hset : ∀ trial, ¬ flow.trialId.any (· ≠ trial) = true →
      Pins flow { flow with trialId := some trial } := by
    intro trial hany
    refine ⟨some trial, rfl, fun id hid => ?_⟩
    rw [hid] at hany
    have he : id = trial := by simpa using hany
    rw [he]
  rw [Workflow.classify]
  split
  · exact Pins.refl flow
  dsimp only
  split
  · exact Pins.refl flow
  split
  · exact Pins.refl flow
  split
  · exact Pins.refl flow
  split
  · exact Pins.refl flow
  next hpinned =>
  split
  · exact Pins.refl flow
  split
  · exact hset _ hpinned
  split
  · exact Pins.refl flow
  · exact hset _ hpinned

theorem acceptReady_pins {flow flow' : Workflow} {observed : StatusValues}
    (h : acceptReady flow observed = .ok flow') : Pins flow flow' := by
  obtain ⟨_, -, h⟩ := except_bind_ok h
  split at h
  · obtain ⟨_, -, h⟩ := except_bind_ok h
    obtain ⟨_, hbinds, h⟩ := except_bind_ok h
    cases h
    have hne := raiseIf_ok hbinds
    simp only [not_or] at hne
    obtain ⟨-, -, -, -, -, -, hany⟩ := hne
    refine ⟨some _, rfl, fun id hid => ?_⟩
    rw [hid] at hany
    have he : id = intOf (observed.get "trial_id") := by simpa using hany
    rw [he]
  · cases h

/-! ## The checks of a turn -/

section Checks

variable {d d' : Download T} {a : Artifact} {before observed : StatusValues}
  {state : Verdict}

theorem takeReady_ok (h : d.takeReady observed = .ok d') :
    Pins d.flow d'.flow ∧
      ∃ ready, d' = { d with flow := d'.flow, readySequence := ready } := by
  rw [Download.takeReady] at h
  split at h
  · cases h
    exact ⟨Pins.refl _, d.readySequence, rfl⟩
  · obtain ⟨flow, hready, h⟩ := except_bind_ok h
    obtain ⟨_, -, h⟩ := except_bind_ok h
    obtain ⟨_, -, h⟩ := except_bind_ok h
    cases h
    exact ⟨acceptReady_pins hready, _, rfl⟩

theorem download_classify_ok (h : d.classify observed = .ok (state, d')) :
    (state = .unknown ∨ d.flow.classify observed = (.ok state, d'.flow)) ∧
      Pins d.flow d'.flow ∧ d' = { d with flow := d'.flow } := by
  rw [Download.classify] at h
  split at h
  · cases h
    exact ⟨.inl rfl, Pins.refl _, rfl⟩
  · have hpins := classify_pins d.flow observed
    split at h
    · cases h
    · next hclass =>
        cases h
        rw [hclass] at hpins
        exact ⟨.inr hclass, hpins, rfl⟩

/-- What lets a turn go on: an executing image that the last one leads to, or
none so far. -/
inductive Advanced (d : Download T) (observed : StatusValues) (state : Verdict) :
    Download T → Prop
  | executing (h : executing state = true)
      (healthy : state = .confirmed → Healthy observed)
      (forward : ∀ p, d.previous = some p → forwardSnapshot p observed = .ok ()) :
      Advanced d observed state { d with previous := some observed }
  | waiting (h : executing state = false) (none : d.previous = none) :
      Advanced d observed state d

theorem advance_ok (h : d.advance observed state = .ok d') :
    Advanced d observed state d' := by
  rw [Download.advance] at h
  split at h
  · next hexecuting =>
      obtain ⟨_, -, h⟩ := except_bind_ok h
      obtain ⟨_, -, h⟩ := except_bind_ok h
      obtain ⟨_, hhealthy, h⟩ := except_bind_ok h
      obtain ⟨_, -, h⟩ := except_bind_ok h
      obtain ⟨_, -, h⟩ := except_bind_ok h
      obtain ⟨_, hforward, h⟩ := except_bind_ok h
      cases h
      refine .executing hexecuting (fun hc => ?_) fun p hp => ?_
      · rw [if_pos hc] at hhealthy
        exact requireHealthy_ok hhealthy
      · rw [hp] at hforward
        exact hforward
  · next hexecuting =>
      obtain ⟨_, hprevious, h⟩ := except_bind_ok h
      cases h
      exact .waiting (by simpa using hexecuting) (by simpa using raiseIf_ok hprevious)

theorem binding_of_executing (h : executing state = true) : Binding state := by
  cases state <;> simp [executing, Binding] at h ⊢

/-- A classified image that the loop has checked is the uploaded one. -/
theorem authority_of_classify {flow flow' : Workflow}
    (h : flow.classify observed = (.ok state, flow')) (hs : executing state = true)
    (ha : flow.artifact = some a) (hb : flow.beforeUpload = some before) :
    Authority a before observed ∧ RolesFor a observed state ∧
      flow'.trialId = some (intOf (observed.get "trial_id")) := by
  obtain ⟨a', before', ha', hb', hbound, hroles, rfl⟩ :=
    classify_binding h (binding_of_executing hs)
  rw [ha] at ha'
  cases ha'
  exact ⟨.of_bound hbound hb, hroles, rfl⟩

theorem confirmed_of_classify {flow flow' : Workflow}
    (h : flow.classify observed = (.ok .confirmed, flow'))
    (ha : flow.artifact = some a) (hb : flow.beforeUpload = some before)
    (hhealthy : Healthy observed) : ConfirmedAs a before observed := by
  obtain ⟨hauthority, hroles, -⟩ := authority_of_classify h rfl ha hb
  exact ⟨hauthority, hhealthy, hroles.1⟩

end Checks

/-! ## What the loop carries

`since` is the session from the upload on, and `pin` the id that was pinned at
some moment before. -/

section Carried

variable {d d' : Download T} {a : Artifact} {before observed : StatusValues}
  {since tr : Session T} {state : Verdict} {pin : Option Nat}

structure Carried (a : Artifact) (before : StatusValues) (pin : Option Nat)
    (d : Download T) (since : Session T) : Prop where
  permitted : Each (Permitted a before) since
  artifact : d.flow.artifact = some a
  admitted : d.flow.beforeUpload = some before
  pinned : ∀ id, pin = some id → d.flow.trialId = some id
  unsent : d.confirmationSent = false → ∀ e ∈ since, stores "confirm" e = false
  reported : d.reportChecked = true → ∃ p, d.previous = some p ∧ Reported a since p

/-- The same in a turn, with what the state stands for. -/
structure Decided (a : Artifact) (before : StatusValues) (pin : Option Nat)
    (x : Verdict × Download T) (since : Session T) : Prop
    extends Carried a before pin x.2 since where
  confirmed : x.1 = .confirmed → ∃ observed, ReadIn since observed ∧
    ConfirmedAs a before observed

theorem Carried.quiet (h : Carried a before pin d since) (htr : ∀ e ∈ tr, Quiet e) :
    Carried a before pin d (since ++ tr) where
  permitted := each_quiet h.permitted fun e he past => (htr e he).permitted past
  artifact := h.artifact
  admitted := h.admitted
  pinned := h.pinned
  unsent := by
    intro hs e he
    rcases List.mem_append.mp he with he | he
    · exact h.unsent hs e he
    · exact (htr e he).confirm
  reported := by
    intro hr
    obtain ⟨p, hp, hrep⟩ := h.reported hr
    exact ⟨p, hp, hrep.append tr⟩

theorem Decided.quiet {x : Verdict × Download T} (h : Decided a before pin x since)
    (htr : ∀ e ∈ tr, Quiet e) : Decided a before pin x (since ++ tr) where
  toCarried := h.toCarried.quiet htr
  confirmed := by
    intro hc
    obtain ⟨observed, hr, hconf⟩ := h.confirmed hc
    exact ⟨observed, hr.append tr, hconf⟩

/-- A status that was read and has passed every check. -/
theorem observe_decided (h : Carried a before pin d since) (hread : ReadIn since observed)
    (hd : d.observe a observed = .ok (state, d')) : Decided a before pin (state, d') since := by
  obtain ⟨d₁, hready, hd⟩ := except_bind_ok hd
  obtain ⟨_, -, hd⟩ := except_bind_ok hd
  obtain ⟨_, -, hd⟩ := except_bind_ok hd
  obtain ⟨⟨state₁, d₂⟩, hclass, hd⟩ := except_bind_ok hd
  obtain ⟨_, -, hd⟩ := except_bind_ok hd
  obtain ⟨d₃, hadvance, hd⟩ := except_bind_ok hd
  obtain ⟨_, -, hd⟩ := except_bind_ok hd
  cases hd
  obtain ⟨hpins₁, ready, he₁⟩ := takeReady_ok hready
  obtain ⟨hstate, hpins₂, he₂⟩ := download_classify_ok hclass
  have hartifact : d₁.flow.artifact = some a := hpins₁.artifact.trans h.artifact
  have hbefore : d₁.flow.beforeUpload = some before := hpins₁.beforeUpload.trans h.admitted
  have hcarried : Carried a before pin d₂ since := by
    refine ⟨h.permitted, hpins₂.artifact.trans hartifact,
      hpins₂.beforeUpload.trans hbefore, ?_, ?_, ?_⟩
    · intro id hid
      exact hpins₂.trialId (hpins₁.trialId (h.pinned id hid))
    · rw [he₂, he₁]
      exact h.unsent
    · rw [he₂, he₁]
      exact h.reported
  cases advance_ok hadvance with
  | executing hexecuting hhealthy hforward =>
      refine ⟨⟨hcarried.permitted, hcarried.artifact, hcarried.admitted, hcarried.pinned,
        hcarried.unsent, ?_⟩, ?_⟩
      · intro hr
        obtain ⟨p, hp, body, report, hbody, hmem, hof⟩ := hcarried.reported hr
        exact ⟨observed, rfl, body, report, hbody, hmem, hof.forward (hforward p hp)⟩
      · intro hc
        dsimp only at hc
        subst hc
        have hclassified := hstate.resolve_left (by decide)
        exact ⟨observed, hread,
          confirmed_of_classify hclassified hartifact hbefore (hhealthy rfl)⟩
  | waiting hexecuting =>
      refine ⟨hcarried, fun hc => ?_⟩
      dsimp only at hc
      subst hc
      cases hexecuting

/-- The report and the status after it. -/
theorem takeReport_decided (h : Carried a before pin d since) {report : BootReport}
    {current : StatusValues} {body : List UInt8} (hbody : bootReport body = .ok report)
    (hmem : retrieved "boot-report" body ∈ since) (hread : ReadIn since current)
    (hd : d.takeReport a report current = .ok (state, d')) :
    Decided a before pin (state, d') since ∧
      ∃ p, d'.previous = some p ∧ Reported a since p := by
  rw [Download.takeReport] at hd
  split at hd
  · cases hd
  next previous hprevious =>
  obtain ⟨_, -, hd⟩ := except_bind_ok hd
  obtain ⟨_, hforward, hd⟩ := except_bind_ok hd
  obtain ⟨_, hreport, hd⟩ := except_bind_ok hd
  obtain ⟨_, hcurrent, hd⟩ := except_bind_ok hd
  split at hd
  · cases hd
  next state₁ flow hclass =>
  obtain ⟨_, hmatches, hd⟩ := except_bind_ok hd
  cases hd
  have hpins := classify_pins d.flow current
  rw [hclass] at hpins
  have hne := raiseIf_ok hmatches
  simp only [ne_eq, not_or, not_not] at hne
  obtain ⟨happlication, -⟩ := hne
  have hof : ReportOf a report current :=
    ⟨happlication, forwardSnapshot_ok hforward, requireHealthy_ok hreport⟩
  have hreported : Reported a since current := ⟨body, report, hbody, hmem, hof⟩
  refine ⟨⟨⟨h.permitted, hpins.artifact.trans h.artifact,
    hpins.beforeUpload.trans h.admitted, fun id hid => hpins.trialId (h.pinned id hid),
    h.unsent, fun _ => ⟨current, rfl, hreported⟩⟩, fun hc => ?_⟩, current, rfl, hreported⟩
  dsimp only at hc
  subst hc
  exact ⟨current, hread,
    confirmed_of_classify hclass h.artifact h.admitted (requireHealthy_ok hcurrent)⟩

end Carried

/-! ## The methods -/

section Methods

variable {α : Type} {tr : List (Event TransportSig)}

/-- The status is in the last answer of a read. -/
theorem runs_read_last {values : StatusValues}
    (h : Runs Workflow.read tr (.ok values)) :
    ∃ front text, status text = .ok values ∧
      tr = front ++ [⟨.retr (ascii "boot-status"), .ok text⟩] := by
  obtain ⟨connected, rest, rfl, hc⟩ := runs_ask_iff.mp h
  cases connected with
  | error e =>
      obtain ⟨-, he⟩ := runs_pure_iff.mp hc
      cases he
  | ok u =>
      obtain ⟨binary, rest', rfl, hb⟩ := runs_ask_iff.mp hc
      cases binary with
      | error e =>
          obtain ⟨-, he⟩ := runs_pure_iff.mp hb
          cases he
      | ok v =>
          obtain ⟨answer, rest'', rfl, hr⟩ := runs_ask_iff.mp hb
          cases answer with
          | error e =>
              obtain ⟨-, he⟩ := runs_pure_iff.mp hr
              cases he
          | ok text =>
              obtain ⟨rfl, he⟩ := runs_pure_iff.mp hr
              exact ⟨[⟨.connect, .ok u⟩, ⟨.binary, .ok v⟩], text, he.symm, rfl⟩

theorem readIn_read {values : StatusValues} (h : Runs Workflow.read tr (.ok values)) :
    ReadIn (T := T) (tr.map Event.left) values := by
  obtain ⟨front, text, hstatus, rfl⟩ := runs_read_last h
  refine ⟨text, hstatus, ?_⟩
  rw [List.map_append]
  exact List.mem_append_right _ List.mem_cons_self

/-- The ways a request to confirm ends: in front of the read, in front of the
STOR, on an image that is confirmed, or after the STOR, whatever its reply. -/
inductive Confirming (flow : Workflow) (validate : StatusValues → Reply α) :
    List (Event TransportSig) → Reply (Verdict × Option α × Workflow) → Prop
  | raised {tr : List (Event TransportSig)} {r : Reply StatusValues} (e : PyError)
      (hread : Runs Workflow.read tr r) : Confirming flow validate tr (.error e)
  | lost {tr : List (Event TransportSig)} {r : Reply StatusValues}
      (hread : Runs Workflow.read tr r) :
      Confirming flow validate tr
        (.ok (.unknown, none, { flow with confirmAttempted := false }))
  | already {tr : List (Event TransportSig)} {observed : StatusValues} {kept : α}
      {flow' : Workflow} (hread : Runs Workflow.read tr (.ok observed))
      (hvalidate : validate observed = .ok kept)
      (hclass : Workflow.classify { flow with confirmAttempted := false } observed =
        (.ok .confirmed, flow')) :
      Confirming flow validate tr (.ok (.confirmed, some kept, flow'))
  | sent {front : List (Event TransportSig)} {observed : StatusValues} {kept : α}
      {flow' : Workflow} {a : Artifact} {trialId : Nat} {ans : Except PyError Unit}
      {r : Reply (Verdict × Option α × Workflow)}
      (hread : Runs Workflow.read front (.ok observed))
      (hvalidate : validate observed = .ok kept)
      (hclass : Workflow.classify { flow with confirmAttempted := false } observed =
        (.ok .trial, flow'))
      (hartifact : flow'.artifact = some a) (htrial : flow'.trialId = some trialId)
      (hr : ∀ x, r = .ok x →
        x = (.unknown, some kept, { flow' with confirmAttempted := true })) :
      Confirming flow validate
        (front ++ [⟨.stor (ascii "confirm") (Workflow.confirmBody a trialId), ans⟩]) r

theorem runs_confirmKeeping {flow : Workflow} {validate : StatusValues → Reply α}
    {r : Reply (Verdict × Option α × Workflow)}
    (h : Runs (flow.confirmKeeping validate) tr r) : Confirming flow validate tr r := by
  rw [Workflow.confirmKeeping] at h
  obtain ⟨tr₁, x, tr₂, rfl, hread, h⟩ := runs_bind_iff'.mp h
  cases x with
  | error e =>
      dsimp only at h
      split at h
      · obtain ⟨rfl, rfl⟩ := runs_pure_iff.mp h
        rw [List.append_nil]
        exact .raised e hread
      · obtain ⟨rfl, rfl⟩ := runs_pure_iff.mp h
        rw [List.append_nil]
        exact .lost hread
  | ok observed =>
      dsimp only at h
      split at h
      · next e _ =>
          obtain ⟨rfl, rfl⟩ := runs_pure_iff.mp h
          rw [List.append_nil]
          exact .raised e hread
      next kept hvalidate =>
      split at h
      · next e _ _ =>
          obtain ⟨rfl, rfl⟩ := runs_pure_iff.mp h
          rw [List.append_nil]
          exact .raised e hread
      · next flow' hclass =>
          obtain ⟨rfl, rfl⟩ := runs_pure_iff.mp h
          rw [List.append_nil]
          exact .already hread hvalidate hclass
      · next flow' hclass =>
          split at h
          · next a trialId hartifact htrial =>
              obtain ⟨answer, rest, rfl, hk⟩ := runs_ask_iff.mp h
              have hend : rest = [] ∧ ∀ x, r = .ok x →
                  x = (.unknown, some kept, { flow' with confirmAttempted := true }) := by
                split at hk
                · obtain ⟨rfl, rfl⟩ := runs_pure_iff.mp hk
                  exact ⟨rfl, fun x hx => by cases hx; rfl⟩
                · obtain ⟨rfl, rfl⟩ := runs_pure_iff.mp hk
                  exact ⟨rfl, nofun⟩
                · obtain ⟨rfl, rfl⟩ := runs_pure_iff.mp hk
                  exact ⟨rfl, fun x hx => by cases hx; rfl⟩
              obtain ⟨rfl, hr⟩ := hend
              exact .sent hread hvalidate hclass hartifact htrial hr
          · obtain ⟨rfl, rfl⟩ := runs_pure_iff.mp h
            rw [List.append_nil]
            exact .raised .other hread
      · obtain ⟨rfl, rfl⟩ := runs_pure_iff.mp h
        rw [List.append_nil]
        exact .raised _ hread

theorem quiet_map {tr : List (Event TransportSig)}
    (h : ∀ e ∈ tr, ∀ name body, e.op ≠ .stor name body) :
    ∀ e ∈ tr.map (Event.left (T := ConsoleSig T)), Quiet (T := T) e := by
  intro e he
  obtain ⟨e', he', rfl⟩ := List.mem_map.mp he
  exact quiet_left (h e' he')

theorem runs_readReport {r : Reply (BootReport × StatusValues)}
    (h : Runs readReport tr r) :
    (∀ e ∈ tr, ∀ name body, e.op ≠ .stor name body) ∧
      ∀ report current, r = .ok (report, current) →
        ∃ body, bootReport body = .ok report ∧
          retrieved "boot-report" body ∈ tr.map (Event.left (T := ConsoleSig T)) ∧
          ReadIn (T := T) (tr.map Event.left) current := by
  obtain ⟨connected, rest, rfl, hc⟩ := runs_ask_iff.mp h
  cases connected with
  | error e =>
      obtain ⟨rfl, rfl⟩ := runs_pure_iff.mp hc
      exact ⟨by simp, nofun⟩
  | ok u =>
      obtain ⟨binary, rest', rfl, hb⟩ := runs_ask_iff.mp hc
      cases binary with
      | error e =>
          obtain ⟨rfl, rfl⟩ := runs_pure_iff.mp hb
          exact ⟨by simp, nofun⟩
      | ok v =>
          obtain ⟨answer, rest'', rfl, hr⟩ := runs_ask_iff.mp hb
          cases answer with
          | error e =>
              obtain ⟨rfl, rfl⟩ := runs_pure_iff.mp hr
              exact ⟨by simp, nofun⟩
          | ok body =>
              dsimp only at hr
              split at hr
              · obtain ⟨rfl, rfl⟩ := runs_pure_iff.mp hr
                exact ⟨by simp, nofun⟩
              next report hreport =>
              obtain ⟨tr₁, x, tr₂, rfl, hread, hk⟩ := runs_bind_iff'.mp hr
              have hnone := (runs_read hread).1
              cases x with
              | error e =>
                  obtain ⟨rfl, rfl⟩ := runs_pure_iff.mp hk
                  refine ⟨?_, nofun⟩
                  rw [List.append_nil]
                  simpa using hnone
              | ok values =>
                  obtain ⟨rfl, rfl⟩ := runs_pure_iff.mp hk
                  rw [List.append_nil]
                  refine ⟨by simpa using hnone, fun report' current he => ?_⟩
                  cases he
                  refine ⟨body, hreport, ?_, ?_⟩
                  · simp only [List.map_cons]
                    exact List.mem_cons_of_mem _ (List.mem_cons_of_mem _ List.mem_cons_self)
                  · obtain ⟨text, hstatus, hmem⟩ := readIn_read (T := T) hread
                    refine ⟨text, hstatus, ?_⟩
                    simp only [List.map_cons]
                    exact List.mem_cons_of_mem _ (List.mem_cons_of_mem _
                      (List.mem_cons_of_mem _ hmem))

theorem runs_unlessLost {p : Prog TransportSig (Reply α)} {tr : Session T}
    {r : Reply (Option α)} (h : Runs (unlessLost p : Py T (Option α)).run tr r) :
    ∃ tr' x, tr = tr'.map Event.left ∧ Runs p tr' x ∧
      ∀ a, r = .ok (some a) → x = .ok a := by
  obtain ⟨tr₁, x, tr₂, rfl, hp, hk⟩ := runs_bind_iff'.mp h
  obtain ⟨tr', rfl, hrun⟩ := runs_left hp
  have hend : tr₂ = [] ∧ ∀ a, r = .ok (some a) → x = .ok a := by
    split at hk
    · obtain ⟨rfl, rfl⟩ := runs_pure_iff.mp hk
      exact ⟨rfl, nofun⟩
    · obtain ⟨rfl, rfl⟩ := runs_pure_iff.mp hk
      exact ⟨rfl, nofun⟩
    · obtain ⟨rfl, rfl⟩ := runs_pure_iff.mp hk
      exact ⟨rfl, fun a ha => by cases ha; rfl⟩
  obtain ⟨rfl, hx⟩ := hend
  exact ⟨tr', x, by rw [List.append_nil], hrun, hx⟩

end Methods

/-! ## The phases of a turn -/

section Silent

variable {α β : Type} {d : Download T} {a : Artifact} {before : StatusValues}
  {since : Session T} {pin : Option Nat}

/-- Nothing but reads, times, sleeps and lines that are not of success. -/
def Silent (p : Py T α) : Prop := ∀ tr r, Runs p.run tr r → ∀ e ∈ tr, Quiet e

theorem silent_bind {p : Py T α} {f : α → Py T β} (hp : Silent p)
    (hf : ∀ a, Silent (f a)) : Silent (p >>= f) := by
  intro tr r hr e he
  obtain ⟨tr₁, x, tr₂, rfl, h₁, h₂⟩ := runs_bind_iff.mp hr
  rcases List.mem_append.mp he with he | he
  · exact hp tr₁ x h₁ e he
  · cases x with
    | error er =>
        obtain ⟨rfl, -⟩ := runs_pure_iff.mp h₂
        cases he
    | ok b => exact hf b tr₂ r h₂ e he

theorem silent_check (x : Reply α) : Silent (check x : Py T α) := by
  intro tr r hr e he
  obtain ⟨rfl, -⟩ := runs_pure_iff.mp hr
  cases he

theorem silent_pure (b : α) : Silent (pure b : Py T α) := silent_check (.ok b)

theorem silent_clock : Silent (clock : Py T T) := by
  intro tr r hr e he
  obtain ⟨now, rest, rfl, hk⟩ := runs_ask_iff.mp hr
  obtain ⟨rfl, -⟩ := runs_pure_iff.mp hk
  rw [List.mem_singleton] at he
  subst he
  exact ⟨rfl, rfl, rfl⟩

theorem silent_sleep (seconds : T) : Silent (sleep seconds : Py T Unit) := by
  intro tr r hr e he
  obtain ⟨answer, rest, rfl, hk⟩ := runs_call_iff.mp hr
  obtain ⟨rfl, -⟩ := runs_ret_iff.mp hk
  rw [List.mem_singleton] at he
  subst he
  exact ⟨rfl, rfl, rfl⟩

theorem silent_print {text : List UInt8} (h : (ascii "SUCCESS").isPrefixOf text = false) :
    Silent (print text : Py T Unit) := by
  intro tr r hr e he
  obtain ⟨answer, rest, rfl, hk⟩ := runs_call_iff.mp hr
  obtain ⟨rfl, -⟩ := runs_ret_iff.mp hk
  rw [List.mem_singleton] at he
  subst he
  exact ⟨rfl, rfl, h⟩

theorem carried_silent {p : Py T α} (hp : Silent p) (h : Carried a before pin d since) :
    Ensures (Each (Permitted a before)) p (fun _ => Carried a before pin d) since := by
  intro tr r hr
  have hq := h.quiet (hp tr r hr)
  cases r with
  | error e => exact hq.permitted
  | ok b => exact hq

theorem decided_silent {p : Py T α} {x : Verdict × Download T} (hp : Silent p)
    (h : Decided a before pin x since) :
    Ensures (Each (Permitted a before)) p (fun _ => Decided a before pin x) since := by
  intro tr r hr
  have hq := h.quiet (hp tr r hr)
  cases r with
  | error e => exact hq.permitted
  | ok b => exact hq

theorem check_ensures {x : Reply α} {Q : α → Session T → Prop}
    (hg : Each (Permitted a before) since) (hx : ∀ b, x = .ok b → Q b since) :
    Ensures (Each (Permitted a before)) (check x : Py T α) Q since := by
  refine ensures_ofExcept ?_
  cases x with
  | error e => exact hg
  | ok b => exact hx b rfl

end Silent

section Phases

variable {d d' : Download T} {a : Artifact}
  {before observed : StatusValues} {since : Session T} {state : Verdict} {pin : Option Nat}

theorem read_ensures (h : Carried a before pin d since) :
    Ensures (Each (Permitted a before)) (unlessLost Workflow.read : Py T _)
      (fun x h' => Carried a before pin d h' ∧
        ∀ observed, x = some observed → ReadIn h' observed) since := by
  intro tr r hr
  obtain ⟨tr', x, rfl, hread, hx⟩ := runs_unlessLost hr
  have hq := h.quiet (quiet_map (T := T) (runs_read hread).1)
  cases r with
  | error e => exact hq.permitted
  | ok v =>
      refine ⟨hq, fun observed hv => ?_⟩
      subst hv
      have hok := hx observed rfl
      subst hok
      obtain ⟨body, hstatus, hmem⟩ := readIn_read (T := T) hread
      exact ⟨body, hstatus, List.mem_append_right _ hmem⟩

theorem status_keys {body : List UInt8} {values : StatusValues}
    (h : status body = .ok values) : values.map (·.1) = KEYS := by
  rw [status] at h
  split at h
  · cases h
  split at h
  · cases h
  split at h
  · cases h
  split at h
  · cases h
  next hkeys =>
  split at h
  · cases h
  cases hc : checkValues _ KEYS.tail with
  | error e =>
      rw [hc] at h
      cases h
  | ok _ =>
      rw [hc] at h
      cases h
      exact not_not.mp hkeys

/-- A status is shown from its format on. -/
theorem silent_display {label : String} (hread : ReadIn since observed)
    (hlabel : ∀ text, (ascii "SUCCESS").isPrefixOf (ascii label ++ text) = false) :
    Silent (display label observed : Py T Unit) := by
  refine silent_bind (silent_print (hlabel _)) fun _ => silent_print ?_
  obtain ⟨body, hstatus, -⟩ := hread
  have hkeys := status_keys hstatus
  cases observed with
  | nil => cases hkeys
  | cons f rest =>
      obtain ⟨key, value⟩ := f
      injection hkeys with hkey _
      dsimp only at hkey
      subst hkey
      rfl

theorem announce_ensures (h : Decided a before pin (state, d) since)
    (hread : ReadIn since observed) :
    Ensures (Each (Permitted a before)) (d.announce a observed)
      (fun d' => Decided a before pin (state, d')) since := by
  rw [Download.announce]
  split
  · refine ensures_bind (ensures_mono
      (decided_silent (silent_display hread fun _ => rfl) h) fun _ h₁ hd => ?_)
    refine ensures_bind (ensures_mono
      (decided_silent (silent_print rfl) hd) fun _ h₂ hd => ?_)
    exact ensures_pure ⟨⟨hd.permitted, hd.artifact, hd.admitted, hd.pinned, hd.unsent,
      hd.reported⟩, hd.confirmed⟩
  · exact ensures_pure h

theorem validatePreconfirm_ok {kept : StatusValues}
    (h : d.validatePreconfirm observed = .ok kept) :
    observed = kept ∧ Healthy observed ∧
      ∃ p, d.previous = some p ∧ forwardSnapshot p observed = .ok () := by
  rw [Download.validatePreconfirm] at h
  split at h
  · cases h
  next previous hprevious =>
  obtain ⟨_, hforward, h⟩ := except_bind_ok h
  obtain ⟨_, hhealthy, h⟩ := except_bind_ok h
  cases h
  exact ⟨rfl, requireHealthy_ok hhealthy, previous, hprevious, hforward⟩

/-- The state and the variables after a request to confirm. -/
def asked (d : Download T) (state : Verdict)
    (x : Verdict × Option StatusValues × Workflow) : Verdict × Download T :=
  (if x.1 = .confirmed then x.1 else state,
    { d with
      flow := x.2.2
      previous := x.2.1.or d.previous
      confirmationSent := x.2.2.confirmAttempted })

/-- The only STOR of the loop: behind it are a read of a healthy trial and the
report of the same trial. -/
theorem confirmKeeping_ensures (h : Decided a before pin (.trial, d) since)
    (hchecked : d.reportChecked = true) (hunsent : d.confirmationSent = false) :
    Ensures (Each (Permitted a before))
      (method (d.flow.confirmKeeping d.validatePreconfirm) : Py T _)
      (fun x => Decided a before pin (asked d .trial x)) since := by
  intro tr r hr
  obtain ⟨tr', rfl, hrun⟩ := runs_left hr
  cases runs_confirmKeeping hrun with
  | raised e hread =>
      exact (h.quiet (quiet_map (T := T) (runs_read hread).1)).permitted
  | lost hread =>
      have hq := h.quiet (quiet_map (T := T) (runs_read hread).1)
      refine ⟨⟨hq.permitted, hq.artifact, hq.admitted, hq.pinned, fun _ => hq.unsent hunsent,
        hq.reported⟩, nofun⟩
  | @already _ observed _ _ hread hvalidate hclass =>
      have hq := h.quiet (quiet_map (T := T) (runs_read hread).1)
      obtain ⟨rfl, hhealthy, p, hp, hforward⟩ := validatePreconfirm_ok hvalidate
      have hpins := classify_pins { d.flow with confirmAttempted := false } observed
      rw [hclass] at hpins
      refine ⟨⟨hq.permitted, hpins.artifact.trans hq.artifact,
        hpins.beforeUpload.trans hq.admitted, fun id hid => hpins.trialId (hq.pinned id hid),
        fun _ => hq.unsent hunsent, fun hr => ?_⟩, fun _ => ?_⟩
      · obtain ⟨q, hq', body, report, hbody, hmem, hof⟩ := hq.reported hr
        rw [hp] at hq'
        cases hq'
        exact ⟨_, rfl, body, report, hbody, hmem, hof.forward hforward⟩
      · obtain ⟨body, hstatus, hmem⟩ := readIn_read (T := T) hread
        exact ⟨_, ⟨body, hstatus, List.mem_append_right _ hmem⟩,
          confirmed_of_classify hclass h.artifact h.admitted hhealthy⟩
  | @sent front observed _ flow' a' trialId ans _ hread hvalidate hclass hartifact htrial hresult =>
      have hq := h.quiet (quiet_map (T := T) (runs_read hread).1)
      obtain ⟨rfl, hhealthy, p, hp, hforward⟩ := validatePreconfirm_ok hvalidate
      have hpins := classify_pins { d.flow with confirmAttempted := false } observed
      rw [hclass] at hpins
      have ha' := hpins.artifact.trans h.artifact
      rw [hartifact] at ha'
      cases ha'
      obtain ⟨hauthority, hroles, hid⟩ :=
        authority_of_classify hclass rfl h.artifact h.admitted
      rw [htrial] at hid
      cases hid
      obtain ⟨q, hq', body, report, hbody, hmem, hof⟩ := h.reported hchecked
      rw [hp] at hq'
      cases hq'
      obtain ⟨front', text, hstatus, rfl⟩ := runs_read_last hread
      have hreported : Reported a (since ++ front'.map Event.left) observed :=
        ⟨body, report, hbody, List.mem_append_left _ hmem, hof.forward hforward⟩
      have hstore : Permitted a before
          (since ++ (front' ++ [(⟨.retr (ascii "boot-status"), .ok text⟩ :
            Event TransportSig)]).map Event.left)
          (Event.left (T := ConsoleSig T) ⟨.stor (ascii "confirm") (Workflow.confirmBody a
            (intOf (observed.get "trial_id"))), ans⟩) := by
        refine ⟨?_, fun _ => hq.unsent hunsent, ?_, nofun⟩
        · show decide (ascii "confirm" = ascii "firmware") = false
          decide
        intro body' hop
        injection hop with hop
        injection hop with _ hop
        refine ⟨since ++ front'.map Event.left, text, _, ?_, hstatus,
          ⟨hauthority, hhealthy, hroles.1⟩, hreported, hop.symm⟩
        rw [List.map_append, List.append_assoc]
        rfl
      have hpermitted := each_concat hq.permitted hstore
      rw [List.map_append, ← List.append_assoc]
      cases r with
      | error e => exact hpermitted
      | ok x =>
          cases hresult x rfl
          refine ⟨⟨hpermitted, hpins.artifact.trans hq.artifact,
            hpins.beforeUpload.trans hq.admitted,
            fun id hid => hpins.trialId (hq.pinned id hid), nofun, fun _ => ?_⟩, nofun⟩
          refine ⟨_, rfl, body, report, hbody, ?_, hof.forward hforward⟩
          exact List.mem_append_left _ (List.mem_append_left _ hmem)

variable [LE T] [DecidableLE T]

theorem silent_expired (d : Download T) : Silent d.expired := by
  rw [Download.expired]
  split
  · exact silent_pure _
  · exact silent_bind silent_clock fun _ => silent_pure _

/-- What is known where a download is over. -/
structure Succeeded (a : Artifact) (before : StatusValues) (pin : Option Nat)
    (flow : Workflow) (since : Session T) : Prop where
  permitted : Each (Permitted a before) since
  artifact : flow.artifact = some a
  pinned : ∀ id, pin = some id → flow.trialId = some id
  confirmed : ∃ observed, ReadIn since observed ∧ ConfirmedAs a before observed

theorem finish_ensures {interval : T} (h : Decided a before pin (state, d) since) :
    Ensures (Each (Permitted a before)) (d.finish a interval state)
      (fun x h' => x.elim (Carried a before pin · h') (Succeeded a before pin · h'))
      since := by
  rw [Download.finish]
  split
  · next hdone =>
      obtain ⟨observed, hread, hconfirmed⟩ := h.confirmed hdone.1
      refine ensures_bind ?_
      intro tr r hr
      obtain ⟨answer, rest, rfl, hk⟩ := runs_call_iff.mp hr
      obtain ⟨rfl, rfl⟩ := runs_ret_iff.mp hk
      have hpermitted : Each (Permitted a before) (since ++
          [(⟨.inr (.print (Download.success a d.flow.trialId)), r⟩ :
            Event (BenchSig T))]) :=
        each_concat h.permitted
          ⟨rfl, nofun, nofun, fun _ => ⟨observed, hread, hconfirmed⟩⟩
      cases r with
      | error e => exact hpermitted
      | ok u =>
          exact ensures_pure ⟨hpermitted, h.artifact, h.pinned, observed, hread.append _, hconfirmed⟩
  · refine ensures_bind (ensures_mono (decided_silent ?_ h) fun _ h₁ hd => ?_)
    · split
      · exact silent_bind silent_clock fun _ => silent_pure _
      · exact silent_pure _
    refine ensures_bind (check_ensures hd.permitted fun _ _ => ?_)
    refine ensures_bind (ensures_mono (decided_silent (silent_expired d) hd) fun _ h₂ hd => ?_)
    refine ensures_bind (check_ensures hd.permitted fun _ _ => ?_)
    refine ensures_bind (ensures_mono (decided_silent (silent_sleep interval) hd)
      fun _ h₃ hd => ?_)
    exact ensures_pure hd.toCarried

variable [Add T]

theorem report_ensures {deadline : T} (h : Decided a before pin (state, d) since) :
    Ensures (Each (Permitted a before)) (d.report a deadline state)
      (fun x h' => x.elim (Carried a before pin d h') (Decided a before pin · h')) since := by
  rw [Download.report]
  split
  · refine ensures_bind ?_
    intro tr r hr
    obtain ⟨tr', x, rfl, hread, hx⟩ := runs_unlessLost hr
    obtain ⟨hnone, hseen⟩ := runs_readReport (T := T) hread
    have hq := h.toCarried.quiet (quiet_map (T := T) hnone)
    cases r with
    | error e => exact hq.permitted
    | ok v =>
        cases v with
        | none =>
            refine ensures_bind (ensures_mono (carried_silent (silent_expired d) hq) ?_)
            intro late h₁ hc
            refine ensures_bind (check_ensures hc.permitted fun _ _ => ?_)
            exact ensures_pure hc
        | some y =>
            obtain ⟨report, current⟩ := y
            obtain ⟨body, hbody, hmem, text, hstatus, htext⟩ := hseen _ _ (hx _ rfl)
            have hcurrent : ReadIn (since ++ tr'.map Event.left) current :=
              ⟨text, hstatus, List.mem_append_right _ htext⟩
            refine ensures_bind (check_ensures hq.permitted fun z hz => ?_)
            obtain ⟨state', d'⟩ := z
            obtain ⟨hd, p, hp, hrep⟩ := takeReport_decided hq hbody
              (List.mem_append_right _ hmem) hcurrent hz
            have hdone : Decided a before pin
                (state', { d' with reportChecked := true, waitingReset := false })
                (since ++ tr'.map Event.left) :=
              ⟨⟨hd.permitted, hd.artifact, hd.admitted, hd.pinned, hd.unsent,
                fun _ => ⟨p, hp, hrep⟩⟩, hd.confirmed⟩
            refine ensures_bind (ensures_mono
              (decided_silent (silent_print rfl) hdone) fun _ h₁ hd => ?_)
            refine ensures_bind (ensures_mono
              (decided_silent silent_clock hd) fun now h₂ hd => ?_)
            exact ensures_pure ⟨⟨hd.permitted, hd.artifact, hd.admitted, hd.pinned, hd.unsent,
              hd.reported⟩, hd.confirmed⟩
  · exact ensures_pure h

theorem confirm_ensures {deadline : T} (h : Decided a before pin (state, d) since) :
    Ensures (Each (Permitted a before)) (d.confirm deadline state)
      (Decided a before pin) since := by
  rw [Download.confirm]
  split
  · next hready =>
      obtain ⟨rfl, hchecked, hunsent⟩ := hready
      refine ensures_bind (ensures_mono (decided_silent silent_clock h) fun now h₁ hd => ?_)
      refine ensures_bind (check_ensures hd.permitted fun _ _ => ?_)
      refine ensures_bind (ensures_mono (confirmKeeping_ensures hd hchecked hunsent) ?_)
      intro x h₂ hx
      obtain ⟨result, kept, flow⟩ := x
      dsimp only
      split
      · refine ensures_bind (ensures_mono (decided_silent silent_clock hx) fun now h₃ hd => ?_)
        exact ensures_pure ⟨⟨hd.permitted, hd.artifact, hd.admitted, hd.pinned, hd.unsent,
          hd.reported⟩, hd.confirmed⟩
      · exact ensures_pure hx
  · exact ensures_pure h

/-- Whatever one turn reads, the loop goes on with what it carries, or is over. -/
theorem turn_ensures {interval deadline : T} (h : Carried a before pin d since) :
    Ensures (Each (Permitted a before)) (d.turn a interval deadline)
      (fun x h' => x.elim (Carried a before pin · h') (Succeeded a before pin · h'))
      since := by
  rw [Download.turn]
  refine ensures_bind (ensures_mono (read_ensures h) ?_)
  intro x h₁ hx
  obtain ⟨hc, hread⟩ := hx
  cases x with
  | none =>
      refine ensures_bind (ensures_mono (carried_silent (silent_expired d) hc)
        fun _ h₂ hc => ?_)
      refine ensures_bind (check_ensures hc.permitted fun _ _ => ?_)
      refine ensures_bind (ensures_mono (carried_silent (silent_sleep interval) hc)
        fun _ h₃ hc => ?_)
      exact ensures_pure hc
  | some observed =>
      have hseen := hread observed rfl
      refine ensures_bind (check_ensures hc.permitted fun y hy => ?_)
      obtain ⟨state, d₁⟩ := y
      have hdecided := observe_decided hc hseen hy
      refine ensures_bind (ensures_mono (announce_ensures hdecided hseen)
        fun d₂ h₂ hd => ?_)
      refine ensures_bind (ensures_mono (report_ensures hd) fun z h₃ hz => ?_)
      cases z with
      | none =>
          refine ensures_bind (ensures_mono (carried_silent (silent_sleep interval) hz)
            fun _ h₄ hc => ?_)
          exact ensures_pure hc
      | some w =>
          obtain ⟨state', d₃⟩ := w
          refine ensures_bind (ensures_mono (confirm_ensures hz) fun v h₄ hv => ?_)
          exact finish_ensures hv

end Phases

/-! ## The whole session -/

section Session

variable {T : Type} {sha256 packages : List UInt8 → List UInt8} {a : Artifact}
  {before : StatusValues} {h since : Session T}

/-- What may be requested at all. -/
structure Lawful (sha256 packages : List UInt8 → List UInt8) (past : Session T)
    (e : Event (BenchSig T)) : Prop where
  upload : stores "firmware" e = true → ∀ e' ∈ past, stores "firmware" e' = false
  once : stores "confirm" e = true → ∀ e' ∈ past, stores "confirm" e' = false
  evidence : ∀ body, e.op = .inl (.stor (ascii "confirm") body) →
    ∃ a before since, UploadedIn sha256 packages past a before since ∧
      Confirmable a before since body
  success : succeeds e = true → ∃ a before since observed,
    UploadedIn sha256 packages past a before since ∧ ReadIn since observed ∧
      ConfirmedAs a before observed

theorem Quiet.lawful {e : Event (BenchSig T)} (he : Quiet e) (past : Session T) :
    Lawful sha256 packages past e := by
  refine ⟨fun hs => ?_, fun hs => ?_, fun body hop => ?_, fun hs => ?_⟩
  · rw [he.upload] at hs
    cases hs
  · rw [he.confirm] at hs
    cases hs
  · have hc := he.confirm
    simp [stores, hop] at hc
  · rw [he.success] at hs
    cases hs

/-- The session up to the upload of `a`, which `before` admitted. -/
structure Opening (sha256 packages : List UInt8 → List UInt8) (h : Session T)
    (a : Artifact) (before : StatusValues) : Prop where
  lawful : Each (Lawful sha256 packages) h
  unsent : ∀ e ∈ h, stores "confirm" e = false
  uploaded : UploadedIn sha256 packages h a before []

theorem UploadedIn.append (hu : UploadedIn sha256 packages h a before [])
    (since : Session T) : UploadedIn sha256 packages (h ++ since) a before since := by
  obtain ⟨front, text, ans, rfl, hread⟩ := hu
  exact ⟨front, text, ans, by rw [List.append_assoc]; rfl, hread⟩

theorem Opening.lawful_append (ho : Opening sha256 packages h a before)
    (hs : Each (Permitted a before) since) :
    Each (Lawful sha256 packages) (h ++ since) := by
  refine each_append ho.lawful fun front e back he => ?_
  have hp := hs front e back he
  have hu := ho.uploaded.append front
  refine ⟨fun hf => ?_, fun hc e' he' => ?_, fun body hop => ?_, fun hsuccess => ?_⟩
  · rw [hp.upload] at hf
    cases hf
  · rcases List.mem_append.mp he' with he' | he'
    · exact ho.unsent e' he'
    · exact hp.once hc e' he'
  · exact ⟨a, before, front, hu, hp.evidence body hop⟩
  · obtain ⟨observed, hread, hconf⟩ := hp.success hsuccess
    exact ⟨a, before, front, observed, hu, hread, hconf⟩

/-- A package is checked as it is. -/
theorem fromBytes_body {sha256 : List UInt8 → List UInt8} {package : List UInt8}
    {a : Artifact} (h : Artifact.fromBytes sha256 package = .ok a) : a.body = package := by
  rw [Artifact.fromBytes] at h
  obtain ⟨-, h⟩ := Boot.passed_check h
  obtain ⟨-, h⟩ := Boot.passed_check h
  obtain ⟨-, h⟩ := Boot.passed_check h
  obtain ⟨-, h⟩ := Boot.passed_check h
  obtain ⟨-, h⟩ := Boot.passed_check h
  obtain ⟨-, h⟩ := Boot.passed_check h
  cases h
  rfl

/-- An upload asks for no STOR, or for one right behind the status it is decided
on, and for nothing after it. -/
theorem runs_uploaded {flow : Workflow} {tr : List (Event TransportSig)}
    {r : Reply Workflow} (hrun : Runs (flow.uploaded sha256 packages) tr r) :
    ((∀ e ∈ tr, ∀ name body, e.op ≠ .stor name body) ∧ ∃ e, r = .error e) ∨
      ∃ front before a ans, Runs Workflow.read front (.ok before) ∧
        AdmittedBy sha256 packages a before ∧
        tr = front ++ [⟨.stor (ascii "firmware") a.body, ans⟩] ∧
        ∀ flow', r = .ok flow' → flow'.artifact = some a ∧
          flow'.beforeUpload = some before := by
  obtain ⟨tr₁, x, tr₂, rfl, hup, hk⟩ := runs_bind_iff'.mp hrun
  have hend : tr₂ = [] ∧ ((∃ e, x.1 = .error e ∧ r = .error e) ∨
      ∃ v, x.1 = .ok v ∧ r = .ok x.2) := by
    obtain ⟨result, flow'⟩ := x
    cases result with
    | error e =>
        obtain ⟨rfl, rfl⟩ := runs_pure_iff.mp hk
        exact ⟨rfl, .inl ⟨e, rfl, rfl⟩⟩
    | ok v =>
        obtain ⟨rfl, rfl⟩ := runs_pure_iff.mp hk
        exact ⟨rfl, .inr ⟨v, rfl, rfl⟩⟩
  obtain ⟨rfl, hr⟩ := hend
  rw [List.append_nil]
  have herror : ∀ {e : PyError}, x.1 = .error e → ∃ e, r = .error e := by
    intro e he
    rcases hr with ⟨e', -, hr⟩ | ⟨v, hv, -⟩
    · exact ⟨e', hr⟩
    · rw [he] at hv
      cases hv
  rw [Workflow.upload] at hup
  split at hup
  · obtain ⟨rfl, rfl⟩ := runs_pure_iff.mp hup
    exact .inl ⟨fun e he => absurd he List.not_mem_nil, herror rfl⟩
  obtain ⟨tr₃, seen, tr₄, rfl, hread, hup⟩ := runs_bind_iff'.mp hup
  have hnone := (runs_read hread).1
  cases seen with
  | error e =>
      obtain ⟨rfl, rfl⟩ := runs_pure_iff.mp hup
      rw [List.append_nil]
      exact .inl ⟨hnone, herror rfl⟩
  | ok current =>
      dsimp only at hup
      split at hup
      · obtain ⟨rfl, rfl⟩ := runs_pure_iff.mp hup
        rw [List.append_nil]
        exact .inl ⟨hnone, herror rfl⟩
      next hadmits =>
      split at hup
      · obtain ⟨rfl, rfl⟩ := runs_pure_iff.mp hup
        rw [List.append_nil]
        exact .inl ⟨hnone, herror rfl⟩
      next a hchecked =>
      split at hup
      · obtain ⟨rfl, rfl⟩ := runs_pure_iff.mp hup
        rw [List.append_nil]
        exact .inl ⟨hnone, herror rfl⟩
      next htarget =>
      have hbody := fromBytes_body hchecked
      have hadmitted : AdmittedBy sha256 packages a current :=
        ⟨by simpa using hadmits, hbody, by rw [hbody]; exact hchecked, not_not.mp htarget⟩
      obtain ⟨answer, rest, rfl, hans⟩ := runs_ask_iff.mp hup
      have hlast : rest = [] ∧ x.2.artifact = some a ∧
          x.2.beforeUpload = some current := by
        split at hans
        · obtain ⟨rfl, rfl⟩ := runs_pure_iff.mp hans
          exact ⟨rfl, rfl, rfl⟩
        · obtain ⟨rfl, rfl⟩ := runs_pure_iff.mp hans
          exact ⟨rfl, rfl, rfl⟩
        · obtain ⟨rfl, rfl⟩ := runs_pure_iff.mp hans
          exact ⟨rfl, rfl, rfl⟩
      obtain ⟨rfl, hartifact, hbefore⟩ := hlast
      refine .inr ⟨tr₃, current, a, answer, hread, hadmitted, rfl, fun flow' hflow => ?_⟩
      rcases hr with ⟨e', -, hr⟩ | ⟨v, -, hr⟩
      · rw [hr] at hflow
        cases hflow
      · rw [hr] at hflow
        cases hflow
        exact ⟨hartifact, hbefore⟩

theorem opening_uploaded {text : List UInt8} (ans : Except PyError Unit)
    (hq : ∀ e ∈ h, Quiet e) (hlast : h.getLast? = some (retrieved "boot-status" text))
    (hread : status text = .ok before) (ha : AdmittedBy sha256 packages a before) :
    Opening sha256 packages
      (h ++ [(⟨.inl (.stor (ascii "firmware") a.body), ans⟩ : Event (BenchSig T))])
      a before := by
  have hlawful : Each (Lawful sha256 packages) h :=
    each_quiet (h := []) each_nil fun e he past => (hq e he).lawful past
  have hconfirm : stores "confirm"
      (⟨.inl (.stor (ascii "firmware") a.body), ans⟩ : Event (BenchSig T)) = false := by
    show decide (ascii "firmware" = ascii "confirm") = false
    decide
  refine ⟨each_concat hlawful ⟨fun _ e he => (hq e he).upload, fun hc => ?_, fun body hop => ?_,
    nofun⟩, fun e he => ?_, h, text, ans, rfl, hlast, hread, ha⟩
  · rw [hconfirm] at hc
    cases hc
  · injection hop with hop
    injection hop with hname _
    have hne : ascii "firmware" ≠ ascii "confirm" := by decide
    exact absurd hname hne
  · rcases List.mem_append.mp he with he | he
    · exact (hq e he).confirm
    · rw [List.mem_singleton] at he
      rw [he]
      exact hconfirm

/-- What is shown of the session after the upload is shown of the whole. -/
theorem opening_ensures {α : Type} {p : Py T α} {Q : α → Session T → Prop}
    (ho : Opening sha256 packages h a before) (hp : Ensures (Each (Permitted a before)) p Q []) :
    Ensures (Each (Lawful sha256 packages)) p (fun x h' => ∃ since, h' = h ++ since ∧ Q x since) h := by
  intro tr r hr
  have hx := hp tr r hr
  cases r with
  | error e => exact ho.lawful_append hx
  | ok x => exact ⟨tr, rfl, hx⟩

/-- Histories of which nothing is asked yet. -/
theorem silent_quiet {α : Type} {p : Py T α} {G : Session T → Prop}
    (hG : ∀ h, (∀ e ∈ h, Quiet e) → G h) (hp : Silent p) (hq : ∀ e ∈ h, Quiet e) :
    Ensures G p (fun _ h' => ∀ e ∈ h', Quiet e) h := by
  intro tr r hr
  have hall : ∀ e ∈ h ++ tr, Quiet e := by
    intro e he
    exact (List.mem_append.mp he).elim (hq e) (hp tr r hr e)
  cases r with
  | error e => exact hG _ hall
  | ok x => exact hall

theorem lawful_of_quiet (hq : ∀ e ∈ h, Quiet e) : Each (Lawful sha256 packages) h :=
  each_quiet (h := []) each_nil fun e he past => (hq e he).lawful past

theorem permitted_of_quiet (hq : ∀ e ∈ h, Quiet e) : Each (Permitted a before) h :=
  each_quiet (h := []) each_nil fun e he past => (hq e he).permitted past

variable [Add T] [LE T] [DecidableLE T]

/-- A download after any number of turns. -/
def Underway (sha256 packages : List UInt8 → List UInt8) (x : Download T ⊕ Workflow)
    (h : Session T) : Prop :=
  ∃ a before front since, h = front ++ since ∧ Opening sha256 packages front a before ∧
    x.elim (Carried a before none · since) (Succeeded a before none · since)

/-- The loop, from the object an upload leaves. -/
theorem loop_ensures {flow : Workflow} {initial : StatusValues} {interval deadline : T}
    {n : Nat} (hartifact : flow.artifact = some a) (hadmitted : flow.beforeUpload = some before) :
    Ensures (Each (Permitted a before)) (do
        check (sameAdmission initial before)
        print (selected a)
        let now ← clock
        Raising.turns (fun d : Download T => d.turn a interval deadline) n
          ⟨flow, now + deadline, false, false, false, none, none⟩)
      (fun x h' => x.elim (Carried a before none · h') (Succeeded a before none · h'))
      [] := by
  refine ensures_bind (ensures_mono (silent_quiet (fun _ => permitted_of_quiet)
    (silent_check _) nofun) fun _ h₁ hq => ?_)
  refine ensures_bind (ensures_mono (silent_quiet (fun _ => permitted_of_quiet)
    (silent_print rfl) hq) fun _ h₂ hq => ?_)
  refine ensures_bind (ensures_mono (silent_quiet (fun _ => permitted_of_quiet)
    silent_clock hq) fun now h₃ hq => ?_)
  refine ensures_turns (fun d h hd => turn_ensures hd) n ?_
  exact ⟨permitted_of_quiet hq, hartifact, hadmitted, nofun,
    fun _ e he => (hq e he).confirm, nofun⟩

theorem download_ensures {flow : Workflow} {interval deadline : T} {n : Nat} :
    Ensures (Each (Lawful sha256 packages)) (download sha256 flow packages interval deadline n)
      (Underway sha256 packages) [] := by
  refine ensures_bind ?_
  intro tr r hr
  obtain ⟨tr', rfl, hread⟩ := runs_left hr
  have hq := quiet_map (T := T) (runs_read hread).1
  cases r with
  | error e => exact lawful_of_quiet hq
  | ok initial =>
      have hinitial := readIn_read (T := T) hread
      refine ensures_bind (ensures_mono (silent_quiet (fun _ => lawful_of_quiet)
        (silent_check _) hq) fun _ h₁ hq => ?_)
      refine ensures_bind (ensures_mono (silent_quiet (fun _ => lawful_of_quiet)
        (silent_display hinitial fun _ => rfl) hq) fun _ h₂ hq => ?_)
      refine ensures_bind ?_
      intro tr r hr
      obtain ⟨tr', rfl, hup⟩ := runs_left hr
      rcases runs_uploaded hup with ⟨hnone, e, rfl⟩ |
        ⟨front, before, a, ans, hb, ha, rfl, hflow⟩
      · refine lawful_of_quiet fun e he => ?_
        exact (List.mem_append.mp he).elim (hq e) (quiet_map (T := T) hnone e)
      · have hquiet : ∀ e ∈ h₂ ++ front.map (Event.left (T := ConsoleSig T)), Quiet e := by
          intro e he
          exact (List.mem_append.mp he).elim (hq e) (quiet_map (T := T) (runs_read hb).1 e)
        obtain ⟨asked, text, hstatus, rfl⟩ := runs_read_last hb
        have hlast : (h₂ ++ (asked ++ [(⟨.retr (ascii "boot-status"), .ok text⟩ :
            Event TransportSig)]).map (Event.left (T := ConsoleSig T))).getLast? =
              some (retrieved "boot-status" text) := by
          rw [List.map_append, ← List.append_assoc]
          exact List.getLast?_concat
        have ho := opening_uploaded ans hquiet hlast hstatus ha
        rw [List.map_append, ← List.append_assoc]
        cases r with
        | error e => exact ho.lawful
        | ok flow' =>
            obtain ⟨hartifact, hadmitted⟩ := hflow flow' rfl
            dsimp only [Ends]
            rw [hartifact, hadmitted]
            refine ensures_mono (opening_ensures ho (loop_ensures hartifact hadmitted)) ?_
            rintro x _ ⟨since, rfl, hx⟩
            exact ⟨a, before, _, since, rfl, ho, hx⟩

/-- The object of a download that goes on or is over. -/
def flowOf (x : Download T ⊕ Workflow) : Workflow := x.elim Download.flow id

/-- The id the loop has pinned after any turn is the id after every later one. -/
theorem turns_pinned {d : Download T} {interval deadline : T} {m id : Nat}
    (h : Carried a before none d since) (hid : d.flow.trialId = some id) {tr : Session T}
    {x : Download T ⊕ Workflow}
    (hrun : Runs (Raising.turns (fun d => d.turn a interval deadline) m d).run tr (.ok x)) :
    (flowOf x).trialId = some id := by
  have hd : Carried a before (some id) d since :=
    ⟨h.permitted, h.artifact, h.admitted, fun i hi => by cases hi; exact hid, h.unsent,
      h.reported⟩
  have hturn : ∀ (d : Download T) (h : Session T), Carried a before (some id) d h →
      Ensures (Each (Permitted a before)) (d.turn a interval deadline)
        (fun x h' => x.elim (Carried a before (some id) · h')
          (Succeeded a before (some id) · h')) h := fun d h hd => turn_ensures hd
  have hx := ensures_turns hturn m hd tr _ hrun
  cases x with
  | inl d' => exact Carried.pinned hx id rfl
  | inr flow => exact Succeeded.pinned hx id rfl

/-- For every behaviour of the transport, up to any number of turns: the
firmware and the confirmation are stored at most once; the confirmation only
after the firmware, a report of the trial and, last of all, a healthy status of
the same trial; what the loop has pinned stays pinned; and success is told only
where some status read since the upload showed the image confirmed. -/
theorem download_sound {sha256 packages : List UInt8 → List UInt8} {flow : Workflow}
    {interval deadline : T} {n : Nat} {tr : Session T} {r : Reply (Download T ⊕ Workflow)}
    (h : Runs (download sha256 flow packages interval deadline n).run tr r) :
    tr.countP (stores "firmware") ≤ 1 ∧ tr.countP (stores "confirm") ≤ 1 ∧
    (∀ past body ans back,
      tr = past ++ ⟨.inl (.stor (ascii "confirm") body), ans⟩ :: back →
      ∃ a before since, UploadedIn sha256 packages past a before since ∧
        Confirmable a before since body) ∧
    (∀ flow observed id, flow.trialId = some id →
      (Workflow.classify flow observed).2.trialId = some id ∧
      ∀ flow', acceptReady flow observed = .ok flow' → flow'.trialId = some id) ∧
    (∀ d id, r = .ok (.inl d) → d.flow.trialId = some id →
      ∃ a, d.flow.artifact = some a ∧ ∀ m tr' x,
        Runs (Raising.turns (fun d => d.turn a interval deadline) m d).run tr' (.ok x) →
        (flowOf x).trialId = some id) ∧
    (∀ past e back, tr = past ++ e :: back → succeeds e = true →
      ∃ a before since observed, UploadedIn sha256 packages past a before since ∧
        ReadIn since observed ∧ ConfirmedAs a before observed) ∧
    ∀ flow', r = .ok (.inr flow') →
      ∃ a before since observed, UploadedIn sha256 packages tr a before since ∧
        flow'.artifact = some a ∧ ReadIn since observed ∧ ConfirmedAs a before observed := by
  have hends := download_ensures tr r h
  rw [List.nil_append] at hends
  have hlawful : Each (Lawful sha256 packages) tr := by
    cases r with
    | error e => exact hends
    | ok x =>
        obtain ⟨a, before, front, since, rfl, ho, hx⟩ := hends
        refine ho.lawful_append ?_
        cases x with
        | inl d => exact Carried.permitted hx
        | inr flow' => exact Succeeded.permitted hx
  refine ⟨countP_le_one fun f e b he => (hlawful f e b he).upload,
    countP_le_one fun f e b he => (hlawful f e b he).once,
    fun past body ans back he => (hlawful past _ back he).evidence body rfl,
    fun flow observed id hid => ⟨(classify_pins flow observed).trialId hid,
      fun flow' hr => (acceptReady_pins hr).trialId hid⟩, ?_,
    fun past e back he hs => (hlawful past e back he).success hs, ?_⟩
  · rintro d id rfl hid
    obtain ⟨a, before, front, since, -, -, hx⟩ := hends
    exact ⟨a, Carried.artifact hx, fun m tr' x hrun => turns_pinned hx hid hrun⟩
  · rintro flow' rfl
    obtain ⟨a, before, front, since, rfl, ho, hx⟩ := hends
    obtain ⟨observed, hread, hconfirmed⟩ := Succeeded.confirmed hx
    exact ⟨a, before, since, observed, ho.uploaded.append since, Succeeded.artifact hx, hread,
      hconfirmed⟩

end Session

/-! ## A bench -/

/-- The second slot confirmed, after the trial. -/
def confirmedSnapshot : Boot.BootSnapshot :=
  { Boot.healthySnapshot with
    metadata := ⟨{ Boot.trialRecord with
      sequence := 5
      currentSlot := Boot.bootSlotB
      candidateSlot := Boot.bootSlotNone
      previousSlot := Boot.bootSlotA
      confirmedMask := 3
      images := ⟨Boot.packageEntry Boot.bootSlotA 0 0,
        Boot.packageEntry Boot.bootSlotB 0 3⟩ }, 0⟩ }

/-- The device's text after so many STORs. -/
def benchStatus : Nat → List UInt8
  | 0 => Boot.statusBody Boot.factorySnapshot
  | 1 => Boot.statusBody Boot.healthySnapshot
  | _ => Boot.statusBody confirmedSnapshot

def benchReport : List UInt8 :=
  ascii "format=1\napplication=slot-b-blink\nmessage=slot-b-blink booted successfully. On.\n\n" ++
    benchStatus 1

/-- A device that counts the STORs, and a clock that stands still. -/
def benchDevice : (op : (BenchSig Nat).Op) → Nat → (BenchSig Nat).Ans op × Nat
  | .inl .connect, s => (.ok (), s)
  | .inl .binary, s => (.ok (), s)
  | .inl (.retr name), s =>
      (.ok (if name = ascii "boot-report" then benchReport else benchStatus s), s)
  | .inl (.stor _ _), s => (.ok (), s + 1)
  | .inr .clock, s => ((0 : Nat), s)
  | .inr (.sleep _), s => (.ok (), s)
  | .inr (.print _), s => (.ok (), s)

def benchHash (bytes : List UInt8) : List UInt8 := (Boot.packageCrypto.sha256 bytes).val

/-- The package for the second slot, whichever is asked for. -/
def benchPackages (_ : List UInt8) : List UInt8 :=
  Boot.manifestWire (Boot.packageManifest Boot.bootSlotB) ++
    Boot.packagePayload Boot.bootSlotB

def benchDownload : Prog (BenchSig Nat) (Reply (Download Nat ⊕ Workflow)) :=
  (download benchHash .new benchPackages 1 75 2).run

theorem bench_succeeds :
    (match (benchDownload.run benchDevice 0).1 with
      | .ok (.inr _) => true
      | _ => false) = true := by
  decide +kernel

theorem download_sound_bench :
    (benchDownload.trace benchDevice 0).countP (stores "firmware") ≤ 1 ∧
    (benchDownload.trace benchDevice 0).countP (stores "confirm") ≤ 1 ∧
    ∃ a before since observed,
      UploadedIn benchHash benchPackages (benchDownload.trace benchDevice 0) a before since ∧
        ReadIn since observed ∧ ConfirmedAs a before observed := by
  obtain ⟨hfirmware, hconfirm, -, -, -, -, hdone⟩ :=
    download_sound (runs_trace benchDevice benchDownload 0)
  refine ⟨hfirmware, hconfirm, ?_⟩
  have hsucceeds := bench_succeeds
  split at hsucceeds
  · next flow' hflow =>
      obtain ⟨a, before, since, observed, huploaded, -, hread, hconfirmed⟩ := hdone flow' hflow
      exact ⟨a, before, since, observed, huploaded, hread, hconfirmed⟩
  · cases hsucceeds

end EkBareMetal.Tools

import EkBareMetal.Lib.Raising
import EkBareMetal.Tools.Workflow

/-!
# The two-command demo

`demo.py`: the report of the application, and `download`, which uploads once,
waits for a reset, and confirms once. What it is given besides the transport,
the clock, the sleep and the output, are requests here too. A time is anything
with an order and a sum. The diagnostic of a failed upload, which two of the
messages would end with, is left out.
-/

namespace EkBareMetal.Tools

open Words Text Interact

abbrev Reply (α : Type) := Workflow.Reply α

def raiseIf (c : Prop) [Decidable c] (message : String) : Reply Unit :=
  if c then .error (.valueError (ascii message)) else .ok ()

/-- `int(text)`, which a status shows as its digits or as `none`. -/
def toInt (text : List UInt8) : Reply Nat :=
  if text ≠ [] ∧ text.all isDigit = true then .ok (intOf text)
  else .error (.valueError
    (ascii "invalid literal for int() with base 10: '" ++ text ++ ascii "'"))

def APPLICATIONS : List (List UInt8 × List UInt8) :=
  [(ascii "A", ascii "slot-a-breathing"), (ascii "B", ascii "slot-b-blink")]

/-! ## The report -/

/-- `text.partition(separator)`, where there is a separator. -/
def partition (separator : List UInt8) : List UInt8 → Option (List UInt8 × List UInt8)
  | [] => none
  | b :: text =>
      if separator.isPrefixOf (b :: text) then
        some ([], (b :: text).drop separator.length)
      else (partition separator text).map fun (front, back) => (b :: front, back)

/-- What `strip` takes away. -/
def isSpace (b : UInt8) : Bool :=
  b = 0x20 || (0x09 ≤ b && b ≤ 0x0d) || (0x1c ≤ b && b ≤ 0x1f)

/-- The groups of the pattern, one application at a time. -/
def matchPrefix (text : List UInt8) : Option (List UInt8 × List UInt8) :=
  APPLICATIONS.findSome? fun (_, application) =>
    let front := ascii "format=1\napplication=" ++ application ++ ascii "\nmessage="
    let message := text.drop front.length
    if front.isPrefixOf text ∧ message ≠ [] ∧ lineFeed ∉ message then
      some (application, message)
    else none

structure BootReport where
  application : List UInt8
  message : List UInt8
  snapshot : StatusValues

def bootReport (body : List UInt8) : Reply BootReport :=
  if body.length > 2048 ∨ body.any fun b => b ≠ 10 && !(32 ≤ b && b ≤ 126) then
    .error (.valueError (ascii "boot-report must be bounded printable ASCII"))
  else match partition (ascii "\n\n") body with
  | none => .error (.valueError
      (ascii "boot-report framing; update MCU firmware for report support"))
  | some (front, snapshot) =>
      match matchPrefix front with
      | none => .error (.valueError (ascii "boot-report prefix"))
      | some (application, message) =>
          let lead := application ++ ascii " booted successfully. "
          if ¬ lead.isPrefixOf message ∨ (message.drop lead.length).all isSpace = true then
            .error (.valueError (ascii "boot-report message"))
          else (status snapshot).map fun values => ⟨application, message, values⟩

/-! ## What is asked of a status -/

def IMAGE_KEYS : List String := ["running_slot", "hash", "release"]

def ROLE_KEYS : List String :=
  ["confirmed_slot", "candidate_slot", "permitted_slot", "trial_state"]

def completeIdentity (observed : StatusValues) : Reply Unit :=
  raiseIf ((IMAGE_KEYS ++ ["sequence", "trial_id"]).any
      fun key => observed.get key = ascii "none")
    "incomplete MCU image/trial authority"

/-- The roles of an executing image, by its slot and the state of its trial. -/
def expectedRoles (slot state : List UInt8) : Option (List (List UInt8)) :=
  let peer := if slot = ascii "A" then ascii "B" else ascii "A"
  if (APPLICATIONS.lookup slot).isNone then none
  else if state = ascii "trial" then some [peer, slot, ascii "none", ascii "trial"]
  else if state = ascii "none" then some [slot, ascii "none", peer, ascii "none"]
  else none

/-- Validate executing roles against the MCU renderer, independent of sequence. -/
def executionRoles (observed : StatusValues) : Reply Unit :=
  raiseIf (expectedRoles (observed.get "running_slot") (observed.get "trial_state") ≠
      some (ROLE_KEYS.map observed.get))
    "incoherent MCU execution roles"

/-- The demo requires live health even for an already-confirmed image. -/
def requireHealthy (observed : StatusValues) : Reply Unit :=
  raiseIf (observed.get "health" ≠ ascii "00000007" ∨ observed.get "fault" ≠ ascii "0")
    "MCU health/fault prevents confirmation/success"

def sequenceOf (observed : StatusValues) : Nat := intOf (observed.get "sequence")

/-- Compare immutable identity and ordered roles, not changing diagnostics. -/
def forwardSnapshot (previous current : StatusValues) : Reply Unit := do
  completeIdentity current
  executionRoles previous
  executionRoles current
  raiseIf ((IMAGE_KEYS ++ ["trial_id"]).any fun key => previous.get key ≠ current.get key)
    "MCU image/trial identity changed"
  raiseIf (sequenceOf current < sequenceOf previous) "stale MCU sequence"
  raiseIf ((ROLE_KEYS.any fun key => previous.get key ≠ current.get key) ∧
      ¬ (previous.get "trial_state" = ascii "trial" ∧
        current.get "trial_state" = ascii "none" ∧
        sequenceOf current > sequenceOf previous))
    "backwards MCU state or changed roles"

/-- Bind READY to the admitted old image and this acceptance sequence. -/
def acceptReady (flow : Workflow) (observed : StatusValues) : Reply Workflow := do
  completeIdentity observed
  match flow.beforeUpload, flow.artifact with
  | some before, some a => do
      let trialId := intOf (observed.get "trial_id")
      completeIdentity before
      raiseIf (((IMAGE_KEYS ++ ["confirmed_slot"]).any
            fun key => observed.get key ≠ before.get key) ∨
          observed.get "candidate_slot" ≠ a.slot ∨
          observed.get "permitted_slot" ≠ ascii "none" ∨
          observed.get "trial_state" ≠ ascii "ready" ∨ observed.get "fault" ≠ ascii "0" ∨
          ¬ (sequenceOf before < trialId ∧ trialId ≤ sequenceOf observed) ∨
          flow.trialId.any (· ≠ trialId))
        "READY does not bind admitted image and fresh acceptance trial"
      pure { flow with trialId := some trialId }
  -- Neither is there before an upload.
  | _, _ => .error .other

/-! ## The bench -/

inductive ConsoleOp (T : Type) where
  | clock
  | sleep (seconds : T)
  | print (text : List UInt8)

abbrev ConsoleSig (T : Type) : Sig where
  Op := ConsoleOp T
  Ans
    | .clock => T
    | .sleep _ => Except PyError Unit
    | .print _ => Except PyError Unit

abbrev BenchSig (T : Type) : Sig := TransportSig.sum (ConsoleSig T)

abbrev Py (T : Type) : Type → Type := Raising (BenchSig T) PyError

section Bench

variable {T α : Type}

/-- A method of the workflow or of its transport. -/
def method (p : Prog TransportSig (Reply α)) : Py T α := Raising.ofProg p.left

def check (x : Reply α) : Py T α := Raising.ofExcept x

def clock : Py T T := Raising.ofProg do
  let now ← Prog.ask (S := BenchSig T) (.inr .clock)
  pure (.ok now)

def sleep (seconds : T) : Py T Unit :=
  Raising.ofProg (Prog.ask (S := BenchSig T) (.inr (.sleep seconds)))

def print (text : List UInt8) : Py T Unit :=
  Raising.ofProg (Prog.ask (S := BenchSig T) (.inr (.print text)))

/-- The result, or nothing for an `OSError` that is no `ProtocolError`. -/
def unlessLost (p : Prog TransportSig (Reply α)) : Py T (Option α) := Raising.ofProg do
  match ← p.left with
  | .error (.osError false) => pure (.ok none)
  | .error e => pure (.error e)
  | .ok a => pure (.ok (some a))

def display (label : String) (observed : StatusValues) : Py T Unit := do
  print (ascii label ++ [lineFeed])
  print (observed.flatMap fun (key, value) => key ++ ascii "=" ++ value ++ [lineFeed])

end Bench

/-! ## The methods as the demo calls them -/

namespace Workflow

/-- `upload`, an exception leaving no object behind. -/
def uploaded (sha256 : List UInt8 → List UInt8) (flow : Workflow)
    (packages : List UInt8 → List UInt8) : Prog TransportSig (Reply Workflow) := do
  match ← flow.upload sha256 packages with
  | (.error e, _) => pure (.error e)
  | (.ok _, flow) => pure (.ok flow)

/-- `confirm` with `strict` and a guard that keeps what it lets pass: the
answer, what the guard kept if it was reached, and the object. -/
def confirmKeeping {α : Type} (flow : Workflow) (validate : StatusValues → Reply α) :
    Prog TransportSig (Reply (Verdict × Option α × Workflow)) := do
  let flow := { flow with confirmAttempted := false }
  match ← read with
  | .error e =>
      if e = .other ∨ permanent e = true then pure (.error e)
      else pure (.ok (.unknown, none, flow))
  | .ok observed =>
      match validate observed with
      | .error e => pure (.error e)
      | .ok kept =>
          match flow.classify observed with
          | (.error e, _) => pure (.error e)
          | (.ok .confirmed, flow) => pure (.ok (.confirmed, some kept, flow))
          | (.ok .trial, flow) =>
              match flow.artifact, flow.trialId with
              | some a, some trialId =>
                  let flow := { flow with confirmAttempted := true }
                  match ← Prog.ask (S := TransportSig)
                      (.stor (ascii "confirm") (confirmBody a trialId)) with
                  | .error (.osError false) => pure (.ok (.unknown, some kept, flow))
                  | .error e => pure (.error e)
                  | .ok _ => pure (.ok (.unknown, some kept, flow))
              | _, _ => pure (.error .other)
          | (.ok _, _) =>
              pure (.error (.valueError
                (ascii "healthy matching trial required")))

end Workflow

/-- The body of the `try` around the report, with the status read after it. -/
def readReport : Prog TransportSig (Reply (BootReport × StatusValues)) := do
  match ← Prog.ask (S := TransportSig) .connect with
  | .error e => pure (.error e)
  | .ok _ =>
      match ← Prog.ask (S := TransportSig) .binary with
      | .error e => pure (.error e)
      | .ok _ =>
          match ← Prog.ask (S := TransportSig) (.retr (ascii "boot-report")) with
          | .error e => pure (.error e)
          | .ok body =>
              match bootReport body with
              | .error e => pure (.error e)
              | .ok report =>
                  match ← Workflow.read with
                  | .error e => pure (.error e)
                  | .ok current => pure (.ok (report, current))

/-! ## The loop of a download -/

/-- The variables of the loop; `limit` is `end`. -/
structure Download (T : Type) where
  flow : Workflow
  limit : T
  waitingReset : Bool
  confirmationSent : Bool
  reportChecked : Bool
  previous : Option StatusValues
  readySequence : Option Nat

/-- `state in ("TRIAL", "UNHEALTHY", "CONFIRMED")`. -/
def executing (state : Verdict) : Bool :=
  state = .trial || state = .unhealthy || state = .confirmed

namespace Download

section Checks

variable {T : Type} (d : Download T) (a : Artifact) (observed : StatusValues)

def takeReady : Reply (Download T) :=
  if observed.get "trial_state" ≠ ascii "ready" then .ok d
  else do
    let flow ← acceptReady d.flow observed
    raiseIf (d.previous.isSome = true) "backwards MCU state to READY"
    raiseIf (d.readySequence.any (sequenceOf observed < ·) = true) "stale READY sequence"
    pure { d with flow := flow, readySequence := some (sequenceOf observed) }

/-- The sequence may be unavailable here. -/
def notBehindReady : Reply Unit :=
  match d.readySequence with
  | none => .ok ()
  | some ready => do
      let sequence ← toInt (observed.get "sequence")
      raiseIf (sequence < ready) "stale MCU sequence after READY"

def classify : Reply (Verdict × Download T) :=
  if observed.get "trial_state" = ascii "ready" then .ok (.unknown, d)
  else match d.flow.classify observed with
  | (.error e, _) => .error e
  | (.ok state, flow) => .ok (state, { d with flow := flow })

/-- The checks of an executing image, and that it goes on from the last one. -/
def advance (state : Verdict) : Reply (Download T) :=
  if executing state then do
    completeIdentity observed
    executionRoles observed
    (if state = .confirmed then requireHealthy observed else .ok () : Reply Unit)
    raiseIf (observed.get "fault" ≠ ascii "0") "MCU fault prevents confirmation/success"
    raiseIf (d.readySequence.any (sequenceOf observed ≤ ·) = true)
      "stale execution sequence after READY"
    (d.previous.elim (.ok ()) (forwardSnapshot · observed) : Reply Unit)
    pure { d with previous := some observed }
  else do
    raiseIf (d.previous.isSome = true) "lost MCU image/trial authority"
    pure d

def fellBack : Bool :=
  d.flow.beforeUpload.any fun before =>
    d.waitingReset && observed.get "candidate_slot" = ascii "none" &&
      observed.get "running_slot" = before.get "running_slot" &&
      observed.get "confirmed_slot" = before.get "confirmed_slot"

/-- Everything between a status and what is done about it. -/
def observe : Reply (Verdict × Download T) := do
  let d ← d.takeReady observed
  (if d.waitingReset ∨ observed.get "running_slot" = a.slot ∨
      observed.get "trial_state" = ascii "trial" then completeIdentity observed
    else .ok () : Reply Unit)
  d.notBehindReady observed
  let (state, d) ← d.classify observed
  raiseIf (observed.get "running_slot" = a.slot ∧ executing state = false)
    "incoherent MCU execution authority"
  let d ← d.advance observed state
  raiseIf (state = .mismatch ∨ observed.get "trial_state" = ascii "rejected" ∨
      d.fellBack observed = true)
    "image mismatch or fallback; inspect MCU status; no confirmation sent"
  pure (state, d)

/-- The report and the status after it against the last status. -/
def takeReport (report : BootReport) (current : StatusValues) :
    Reply (Verdict × Download T) :=
  match d.previous with
  | none => .error .other
  | some previous => do
      forwardSnapshot previous report.snapshot
      forwardSnapshot report.snapshot current
      requireHealthy report.snapshot
      requireHealthy current
      match d.flow.classify current with
      | (.error e, _) => .error e
      | (.ok state, flow) => do
          raiseIf (APPLICATIONS.lookup a.slot ≠ some report.application ∨
              ¬ (state = .trial ∨ state = .confirmed) ∨
              current.get "trial_id" = ascii "none" ∨
              some (intOf (current.get "trial_id")) ≠ flow.trialId ∨
              report.snapshot.get "fault" ≠ ascii "0" ∨ current.get "fault" ≠ ascii "0")
            "boot-report does not match authoritative uploaded image/trial"
          pure (state, { d with flow := flow, previous := some current })

/-- `validate_preconfirm`; what passes is the new `previous`. -/
def validatePreconfirm (current : StatusValues) : Reply StatusValues :=
  match d.previous with
  | none => .error .other
  | some previous => do
      forwardSnapshot previous current
      requireHealthy current
      pure current

end Checks

section Loop

variable {T : Type} [Add T] [LE T] [DecidableLE T] (d : Download T) (a : Artifact)

/-- `not waiting_reset and clock() >= end`. -/
def expired : Py T Bool :=
  if d.waitingReset then pure false
  else do
    let now ← clock
    pure (d.limit ≤ now)

def announce (observed : StatusValues) : Py T (Download T) :=
  if observed.get "candidate_slot" = a.slot ∧
      observed.get "trial_state" = ascii "ready" ∧ d.waitingReset = false then do
    display "Post-upload READY MCU status (old running image; package identity match pending execution):"
      observed
    print (ascii "Press the MCU reset button.\n")
    pure { d with waitingReset := true }
  else pure d

/-- The report, once; nothing where the turn is over. -/
def report (deadline : T) (state : Verdict) : Py T (Option (Verdict × Download T)) :=
  if (state = .trial ∨ state = .confirmed) ∧ d.reportChecked = false then do
    match ← unlessLost readReport with
    | none => do
        let late ← d.expired
        check (if late then .error (.osError false) else .ok ())
        pure none
    | some (report, current) => do
        let (state, d) ← check (d.takeReport a report current)
        print (ascii "Application report: " ++ report.message ++ [lineFeed])
        let now ← clock
        pure (some (state, { d with
          reportChecked := true
          waitingReset := false
          limit := now + deadline }))
  else pure (some (state, d))

def confirm (deadline : T) (state : Verdict) : Py T (Verdict × Download T) :=
  if state = .trial ∧ d.reportChecked = true ∧ d.confirmationSent = false then do
    let now ← clock
    check (raiseIf (d.limit ≤ now)
      "pre-confirm reads unavailable; no confirmation attempted")
    -- Once STOR is entered, even a disconnect must not permit repetition.
    let (result, kept, flow) ← method (d.flow.confirmKeeping d.validatePreconfirm)
    let d := { d with
      flow := flow
      previous := kept.or d.previous
      confirmationSent := flow.confirmAttempted }
    let state := if result = .confirmed then result else state
    if flow.confirmAttempted then do
      let now ← clock
      pure (state, { d with limit := now + deadline })
    else pure (state, d)
  else pure (state, d)

def success (a : Artifact) (trialId : Option Nat) : List UInt8 :=
  ascii "SUCCESS: durable CONFIRMED slot=" ++ a.slot ++ ascii " hash=" ++ a.digest ++
    ascii " release=" ++ a.release ++ ascii " trial_id=" ++
    trialId.elim (ascii "None") decimal ++ [lineFeed]

/-- The end of a turn: the download is over, or sleeps before the next one. -/
def finish (interval : T) (state : Verdict) : Py T (Download T ⊕ Workflow) :=
  if state = .confirmed ∧ d.reportChecked = true then do
    print (success a d.flow.trialId)
    pure (.inr d.flow)
  else do
    let unconfirmed ← (if d.confirmationSent = true ∧ state ≠ .confirmed then do
        let now ← clock
        pure (decide (d.limit ≤ now))
      else pure false : Py T Bool)
    check (raiseIf (unconfirmed = true)
      "confirmation outcome unknown; inspect status; do not reupload")
    let late ← d.expired
    check (raiseIf (late = true)
      "READY/trial not established; inspect status; do not reupload")
    sleep interval
    pure (.inl d)

/-- One turn of `while True`. -/
def turn (interval deadline : T) : Py T (Download T ⊕ Workflow) := do
  match ← unlessLost Workflow.read with
  | none => do
      -- Reset breaks FTP. Retry reads only, with transport-level deadlines.
      let late ← d.expired
      check (raiseIf (late = true)
        "status unavailable; upload outcome unknown; do not reupload")
      sleep interval
      pure (.inl d)
  | some observed => do
      let (state, d) ← check (d.observe a observed)
      let d ← d.announce a observed
      match ← d.report a deadline state with
      | none => do
          sleep interval
          pure (.inl d)
      | some (state, d) => do
          let (state, d) ← d.confirm deadline state
          d.finish a interval state

end Loop

end Download

/-- The admission against the status read first. -/
def sameAdmission (initial before : StatusValues) : Reply Unit := do
  completeIdentity before
  raiseIf (((IMAGE_KEYS ++ ROLE_KEYS ++ ["trial_id"]).any
        fun key => initial.get key ≠ before.get key) ∨
      sequenceOf before < sequenceOf initial)
    "upload admission changed from initial MCU identity"

def selected (a : Artifact) : List UInt8 :=
  ascii "Selected package identity (MCU identity match pending): destination=" ++ a.slot ++
    ascii " hash=" ++ a.digest ++ ascii " release=" ++ a.release ++ [lineFeed]

/-- A download up to its `n`-th turn: the loop's variables where it goes on, or
the object after SUCCESS. -/
def download {T : Type} [Add T] [LE T] [DecidableLE T]
    (sha256 : List UInt8 → List UInt8) (flow : Workflow)
    (packages : List UInt8 → List UInt8) (interval deadline : T) (n : Nat) :
    Py T (Download T ⊕ Workflow) := do
  let initial ← method Workflow.read
  check (completeIdentity initial)
  display "Initial MCU status (authenticated running image identity):" initial
  let flow ← method (flow.uploaded sha256 packages)
  match flow.beforeUpload, flow.artifact with
  | some before, some a => do
      check (sameAdmission initial before)
      print (selected a)
      let now ← clock
      Raising.turns (fun d => d.turn a interval deadline) n
        ⟨flow, now + deadline, false, false, false, none, none⟩
  -- Both are there after an upload.
  | _, _ => check (.error .other)

end EkBareMetal.Tools

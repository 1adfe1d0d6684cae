import Tirke.Services.GpuClient
/-!
# `app/services/coordinator.py`

`_advance` mutates the record its caller still holds when an exception passes through it
(`_process` fails that record). Its translation therefore raises the exception with the record as it
stands (`Exn × MeetingRecord`), and `held r p` is a step `p` taken while the record is `r`.

| here | there |
| --- | --- |
| `advance`, `resume`, `advanceNew`, `submitNew`, `bound` | the branches of `_advance` (`:121`) |
| `MeetingRecord.begun`, `flagged`, `polled`, `progressed` | the assignments of these branches |
| `demand _.validStage` | assigning a field of a `StrictModel` runs its validators again |
| `reconcileJobs` | the loop of `_reconcile_pending_jobs` (`:95`); its flag is `changed` |
-/

namespace Tirke

open CrashProg CrashDisk

variable [Lib] [Home]

/-- `_FAILURES` (`:30`). -/
def failureMessage : FailureCode → Str
  | .invalidAudio => "Не удалось прочитать аудиозапись".toList
  | .processingFailed => "Не удалось обработать запись".toList
  | .storageFailed => "Не удалось сохранить результат".toList
  | .sourceExpired => "Срок хранения исходной записи истёк".toList
  | .invalidResult => "Получен некорректный результат обработки".toList
  | .gpuUnavailable => []

def GPUFailureCode.failure : GPUFailureCode → FailureCode
  | .invalidAudio => .invalidAudio
  | .processingFailed => .processingFailed
  | .storageFailed => .storageFailed
  | .sourceExpired => .sourceExpired

/-! ## Records -/

def MeetingRecord.mapMeeting (r : MeetingRecord) (f : Meeting → Meeting) : MeetingRecord :=
  { r with meeting := f r.meeting }

def MeetingRecord.touch (r : MeetingRecord) (t : Time) : MeetingRecord :=
  r.mapMeeting fun m => { m with updatedAt := t }

/-- `_cleanup_status` (`:233`). -/
def MeetingRecord.aggregate (r : MeetingRecord) : CleanupStatus :=
  let statuses := r.localCleanupStatus :: r.jobs.map (·.cleanupStatus)
  if .pending ∈ statuses then .pending else if .expired ∈ statuses then .expired else .deleted

def MeetingRecord.withAggregate (r : MeetingRecord) : MeetingRecord :=
  r.mapMeeting fun m => { m with cleanupStatus := r.aggregate }

/-- The record `_fail` saves (`:243`). -/
def MeetingRecord.failed (r : MeetingRecord) (code : FailureCode) : MeetingRecord :=
  r.mapMeeting fun m => { m with stage := none, status := .failed, failure := some ⟨code, failureMessage code⟩ }

def MeetingRecord.begun (r : MeetingRecord) : MeetingRecord :=
  r.mapMeeting fun m => { m with status := .processing, stage := some .uploadingToGpu }

def MeetingRecord.flagged (r : MeetingRecord) : MeetingRecord :=
  r.setJob fun j => { j with submitStarted := some true }

def JobRecord.polled (remote : JobV1) (j : JobRecord) : JobRecord :=
  { j with
    jobId := some remote.jobId
    cleanupStatus := remote.cleanupStatus
    expiresAt := some remote.expiresAt
    receiptExpiresAt := remote.receiptExpiresAt }

def MeetingRecord.polled (r : MeetingRecord) (remote : JobV1) : MeetingRecord :=
  r.setJob (JobRecord.polled remote)

def JobStage.shown : JobStage → MeetingStage
  | .ingesting => .ingesting
  | .transcribing => .transcribing
  | .diarizing => .diarizing
  | .analyzing => .analyzing

def MeetingRecord.progressed (r : MeetingRecord) (remote : JobV1) : MeetingRecord :=
  r.mapMeeting fun m => { m with
    status := .processing
    stage := if remote.status = .completed then some .savingResults else remote.stage.map JobStage.shown }

def MeetingRecord.context (r : MeetingRecord) (audioSha256 : Sha256) : GPUContextV1 where
  meetingId := r.meeting.id
  attempt := r.meeting.attempt
  meetingDate := r.meeting.meetingDate
  timezone := r.meeting.timezone
  participants := r.meeting.participants
  languageHint := r.meeting.languageHint
  audioSha256 := audioSha256

def MeetingRecord.localDeleted (r : MeetingRecord) : MeetingRecord :=
  { r with localCleanupStatus := .deleted, meeting := { r.meeting with sourceAvailable := false } }

def JobRecord.acked (receipt : AckV1) (j : JobRecord) : JobRecord :=
  { j with
    cleanupStatus := receipt.cleanupStatus
    receiptExpiresAt := some receipt.receiptExpiresAt
    ackPending := false }

def JobRecord.reconciled (remote : JobV1) (j : JobRecord) : JobRecord :=
  { j with
    cleanupStatus := remote.cleanupStatus
    receiptExpiresAt := remote.receiptExpiresAt
    ackPending := false }

/-! ## Saving -/

/-- `_save` (`:249`), with the record as it is afterwards. -/
def save (r : MeetingRecord) : Serv (MeetingRecord × Meeting) := do
  let t ← now
  let meeting ← updateMeeting (r.touch t)
  return (r.touch t, meeting)

def fail (r : MeetingRecord) (code : FailureCode) : Serv Meeting := do
  let (_, meeting) ← save (r.failed code)
  return meeting

/-! ## `_cleanup` -/

def cleanupLocal (r : MeetingRecord) : Serv MeetingRecord :=
  if r.localCleanupStatus = .pending then do
    let r ← Prog.handle (do deleteUpload; return r.localDeleted) fun (e : Exn) =>
      if e.isOSError then .ret r else .raise e
    let (r, _) ← save r
    return r
  else .ret r

def cleanupRemote (r : MeetingRecord) (job : JobRecord) : Serv MeetingRecord :=
  match job.ackPending, job.jobId, job.resultHash with
  | true, some id, some resultHash =>
    Prog.handle (do
        let receipt ← ack id resultHash
        return r.setJob (JobRecord.acked receipt))
      fun (e : Exn) => if e.isGPUClientError then .ret r else .raise e
  | _, _, _ => .ret r

def cleanup (r : MeetingRecord) : Serv Meeting :=
  match r.job with
  | none => .raise .runtimeError
  | some job => do
    let r ← cleanupLocal r
    let r ← cleanupRemote r job
    let (_, meeting) ← save r.withAggregate
    return meeting

/-! ## `_advance` -/

abbrev Held := Prog Ops (Exn × MeetingRecord)

def held {α : Type} (r : MeetingRecord) (p : Serv α) : Held α := p.handle fun e => .raise (e, r)

/-- `_save` inside `_advance`: the record keeps its new `updated_at`. -/
def saveHeld (r : MeetingRecord) : Held MeetingRecord := do
  let t ← held r now
  let _ ← held (r.touch t) (updateMeeting (r.touch t))
  return r.touch t

/-- `_fail` inside `_advance`. -/
def failHeld (r : MeetingRecord) (code : FailureCode) : Held Meeting := held (r.failed code) (fail r code)

/-- `try: …; except e: pass`. -/
def orNone {α : Type} (p : Serv α) (e : Exn) : Serv (Option α) :=
  (p.bind fun a => .ret (some a)).handle fun x => if x = e then .ret none else .raise x

/-- The manifest is visible: make sure it is durable, then clean up (`:133`). -/
def resume (manifest : ReadyManifest) : Serv Meeting := do
  let (transcript, insights) ← readResults
  discard (publishResults (manifest.bundle transcript insights))
  let record ← readRecord
  cleanup record

/-- The completed job's result (`:196`). -/
def collect (remote : JobV1) : Serv Meeting := do
  let bundle ← getResult remote.jobId
  demand (bundle.jobId = remote.jobId && bundle.transcript.meetingId = Home.meetingId &&
    remote.resultHash = some bundle.resultHash) .gpuProtocol
  discard (publishResults bundle)
  let record ← readRecord
  cleanup record

/-- The remote job is known (`:182`). -/
def bound (r : MeetingRecord) (job : JobRecord) (remote : JobV1) : Held Meeting := do
  held r (demand (job.jobId.all (· = remote.jobId)) .gpuProtocol)
  let r := r.polled remote
  if remote.status = .expired then failHeld r .sourceExpired
  else if remote.status = .failed then
    failHeld r (match remote.failure with | some f => f.code.failure | none => .processingFailed)
  else do
    held r (demand ({ r.meeting with status := .processing } : Meeting).validStage .validation)
    let r ← saveHeld (r.progressed remote)
    if remote.status = .completed then held r (collect remote) else held r readMeeting

/-- What asking for the attempt's key found (`:157`). -/
inductive Lookup where
  | pending
  | absent
  | found (remote : JobV1)

def lookup (r : MeetingRecord) : Serv Lookup :=
  (do let remote ← getJobByKey r.meeting.id r.meeting.attempt; return Lookup.found remote).handle fun (e : Exn) =>
    match e with
    | .gpuDomain _ .submissionPending => .ret .pending
    | .gpuDomain _ .jobNotFound => .ret .absent
    | e => .raise e

/-- Nothing is known to have been submitted (`:166`). -/
def submitNew (r : MeetingRecord) (job : JobRecord) : Held Meeting :=
  match r.audioSha256 with
  | none => failHeld r .sourceExpired
  | some audioSha256 => do
    match ← held r (orNone uploadPath .fileNotFound) with
    | none => failHeld r .sourceExpired
    | some audioPath => do
      held r (demand ((r.context audioSha256).valid Lib.validTimezone) .validation)
      let r ← saveHeld r.flagged
      let remote ← held r (submit audioPath (r.context audioSha256) r.audioExtension)
      bound r job remote

/-- The attempt has no job yet (`:153`). -/
def advanceNew (r : MeetingRecord) (job : JobRecord) : Held Meeting := do
  held r (demand ({ r.meeting with status := .processing } : Meeting).validStage .validation)
  let r ← saveHeld r.begun
  if job.submitStarted = some false then submitNew r job
  else do
    match ← held r (lookup r) with
    | .pending => held r readMeeting
    | .absent => submitNew r job
    | .found remote => bound r job remote

def advance (r : MeetingRecord) : Held Meeting :=
  if r.meeting.status = .failed then held r readMeeting
  else match r.job with
    | none => .raise (.runtimeError, r)
    | some job => do
      match ← held r (orNone readManifest .notReady) with
      | some manifest => held r (resume manifest)
      | none =>
        match job.jobId with
        | none => advanceNew r job
        | some id => do
          let remote ← held r (getJob id)
          bound r job remote

/-! ## `_reconcile_pending_jobs` -/

/-- The jobs the loop passes over (`:96-106`). -/
def MeetingRecord.skips (r : MeetingRecord) (job : JobRecord) : Bool :=
  let current := job.attempt = r.meeting.attempt
  job.cleanupStatus != .pending ||
    (current && (r.meeting.status = .queued || r.meeting.status = .processing)) ||
    (current && r.meeting.status.published && job.ackPending)

/-- One turn of the loop: the job as it is afterwards, and whether it changed. -/
def reconcileJob (r : MeetingRecord) (job : JobRecord) : Serv (JobRecord × Bool) :=
  match job.jobId with
  | none => .ret (job, false)
  | some id =>
    if r.skips job then .ret (job, false)
    else Prog.handle (do
        let remote ← getJob id
        if remote.jobId != id || remote.cleanupStatus = .pending then .ret (job, false)
        else .ret (job.reconciled remote, true))
      fun (e : Exn) => if e.isGPUClientError then .ret (job, false) else .raise e

def reconcileJobs (r : MeetingRecord) : List JobRecord → Serv (List JobRecord × Bool)
  | [] => .ret ([], false)
  | job :: jobs => do
    let (job, changed) ← reconcileJob r job
    let (jobs, others) ← reconcileJobs r jobs
    return (job :: jobs, changed || others)

/-- Returns the record its argument has become. -/
def reconcilePendingJobs (r : MeetingRecord) : Serv MeetingRecord := do
  let (jobs, changed) ← reconcileJobs r r.jobs
  let r := { r with jobs := jobs }
  if changed then do
    let (r, _) ← save r.withAggregate
    return r
  else return r

/-! ## `process_once` -/

/-- The inner handlers of `_process` (`:74`). -/
def recover : Exn × MeetingRecord → Serv Meeting
  | (.gpuProtocol, r) | (.validation, r) | (.jobHistory, r) | (.integrity _, r) => fail r .invalidResult
  | (.gpuInput, r) => fail r .sourceExpired
  | (.gpuDomain status code, r) =>
    if code = .sourceExpired || code = .payloadDeleted then fail r .sourceExpired
    else if code = .jobNotFound || code = .resultNotReady then readMeeting
    else fail r (if status = 413 || status = 415 then .invalidAudio else .processingFailed)
  | (e, _) => .raise e

/-- `except (GPUUnavailable, OSError)`. -/
def Exn.transient : Exn → Bool
  | .gpuUnavailable _ => true
  | e => e.isOSError

def process : Serv Meeting := do
  let record ← readRecord
  let record ← reconcilePendingJobs record
  Prog.handle (Prog.handle (advance record) recover) fun (e : Exn) => if e.transient then readMeeting else .raise e

def processOnce : Serv Meeting :=
  process.handle fun e => match e with
    | .integrity _ => .raise .storageError
    | e => .raise (if e.isOSError then .storageError else e)

end Tirke

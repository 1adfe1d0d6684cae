import Tirke.Spec.Writing
import Tirke.Services.Export
/-!
# The law of a meeting folder

`Move v r r'` lists every way the services rewrite the marker: `r'` as a function of the record `r` on
disk, with what the writer had checked in the view `v`. `Legal v e` does the same for every visible
change and every message. The services are shown to obey it once (`Obeys/`); what holds of runs is then
proved of lawful changes, one case for each.

Only the log tells who is acting (`running`) and what the GPU has answered (`told`). What a use was shown of the
clock, and whether a call failed, is not logged: there the law speaks of what the `Weather` allows.
-/

namespace Tirke

open CrashProg CrashDisk

variable [Lib] [Home] [Weather]

/-! ## Reading the log -/

/-- The action in progress, or the last one. -/
def running : List Event → Option Action
  | [] => none
  | .started a :: _ => some a
  | _ :: log => running log

/-- The coordinator is at work, by itself or in a tick. -/
def coordinating (log : List Event) : Prop := running log = some .processOnce ∨ running log = some .step

omit [Lib] [Home] [Weather] in
theorem coordinating.acts {log : List Event} (h : coordinating log) : running log ≠ none := by
  rcases h with h | h <;> rw [h] <;> nofun

omit [Lib] [Home] [Weather] in
theorem coordinating.of_running {log log' : List Event} (h : coordinating log) (he : running log' = running log) :
    coordinating log' := by
  unfold coordinating
  rw [he]
  exact h

/-- What has happened since it started. -/
def current : List Event → List Event
  | [] => []
  | .started _ :: _ => []
  | e :: log => e :: current log

/-- The status code a job answer is expected with. -/
def Request.jobStatus : Request → Nat
  | .submit .. => 202
  | _ => 200

/-- The GPU answered `q` with this job. -/
def told (log : List Event) (q : Request) (j : JobV1) : Prop :=
  ∃ a, .asked q a ∈ log ∧ jobIn q.jobStatus a = .ok j

/-- The last thing that happened is that the GPU answered `q` with this job. -/
def hears (log : List Event) (q : Request) (j : JobV1) : Prop :=
  ∃ a rest, log = .asked q a :: rest ∧ jobIn q.jobStatus a = .ok j

def heardJob (id : UUID) (a : Response) : Except Exn JobV1 :=
  (jobIn 200 a).bind fun job => if job.jobId = id then .ok job else .error .gpuProtocol

def heardBundle (id : UUID) (a : Response) : Except Exn ResultBundleV1 :=
  (bundleIn a).bind fun b => if b.jobId = id then .ok b else .error .gpuProtocol

def heardReceipt (id : UUID) (resultHash : Sha256) (a : Response) : Except Exn AckV1 :=
  (receiptIn a).bind fun r => if r.jobId = id ∧ r.resultHash = resultHash then .ok r else .error .gpuProtocol

/-- What `GPUClient` raises on this response. -/
def Request.refused (q : Request) (a : Response) (e : Exn) : Prop :=
  match q with
  | .submit .. => jobIn 202 a = .error e
  | .getJob id => heardJob id a = .error e
  | .getJobByKey _ => jobIn 200 a = .error e
  | .getResult id => heardBundle id a = .error e
  | .ack id resultHash => heardReceipt id resultHash a = .error e

/-- The GPU acknowledged this result. -/
def acknowledged (log : List Event) (id : UUID) (resultHash : Sha256) (receipt : AckV1) : Prop :=
  ∃ a, .asked (.ack id resultHash) a ∈ log ∧ receiptIn a = .ok receipt ∧ receipt.jobId = id

/-- The GPU served this bundle. -/
def served (log : List Event) (b : ResultBundleV1) : Prop :=
  ∃ a, .asked (.getResult b.jobId) a ∈ log ∧ bundleIn a = .ok b

/-- What was sent with the audio: everything the server may compare when it sees a key again. -/
structure Submission where
  key : UUID × Nat
  context : GPUContextV1
  audio : Doc
  suffix : Option AudioExtension
deriving DecidableEq

/-- What was submitted, newest first. -/
def sends : List Event → List Submission
  | [] => []
  | .asked (.submit key context audio suffix) _ :: log => ⟨key, context, audio, suffix⟩ :: sends log
  | _ :: log => sends log

/-- The attempts audio was sent for. -/
def submissions (log : List Event) : List Nat := (sends log).map (·.key.2)

/-- The record the event writes to the marker. -/
def Event.marked : Event → Option MeetingRecord
  | .file (.put (.folder, .meeting) (.record r)) => some r
  | _ => none

/-- The records written to the marker, newest first. -/
def written (log : List Event) : List MeetingRecord := log.filterMap Event.marked

def notFound (a : Response) : Prop := ∃ status, jobIn 200 a = .error (.gpuDomain status .jobNotFound)

/-- The keys that were looked up, and the answers. -/
def lookups : List Event → List ((UUID × Nat) × Response)
  | [] => []
  | .asked (.getJobByKey key) a :: log => (key, a) :: lookups log
  | _ :: log => lookups log

/-! ## Reading the folder -/

/-- The committed results, and what they were published as. -/
structure View.Committed (v : View) (m : ReadyManifest) (t : TranscriptV1) (i : InsightsV1) : Prop where
  manifest : v.run readManifest = .ok m
  results : v.run readResults = .ok (t, i)

/-- Readers find no results. -/
def View.Unpublished (v : View) : Prop := ∀ x, v.run readResults ≠ .ok x

/-- Name and content are among a bundle's artifacts, or it is the manifest. -/
def originalsOf (b : ResultBundleV1) (attempt : Nat) : List (Name × Doc) :=
  b.artifacts ++ [(.manifest, .manifest (b.manifest attempt))]

/-- The job's identity is the manifest's. -/
def MeetingRecord.boundTo (r : MeetingRecord) (m : ReadyManifest) : Prop :=
  ∃ job, r.job = some job ∧ job.jobId = some m.jobId ∧ job.resultHash = some m.resultHash

/-- `p` shows `x`, now and after a power failure. -/
structure View.Durable (v : View) (p : Path) (x : Doc) : Prop where
  now : v.look p = some x
  later : v.afterPower.look p = some x

/-- Another content is already stored under a name of the list. -/
def Conflict (v : View) (xs : List (Name × Doc)) : Prop :=
  ∃ n x y, (n, x) ∈ xs ∧ v.look (.folder, n) = some y ∧ y ≠ x

/-- The upload is gone, now and after a power failure. -/
def View.uploadGone (v : View) : Prop :=
  v.img.vol (.folder, .upload) = none ∧ v.img.dur (.folder, .upload) = none

/-- Nothing has happened since the folder was synced. -/
def View.justSynced (v : View) : Prop := v.log.head? = some (.file (.synced .folder))

/-! ## Deadlines and failures -/

/-- The clock may have shown a time before the deadline. -/
def MeetingRecord.timely (r : MeetingRecord) : Prop :=
  ∃ t deadline, Weather.shows t ∧ r.meeting.temporaryExpiresAt = some deadline ∧ t < deadline

/-- The clock may have shown that the deadline has passed. -/
def MeetingRecord.late (r : MeetingRecord) : Prop :=
  ∃ t deadline, Weather.shows t ∧ r.meeting.temporaryExpiresAt = some deadline ∧ deadline ≤ t

/-- The codes of a `GPUDomainError` that say the recording is no longer there. -/
def DomainCode.sourceGone : DomainCode → Bool
  | .sourceExpired | .payloadDeleted => true
  | _ => false

/-- The codes that `_process` waits on. -/
def DomainCode.unready : DomainCode → Bool
  | .jobNotFound | .resultNotReady => true
  | _ => false

/-- Why a meeting may be failed with a code, in the use under way. -/
inductive Cause (v : View) (r : MeetingRecord) : FailureCode → Prop where
  | absent (h : v.look (.folder, .upload) = none) : Cause v r .sourceExpired
  | late (h : r.late) : Cause v r .sourceExpired
  | undated (h : r.meeting.temporaryExpiresAt = none) : Cause v r .sourceExpired
  | unhashed (h : r.audioSha256 = none) : Cause v r .sourceExpired
  | jobExpired (q : Request) (remote : JobV1) (ht : told (current v.log) q remote) (h : remote.status = .expired) :
      Cause v r .sourceExpired
  | jobFailed (q : Request) (remote : JobV1) (ht : told (current v.log) q remote) (h : remote.status = .failed) :
      Cause v r (match remote.failure with | some f => f.code.failure | none => .processingFailed)
  | sourceGone (q : Request) (a : Response) (status : Nat) (code : DomainCode) (h : .asked q a ∈ current v.log)
      (he : q.refused a (.gpuDomain status code)) (hc : code.sourceGone = true) : Cause v r .sourceExpired
  | rejected (q : Request) (a : Response) (status : Nat) (code : DomainCode) (h : .asked q a ∈ current v.log)
      (he : q.refused a (.gpuDomain status code)) (hc : code.sourceGone = false) (hu : code.unready = false)
      (hp : code = .submissionPending → ∀ key, q ≠ .getJobByKey key) :
      Cause v r (if status = 413 || status = 415 then .invalidAudio else .processingFailed)
  | malformed (q : Request) (a : Response) (h : .asked q a ∈ current v.log) (he : q.refused a .gpuProtocol) :
      Cause v r .invalidResult
  | mismatched (q : Request) (remote : JobV1) (a : Response) (b : ResultBundleV1) (ht : told (current v.log) q remote)
      (h : .asked (.getResult remote.jobId) a ∈ current v.log) (hb : heardBundle remote.jobId a = .ok b)
      (hne : ¬ (b.transcript.meetingId = Home.meetingId ∧ remote.resultHash = some b.resultHash)) :
      Cause v r .invalidResult
  | unreadable (e : Exn) (h : v.run readResults = .error e) (he : e ≠ .notReady) : Cause v r .invalidResult
  | unmarked (h : r.meeting.status = .approved) (hm : v.run readManifest = .error .notReady) : Cause v r .invalidResult
  | conflict (b : ResultBundleV1) (hb : served (current v.log) b) (h : Conflict v b.artifacts) : Cause v r .invalidResult
  /-- The recording was there and could not be read to be sent. -/
  | unread (h : Weather.fails (.read (Path.entry (.folder, .upload)))) : Cause v r .sourceExpired

/-! ## Moves -/

/-- What `_reconcile_pending_jobs` may do to one job. -/
inductive Reconciled (log : List Event) (j : JobRecord) : JobRecord → Prop where
  | kept : Reconciled log j j
  | confirmed (id : UUID) (remote : JobV1) (hid : j.jobId = some id) (hj : j.cleanupStatus = .pending)
      (ht : told log (.getJob id) remote) (hr : remote.jobId = id) (hc : remote.cleanupStatus ≠ .pending) :
      Reconciled log j (j.reconciled remote)

/-- Where the job of the current attempt was heard of. -/
inductive Heard (log : List Event) (r : MeetingRecord) (job : JobRecord) (remote : JobV1) : Prop where
  | polled (hid : job.jobId = some remote.jobId) (ht : hears log (.getJob remote.jobId) remote)
  | looked (hid : job.jobId = none) (ht : hears log (.getJobByKey (r.meeting.id, r.meeting.attempt)) remote)
  | submitted (hid : job.jobId = none) (context : GPUContextV1) (audio : Doc) (suffix : Option AudioExtension)
      (ht : hears log (.submit (r.meeting.id, r.meeting.attempt) context audio suffix) remote)

inductive Move (v : View) (r : MeetingRecord) : MeetingRecord → Prop where
  | reconciled (jobs : List JobRecord) (t : Time) (h : List.Forall₂ (Reconciled v.log) r.jobs jobs) :
      Move v r ((({ r with jobs := jobs } : MeetingRecord).withAggregate).touch t)
  | begun (job : JobRecord) (t : Time) (hs : r.meeting.status ≠ .failed) (hj : r.job = some job)
      (hid : job.jobId = none) (hm : v.run readManifest = .error .notReady) : Move v r (r.begun.touch t)
  | flagged (job : JobRecord) (t : Time) (hs : r.meeting.status = .processing) (hj : r.job = some job)
      (hid : job.jobId = none) : Move v r (r.flagged.touch t)
  | progressed (job : JobRecord) (remote : JobV1) (t : Time) (hs : r.meeting.status ≠ .failed)
      (hj : r.job = some job) (hh : Heard v.log r job remote) (hm : v.run readManifest = .error .notReady)
      (hr : remote.status ≠ .expired ∧ remote.status ≠ .failed) :
      Move v r (((r.polled remote).progressed remote).touch t)
  | polledFailed (job : JobRecord) (remote : JobV1) (code : FailureCode) (t : Time)
      (hs : r.meeting.status ≠ .failed) (hj : r.job = some job) (hh : Heard v.log r job remote)
      (hm : v.run readManifest = .error .notReady) (hc : code ≠ .gpuUnavailable) (hw : Cause v r code) :
      Move v r (((r.polled remote).failed code).touch t)
  | failed (code : FailureCode) (t : Time) (hs : r.meeting.status ≠ .failed) (hc : code ≠ .gpuUnavailable)
      (hx : v.Unpublished) (hw : Cause v r code) : Move v r ((r.failed code).touch t)
  | published (job : JobRecord) (b : ResultBundleV1) (t : Time) (hb : b.valid = true) (hs : served v.log b)
      (hst : r.meeting.status = .processing) (hj : r.job = some job) (hid : job.jobId = some b.jobId)
      (hm : v.look (.folder, .manifest) = none)
      (ha : ∀ n x, (n, x) ∈ b.artifacts → v.look (.folder, n) = some x) (hc : coordinating v.log) (hl : v.justSynced) :
      Move v r (r.published b t)
  | localDeleted (t : Time) (hl : r.localCleanupStatus = .pending) (hs : r.meeting.status.published = true)
      (hu : v.uploadGone) (hc : coordinating v.log) (hn : v.justSynced) : Move v r (r.localDeleted.touch t)
  | localKept (t : Time) (hs : r.meeting.status.published = true) : Move v r (r.touch t)
  | settled (t : Time) (hs : r.meeting.status.published = true) : Move v r (r.withAggregate.touch t)
  | acked (job : JobRecord) (id : UUID) (resultHash : Sha256) (receipt : AckV1) (t : Time)
      (hs : r.meeting.status.published = true) (hj : r.job = some job) (hid : job.jobId = some id)
      (hh : job.resultHash = some resultHash) (ha : acknowledged v.log id resultHash receipt) :
      Move v r (((r.setJob (JobRecord.acked receipt)).withAggregate).touch t)
  | expired (t : Time) (hd : r.overdue t = true) (hu : v.uploadGone) : Move v r (r.expired t)
  | deferred (t : Time) (hd : r.overdue t = true) : Move v r (r.deferred t)
  | retried (t : Time) (hs : r.meeting.status = .failed) (ha : r.meeting.attempt < 3)
      (hu : (v.look (.folder, .upload)).isSome)
      (hn : ∀ n ∈ originals, v.look (.folder, n) = none)
      (hr : v.Durable (.attempt r.meeting.attempt, .meeting) (.record r)) (hd : r.timely)
      (hq : running v.log = some .retry) : Move v r (r.retried t)
  | reviewed (q : ReviewRequest) (original : TranscriptV1) (i : InsightsV1) (res : TranscriptV1 × InsightsV1)
      (t : Time) (hq : running v.log = some (.updateReview q)) (hs : r.meeting.status.published = true)
      (hb : q.baseRevision = r.meeting.revision) (ho : v.run readResults = .ok (original, i))
      (hv : overlay original (q.snapshot Home.meetingId (r.meeting.revision + 1)) = .ok res)
      (hd : v.look (.folder, .snapshot (r.meeting.revision + 1)) =
        some (.snapshot (q.snapshot Home.meetingId (r.meeting.revision + 1))))
      (hp : r.meeting.status = .approved → v.look (.folder, .pdf r.meeting.revision) = none ∧
        v.look (.folder, .pdfMarker r.meeting.revision) = none) : Move v r (r.reviewed t)
  | approved (q : ApprovalRequest) (transcript : TranscriptV1) (insights : InsightsV1) (t : Time)
      (hq : running v.log = some (.approve q)) (hs : r.meeting.status = .reviewRequired)
      (hb : q.baseRevision = r.meeting.revision)
      (hc : v.run (readCurrentLocked r.meeting) = .ok (transcript, insights))
      (hu : ∀ s ∈ transcript.speakers, s.identityStatus ≠ .unreviewed)
      (he : insights.validateAgainst transcript = true) : Move v r (r.approved t)
  | exporting (t : Time) (hs : r.meeting.status = .approved) (hq : running v.log = some .exportPdf) :
      Move v r (r.exporting t)
  | exported (t : Time) (hs : r.meeting.stage = some .exporting) : Move v r (r.exported t)

/-! ## Changes and messages -/

/-- The bundle is being published for the first time. -/
structure Publishing (v : View) (r : MeetingRecord) (b : ResultBundleV1) : Prop where
  readable : v.run readRecord = .ok r
  valid : b.valid = true
  meeting : b.transcript.meetingId = Home.meetingId
  served : served v.log b
  job : ∃ job, r.job = some job ∧ job.jobId = some b.jobId
  unpublished : v.look (.folder, .manifest) = none

/-- What `gpu.submit` may send, and when. -/
structure MaySubmit (v : View) (key : UUID × Nat) (context : GPUContextV1) (audio : Doc)
    (suffix : Option AudioExtension) (r : MeetingRecord) (job : JobRecord) (audioSha256 : Sha256) : Prop where
  readable : v.run readRecord = .ok r
  durable : v.img.dur (.folder, .meeting) = some (.record r)
  isJob : r.job = some job
  unbound : job.jobId = none
  flagged : job.submitStarted = some true
  source : r.audioSha256 = some audioSha256
  upload : v.look (.folder, .upload) = some audio
  key : key = (r.meeting.id, r.meeting.attempt)
  context : context = r.context audioSha256
  suffix : suffix = r.audioExtension
  /-- It is the attempt's first, or the key was looked up and not found since the action started. -/
  fresh : r.meeting.attempt ∉ submissions v.log ∨
    ∃ a, ((r.meeting.id, r.meeting.attempt), a) ∈ lookups (current v.log)
  absent : ∀ l ∈ lookups (current v.log), notFound l.2
  once : submissions (current v.log) = []
  timely : r.timely

/-- The published results are durable, and they are the acknowledged ones. -/
structure MayAck (v : View) (id : UUID) (resultHash : Sha256) (m : ReadyManifest) (t : TranscriptV1)
    (i : InsightsV1) : Prop where
  committed : v.Committed m t i
  durable : v.afterPower.Committed m t i
  jobId : m.jobId = id
  resultHash : m.resultHash = resultHash
  files : ∀ n ∈ [Name.transcript, .insights, .text, .meeting, .manifest],
    ∃ x, v.Durable (.folder, n) x

inductive Legal (v : View) : Event → Prop where
  | synced (d : Dir) (h : v.reach d = true) : Legal v (.file (.synced d))
  | made (d : Dir) (h : d ≠ .folder ∨ v.Void ∧ running v.log = none) : Legal v (.file (.made d))
  | uploaded (x : Doc) (hv : v.Void) (hr : running v.log = none) (hd : v.img.dur (.folder, .upload) = none) :
      Legal v (.file (.put (.folder, .upload) x))
  | born (metadata : MeetingMetadata) (t : Time) (kind : PublicSourceKind) (hours : Nat) (audio : Bytes)
      (extension : Option AudioExtension) (hm : metadata.valid Lib.validTimezone = true)
      (hv : v.Void) (hr : running v.log = none) (hu : v.look (.folder, .upload) = some (.blob audio))
      (ho : ∀ n, n ≠ .upload → v.img.vol (.folder, n) = none)
      (hs : CrashDisk.reach v.img.slotDur .folder = true) (hw : written v.log = []) :
      Legal v (.file (.put (.folder, .meeting)
        (.record (MeetingRecord.new (Meeting.new metadata t kind hours) audio extension))))
  | withdrawn (hr : running v.log = none) : Legal v (.file (.removed (.folder, .meeting)))
  | moved (r r' : MeetingRecord) (hr : v.run readRecord = .ok r) (hok : r'.ok = true) (hm : Move v r r')
      (ha : running v.log ≠ none) : Legal v (.file (.put (.folder, .meeting) (.record r')))
  | artifact (r : MeetingRecord) (b : ResultBundleV1) (n : Name) (x : Doc) (hp : Publishing v r b)
      (hs : r.meeting.status = .processing) (hx : (n, x) ∈ b.artifacts) (hn : v.look (.folder, n) = none) :
      Legal v (.file (.put (.folder, n) x))
  | manifest (r : MeetingRecord) (b : ResultBundleV1) (hp : Publishing v r b)
      (hs : r.meeting.status = .reviewRequired) (hb : r.boundTo (b.manifest r.meeting.attempt))
      (ha : ∀ n x, (n, x) ∈ b.artifacts → v.look (.folder, n) = some x)
      (hd : ∀ n, v.img.dur (.folder, n) = v.img.vol (.folder, n)) :
      Legal v (.file (.put (.folder, .manifest) (.manifest (b.manifest r.meeting.attempt))))
  | archived (r : MeetingRecord) (n : Name) (x : Doc) (hr : v.run readRecord = .ok r)
      (hs : r.meeting.status = .failed) (hx : v.look (.folder, n) = some x)
      (hn : v.look (.attempt r.meeting.attempt, n) = none) (hname : n = .meeting ∨ n ∈ originals) :
      Legal v (.file (.put (.attempt r.meeting.attempt, n) x))
  | dropped (r : MeetingRecord) (n : Name) (x : Doc) (hr : v.run readRecord = .ok r)
      (hs : r.meeting.status = .failed) (hx : v.look (.folder, n) = some x)
      (hn : v.Durable (.attempt r.meeting.attempt, n) x) (hname : n ∈ originals)
      (hfirst : n ≠ .manifest → v.look (.folder, .manifest) = none) :
      Legal v (.file (.removed (.folder, n)))
  | snapshot (r : MeetingRecord) (s : ReviewSnapshot) (hr : v.run readRecord = .ok r)
      (hs : r.meeting.status.published = true) :
      Legal v (.file (.put (.folder, .snapshot (r.meeting.revision + 1)) (.snapshot s)))
  | review (x : Doc) : Legal v (.file (.put (.folder, .review) x))
  | pdf (r : MeetingRecord) (t : TranscriptV1) (i : InsightsV1) (hr : v.run readRecord = .ok r)
      (hs : r.meeting.status = .approved) (hc : v.run (readCurrentLocked r.meeting) = .ok (t, i)) :
      Legal v (.file (.put (.folder, .pdf r.meeting.revision) (.blob (Lib.layout r.meeting.rendered t i))))
  | pdfMarker (r : MeetingRecord) (t : TranscriptV1) (i : InsightsV1) (hr : v.run readRecord = .ok r)
      (hs : r.meeting.status = .approved) (hc : v.run (readCurrentLocked r.meeting) = .ok (t, i)) :
      Legal v (.file (.put (.folder, .pdfMarker r.meeting.revision)
        (pdfCacheMarker r.meeting.revision (.blob (Lib.layout r.meeting.rendered t i)))))
  | pdfDropped (r : MeetingRecord) (n : Name) (hr : v.run readRecord = .ok r)
      (hn : n = .pdf r.meeting.revision ∨ n = .pdfMarker r.meeting.revision) : Legal v (.file (.removed (.folder, n)))
  | uploadDropped (r : MeetingRecord) (hr : v.run readRecord = .ok r)
      (hc : (∃ m, v.run readManifest = .ok m) ∨ r.late) : Legal v (.file (.removed (.folder, .upload)))
  | renamed (r : MeetingRecord) (t : UUID) (hr : v.run readRecord = .ok r)
      (hc : r.cleanupPending = false) (hj : r.jobsPending = false) (hu : v.look (.folder, .upload) = none)
      (hq : ∃ s, running v.log = some (.delete s)) : Legal v (.file (.renamed .folder t))
  | restored (t : UUID) (log : List Event) (h : v.log = .file (.renamed .folder t) :: log) :
      Legal v (.file (.restored .folder))
  | wiped (left : Option (Dir × Name → Bool))
      (h : v.img.slot .folder ≠ .live ∨ v.img.vol (.folder, .meeting) = none)
      (hr : running v.log ≠ none) : Legal v (.file (.wiped .folder left))
  | submit (key : UUID × Nat) (context : GPUContextV1) (audio : Doc) (suffix : Option AudioExtension)
      (a : Response) (r : MeetingRecord) (job : JobRecord) (audioSha256 : Sha256)
      (h : MaySubmit v key context audio suffix r job audioSha256) :
      Legal v (.asked (.submit key context audio suffix) a)
  | getJob (id : UUID) (a : Response) : Legal v (.asked (.getJob id) a)
  | getJobByKey (key : UUID × Nat) (a : Response) : Legal v (.asked (.getJobByKey key) a)
  | getResult (id : UUID) (a : Response) : Legal v (.asked (.getResult id) a)
  | ack (id : UUID) (resultHash : Sha256) (a : Response) (m : ReadyManifest) (t : TranscriptV1) (i : InsightsV1)
      (h : MayAck v id resultHash m t i) : Legal v (.asked (.ack id resultHash) a)
  | responded (r : MeetingRecord) (pdf : Bytes) (hr : v.run readRecord = .ok r)
      (hs : r.meeting.status = .approved) (hp : v.look (.folder, .pdf r.meeting.revision) = some (.blob pdf)) :
      Legal v (.responded pdf)

/-- What an export may do. -/
inductive Exports (v : View) : Event → Prop where
  | synced (d : Dir) (h : v.reach d = true) : Exports v (.file (.synced d))
  | exporting (r : MeetingRecord) (t : Time) (hr : v.run readRecord = .ok r) (hs : r.meeting.status = .approved)
      (hq : running v.log = some .exportPdf) (hok : (r.exporting t).ok = true) (hx : ∃ x, v.run readResults = .ok x) :
      Exports v (.file (.put (.folder, .meeting) (.record (r.exporting t))))
  | exported (r : MeetingRecord) (t : Time) (hr : v.run readRecord = .ok r) (hs : r.meeting.stage = some .exporting)
      (hq : running v.log = some .exportPdf) (hok : (r.exported t).ok = true) :
      Exports v (.file (.put (.folder, .meeting) (.record (r.exported t))))
  | pdf (r : MeetingRecord) (t : TranscriptV1) (i : InsightsV1) (hr : v.run readRecord = .ok r)
      (hs : r.meeting.status = .approved) (hc : v.run (readCurrentLocked r.meeting) = .ok (t, i)) :
      Exports v (.file (.put (.folder, .pdf r.meeting.revision) (.blob (Lib.layout r.meeting.rendered t i))))
  | pdfMarker (r : MeetingRecord) (t : TranscriptV1) (i : InsightsV1) (hr : v.run readRecord = .ok r)
      (hs : r.meeting.status = .approved) (hc : v.run (readCurrentLocked r.meeting) = .ok (t, i)) :
      Exports v (.file (.put (.folder, .pdfMarker r.meeting.revision)
        (pdfCacheMarker r.meeting.revision (.blob (Lib.layout r.meeting.rendered t i)))))
  | pdfDropped (r : MeetingRecord) (n : Name) (hr : v.run readRecord = .ok r)
      (hn : n = .pdf r.meeting.revision ∨ n = .pdfMarker r.meeting.revision) :
      Exports v (.file (.removed (.folder, n)))
  | responded (r : MeetingRecord) (pdf : Bytes) (hr : v.run readRecord = .ok r)
      (hs : r.meeting.status = .approved) (hp : v.look (.folder, .pdf r.meeting.revision) = some (.blob pdf)) :
      Exports v (.responded pdf)

theorem Exports.legal {v : View} {e : Event} (h : Exports v e) : Legal v e := by
  cases h with
  | synced d h => exact .synced d h
  | exporting r t hr hs hq hok => exact .moved r _ hr hok (.exporting t hs hq) (by rw [hq]; nofun)
  | exported r t hr hs hq hok => exact .moved r _ hr hok (.exported t hs) (by rw [hq]; nofun)
  | pdf r t i hr hs hc => exact .pdf r t i hr hs hc
  | pdfMarker r t i hr hs hc => exact .pdfMarker r t i hr hs hc
  | pdfDropped r n hr hn => exact .pdfDropped r n hr hn
  | responded r pdf hr hs hp => exact .responded r pdf hr hs hp

end Tirke

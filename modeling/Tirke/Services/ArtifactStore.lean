import Tirke.Machine
/-!
# `app/services/artifact_store.py`

Each `def` is the method of `LocalArtifactStore` of that name, without the two ids (`Home`). Pure
parts of a method that builds a new record are separate definitions (`MeetingRecord.published`).

| here | there |
| --- | --- |
| `atomicWrite` | `_atomic_write` (`:126`): `mkstemp`, `write`, `fsync`, `link` or `replace`, sync, `finally: unlink` |
| `makeDirectory` | `_make_directory` (`:106`), with the recursion of `Path.mkdir(parents=True)` |
| `copyAudio` | the `while chunk := source.read(…)` loop (`:240`) |
| `lifecycleLock b body` | `with store.lifecycle_lock(blocking=b) as acquired: body` (`:415`) |
-/

namespace Tirke

open CrashProg CrashDisk

variable [Lib] [Home]

/-! ## Parsing -/

def Doc.asRecord : Doc → Option MeetingRecord
  | .record r => if r.ok then some r else none
  | _ => none

def Doc.asManifest : Doc → Option ReadyManifest
  | .manifest m => if m.valid then some m else none
  | _ => none

def Doc.asTranscript : Doc → Option TranscriptV1
  | .transcript t => if t.valid then some t else none
  | _ => none

def Doc.asInsights : Doc → Option InsightsV1
  | .insights i => if i.valid then some i else none
  | _ => none

def Doc.asSnapshot : Doc → Option ReviewSnapshot
  | .snapshot s => if s.valid then some s else none
  | _ => none

/-- `model_validate_json(data)`, whose `ValidationError` is reported as `e`. -/
def parse {α : Type} (as : Doc → Option α) (d : Doc) (e : Exn) : Serv α :=
  match as d with
  | some a => .ret a
  | none => .raise e

/-! ## Files and directories -/

def read (p : Path) : Serv Doc := call (.read p.entry)

def exists? (p : Path) : Serv Bool := call (.test p.entry)

def syncDirectory (d : Dir) : Serv Unit := call (.syncDir d)

def syncFile (p : Path) : Serv Unit := call (.fsync p.entry)

def mkdirParents : List Dir → Serv Unit
  | [] => .ret ()
  | d :: ds => (call (.mkdir d)).handle fun e =>
    if e = .fileNotFound then do mkdirParents ds; call (.mkdir d) else .raise e

def syncAll : List Dir → Serv Unit
  | [] => .ret ()
  | d :: ds => do syncDirectory d; syncAll ds

def makeDirectory (d : Dir) : Serv Unit := do
  mkdirParents d.chain
  syncAll d.chain

/-- `if self._read(path) != data: raise e`. -/
def sameContent (p : Path) (data : Doc) (e : Exn) : Serv Unit := do
  let stored ← read p
  demand (stored = data) e

/-- `os.link`, or the check that the original that is already there is the same. -/
def linkOriginal (temporary : Dir × Entry Name) (p : Path) (data : Doc) : Serv Unit :=
  (call (.link temporary p.entry)).handle fun e =>
    if e = .fileExists then do
      sameContent p data (.integrity "Original artifact conflict")
      syncFile p
    else .raise e

def showTemporary (temporary : Dir × Entry Name) (p : Path) (data : Doc) (immutable : Bool) : Serv Unit :=
  if immutable then linkOriginal temporary p data else call (.replace temporary p.entry)

def writeTemporary (p : Path) (data : Doc) (immutable : Bool) : Serv Unit := do
  let k ← call (.mkstemp p.1)
  let temporary : Dir × Entry Name := (p.1, .pending k)
  Prog.ensuring (do
      call (.write temporary data)
      call (.fsync temporary)
      showTemporary temporary p data immutable
      syncDirectory p.1)
    (call (.unlink temporary true))

def atomicWrite (p : Path) (data : Doc) : Serv Unit := writeTemporary p data false

/-- `_atomic_write(…, immutable=True)`. -/
def writeOriginal (p : Path) (data : Doc) : Serv Unit := do
  if ← exists? p then
    sameContent p data (.integrity "Original artifact already exists")
    syncFile p
    syncDirectory p.1
  else writeTemporary p data true

def discard {α : Type} (p : Serv α) : Serv Unit := p.bind fun _ => .ret ()

/-! ## Reading -/

def readRecord : Serv MeetingRecord := do
  let data ← missingAs (read (.folder, .meeting)) .meetingNotFound
  let record ← parse Doc.asRecord data (.integrity "Invalid meeting state")
  demand (record.ownerId = Home.ownerId && record.meeting.id = Home.meetingId) .meetingNotFound
  return record

def readManifest : Serv ReadyManifest := do
  let record ← readRecord
  let data ← missingAs (read (.folder, .manifest)) Exn.notReady
  let manifest ← parse Doc.asManifest data (.integrity "Invalid ready manifest")
  demand (manifest.ownerId = Home.ownerId && manifest.meetingId = Home.meetingId)
    (.integrity "Manifest identity mismatch")
  demand (manifest.attempt = record.meeting.attempt) .notReady
  return manifest

/-- One turn of the loop over `expected` (`:590`). -/
def readArtifact (n : Name) (expected : Sha256) : Serv Doc := do
  let data ← missingAs (read (.folder, n)) (.integrity "Committed artifact missing")
  demand (Lib.sha256 data = expected) (.integrity "Artifact hash mismatch")
  return data

def ReadyManifest.bundle (m : ReadyManifest) (t : TranscriptV1) (i : InsightsV1) : ResultBundleV1 :=
  ⟨m.jobId, t, i, m.modelVersions, m.resultHash⟩

def readResults : Serv (TranscriptV1 × InsightsV1) := do
  let manifest ← readManifest
  let t ← readArtifact .transcript manifest.artifacts.transcriptJson
  let i ← readArtifact .insights manifest.artifacts.insightsJson
  let _ ← readArtifact .text manifest.artifacts.transcriptTxt
  let transcript ← parse Doc.asTranscript t (.integrity "Invalid committed result")
  let insights ← parse Doc.asInsights i (.integrity "Invalid committed result")
  demand (manifest.bundle transcript insights).valid (.integrity "Invalid committed result")
  demand (transcript.meetingId = Home.meetingId) (.integrity "Artifact meeting mismatch")
  return (transcript, insights)

/-- `meeting`, shown as still being saved while its results are not committed (`:293`). -/
def showStatus (meeting : Meeting) : Serv Meeting :=
  if meeting.status.published then
    (do discard readResults; return meeting).handle fun (e : Exn) =>
      if e = Exn.notReady then .ret { meeting with status := .processing, stage := some .savingResults }
      else .raise e
  else .ret meeting

/-- `upload.is_file() and …temporary_expires_at is not None and now < …`. -/
def sourceAvailable (meeting : Meeting) : Serv Bool := do
  let isFile ← exists? (.folder, .upload)
  match isFile, meeting.temporaryExpiresAt with
  | true, some deadline => do
    let t ← now
    return t < deadline
  | _, _ => return false

def readMeeting : Serv Meeting := do
  let record ← readRecord
  let meeting ← showStatus record.meeting
  let available ← sourceAvailable meeting
  return { meeting with sourceAvailable := available }

/-! ## Creation -/

def microsPerHour : Nat := 3600000000

/-- `PublicSourceKind`. -/
inductive PublicSourceKind where
  | uploadedAudio
  | browserRecording
deriving DecidableEq

def PublicSourceKind.kind : PublicSourceKind → SourceKind
  | .uploadedAudio => .uploadedAudio
  | .browserRecording => .browserRecording

def Meeting.new (metadata : MeetingMetadata) (t : Time) (kind : PublicSourceKind) (hours : Nat) : Meeting where
  toMeetingMetadata := metadata
  id := Home.meetingId
  createdAt := t
  updatedAt := t
  attempt := 1
  revision := 0
  status := .queued
  stage := none
  sourceAvailable := true
  cleanupStatus := .pending
  temporaryExpiresAt := some (t + hours * microsPerHour)
  source := ⟨kind.kind, false, none⟩
  failure := none

def MeetingRecord.new (meeting : Meeting) (audio : Bytes) (extension : Option AudioExtension) : MeetingRecord where
  ownerId := Home.ownerId
  meeting := meeting
  audioSha256 := some (Lib.sha256 (.blob audio))
  audioExtension := extension
  localCleanupStatus := .pending
  jobs := [.new 1 (some false)]

/-- The chunks `source.read(1024 * 1024)` returns; an empty one ends the stream. -/
def copyAudio : Bytes → List Bytes → Serv Bytes
  | written, [] => .ret written
  | written, chunk :: rest =>
    if chunk.isEmpty then .ret written
    else do
      call (.write (Path.entry (.folder, .upload)) (.blob (written ++ chunk)))
      copyAudio (written ++ chunk) rest

/-- Undo a creation whose marker may already be visible, and report its error. -/
def withdraw {α : Type} (e : Exn) : Serv α := do
  call (.unlink (Path.entry (.folder, .meeting)) true)
  syncDirectory .folder
  syncDirectory .meetings
  throw e

def createMeeting (metadata : MeetingMetadata) (chunks : List Bytes) (kind : PublicSourceKind)
    (extension : Option AudioExtension) (hours : Nat) : Serv Meeting := do
  demand (metadata.valid Lib.validTimezone) .validation
  demand (0 < hours) (.valueError "Retention must be positive")
  makeDirectory .folder
  let t ← now
  let meeting := Meeting.new metadata t kind hours
  call (.create (Path.entry (.folder, .upload)))
  let audio ← copyAudio [] chunks
  call (.fsync (Path.entry (.folder, .upload)))
  let record := MeetingRecord.new meeting audio extension
  Prog.handle (do
      atomicWrite (.folder, .meeting) (.record record)
      syncDirectory .meetings)
    withdraw
  return meeting

/-! ## Updates -/

/-- Copy one original into the archive and drop it from the folder. -/
def archiveOriginal (n : Nat) (name : Name) : Serv Unit := do
  if ← exists? (.folder, name) then
    let data ← read (.folder, name)
    writeOriginal (.attempt n, name) data
    call (.unlink (Path.entry (.folder, name)) false)
    syncDirectory .folder
  else return ()

/-- The commit marker goes first: remaining partial originals are never ready. -/
def originals : List Name := [.manifest, .transcript, .insights, .text]

def archiveOriginals (n : Nat) : List Name → Serv Unit
  | [] => .ret ()
  | name :: names => do archiveOriginal n name; archiveOriginals n names

def archiveAttempt (old : MeetingRecord) : Serv Unit := do
  makeDirectory (.attempt old.meeting.attempt)
  writeOriginal (.attempt old.meeting.attempt, .meeting) (.record old)
  archiveOriginals old.meeting.attempt originals
  syncDirectory .attempts

/-- The one attempt change `update_meeting` accepts (`:349`). -/
def MeetingRecord.retries (record old : MeetingRecord) : Bool :=
  old.meeting.status = .failed && record.meeting.status = .queued &&
    record.meeting.attempt = old.meeting.attempt + 1

def archiveBefore (record old : MeetingRecord) : Serv Unit :=
  if record.meeting.attempt = old.meeting.attempt then .ret ()
  else do
    demand (record.retries old) (.valueError "Attempt changes require failed-to-queued retry")
    archiveAttempt old

/-- A published record needs its committed results (`:356`). -/
def checkResults (record : MeetingRecord) : Serv Unit :=
  if record.meeting.status.published then discard readResults else .ret ()

/-- What validating the record raises: its own validator runs after those of its fields (`:154`). -/
def MeetingRecord.invalid (record : MeetingRecord) : Exn :=
  if record.meeting.valid Lib.validTimezone && record.jobs.all (fun j => 1 ≤ j.attempt) then .jobHistory
  else .validation

def updateMeeting (record : MeetingRecord) : Serv Meeting := do
  demand record.ok record.invalid
  let old ← readRecord
  demand (record.ownerId = Home.ownerId && record.meeting.createdAt = old.meeting.createdAt)
    (.valueError "Immutable meeting identity changed")
  archiveBefore record old
  checkResults record
  atomicWrite (.folder, .meeting) (.record record)
  readMeeting

/-! ## The upload -/

/-- Whether `upload_path` returns, and not `FileNotFoundError`. -/
def uploadPath : Serv Path := do
  let meeting ← readMeeting
  demand meeting.sourceAvailable .fileNotFound
  return (.folder, .upload)

def uploadPresent : Serv Bool := do
  discard readRecord
  exists? (.folder, .upload)

def deleteUpload : Serv Unit := do
  discard readRecord
  call (.unlink (Path.entry (.folder, .upload)) true)
  syncDirectory .folder

/-! ## Locks and deletion -/

def lifecycleLock {α : Type} (blocking : Bool) (body : Bool → Serv α) : Serv α := do
  discard readRecord
  missingAs (call (.openLock .folder)) .meetingNotFound
  let acquired ← flock blocking
  body acquired

/-- `delete_meeting` (`:455`); `suffix` is the `uuid4()` of the tombstone's name. -/
def deleteMeeting (suffix : UUID) : Serv Unit := do
  call (.openLock .root)
  discard readRecord
  call (.rename .folder suffix)
  (syncDirectory .meetings).handle fun e => do
    call (.restore .folder)
    syncDirectory .meetings
    throw e
  Prog.handle (do call (.rmtree .folder); syncDirectory .meetings) fun e =>
    if e.isOSError then .ret () else .raise e

/-! ## Publication -/

/-- `next((job for job in jobs if job.attempt == attempt), None)`. -/
def MeetingRecord.job (r : MeetingRecord) : Option JobRecord := r.jobs.find? (·.attempt = r.meeting.attempt)

/-- Assign to the current attempt's job; attempts are unique (`validJobHistory`). -/
def MeetingRecord.setJob (r : MeetingRecord) (f : JobRecord → JobRecord) : MeetingRecord :=
  { r with jobs := r.jobs.map fun j => if j.attempt = r.meeting.attempt then f j else j }

def ResultBundleV1.artifacts (b : ResultBundleV1) : List (Name × Doc) :=
  [(.transcript, .transcript b.transcript), (.insights, .insights b.insights),
    (.text, .text (transcriptTxt b.transcript))]

def ResultBundleV1.manifest (b : ResultBundleV1) (attempt : Nat) : ReadyManifest where
  ownerId := Home.ownerId
  meetingId := Home.meetingId
  attempt := attempt
  jobId := b.jobId
  resultHash := b.resultHash
  modelVersions := b.modelVersions
  artifacts := ⟨Lib.sha256 (.transcript b.transcript), Lib.sha256 (.insights b.insights),
    Lib.sha256 (.text (transcriptTxt b.transcript))⟩

def MeetingRecord.withCurrentJob (r : MeetingRecord) : MeetingRecord :=
  if r.job.isSome then r else { r with jobs := r.jobs ++ [.new r.meeting.attempt none] }

def JobRecord.published (b : ResultBundleV1) (j : JobRecord) : JobRecord :=
  { j with jobId := some b.jobId, resultHash := some b.resultHash, ackPending := true }

def MeetingRecord.published (r : MeetingRecord) (b : ResultBundleV1) (t : Time) : MeetingRecord :=
  let r := { r with meeting := { r.meeting with
    status := .reviewRequired, stage := none, updatedAt := t, failure := none } }
  r.withCurrentJob.setJob (JobRecord.published b)

def writeArtifacts : List (Name × Doc) → Serv Unit
  | [] => .ret ()
  | (name, data) :: rest => do
    writeOriginal (.folder, name) data
    let stored ← read (.folder, name)
    demand (Lib.sha256 stored = Lib.sha256 data) (.integrity "Artifact verification failed")
    writeArtifacts rest

def syncFiles : List Name → Serv Unit
  | [] => .ret ()
  | name :: names => do syncFile (.folder, name); syncFiles names

/-- A manifest is already visible (`:491`). -/
def republish (bundle : ResultBundleV1) : Serv ReadyManifest := do
  let manifest ← readManifest
  demand (manifest.resultHash = bundle.resultHash) (.integrity "Result already published")
  discard readResults
  syncFiles [.transcript, .insights, .text, .meeting, .manifest]
  makeDirectory .folder
  return manifest

def publishFirst (record : MeetingRecord) (bundle : ResultBundleV1) : Serv ReadyManifest := do
  writeArtifacts bundle.artifacts
  let manifest := bundle.manifest record.meeting.attempt
  let t ← now
  atomicWrite (.folder, .meeting) (.record (record.published bundle t))
  writeOriginal (.folder, .manifest) (.manifest manifest)
  return manifest

def publishResults (bundle : ResultBundleV1) : Serv ReadyManifest := do
  demand bundle.valid .validation
  let record ← readRecord
  demand (bundle.transcript.meetingId = Home.meetingId) (.integrity "Result belongs to another meeting")
  demand (record.job.all fun job => job.jobId.all (· = bundle.jobId))
    (.integrity "Result belongs to another job")
  if ← exists? (.folder, .manifest) then republish bundle else publishFirst record bundle

/-! ## PDF cache -/

def pdfCacheMarker (revision : Nat) (data : Doc) : Doc :=
  .pdfMarker Home.ownerId Home.meetingId revision (Lib.sha256 data)

/-- `pdf_path`: the path needs a readable record. -/
def pdfPath (revision : Nat) : Serv Path := do
  discard readRecord
  return (.folder, .pdf revision)

def readPdfCache (revision : Nat) : Serv Doc := do
  let path ← pdfPath revision
  let data ← read path
  let marker ← missingAs (read (.folder, .pdfMarker revision)) (.integrity "PDF cache marker missing")
  demand (marker = pdfCacheMarker revision data) (.integrity "PDF cache marker mismatch")
  return data

def writePdfCache (revision : Nat) (data : Doc) : Serv Unit := do
  let path ← pdfPath revision
  writeOriginal path data
  writeOriginal (.folder, .pdfMarker revision) (pdfCacheMarker revision data)

def deletePdfCache (revision : Nat) : Serv Unit := do
  let path ← pdfPath revision
  call (.unlink path.entry true)
  call (.unlink (Path.entry (.folder, .pdfMarker revision)) true)
  syncDirectory .folder

end Tirke

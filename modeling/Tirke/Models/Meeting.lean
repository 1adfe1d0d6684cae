import Tirke.Models.Insights
/-!
# `app/models/meeting.py`: public meeting fields and private durable coordinator state

`Meeting.valid` and `MeetingRecord.valid` decide whether pydantic accepts the value, so
`MeetingRecord.model_validate_json(record.model_dump_json())` is `record` when valid and a
`ValidationError` otherwise. The IANA zone table is a parameter (`valid_timezone`).
-/

namespace Tirke

inductive MeetingStatus where
  | queued
  | processing
  | reviewRequired
  | approved
  | failed
deriving DecidableEq, Repr

/-- `status in {"review_required", "approved"}`. -/
def MeetingStatus.published : MeetingStatus → Bool
  | .reviewRequired | .approved => true
  | _ => false

inductive MeetingStage where
  | uploadingToGpu
  | ingesting
  | transcribing
  | diarizing
  | analyzing
  | savingResults
  | exporting
deriving DecidableEq, Repr

inductive CleanupStatus where
  | pending
  | deleted
  | expired
deriving DecidableEq, Repr

inductive LanguageHint where
  | auto
  | ru
  | kk
  | mixed
deriving DecidableEq, Repr

inductive AudioExtension where
  | wav
  | mp3
  | m4a
  | ogg
  | webm
deriving DecidableEq, Repr

structure MeetingMetadata where
  title : Str
  meetingDate : Date
  timezone : Str
  participants : List Str
  recordingNoticeConfirmed : Bool
  languageHint : LanguageHint
deriving DecidableEq

inductive SourceKind where
  | uploadedAudio
  | browserRecording
  | demoFixture
deriving DecidableEq, Repr

/-- `label` is the one literal text the model allows, or absent. -/
structure MeetingSource where
  kind : SourceKind
  label : Bool
  fixtureId : Option Str
deriving DecidableEq

/-- `valid_source` (`:79`). -/
def MeetingSource.valid (s : MeetingSource) : Bool :=
  s.fixtureId.all nonBlank &&
    if s.kind = .demoFixture then s.label && s.fixtureId.isSome else !s.label && s.fixtureId.isNone

inductive FailureCode where
  | invalidAudio
  | processingFailed
  | storageFailed
  | sourceExpired
  | gpuUnavailable
  | invalidResult
deriving DecidableEq, Repr

structure Failure where
  code : FailureCode
  message : Str
deriving DecidableEq

structure Meeting extends MeetingMetadata where
  id : UUID
  createdAt : Time
  updatedAt : Time
  attempt : Nat
  revision : Nat
  status : MeetingStatus
  stage : Option MeetingStage
  sourceAvailable : Bool
  cleanupStatus : CleanupStatus
  temporaryExpiresAt : Option Time
  source : MeetingSource
  failure : Option Failure
deriving DecidableEq

/-- `MeetingMetadata` (`:38`): lengths, the notice, the zone, unique participants. -/
def MeetingMetadata.valid (validTimezone : Str → Bool) (m : MeetingMetadata) : Bool :=
  nonBlank m.title && m.title.length ≤ 120 && m.participants.length ≤ 30 && m.participants.all personName &&
    decide m.participants.Nodup && m.recordingNoticeConfirmed && validTimezone m.timezone

/-- `Meeting.valid_stage` (`:126`). -/
def Meeting.validStage (m : Meeting) : Bool :=
  m.stage.all fun s => m.status = if s = .exporting then .approved else .processing

def Meeting.valid (validTimezone : Str → Bool) (m : Meeting) : Bool :=
  m.toMeetingMetadata.valid validTimezone && 1 ≤ m.attempt && m.source.valid &&
    m.failure.all (fun f => nonBlank f.message) && m.validStage

structure JobRecord where
  attempt : Nat
  jobId : Option UUID
  /-- `none` marks legacy state where a send may have happened before this field existed. -/
  submitStarted : Option Bool
  resultHash : Option Sha256
  cleanupStatus : CleanupStatus
  expiresAt : Option Time
  receiptExpiresAt : Option Time
  ackPending : Bool
deriving DecidableEq

/-- `JobRecord(attempt=n, submit_started=started)`. -/
def JobRecord.new (n : Nat) (started : Option Bool) : JobRecord :=
  ⟨n, none, started, none, .pending, none, none, false⟩

structure MeetingRecord where
  ownerId : UUID
  meeting : Meeting
  audioSha256 : Option Sha256
  audioExtension : Option AudioExtension
  localCleanupStatus : CleanupStatus
  jobs : List JobRecord
deriving DecidableEq

/-- `valid_job_history` (`:154`). -/
def MeetingRecord.validJobHistory (r : MeetingRecord) : Bool :=
  !r.jobs.isEmpty && decide (r.jobs.map (·.attempt)).Nodup && r.jobs.all fun j => j.attempt ≤ r.meeting.attempt

def MeetingRecord.valid (validTimezone : Str → Bool) (r : MeetingRecord) : Bool :=
  r.meeting.valid validTimezone && r.jobs.all (fun j => 1 ≤ j.attempt) && r.validJobHistory

structure ArtifactHashes where
  transcriptJson : Sha256
  insightsJson : Sha256
  transcriptTxt : Sha256
deriving DecidableEq

structure ReadyManifest where
  ownerId : UUID
  meetingId : UUID
  attempt : Nat
  jobId : UUID
  resultHash : Sha256
  modelVersions : ModelVersions
  artifacts : ArtifactHashes
deriving DecidableEq

def ReadyManifest.valid (m : ReadyManifest) : Bool := 1 ≤ m.attempt && m.modelVersions.valid

end Tirke

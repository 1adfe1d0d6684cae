import Tirke.Models.Meeting
/-!
# `app/models/gpu.py`: wire models of the inference API
-/

namespace Tirke

structure GPUContextV1 where
  meetingId : UUID
  attempt : Nat
  meetingDate : Date
  timezone : Str
  participants : List Str
  languageHint : LanguageHint
  audioSha256 : Sha256
deriving DecidableEq

def GPUContextV1.valid (validTimezone : Str → Bool) (c : GPUContextV1) : Bool :=
  1 ≤ c.attempt && validTimezone c.timezone && c.participants.length ≤ 30 && c.participants.all personName &&
    decide c.participants.Nodup

inductive GPUFailureCode where
  | invalidAudio
  | processingFailed
  | storageFailed
  | sourceExpired
deriving DecidableEq, Repr

structure GPUFailure where
  code : GPUFailureCode
  message : Str
deriving DecidableEq

inductive JobStatus where
  | queued
  | processing
  | completed
  | failed
  | expired
deriving DecidableEq, Repr

inductive JobStage where
  | ingesting
  | transcribing
  | diarizing
  | analyzing
deriving DecidableEq, Repr

structure JobV1 where
  jobId : UUID
  status : JobStatus
  stage : Option JobStage
  failure : Option GPUFailure
  resultHash : Option Sha256
  cleanupStatus : CleanupStatus
  expiresAt : Time
  receiptExpiresAt : Option Time
deriving DecidableEq

/-- `JobV1.valid_stage` (`:68`). -/
def JobV1.valid (j : JobV1) : Bool :=
  let running := j.status = .queued || j.status = .processing
  j.failure.all (fun f => nonBlank f.message) &&
    (j.stage.isNone || j.status = .processing) &&
    (j.status != .completed || j.resultHash.isSome) &&
    (!running || j.resultHash.isNone) &&
    (j.cleanupStatus != .pending || j.receiptExpiresAt.isNone) &&
    (j.cleanupStatus = .pending || (j.receiptExpiresAt.isSome && !running))

structure AckV1 where
  jobId : UUID
  resultHash : Sha256
  cleanupStatus : CleanupStatus
  receiptExpiresAt : Time
deriving DecidableEq

/-- `cleanup_status: Literal["deleted", "expired"]`. -/
def AckV1.valid (a : AckV1) : Bool := a.cleanupStatus != .pending

end Tirke

import Tirke.Services.ArtifactStore
/-!
# `app/services/gpu_client.py`

A response is any value of `Response`: `_send` and `_parse` decide what the caller sees of it. A body
that parses as the expected model and satisfies its validators is returned; everything else is one of
the four `GPUClientError`s.
-/

namespace Tirke

open CrashProg CrashDisk

variable [Lib] [Home]

/-- `_DOMAIN_CODES` (`:17`). -/
def domainCodes : Nat → Option (List DomainCode)
  | 404 => some [.jobNotFound]
  | 409 => some [.idempotencyConflict, .submissionPending, .resultNotReady, .jobFailed, .resultHashMismatch]
  | 410 => some [.payloadDeleted, .sourceExpired]
  | 413 => some [.fileTooLarge]
  | 415 => some [.unsupportedMediaType]
  | 422 => some [.invalidRequest]
  | _ => none

/-- `_send` after the exchange (`:152`). -/
def accepted (expected : Nat) : Response → Except Exn Body
  | .timeout => .error (.gpuUnavailable "timeout")
  | .connectionError => .error (.gpuUnavailable "connection")
  | .http status body =>
    if status = expected then .ok body
    else if status = 401 then .error (.gpuUnavailable "unauthorized")
    else if 500 ≤ status then .error (.gpuUnavailable "service_unavailable")
    else match domainCodes status, body with
      | some codes, .error (some code) => .error (if code ∈ codes then .gpuDomain status code else .gpuProtocol)
      | _, _ => .error .gpuProtocol

/-- `_parse(response, JobV1)`. -/
def jobIn (expected : Nat) (a : Response) : Except Exn JobV1 :=
  match accepted expected a with
  | .ok (.job j) => if j.valid then .ok j else .error .gpuProtocol
  | .ok _ => .error .gpuProtocol
  | .error e => .error e

def bundleIn (a : Response) : Except Exn ResultBundleV1 :=
  match accepted 200 a with
  | .ok (.bundle b) => if b.valid then .ok b else .error .gpuProtocol
  | .ok _ => .error .gpuProtocol
  | .error e => .error e

def receiptIn (a : Response) : Except Exn AckV1 :=
  match accepted 200 a with
  | .ok (.receipt r) => if r.valid then .ok r else .error .gpuProtocol
  | .ok _ => .error .gpuProtocol
  | .error e => .error e

/-- The upload is read while the request is sent: an `OSError` of it is a `GPUInputError` (`:117`). -/
def submit (audioPath : Path) (context : GPUContextV1) (extension : Option AudioExtension) : Serv JobV1 := do
  let audio ← (read audioPath).handle fun e => .raise (if e.isOSError then .gpuInput else e)
  let a ← ask (.submit (context.meetingId, context.attempt) context audio extension)
  .ofExcept (jobIn 202 a)

def getJob (id : UUID) : Serv JobV1 := do
  let a ← ask (.getJob id)
  let job ← .ofExcept (jobIn 200 a)
  demand (job.jobId = id) .gpuProtocol
  return job

def getJobByKey (meetingId : UUID) (attempt : Nat) : Serv JobV1 := do
  let a ← ask (.getJobByKey (meetingId, attempt))
  .ofExcept (jobIn 200 a)

def getResult (id : UUID) : Serv ResultBundleV1 := do
  let a ← ask (.getResult id)
  let bundle ← .ofExcept (bundleIn a)
  demand (bundle.jobId = id) .gpuProtocol
  return bundle

def ack (id : UUID) (resultHash : Sha256) : Serv AckV1 := do
  let a ← ask (.ack id resultHash)
  let receipt ← .ofExcept (receiptIn a)
  demand (receipt.jobId = id && receipt.resultHash = resultHash) .gpuProtocol
  return receipt

end Tirke

import Tirke.Services.Coordinator
/-!
# `app/services/local_janitor.py`

`sweepEntry` is `_sweep_entry` for the one directory entry the machine models: the meeting's folder,
under its own name or as a tombstone. `sweepTolerates` are the exceptions the loop of `sweep` survives.
-/

namespace Tirke

open CrashProg CrashDisk

variable [Lib] [Home]

/-- A job that was certainly never sent needs no receipt (`:148`). -/
def JobRecord.expired (j : JobRecord) : JobRecord :=
  if j.jobId.isNone && j.submitStarted = some false && j.cleanupStatus = .pending then
    { j with cleanupStatus := .expired }
  else j

/-- `_record_expiry` (`:143`). -/
def MeetingRecord.expired (r : MeetingRecord) (t : Time) : MeetingRecord :=
  MeetingRecord.withAggregate { r with
    localCleanupStatus := .expired
    meeting := { r.meeting with sourceAvailable := false, updatedAt := t }
    jobs := r.jobs.map JobRecord.expired }

/-- The record saved when the upload could not be removed (`:133`). -/
def MeetingRecord.deferred (r : MeetingRecord) (t : Time) : MeetingRecord :=
  r.mapMeeting fun m => { m with sourceAvailable := false, updatedAt := t }

/-- `record.local_cleanup_status == "pending"` and the deadline has passed. -/
def MeetingRecord.overdue (r : MeetingRecord) (t : Time) : Bool :=
  r.localCleanupStatus = .pending && r.meeting.temporaryExpiresAt.any fun deadline => deadline ≤ t

def expireUpload : Serv Unit := do
  let record ← readRecord
  let t ← now
  if record.overdue t then do
    let removed ← Prog.handle (do deleteUpload; return true) fun (e : Exn) =>
      if e.isOSError then .ret false else .raise e
    discard (updateMeeting (if removed then record.expired t else record.deferred t))
  else return ()

def removeTree : Serv Unit := do
  call (.rmtree .folder)
  syncDirectory .meetings

def sweepEntry : Serv Unit := do
  match ← call (.probe .folder) with
  | .absent => return ()
  | .moved _ => removeTree
  | .live => do
    if ← exists? (.folder, .meeting) then
      lifecycleLock false fun acquired => if acquired then expireUpload else .ret ()
    else if ← staleTree then removeTree
    else return ()

/-- `except (OSError, UnsafePath, ArtifactIntegrityError, MeetingNotFound): continue` (`:92`). -/
def sweepTolerates : Exn → Bool
  | .integrity _ | .meetingNotFound => true
  | e => e.isOSError

end Tirke

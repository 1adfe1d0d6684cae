import Tirke.Services.LocalJanitor
/-!
# `app/services/lifecycle.py`
-/

namespace Tirke

open CrashProg CrashDisk

variable [Lib] [Home]

/-- The queued record of the next attempt (`:29-38`). -/
def MeetingRecord.retried (r : MeetingRecord) (t : Time) : MeetingRecord :=
  { r with
    meeting := { r.meeting with
      attempt := r.meeting.attempt + 1
      status := .queued
      stage := none
      failure := none
      revision := 0
      updatedAt := t
      cleanupStatus := .pending }
    jobs := r.jobs ++ [.new (r.meeting.attempt + 1) (some false)] }

/-- `delete_meeting`'s second condition (`:44`), but for the upload. -/
def MeetingRecord.cleanupPending (r : MeetingRecord) : Bool :=
  r.meeting.cleanupStatus = .pending || r.localCleanupStatus = .pending

def MeetingRecord.jobsPending (r : MeetingRecord) : Bool :=
  r.jobs.any fun j => j.cleanupStatus = .pending || j.ackPending

namespace Lifecycle

def retryMeeting : Serv Meeting :=
  lifecycleLock true fun _ => do
    let record ← readRecord
    demand (record.meeting.status = .failed) (.lifecycleConflict .invalidState)
    demand (record.meeting.attempt < 3) (.lifecycleConflict .attemptsExhausted)
    let shown ← readMeeting
    demand shown.sourceAvailable (.lifecycleConflict .sourceExpired)
    let t ← now
    updateMeeting (record.retried t)

/-- `A or B or store.upload_present(…) or C`. -/
def anythingPending (record : MeetingRecord) : Serv Bool :=
  if record.cleanupPending then .ret true
  else do
    let present ← uploadPresent
    return present || record.jobsPending

def deleteMeeting (suffix : UUID) : Serv Unit :=
  lifecycleLock true fun _ => do
    let record ← readRecord
    demand (record.meeting.status != .queued && record.meeting.status != .processing &&
      record.meeting.stage.isNone) (.lifecycleConflict .invalidState)
    let pending ← anythingPending record
    demand (!pending) (.lifecycleConflict .cleanupPending)
    Tirke.deleteMeeting suffix

end Lifecycle

end Tirke

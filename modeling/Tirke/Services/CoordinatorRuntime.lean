import Tirke.Services.Export
/-!
# `app/services/coordinator_runtime.py`

`meetingStep` is the body of `tick`'s loop for one meeting (`:75`): under the lifecycle lock, if that is free,
one coordinator step for a meeting that is due. It returns the outcome of `process_once`, if that was called;
whatever else goes wrong the loop survives (`visit`): each of its `except` clauses goes on to the next meeting.
-/

namespace Tirke

open CrashProg CrashDisk

variable [Lib] [Home]

/-- A failed meeting whose GPU copy is not confirmed removed (`:82`). -/
def pendingFailedJob (meeting : Meeting) : Serv Bool :=
  if meeting.status = .failed then do
    let record ← readRecord
    return record.jobs.any fun j => j.jobId.isSome && j.cleanupStatus = .pending
  else return false

/-- The condition under which `tick` calls `process_once` (`:89`). -/
def Meeting.due (meeting : Meeting) (pendingFailed : Bool) : Bool :=
  meeting.status = .queued || meeting.status = .processing ||
    (meeting.status.published && meeting.cleanupStatus = .pending) || pendingFailed

def meetingStep : Serv (Option (Except Exn Meeting)) :=
  lifecycleLock false fun acquired =>
    if acquired then do
      let meeting ← readMeeting
      let pendingFailed ← pendingFailedJob meeting
      if meeting.due pendingFailed then do
        let outcome ← Tirke.processOnce.attempt
        return some outcome
      else return none
    else .ret none

def visit : Serv (Option (Except Exn Meeting)) := meetingStep.handle fun _ => .ret none

/-- What a use of the meeting runs. -/
def Action.program : Action → Serv Unit
  | .processOnce => discard Tirke.processOnce
  | .step => discard visit
  | .sweep => sweepEntry
  | .retry => discard Lifecycle.retryMeeting
  | .delete suffix => Lifecycle.deleteMeeting suffix
  | .updateReview q => discard (Tirke.updateReview q)
  | .approve q => discard (approveReview q)
  | .exportPdf => getExportPdf

end Tirke

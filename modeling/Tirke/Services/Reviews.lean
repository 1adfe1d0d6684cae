import Tirke.Services.Lifecycle
/-!
# `app/services/reviews.py`

| here | there |
| --- | --- |
| `overlay` | `_overlay` (`:71`): pure, raising `ReviewValidationError` |
| `readCurrentLocked` | `_read_current_locked` (`:125`) |
| `MeetingRecord.reviewed`, `approved` | the `model_copy(update=…)` of the two writers |
-/

namespace Tirke

open CrashProg CrashDisk

variable [Lib] [Home]

/-- `edits.get(segment["id"])` applied to the segment (`:104`). -/
def Segment.edit (edits : List SegmentEdit) (s : Segment) : Segment :=
  match edits.find? (·.segmentId = s.id) with
  | some e => { s with text := e.text.getD s.text, speakerId := e.speakerId.getD s.speakerId, edited := true }
  | none => s

/-- The transcript and insights a snapshot stands for, before they are validated. -/
def ReviewSnapshot.results (original : TranscriptV1) (s : ReviewSnapshot) : TranscriptV1 × InsightsV1 :=
  (⟨original.meetingId, s.revision, s.speakerMappings, original.segments.map (Segment.edit s.segmentEdits)⟩,
    ⟨original.meetingId, s.revision, s.summary, s.actionItems⟩)

def overlay (original : TranscriptV1) (s : ReviewSnapshot) : Except Exn (TranscriptV1 × InsightsV1) :=
  let mapped := s.speakerMappings.map (·.speakerId)
  let edited := s.segmentEdits.map (·.segmentId)
  if !(decide mapped.Nodup && mapped.all (· ∈ original.speakerIds) && original.speakerIds.all (· ∈ mapped)) then
    .error (.reviewValidation "Speaker mappings must cover each voice once")
  else if !decide edited.Nodup then .error (.reviewValidation "Duplicate segment edit")
  else if !(edited.all (· ∈ original.segments.map (·.id))) then .error (.reviewValidation "Unknown segment")
  else if s.segmentEdits.any fun e => e.speakerId.any fun v => !(v ∈ original.speakerIds) then
    .error (.reviewValidation "Unknown segment speaker")
  else
    let (transcript, insights) := s.results original
    if transcript.valid && insights.valid && insights.validateAgainst transcript then .ok (transcript, insights)
    else .error (.reviewValidation "Invalid review results")

/-- How `_read_current_locked` reports what it finds wrong with a committed snapshot (`:143`). -/
def committedError (e : Exn) : Exn :=
  match e with
  | .fileNotFound => .integrity "Committed review is missing"
  | .validation | .jobHistory | .reviewValidation _ => .integrity "Committed review is invalid"
  | e => e

def readSnapshot (original : TranscriptV1) (revision : Nat) : Serv (TranscriptV1 × InsightsV1) := do
  discard readRecord
  let data ← read (.folder, .snapshot revision)
  let snapshot ← parse Doc.asSnapshot data .validation
  demand (snapshot.meetingId = Home.meetingId && snapshot.revision = revision)
    (.integrity "Review identity mismatch")
  .ofExcept (overlay original snapshot)

def readCurrentLocked (meeting : Meeting) : Serv (TranscriptV1 × InsightsV1) := do
  demand meeting.status.published (.reviewConflict .invalidState)
  let (original, insights) ← readResults
  if meeting.revision = 0 then .ret (original, insights)
  else (readSnapshot original meeting.revision).handle fun e => .raise (committedError e)

def readReviewedResultsUnlocked : Serv (TranscriptV1 × InsightsV1) := do
  let record ← readRecord
  readCurrentLocked record.meeting

def readReviewedResults : Serv (TranscriptV1 × InsightsV1) :=
  lifecycleLock true fun _ => readReviewedResultsUnlocked

def MeetingRecord.reviewed (r : MeetingRecord) (t : Time) : MeetingRecord :=
  r.mapMeeting fun m => { m with
    revision := m.revision + 1, status := .reviewRequired, stage := none, updatedAt := t }

def MeetingRecord.approved (r : MeetingRecord) (t : Time) : MeetingRecord :=
  r.mapMeeting fun m => { m with status := .approved, updatedAt := t }

/-- The cache of an approved revision goes before the new marker is published (`:205`). -/
def dropApproved (meeting : Meeting) : Serv Unit :=
  if meeting.status = .approved then deletePdfCache meeting.revision else .ret ()

def updateReview (request : ReviewRequest) : Serv Meeting :=
  lifecycleLock true fun _ => do
    let record ← readRecord
    let meeting := record.meeting
    demand meeting.status.published (.reviewConflict .invalidState)
    demand (request.baseRevision = meeting.revision) (.reviewConflict .staleRevision)
    let (original, _) ← readResults
    let snapshot := request.snapshot Home.meetingId (meeting.revision + 1)
    discard (.ofExcept (overlay original snapshot))
    discard readRecord
    atomicWrite (.folder, .snapshot (meeting.revision + 1)) (.snapshot snapshot)
    discard readRecord
    atomicWrite (.folder, .review) (.snapshot snapshot)
    dropApproved meeting
    let t ← now
    updateMeeting (record.reviewed t)

def approveReview (request : ApprovalRequest) : Serv Meeting :=
  lifecycleLock true fun _ => do
    let record ← readRecord
    let meeting := record.meeting
    demand (meeting.status = .reviewRequired) (.reviewConflict .invalidState)
    demand (request.baseRevision = meeting.revision) (.reviewConflict .staleRevision)
    let (transcript, insights) ← readCurrentLocked meeting
    demand (transcript.speakers.all fun s => s.identityStatus != .unreviewed) (.reviewConflict .reviewRequired)
    demand (insights.validateAgainst transcript) (.reviewConflict .reviewRequired)
    let t ← now
    updateMeeting (record.approved t)

end Tirke

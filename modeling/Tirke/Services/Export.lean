import Tirke.Services.Reviews
/-!
# The export of `app/api/routes/meetings.py` (`:365-456`) and `app/services/pdf_export.py`

`renderPdf` makes the checks of `render_pdf` and hands the fields it prints to the layout engine. The
lifecycle lock is handed to the HTTP response, so sending the bytes is the last step under it.
-/

namespace Tirke

open CrashProg CrashDisk

variable [Lib] [Home]

def renderPdf (meeting : Meeting) (transcript : TranscriptV1) (insights : InsightsV1) : Except Exn Bytes :=
  if meeting.status ≠ .approved then .error (.valueError "Meeting must be approved before PDF export")
  else if (meeting.id, meeting.revision) ≠ (transcript.meetingId, transcript.revision) then
    .error (.valueError "Meeting and transcript must share meeting ID and revision")
  else match insights.inconsistency transcript with
    | some message => .error (.valueError message)
    | none => .ok (Lib.layout meeting.rendered transcript insights)

/-- `_valid_pdf` of a file's content. -/
def Doc.pdf (d : Doc) : Option Bytes :=
  match d with
  | .blob b => if Lib.validPdf b then some b else none
  | _ => none

def MeetingRecord.exporting (r : MeetingRecord) (t : Time) : MeetingRecord :=
  r.mapMeeting fun m => { m with stage := some .exporting, updatedAt := t }

def MeetingRecord.exported (r : MeetingRecord) (t : Time) : MeetingRecord :=
  r.mapMeeting fun m => { m with stage := none, updatedAt := t }

def clearExportingStage : Serv Unit := do
  let record ← readRecord
  if record.meeting.stage = some .exporting then do
    let t ← now
    discard (updateMeeting (record.exported t))
  else return ()

/-- The cached PDF; `none` when there is none or it was thrown away (`:387`). -/
def cachedPdf (revision : Nat) : Serv (Option Bytes) := do
  let cached ← Prog.handle (do let data ← readPdfCache revision; return some data) fun (e : Exn) =>
    match e with
    | .fileNotFound => .ret none
    | .integrity _ => do deletePdfCache revision; return none
    | e => .raise e
  match cached with
  | none => return none
  | some data =>
    match data.pdf with
    | some pdf => return some pdf
    | none => do deletePdfCache revision; return none

def generatePdf (record : MeetingRecord) : Serv Bytes := do
  let meeting := record.meeting
  let t ← now
  discard (updateMeeting (record.exporting t))
  let (transcript, insights) ← readReviewedResultsUnlocked
  demand (transcript.revision = meeting.revision && insights.revision = meeting.revision)
    (.integrity "Review revision mismatch")
  let data ← .ofExcept (renderPdf meeting transcript insights)
  demand (Lib.validPdf data) (.valueError "Renderer did not return a PDF")
  writePdfCache meeting.revision (.blob data)
  return data

def buildExportUnlocked : Serv Bytes := do
  let record ← readRecord
  demand (record.meeting.status = .approved) (.reviewConflict .reviewRequired)
  match ← cachedPdf record.meeting.revision with
  | some pdf => do
    clearExportingStage
    return pdf
  | none => Prog.ensuring (generatePdf record) clearExportingStage

/-- `GET …/export.pdf`: the lock is held until the bytes have left. -/
def getExportPdf : Serv Unit :=
  lifecycleLock true fun _ => do
    let pdf ← buildExportUnlocked
    respond pdf

end Tirke

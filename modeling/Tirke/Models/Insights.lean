import Tirke.Models.Transcript
/-!
# `app/models/insights.py`: evidence-backed insights and the machine's result bundle

`ResultBundleV1.valid` is in `Document.lean`: it needs the hash of the bundle's canonical JSON.
-/

namespace Tirke

structure Evidence where
  segmentId : UUID
  startMs : Nat
  endMs : Nat
deriving DecidableEq

/-- `valid_interval` (`:41`). -/
def Evidence.valid (e : Evidence) : Bool := e.startMs < e.endMs

structure SummaryItem where
  id : UUID
  text : Str
  evidence : List Evidence
deriving DecidableEq

def SummaryItem.valid (i : SummaryItem) : Bool :=
  nonBlank i.text && !i.evidence.isEmpty && i.evidence.all Evidence.valid

def daysInMonth (year month : Nat) : Nat :=
  if month = 2 then (if year % 4 = 0 && (year % 100 != 0 || year % 400 = 0) then 29 else 28)
  else if month = 4 || month = 6 || month = 9 || month = 11 then 30 else 31

/-- `datetime.date`: only calendar dates exist. -/
structure Date where
  year : Nat
  month : Nat
  day : Nat
  yearOk : 1 ≤ year ∧ year ≤ 9999
  monthOk : 1 ≤ month ∧ month ≤ 12
  dayOk : 1 ≤ day ∧ day ≤ daysInMonth year month
deriving DecidableEq

structure ActionItem extends SummaryItem where
  assigneeSpeakerId : Option SpeakerId
  assigneeName : Option Str
  dueDate : Option Date
  dueDateText : Option Str
deriving DecidableEq

/-- `unpadded_assignee_name` (`:79`) and `valid_assignee` (`:86`). -/
def ActionItem.valid (i : ActionItem) : Bool :=
  i.toSummaryItem.valid && i.assigneeName.all (fun s => personName s && stripBy isSpace s = s) &&
    i.dueDateText.all nonBlank && !(i.assigneeSpeakerId.isSome && i.assigneeName.isSome)

structure InsightsV1 where
  meetingId : UUID
  revision : Nat
  summary : List SummaryItem
  actionItems : List ActionItem
deriving DecidableEq

/-- `unique_ids` (`:98`). -/
def InsightsV1.valid (i : InsightsV1) : Bool :=
  i.summary.all SummaryItem.valid && i.actionItems.all ActionItem.valid &&
    decide (i.summary.map (·.id)).Nodup && decide (i.actionItems.map (·.id)).Nodup

/-- The evidence lies inside the segment it names. -/
def Evidence.fits (t : TranscriptV1) (e : Evidence) : Bool :=
  match t.segment e.segmentId with
  | some s => s.startMs ≤ e.startMs && e.startMs < e.endMs && e.endMs ≤ s.endMs
  | none => false

/-- What `InsightsV1.validate_against` (`:106`) raises, if anything. -/
def InsightsV1.inconsistency (i : InsightsV1) (t : TranscriptV1) : Option String :=
  if i.meetingId ≠ t.meetingId ∨ i.revision ≠ t.revision then
    some "Insights and transcript must share meeting and revision"
  else if !((i.summary.all fun item => item.evidence.all (Evidence.fits t)) &&
      i.actionItems.all fun item => item.evidence.all (Evidence.fits t)) then
    some "Evidence must reference and fit its segment"
  else if !(i.actionItems.all fun item => item.assigneeSpeakerId.all fun s => s ∈ t.speakerIds) then
    some "Unknown assignee speaker"
  else none

def InsightsV1.validateAgainst (i : InsightsV1) (t : TranscriptV1) : Bool := (i.inconsistency t).isNone

structure ModelVersions where
  asr : Str
  diarization : Str
  analysis : Str
deriving DecidableEq

def ModelVersions.valid (v : ModelVersions) : Bool :=
  nonBlank v.asr && nonBlank v.diarization && nonBlank v.analysis

structure ResultBundleV1 where
  jobId : UUID
  transcript : TranscriptV1
  insights : InsightsV1
  modelVersions : ModelVersions
  resultHash : Sha256
deriving DecidableEq

end Tirke

import Tirke.Frontend.Schemas
import Tirke.Models.Dump
/-!
# `frontend/src/features/meetings/ui/live-meeting-detail-view.tsx`: the live editor

| here | there |
| --- | --- |
| `Gesture`, `ReviewDraft.change` | the `changeDraft` of each control (`:335`–`:378`) |
| `randomUUID` | `crypto.randomUUID()`: any identifier |
| `validateDraft` | `:172` |
| `ReviewDraft.save` | `:188`, up to the request that `updateReview` (`client.ts:348`) sends |
| `ReviewRequest.received` | `ReviewRequest.model_validate` (`routes/meetings.py:315`) of that request |

A due date of the draft is a calendar date, as the control for it delivers; a reference to a voice is one of the options of
its control.
-/

namespace Tirke

open Zod

structure ReviewDraft where
  speakers : List Speaker
  segments : List Segment
  summary : List SummaryItem
  tasks : List ActionItem
deriving DecidableEq

def initialDraft (transcript : TranscriptV1) (insights : InsightsV1) : ReviewDraft :=
  ⟨transcript.speakers, transcript.segments, insights.summary, insights.actionItems⟩

def evidenceFor (segment : Segment) : List Evidence := [⟨segment.id, segment.startMs, segment.endMs⟩]

def replacePrimaryEvidence (existing : List Evidence) (segment : Option Segment) : List Evidence :=
  match segment with
  | some segment => evidenceFor segment ++ existing.drop 1
  | none => existing.drop 1

/-! ## What a user can do -/

inductive Gesture where
  | addSummary (randomUUID : UUID)
  | deleteSummary (id : UUID)
  | summaryText (id : UUID) (text : Str)
  | summarySource (id segment : UUID)
  | addTask (randomUUID : UUID)
  | deleteTask (id : UUID)
  | taskText (id : UUID) (text : Str)
  | taskAssignee (id : UUID) (speaker : Option SpeakerId) (external : Bool)
  | taskAssigneeName (id : UUID) (name : Str)
  | taskDeadline (id : UUID) (date : Option Date)
  | taskSource (id segment : UUID)
  | identity (speaker : SpeakerId) (status : IdentityStatus)
  | speakerName (speaker : SpeakerId) (name : Str)
  | segmentSpeaker (id : UUID) (speaker : SpeakerId)
  | segmentText (id : UUID) (text : Str)

namespace ReviewDraft

def segment (d : ReviewDraft) (id : UUID) : Option Segment := d.segments.find? (·.id = id)

def changeSummary (d : ReviewDraft) (id : UUID) (patch : SummaryItem → SummaryItem) : ReviewDraft :=
  { d with summary := d.summary.map fun item => if item.id = id then patch item else item }

def changeTask (d : ReviewDraft) (id : UUID) (patch : ActionItem → ActionItem) : ReviewDraft :=
  { d with tasks := d.tasks.map fun item => if item.id = id then patch item else item }

def changeSpeaker (d : ReviewDraft) (id : SpeakerId) (patch : Speaker → Speaker) : ReviewDraft :=
  { d with speakers := d.speakers.map fun item => if item.speakerId = id then patch item else item }

def changeSegment (d : ReviewDraft) (id : UUID) (patch : Segment → Segment) : ReviewDraft :=
  { d with segments := d.segments.map fun item => if item.id = id then patch item else item }

def change (d : ReviewDraft) : Gesture → ReviewDraft
  | .addSummary id => { d with summary := d.summary ++ [⟨id, [], []⟩] }
  | .deleteSummary id => { d with summary := d.summary.filter (·.id ≠ id) }
  | .summaryText id text => d.changeSummary id fun item => { item with text }
  | .summarySource id s => d.changeSummary id fun item =>
      { item with evidence := replacePrimaryEvidence item.evidence (d.segment s) }
  | .addTask id => { d with tasks := d.tasks ++ [⟨⟨id, [], []⟩, none, none, none, none⟩] }
  | .deleteTask id => { d with tasks := d.tasks.filter (·.id ≠ id) }
  | .taskText id text => d.changeTask id fun item => { item with text }
  | .taskAssignee id speaker external => d.changeTask id fun item =>
      { item with assigneeSpeakerId := speaker, assigneeName := if external then some [] else none }
  | .taskAssigneeName id name => d.changeTask id fun item => { item with assigneeName := some name }
  | .taskDeadline id date => d.changeTask id fun item => { item with dueDate := date }
  | .taskSource id s => d.changeTask id fun item =>
      { item with evidence := replacePrimaryEvidence item.evidence (d.segment s) }
  | .identity id status => d.changeSpeaker id fun item => { item with
      identityStatus := status, displayName := if status = .named then some (item.displayName.getD []) else none }
  | .speakerName id name => d.changeSpeaker id fun item => { item with displayName := some name }
  | .segmentSpeaker id speaker => d.changeSegment id fun item => { item with speakerId := speaker }
  | .segmentText id text => d.changeSegment id fun item => { item with text }

end ReviewDraft

/-! ## Saving -/

/-- `!text.trim()` -/
def blank (text : Str) : Bool := (trim text).isEmpty

def validateDraft (current : ReviewDraft) : Option String :=
  if current.speakers.any fun s => s.identityStatus = .named && s.displayName.all blank then
    some "Enter a name for each named speaker."
  else if current.segments.any fun s => blank s.text then some "Transcript segments cannot be empty."
  else if current.summary.any fun item => blank item.text || item.evidence.isEmpty then
    some "Every summary item needs text and a source segment."
  else if current.tasks.any fun item => blank item.text || item.evidence.isEmpty || item.assigneeName.any blank then
    some "Every task needs text and a source segment. Enter a name or leave the assignee unknown."
  else none

def Segment.asEdit (s : Segment) : SegmentEdit := ⟨s.id, some s.text, some s.speakerId⟩

def ActionItem.trimmed (i : ActionItem) : ActionItem := { i with assigneeName := i.assigneeName.map trim }

/-- The body that `save` hands to `updateReview`. -/
def ReviewDraft.review (d : ReviewDraft) (revision : Nat) : ReviewRequest :=
  ⟨revision, d.speakers, d.segments.map Segment.asEdit, d.summary, d.tasks.map ActionItem.trimmed⟩

/-- What is sent, if anything is. -/
def ReviewDraft.save (d : ReviewDraft) (revision : Nat) : Option ReviewRequest :=
  if (validateDraft d).isNone && reviewRequestSchema (d.review revision).dump then some (d.review revision) else none

/-! ## Receiving -/

/-- `PersonName` is stripped. -/
def Speaker.received (s : Speaker) : Speaker := { s with displayName := s.displayName.map (stripBy whiteSpace) }

/-- The request as it is validated, unless that fails. -/
def ReviewRequest.received (r : ReviewRequest) : Option ReviewRequest :=
  let r := { r with speakerMappings := r.speakerMappings.map Speaker.received }
  if r.valid then some r else none

end Tirke

import Tirke.Lib.Json
import Tirke.Lib.Calendar
import Tirke.Models.Document
import Tirke.Models.Identifier
/-!
# `model_dump(mode="json")`

Every field is printed, under its own name and in the order of the class; what is absent is `null`.

| here | there |
| --- | --- |
| `Date.str` | `date.isoformat` |
| `stamp` | how a UTC `datetime` is printed: without a fraction if it has none, and `Z` |
| `X.dump` | `X.model_dump(mode="json")`, and the JSON of the responses |
-/

namespace Tirke

open Numeral Calendar

def Date.str (d : Date) : Str := numeral 10 4 d.year ++ '-' :: (numeral 10 2 d.month ++ '-' :: numeral 10 2 d.day)

def stamp (t : Time) : Str :=
  let f := fields t
  numeral 10 4 f.year ++ '-' :: (numeral 10 2 f.month ++ '-' :: (numeral 10 2 f.day ++ 'T' :: (numeral 10 2 f.hour ++
    ':' :: (numeral 10 2 f.minute ++ ':' :: (numeral 10 2 f.second ++
      ((if f.microsecond = 0 then [] else '.' :: numeral 10 6 f.microsecond) ++ ['Z']))))))

def Sha256.hex (h : Sha256) : Str := numeral 16 64 h.toNat

def UUID.dump (id : UUID) : Json := .str id.str

/-! ## `transcript.py` -/

def IdentityStatus.text : IdentityStatus → String
  | .unreviewed => "unreviewed"
  | .named => "named"
  | .unknown => "unknown"

def Speaker.dump (s : Speaker) : Json :=
  .obj [("speaker_id", .str s.speakerId.text), ("display_name", .optional .str s.displayName),
    ("identity_status", .word s.identityStatus.text)]

def Language.text : Language → String
  | .ru => "ru"
  | .kk => "kk"
  | .unknown => "unknown"

def Segment.dump (s : Segment) : Json :=
  .obj [("id", s.id.dump), ("start_ms", .nat s.startMs), ("end_ms", .nat s.endMs), ("speaker_id", .str s.speakerId.text),
    ("language", .word s.language.text), ("text", .str s.text), ("edited", .bool s.edited)]

def TranscriptV1.dump (t : TranscriptV1) : Json :=
  .obj [("schema_version", .int 1), ("meeting_id", t.meetingId.dump), ("revision", .nat t.revision),
    ("speakers", .list Speaker.dump t.speakers), ("segments", .list Segment.dump t.segments)]

/-! ## `insights.py` -/

def Evidence.dump (e : Evidence) : Json :=
  .obj [("segment_id", e.segmentId.dump), ("start_ms", .nat e.startMs), ("end_ms", .nat e.endMs)]

def SummaryItem.fields (i : SummaryItem) : List (String × Json) :=
  [("id", i.id.dump), ("text", .str i.text), ("evidence", .list Evidence.dump i.evidence)]

def SummaryItem.dump (i : SummaryItem) : Json := .obj i.fields

def ActionItem.dump (i : ActionItem) : Json :=
  .obj (i.toSummaryItem.fields ++ [("assignee_speaker_id", .optional (.str ·.text) i.assigneeSpeakerId),
    ("assignee_name", .optional .str i.assigneeName), ("due_date", .optional (.str ·.str) i.dueDate),
    ("due_date_text", .optional .str i.dueDateText)])

def InsightsV1.dump (i : InsightsV1) : Json :=
  .obj [("schema_version", .int 1), ("meeting_id", i.meetingId.dump), ("revision", .nat i.revision),
    ("summary", .list SummaryItem.dump i.summary), ("action_items", .list ActionItem.dump i.actionItems)]

def ModelVersions.dump (v : ModelVersions) : Json :=
  .obj [("asr", .str v.asr), ("diarization", .str v.diarization), ("analysis", .str v.analysis)]

/-- `model_dump(mode="json", exclude={"result_hash"})`. -/
def ResultBundleV1.payload (b : ResultBundleV1) : List (String × Json) :=
  [("schema_version", .int 1), ("job_id", b.jobId.dump), ("transcript", b.transcript.dump),
    ("insights", b.insights.dump), ("model_versions", b.modelVersions.dump)]

def ResultBundleV1.dump (b : ResultBundleV1) : Json := .obj (b.payload ++ [("result_hash", .str b.resultHash.hex)])

/-! ## `meeting.py` -/

def LanguageHint.text : LanguageHint → String
  | .auto => "auto"
  | .ru => "ru"
  | .kk => "kk"
  | .mixed => "mixed"

def MeetingStatus.text : MeetingStatus → String
  | .queued => "queued"
  | .processing => "processing"
  | .reviewRequired => "review_required"
  | .approved => "approved"
  | .failed => "failed"

def MeetingStage.text : MeetingStage → String
  | .uploadingToGpu => "uploading_to_gpu"
  | .ingesting => "ingesting"
  | .transcribing => "transcribing"
  | .diarizing => "diarizing"
  | .analyzing => "analyzing"
  | .savingResults => "saving_results"
  | .exporting => "exporting"

def CleanupStatus.text : CleanupStatus → String
  | .pending => "pending"
  | .deleted => "deleted"
  | .expired => "expired"

def SourceKind.text : SourceKind → String
  | .uploadedAudio => "uploaded_audio"
  | .browserRecording => "browser_recording"
  | .demoFixture => "demo_fixture"

def demoLabel : String := "Подготовленный пример · обработка выполнена заранее"

def MeetingSource.dump (s : MeetingSource) : Json :=
  .obj [("kind", .word s.kind.text), ("label", if s.label then .word demoLabel else .null),
    ("fixture_id", .optional .str s.fixtureId)]

def FailureCode.text : FailureCode → String
  | .invalidAudio => "invalid_audio"
  | .processingFailed => "processing_failed"
  | .storageFailed => "storage_failed"
  | .sourceExpired => "source_expired"
  | .gpuUnavailable => "gpu_unavailable"
  | .invalidResult => "invalid_result"

def Failure.dump (f : Failure) : Json := .obj [("code", .word f.code.text), ("message", .str f.message)]

def Meeting.dump (m : Meeting) : Json :=
  .obj [("title", .str m.title), ("meeting_date", .str m.meetingDate.str), ("timezone", .str m.timezone),
    ("participants", .list .str m.participants), ("recording_notice_confirmed", .bool m.recordingNoticeConfirmed),
    ("language_hint", .word m.languageHint.text), ("id", m.id.dump), ("created_at", .str (stamp m.createdAt)),
    ("updated_at", .str (stamp m.updatedAt)), ("attempt", .nat m.attempt), ("revision", .nat m.revision),
    ("status", .word m.status.text), ("stage", .optional (.word ·.text) m.stage),
    ("source_available", .bool m.sourceAvailable), ("cleanup_status", .word m.cleanupStatus.text),
    ("temporary_expires_at", .optional (.str <| stamp ·) m.temporaryExpiresAt), ("source", m.source.dump),
    ("failure", .optional Failure.dump m.failure)]

/-! ## Requests of a review -/

def SegmentEdit.dump (e : SegmentEdit) : Json :=
  .obj [("segment_id", e.segmentId.dump), ("text", .optional .str e.text),
    ("speaker_id", .optional (.str ·.text) e.speakerId)]

def ReviewRequest.dump (r : ReviewRequest) : Json :=
  .obj [("base_revision", .nat r.baseRevision), ("speaker_mappings", .list Speaker.dump r.speakerMappings),
    ("segment_edits", .list SegmentEdit.dump r.segmentEdits), ("summary", .list SummaryItem.dump r.summary),
    ("action_items", .list ActionItem.dump r.actionItems)]

end Tirke

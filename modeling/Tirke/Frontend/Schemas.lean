import Tirke.Lib.Zod
/-!
# `frontend/src/features/meetings/api/schemas.ts`

Every schema of the client is the definition of its name. What `superRefine` adds to an object is checked on values that
its shape has passed.
-/

namespace Tirke

open Zod

def nonBlankTextSchema : Schema := string fun s => 1 ≤ utf16Length s && !(trim s).isEmpty
def titleSchema : Schema := refine nonBlankTextSchema fun j => utf16Length j.text ≤ 120
def personNameSchema : Schema := string fun s => 1 ≤ utf16Length s && utf16Length s ≤ 100 && !(trim s).isEmpty
def meetingIdSchema : Schema := string uuid

/-- `/^speaker_[1-9][0-9]*$/` -/
def speakerIdSchema : Schema := string fun s =>
  s.take 8 = "speaker_".toList && (s.drop 8).head?.any (fun c => '1' ≤ c && c ≤ '9') && (s.drop 8).all isDigit

def dateSchema : Schema := string date
def datetimeSchema : Schema := string datetime
def nonnegative : Schema := int (0 ≤ ·)
def positive : Schema := int (0 < ·)

/-! ## Meetings -/

def meetingStatusSchema : Schema := enum ["queued", "processing", "review_required", "approved", "failed"]

def meetingStageSchema : Schema :=
  enum ["uploading_to_gpu", "ingesting", "transcribing", "diarizing", "analyzing", "saving_results", "exporting"]

def meetingLanguageHintSchema : Schema := enum ["auto", "ru", "kk", "mixed"]

def ordinaryMeetingSourceSchema : Schema :=
  strictObject [("kind", required (enum ["uploaded_audio", "browser_recording"])), ("label", Zod.optional Json.isNull),
    ("fixture_id", Zod.optional Json.isNull)]

def demoMeetingSourceSchema : Schema :=
  strictObject [("kind", required (enum ["demo_fixture"])),
    ("label", required (enum ["Подготовленный пример · обработка выполнена заранее"])),
    ("fixture_id", required nonBlankTextSchema)]

/-- The kinds of the two are distinct, so the discriminator decides between them. -/
def meetingSourceSchema : Schema := fun j => ordinaryMeetingSourceSchema j || demoMeetingSourceSchema j

def meetingFailureSchema : Schema :=
  strictObject [("code", required (enum ["invalid_audio", "processing_failed", "storage_failed", "source_expired",
      "gpu_unavailable", "invalid_result"])),
    ("message", required nonBlankTextSchema)]

def meetingSchema : Schema :=
  strictObject [("id", required meetingIdSchema), ("title", required titleSchema), ("meeting_date", required dateSchema),
    ("timezone", required nonBlankTextSchema),
    ("participants", required (refine (array personNameSchema) fun j => j.items.length ≤ 30)),
    ("recording_notice_confirmed", required literalTrue), ("language_hint", required meetingLanguageHintSchema),
    ("created_at", required datetimeSchema), ("updated_at", required datetimeSchema), ("attempt", required positive),
    ("revision", required nonnegative), ("status", required meetingStatusSchema),
    ("stage", required (nullable meetingStageSchema)), ("source_available", required boolean),
    ("cleanup_status", required (enum ["pending", "deleted", "expired"])),
    ("temporary_expires_at", required (nullable datetimeSchema)), ("source", required meetingSourceSchema),
    ("failure", required (nullable meetingFailureSchema))]

def meetingPageSchema : Schema :=
  strictObject [("items", required (array meetingSchema)),
    ("next_cursor", required (nullable (string fun s => 1 ≤ utf16Length s && utf16Length s ≤ 256)))]

/-! ## Transcripts -/

def speakerSchema : Schema :=
  refine (strictObject [("speaker_id", required speakerIdSchema), ("display_name", required (nullable personNameSchema)),
      ("identity_status", required (enum ["unreviewed", "named", "unknown"]))])
    fun speaker => ((speaker.get "identity_status").text = "named".toList) == !(speaker.get "display_name").isNull

/-- "Segment end must be after its start", and the same of evidence. -/
def endsAfterStart (j : Json) : Bool := (j.get "start_ms").number < (j.get "end_ms").number

def transcriptSegmentSchema : Schema :=
  refine (strictObject [("id", required meetingIdSchema), ("start_ms", required nonnegative),
      ("end_ms", required nonnegative), ("speaker_id", required speakerIdSchema),
      ("language", required (enum ["ru", "kk", "unknown"])), ("text", required nonBlankTextSchema),
      ("edited", required boolean)])
    endsAfterStart

/-- The loop over the segments, `previousStart` being that of the one before. -/
def ordered (previousStart : Int) : List Json → Bool
  | [] => true
  | segment :: rest =>
    previousStart ≤ (segment.get "start_ms").number && ordered (segment.get "start_ms").number rest

/-- What `superRefine` checks: the voices, the ids, the references and the order. -/
def transcriptReferences (transcript : Json) : Bool :=
  let speakerIds := (transcript.get "speakers").items.map fun speaker => (speaker.get "speaker_id").text
  let segments := (transcript.get "segments").items
  unique speakerIds && unique (segments.map fun segment => (segment.get "id").text) &&
    segments.all (fun segment => speakerIds.contains (segment.get "speaker_id").text) && ordered (-1) segments

def transcriptSchema : Schema :=
  refine (strictObject [("schema_version", required (int (· = 1))), ("meeting_id", required meetingIdSchema),
      ("revision", required nonnegative), ("speakers", required (array speakerSchema)),
      ("segments", required (array transcriptSegmentSchema))])
    transcriptReferences

/-! ## Insights -/

def evidenceSchema : Schema :=
  refine (strictObject [("segment_id", required meetingIdSchema), ("start_ms", required nonnegative),
      ("end_ms", required nonnegative)])
    endsAfterStart

def itemShape : List (String × Field) :=
  [("id", required meetingIdSchema), ("text", required nonBlankTextSchema),
    ("evidence", required (refine (array evidenceSchema) fun j => !j.items.isEmpty))]

def summaryItemSchema : Schema := strictObject itemShape

def actionItemSchema : Schema :=
  refine (strictObject (itemShape ++ [("assignee_speaker_id", required (nullable speakerIdSchema)),
      ("assignee_name", required (nullable personNameSchema)), ("due_date", required (nullable dateSchema)),
      ("due_date_text", required (nullable nonBlankTextSchema))]))
    fun item => (item.get "assignee_speaker_id").isNull || (item.get "assignee_name").isNull

def ids (items : List Json) : List (List Char) := items.map fun item => (item.get "id").text

def insightsSchema : Schema :=
  refine (strictObject [("schema_version", required (int (· = 1))), ("meeting_id", required meetingIdSchema),
      ("revision", required nonnegative), ("summary", required (array summaryItemSchema)),
      ("action_items", required (array actionItemSchema))])
    fun insights => unique (ids (insights.get "summary").items) && unique (ids (insights.get "action_items").items)

/-! ## Reviews -/

def segmentEditSchema : Schema :=
  refine (strictObject [("segment_id", required meetingIdSchema), ("text", Zod.optional (nullable nonBlankTextSchema)),
      ("speaker_id", Zod.optional (nullable speakerIdSchema))])
    fun edit => !(edit.get "text").isNull || !(edit.get "speaker_id").isNull

def reviewRequestSchema : Schema :=
  refine (strictObject [("base_revision", required nonnegative), ("speaker_mappings", required (array speakerSchema)),
      ("segment_edits", required (array segmentEditSchema)), ("summary", required (array summaryItemSchema)),
      ("action_items", required (array actionItemSchema))])
    fun review => unique ((review.get "speaker_mappings").items.map fun item => (item.get "speaker_id").text) &&
      unique ((review.get "segment_edits").items.map fun item => (item.get "segment_id").text)

end Tirke

import Tirke.Models.Gpu
import Tirke.Models.Review
/-!
# What the files of a meeting folder hold

A file's bytes are modelled by the document they serialise (`Doc`): the writers dump typed values
and the readers parse them back, so two files have equal bytes iff they hold equal documents, and
parsing anything else is a `ValidationError`. `payload` is never stored; it is the JSON whose hash
is a bundle's `result_hash`.

`Lib` is what the code takes from outside the repository: SHA-256 (any function), the IANA zone
table, and the PDF layout engine with the reader that checks its output.
-/

namespace Tirke

abbrev Bytes := List UInt8

inductive Doc where
  | record (r : MeetingRecord)
  | manifest (m : ReadyManifest)
  | transcript (t : TranscriptV1)
  | insights (i : InsightsV1)
  | text (s : Str)
  | snapshot (s : ReviewSnapshot)
  | blob (b : Bytes)
  | pdfMarker (owner meeting : UUID) (revision : Nat) (digest : Sha256)
  | payload (jobId : UUID) (t : TranscriptV1) (i : InsightsV1) (v : ModelVersions)
deriving DecidableEq

instance : Inhabited Doc := ⟨.blob []⟩

/-- The fields of a meeting that `render_pdf` prints. -/
structure RenderedFields where
  title : Str
  meetingDate : Date
  timezone : Str
  participants : List Str
  source : MeetingSource
deriving DecidableEq

class Lib where
  sha256 : Doc → Sha256
  validTimezone : Str → Bool
  /-- The reportlab document built by `render_pdf` (`pdf_export.py:108`). -/
  layout : RenderedFields → TranscriptV1 → InsightsV1 → Bytes
  /-- `_valid_pdf` (`meetings.py:356`). -/
  validPdf : Bytes → Bool

variable [Lib]

def MeetingRecord.ok (r : MeetingRecord) : Bool := r.valid Lib.validTimezone

/-- `ResultBundleV1`: nested models, references, the machine's constants, and the hash
(`insights.py:150-186`). -/
def ResultBundleV1.valid (b : ResultBundleV1) : Bool :=
  b.transcript.valid && b.insights.valid && b.modelVersions.valid &&
    b.insights.validateAgainst b.transcript &&
    b.transcript.revision = 0 && b.insights.revision = 0 &&
    b.transcript.segments.all (fun s => !s.edited) &&
    b.transcript.speakers.all (fun s => s.identityStatus = .unreviewed) &&
    Lib.sha256 (.payload b.jobId b.transcript b.insights b.modelVersions) = b.resultHash

def Meeting.rendered (m : Meeting) : RenderedFields :=
  ⟨m.title, m.meetingDate, m.timezone, m.participants, m.source⟩

/-- `"\n".join(f"[{s.start_ms}-{s.end_ms}] {s.speaker_id}: {s.text}" …)` (`artifact_store.py:515`). -/
def transcriptTxt (t : TranscriptV1) : Str :=
  List.intercalate ['\n'] (t.segments.map fun s =>
    ['['] ++ Nat.toDigits 10 s.startMs ++ ['-'] ++ Nat.toDigits 10 s.endMs ++ "] ".toList ++
      s.speakerId.text ++ ": ".toList ++ s.text)

end Tirke

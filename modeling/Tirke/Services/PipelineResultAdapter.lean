import Tirke.Lib.Calendar
import Tirke.Models.Load
/-!
# `app/services/pipeline_result_adapter.py`: from the offline pipeline's result to the public bundle

| here | there |
| --- | --- |
| `PipelineX`, `PipelineX.valid` | what `_PipelineX.model_validate` returns, and whether it does |
| `parseInputs` | `_parse_inputs` (`:144`) on what was parsed |
| `uuid5` | `uuid.uuid5` |
| `AdapterError.adapter`, `AdapterError.validation` | `PipelineResultAdapterError`, and pydantic's own `ValidationError` |
| `build valid x` | the constructor of a public model, called with the fields of `x` |
| `Adapting` | `speaker_ids`, `speakers`, `segments` and `segments_by_source_id` in the loop over the utterances (`:218`) |

The dates of a parsed input are plain `date`s, and its integers are no longer than the 4300 digits that CPython prints.
-/

namespace Tirke

/-! ## Inputs -/

/-- `ModelName` (`:43`), once stripped. -/
def modelName (s : Str) : Bool := stripBy whiteSpace s = s && 1 ≤ s.length && s.length ≤ 200

/-- `^[0-9a-fA-F]{40}$`. -/
def gitSha (s : Str) : Bool := s.length = 40 && s.all fun c => c ∈ "0123456789abcdefABCDEF".toList

structure PipelineUtterance where
  id : Str
  startMs : Nat
  endMs : Nat
  speakerId : Option Str
  text : Str
deriving DecidableEq

def PipelineUtterance.valid (u : PipelineUtterance) : Bool :=
  nonBlank u.id && u.speakerId.all nonBlank && nonBlank u.text && u.startMs < u.endMs

structure PipelineTranscript where
  audioPath : Option Str
  meetingAt : Option Calendar.Stamp
  timezone : Option Str
  participants : List Str
  asrModel : Option Str
  utterances : List PipelineUtterance
deriving DecidableEq

/-- `valid_utterances` (`:77`). -/
def PipelineTranscript.valid (t : PipelineTranscript) : Bool :=
  t.audioPath.all nonBlank && t.timezone.all nonBlank && t.participants.all personName && t.asrModel.all modelName &&
    !t.utterances.isEmpty && t.utterances.all PipelineUtterance.valid && decide (t.utterances.map (·.id)).Nodup &&
    decide ((t.utterances.map (·.startMs)).Pairwise (· ≤ ·))

/-- `unique_sources` (`:94`, `:110`), and the type of the field. -/
def validSources (ids : List Str) : Bool := !ids.isEmpty && ids.all nonBlank && decide ids.Nodup

structure PipelineInsight where
  text : Str
  sourceUtteranceIds : List Str
  evidenceQuote : Str
  needsReview : Bool
deriving DecidableEq

def PipelineInsight.valid (i : PipelineInsight) : Bool :=
  nonBlank i.text && validSources i.sourceUtteranceIds && nonBlank i.evidenceQuote

structure PipelineTask where
  action : Str
  responsible : Option Str
  dueDate : Option Date
  dueText : Option Str
  sourceUtteranceIds : List Str
  evidenceQuote : Str
  needsReview : Bool
deriving DecidableEq

def PipelineTask.valid (k : PipelineTask) : Bool :=
  nonBlank k.action && k.responsible.all personName && k.dueText.all nonBlank && validSources k.sourceUtteranceIds &&
    nonBlank k.evidenceQuote

structure PipelineAbstraction where
  keyFacts : List PipelineInsight
  decisions : List PipelineInsight
  tasks : List PipelineTask
  meetingAt : Option Calendar.Stamp
  timezone : Option Str
  llmModel : Option Str
  validationWarnings : List Str
deriving DecidableEq

def PipelineAbstraction.valid (a : PipelineAbstraction) : Bool :=
  a.keyFacts.all PipelineInsight.valid && a.decisions.all PipelineInsight.valid && a.tasks.all PipelineTask.valid &&
    a.timezone.all nonBlank && a.llmModel.all modelName && a.validationWarnings.all nonBlank

structure PipelineModel where
  repo : Str
  sha : Str
deriving DecidableEq

def PipelineModel.valid (m : PipelineModel) : Bool := nonBlank m.repo && gitSha m.sha

structure PipelineCorrections where
  manifestSha256 : Sha256
  insertedUtteranceIds : List Str
  replacedUtteranceIds : List Str
deriving DecidableEq

def PipelineCorrections.valid (c : PipelineCorrections) : Bool :=
  c.insertedUtteranceIds.all nonBlank && c.replacedUtteranceIds.all nonBlank

structure PipelineProvenance where
  audioSha256 : Option Sha256
  pipelineCodeSha256 : Option Sha256
  /-- A `dict`: its keys differ. -/
  models : List (Str × PipelineModel)
  reviewedCorrections : Option PipelineCorrections
deriving DecidableEq

def PipelineProvenance.valid (p : PipelineProvenance) : Bool :=
  !p.models.isEmpty && decide (p.models.map Prod.fst).Nodup && p.models.all (fun e => modelName e.1 && e.2.valid) &&
    p.reviewedCorrections.all PipelineCorrections.valid

/-! ## Adapting -/

inductive AdapterError where
  | adapter (message : String)
  | validation
deriving DecidableEq

def parseInputs (t : PipelineTranscript) (a : PipelineAbstraction) (p : PipelineProvenance) : Except AdapterError Unit :=
  if t.valid && a.valid && p.valid then pure ()
  else throw (.adapter "Pipeline result does not match the supported schema")

def build {α : Type} (valid : α → Bool) (x : α) : Except AdapterError α :=
  if valid x then pure x else throw .validation

/-- `_model_version` (`:163`). -/
def modelVersion (models : List (Str × PipelineModel)) (requestedName : Option Str) (role : String) :
    Except AdapterError Str :=
  let name := requestedName.getD role.toList
  match models.lookup name with
  | some m => pure (name ++ '@' :: m.sha.map Char.toLower)
  | none => throw (.adapter ("Missing " ++ role ++ " model provenance"))

/-- `_evidence_for` (`:177`). -/
def Adapting.evidenceFor (sourceIds : List Str) (segmentsBySourceId : List (Str × Segment)) :
    Except AdapterError (List Evidence) :=
  sourceIds.mapM fun sourceId =>
    match segmentsBySourceId.lookup sourceId with
    | some s => build Evidence.valid ⟨s.id, s.startMs, s.endMs⟩
    | none => throw (.adapter "Insight references an unknown transcript segment")

structure Adapting where
  speakerIds : List (Option Str × SpeakerId) := []
  speakers : List Speaker := []
  segments : List Segment := []
  segmentsBySourceId : List (Str × Segment) := []

/-- `speaker_ids[utterance.speaker_id]`, entered if it is not there (`:224`). -/
def Adapting.speaker (s : Adapting) (label : Option Str) : Except AdapterError (SpeakerId × Adapting) :=
  match s.speakerIds.lookup label with
  | some id => pure (id, s)
  | none => do
    let normalized : SpeakerId := ⟨s.speakerIds.length + 1, Nat.succ_pos _⟩
    let speaker ← build Speaker.valid ⟨normalized, none, .unreviewed⟩
    return (normalized, { s with
      speakerIds := s.speakerIds ++ [(label, normalized)], speakers := s.speakers ++ [speaker] })

section
variable (uuid5 : UUID → Str → UUID) (meetingId : UUID)

def segmentName (sourceId : Str) : Str := "pipeline-segment:".toList ++ sourceId
def summaryName (category : String) (index : Nat) : Str :=
  "pipeline-summary:".toList ++ category.toList ++ ':' :: Nat.toDigits 10 index
def taskName (index : Nat) : Str := "pipeline-task:".toList ++ Nat.toDigits 10 index

/-- The body of the loop (`:223`). -/
def Adapting.step (s : Adapting) (u : PipelineUtterance) : Except AdapterError Adapting := do
  let (speakerId, s) ← s.speaker u.speakerId
  let segment ← build Segment.valid
    ⟨uuid5 meetingId (segmentName u.id), u.startMs, u.endMs, speakerId, .unknown, u.text, false⟩
  return { s with segments := s.segments ++ [segment], segmentsBySourceId := (u.id, segment) :: s.segmentsBySourceId }

/-- One round of `for category, items in …` (`:255`). -/
def adaptInsights (segmentsBySourceId : List (Str × Segment)) (category : String) (items : List PipelineInsight) :
    Except AdapterError (List SummaryItem) :=
  items.zipIdx.mapM fun (item, index) => do
    let evidence ← Adapting.evidenceFor item.sourceUtteranceIds segmentsBySourceId
    build SummaryItem.valid ⟨uuid5 meetingId (summaryName category index), item.text, evidence⟩

/-- `:274`. -/
def adaptTasks (segmentsBySourceId : List (Str × Segment)) (tasks : List PipelineTask) :
    Except AdapterError (List ActionItem) :=
  tasks.zipIdx.mapM fun (task, index) => do
    let evidence ← Adapting.evidenceFor task.sourceUtteranceIds segmentsBySourceId
    build ActionItem.valid ⟨⟨uuid5 meetingId (taskName index), task.action, evidence⟩, none, task.responsible,
      task.dueDate, task.dueText⟩

variable [Spelling] [Lib] (sha : ByteArray → Sha256)

/-- `ResultBundleV1.model_validate(payload)` with the hash of the payload in it (`:314`). -/
def signPayload (jobId : UUID) (t : TranscriptV1) (i : InsightsV1) (v : ModelVersions) :
    Except AdapterError ResultBundleV1 :=
  let payload := [("schema_version", Json.int 1), ("job_id", jobId.dump), ("transcript", t.dump), ("insights", i.dump),
    ("model_versions", v.dump)]
  let resultHash := sha (canonicalJson (.obj payload))
  match ResultBundleV1.validate sha (.obj (payload ++ [("result_hash", .str resultHash.hex)])) with
  | some b => pure b
  | none => throw (.adapter "Pipeline result could not be converted to a canonical bundle")

/-- What follows `_parse_inputs` (`:218`). -/
def adaptParsed (jobId : UUID) (t : PipelineTranscript) (a : PipelineAbstraction) (p : PipelineProvenance) :
    Except AdapterError ResultBundleV1 := do
  let s ← t.utterances.foldlM (Adapting.step uuid5 meetingId) {}
  let transcript ← build TranscriptV1.valid ⟨meetingId, 0, s.speakers, s.segments⟩
  let keyFacts ← adaptInsights uuid5 meetingId s.segmentsBySourceId "key-fact" a.keyFacts
  let decisions ← adaptInsights uuid5 meetingId s.segmentsBySourceId "decision" a.decisions
  let actionItems ← adaptTasks uuid5 meetingId s.segmentsBySourceId a.tasks
  let insights ← build InsightsV1.valid ⟨meetingId, 0, keyFacts ++ decisions, actionItems⟩
  let asr ← modelVersion p.models t.asrModel "asr"
  let diarization ← modelVersion p.models none "diarization"
  let analysis ← modelVersion p.models a.llmModel "analysis"
  let modelVersions ← build ModelVersions.valid ⟨asr, diarization, analysis⟩
  signPayload sha jobId transcript insights modelVersions

/-- `adapt_pipeline_result` (`:198`). -/
def adaptPipelineResult (jobId : UUID) (t : PipelineTranscript) (a : PipelineAbstraction) (p : PipelineProvenance) :
    Except AdapterError ResultBundleV1 := do
  parseInputs t a p
  adaptParsed uuid5 meetingId sha jobId t a p

/-- `adapt_pipeline_result` called with what the three mappings read as; a mapping with a field missing, unknown or of
another type reads as nothing. -/
def adaptMappings (jobId : UUID) (t : Option PipelineTranscript) (a : Option PipelineAbstraction)
    (p : Option PipelineProvenance) : Except AdapterError ResultBundleV1 :=
  match t, a, p with
  | some t, some a, some p => adaptPipelineResult uuid5 meetingId sha jobId t a p
  | _, _, _ => throw (.adapter "Pipeline result does not match the supported schema")

end

end Tirke

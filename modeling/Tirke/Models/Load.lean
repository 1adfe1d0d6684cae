import Tirke.Lib.Canonical
import Tirke.Models.Dump
/-!
# `model_validate`: what the models accept as JSON

Every field is required and no other is allowed (`extra="forbid"`). A value that is not accepted is a `ValidationError`,
here `none`. What has no canonical JSON, a NaN, an infinity or a lone surrogate, is no `Json` and no `Str`.

| here | there |
| --- | --- |
| `Spelling` | the texts that pydantic reads as a `UUID` |
| `readName` | `PersonName` (`transcript.py:28`), which is stripped |
| `X.load` | `X.model_validate(value)` on a JSON value |
| `X.validateJson` | `X.model_validate_json(data)` on what `print` or `canonical` writes |
| `verifyReceivedHash` | `ResultBundleV1.verify_received_hash` (`insights.py:147`) |
| `canonicalJson` | `canonical_json` (`insights.py:30`) |
-/

namespace Tirke

open Numeral

/-- The texts that are read as a UUID: `str(id)`, and other spellings of it. -/
class Spelling where
  uuid : Str → Option UUID
  uuid_str : ∀ id : UUID, uuid id.str = some id

variable [Spelling]

/-! ## Fields -/

def UUID.load : Json → Option UUID
  | .str s => Spelling.uuid s
  | _ => none

/-- `NonNegativeInt`: no `bool`, and no `float`. -/
def readNat : Json → Option Nat
  | .int n => if 0 ≤ n then some n.toNat else none
  | _ => none

/-- `StrictBool`. -/
def readBool : Json → Option Bool
  | .bool b => some b
  | _ => none

/-- `NonEmptyText`. -/
def readText : Json → Option Str
  | .str s => if nonBlank s then some s else none
  | _ => none

def readName : Json → Option Str
  | .str s =>
    let s := stripBy whiteSpace s
    if 1 ≤ s.length ∧ s.length ≤ 100 then some s else none
  | _ => none

/-- `Literal[…]`. -/
def readWord {α : Type} (text : α → String) (words : List α) : Json → Option α
  | .str s => words.find? fun w => (text w).toList = s
  | _ => none

/-- `version_is_integer_one` (`transcript.py:41`). -/
def readVersion : Json → Option Unit
  | .int n => if n = 1 then some () else none
  | _ => none

/-- `^speaker_[1-9][0-9]*$`. -/
def SpeakerId.load : Json → Option SpeakerId
  | .str s => match s.dropPrefix? "speaker_".toList with
    | some digits =>
      if h : digits.all Char.isDigit = true ∧ digits.head? ≠ some '0' ∧ 0 < Nat.ofDigitChars 10 digits 0 then
        some ⟨Nat.ofDigitChars 10 digits 0, h.2.2⟩
      else none
    | none => none
  | _ => none

def hexDigit (c : Char) : Bool := c ∈ "0123456789abcdef".toList

/-- `^[0-9a-f]{64}$`. -/
def Sha256.load : Json → Option Sha256
  | .str s => if s.all hexDigit then
      match number 16 64 s with
      | some (n, []) => some (BitVec.ofNat 256 n)
      | _ => none
    else none
  | _ => none

/-- `date.fromisoformat` of ten characters (`iso_due_date`, `:64`). -/
def Date.load : Json → Option Date
  | .str s => match number 10 4 s with
    | some (year, '-' :: s) => match number 10 2 s with
      | some (month, '-' :: s) => match number 10 2 s with
        | some (day, []) =>
          if h : (1 ≤ year ∧ year ≤ 9999) ∧ (1 ≤ month ∧ month ≤ 12) ∧ 1 ≤ day ∧ day ≤ daysInMonth year month then
            some ⟨year, month, day, h.1, h.2.1, h.2.2⟩
          else none
        | _ => none
      | _ => none
    | _ => none
  | _ => none

/-! ## Models -/

def Speaker.load (j : Json) : Option Speaker :=
  match j.record ["speaker_id", "display_name", "identity_status"] with
  | some [id, name, status] => do
    let s : Speaker := ⟨← SpeakerId.load id, ← name.nullable readName,
      ← readWord IdentityStatus.text [.unreviewed, .named, .unknown] status⟩
    if s.valid then some s else none
  | _ => none

def Segment.load (j : Json) : Option Segment :=
  match j.record ["id", "start_ms", "end_ms", "speaker_id", "language", "text", "edited"] with
  | some [id, start, stop, speaker, language, text, edited] => do
    let s : Segment := ⟨← UUID.load id, ← readNat start, ← readNat stop, ← SpeakerId.load speaker,
      ← readWord Language.text [.ru, .kk, .unknown] language, ← readText text, ← readBool edited⟩
    if s.valid then some s else none
  | _ => none

def TranscriptV1.load (j : Json) : Option TranscriptV1 :=
  match j.record ["schema_version", "meeting_id", "revision", "speakers", "segments"] with
  | some [version, id, revision, speakers, segments] => do
    readVersion version
    let t : TranscriptV1 := ⟨← UUID.load id, ← readNat revision, ← speakers.many Speaker.load,
      ← segments.many Segment.load⟩
    if t.valid then some t else none
  | _ => none

def Evidence.load (j : Json) : Option Evidence :=
  match j.record ["segment_id", "start_ms", "end_ms"] with
  | some [id, start, stop] => do
    let e : Evidence := ⟨← UUID.load id, ← readNat start, ← readNat stop⟩
    if e.valid then some e else none
  | _ => none

def SummaryItem.load (j : Json) : Option SummaryItem :=
  match j.record ["id", "text", "evidence"] with
  | some [id, text, evidence] => do
    let i : SummaryItem := ⟨← UUID.load id, ← readText text, ← evidence.many Evidence.load⟩
    if i.valid then some i else none
  | _ => none

/-- `unpadded_assignee_name` (`:79`), then `PersonName`. -/
def readAssignee : Json → Option Str
  | .str s => if stripBy isSpace s = s then readName (.str s) else none
  | j => readName j

def ActionItem.load (j : Json) : Option ActionItem :=
  match j.record ["id", "text", "evidence", "assignee_speaker_id", "assignee_name", "due_date", "due_date_text"] with
  | some [id, text, evidence, speaker, name, date, dateText] => do
    let i : ActionItem := ⟨⟨← UUID.load id, ← readText text, ← evidence.many Evidence.load⟩,
      ← speaker.nullable SpeakerId.load, ← name.nullable readAssignee, ← date.nullable Date.load,
      ← dateText.nullable readText⟩
    if i.valid then some i else none
  | _ => none

def InsightsV1.load (j : Json) : Option InsightsV1 :=
  match j.record ["schema_version", "meeting_id", "revision", "summary", "action_items"] with
  | some [version, id, revision, summary, actions] => do
    readVersion version
    let i : InsightsV1 := ⟨← UUID.load id, ← readNat revision, ← summary.many SummaryItem.load,
      ← actions.many ActionItem.load⟩
    if i.valid then some i else none
  | _ => none

def ModelVersions.load (j : Json) : Option ModelVersions :=
  match j.record ["asr", "diarization", "analysis"] with
  | some [asr, diarization, analysis] => do
    return ⟨← readText asr, ← readText diarization, ← readText analysis⟩
  | _ => none

/-! ## The bundle -/

def canonicalJson (j : Json) : ByteArray := Json.encode j.canonical

variable (sha : ByteArray → Sha256)

def verifyReceivedHash (received : Json) : Bool :=
  match received with
  | .obj fields => match fields.lookup "result_hash" with
    | some (.str s) => (sha (canonicalJson (received.without "result_hash"))).hex = s
    | _ => false
  | _ => true

variable [Lib]

/-- The fields, and `valid_machine_bundle` (`:173`). -/
def ResultBundleV1.load (j : Json) : Option ResultBundleV1 :=
  match j.record ["schema_version", "job_id", "transcript", "insights", "model_versions", "result_hash"] with
  | some [version, id, transcript, insights, versions, hash] => do
    readVersion version
    let b : ResultBundleV1 := ⟨← UUID.load id, ← TranscriptV1.load transcript, ← InsightsV1.load insights,
      ← ModelVersions.load versions, ← Sha256.load hash⟩
    if b.valid then some b else none
  | _ => none

/-- `ResultBundleV1.model_validate(received)`. -/
def ResultBundleV1.validate (received : Json) : Option ResultBundleV1 :=
  if verifyReceivedHash sha received then ResultBundleV1.load received else none

/-! ## As text -/

def TranscriptV1.validateJson (data : ByteArray) : Option TranscriptV1 := (Json.decode data).bind TranscriptV1.load

def InsightsV1.validateJson (data : ByteArray) : Option InsightsV1 := (Json.decode data).bind InsightsV1.load

def ResultBundleV1.validateJson (data : ByteArray) : Option ResultBundleV1 :=
  (Json.decode data).bind (ResultBundleV1.validate sha)

def ResultBundleV1.dumpJson (b : ResultBundleV1) : ByteArray := Json.encode b.dump.print

end Tirke

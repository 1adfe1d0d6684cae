import Tirke.Models.Load
import Tirke.Services.CoordinatorRuntime
/-!
# `app/services/demo_fixture.py`: seeding a prepared example

Seeding takes no lock. It is a program over the operations of the store: each of them is one call, and the scheduler may
do what it likes between two of them. What `json.loads` and `read_bytes` returned are arguments; when one of them raises,
nothing was created.

| here | there |
| --- | --- |
| `StoreOp` | the calls of `store`, and `datetime.now(UTC)` |
| `SeedError` | what seeding raises itself, or what a call of the store raised |
| `Json.dict`, `Json.setField` | `dict(value)`, and `d[name] = value` |
| `Prepared.readDate` | pydantic's reading of a `date` |
| `Prepared.sha256` | `hashlib.sha256` of the canonical JSON |
| `fill`, `rollback` | the body of `try` (`:57`), and `except BaseException` (`:90`) |
-/

namespace Json

/-- Overwrite the value of a name, or add it behind the others. -/
def setField (name : String) (value : Json) : List (String × Json) → List (String × Json)
  | [] => [(name, value)]
  | f :: fs => if f.1 = name then (name, value) :: fs else f :: setField name value fs

/-- A key and a value: two characters and two keys are a pair as well. -/
def pair : Json → Option (String × Json)
  | .arr [.str k, v] => some (.ofList k, v)
  | .str [k, v] => some (.ofList [k], .str [v])
  | .obj [k, v] => some (k.1, .str v.1.toList)
  | _ => none

/-- A key that is no string fails here, and in the source when the keys are sorted. -/
def dict : Json → Option (List (String × Json))
  | .obj fs => some fs
  | .arr items => (items.mapM pair).map fun pairs => pairs.foldl (fun fs p => setField p.1 p.2 fs) []
  | .str [] => some []
  | _ => none

/-- `language_hint` has a default. -/
def hinted : Json → Json
  | .obj fs => if (fs.lookup "language_hint").isSome then .obj fs else .obj (fs ++ [("language_hint", .word "auto")])
  | j => j

end Json

namespace Tirke

open CrashProg CrashDisk

inductive StoreOp where
  | createMeeting (metadata : MeetingMetadata) (audio : Bytes)
  | publishResults (b : ResultBundleV1)
  | deleteUpload
  | readRecord
  | now
  | updateMeeting (r : MeetingRecord)
  | deleteMeeting (suffix : UUID)

@[reducible] def StoreOp.Value : StoreOp → Type
  | .createMeeting _ _ => Meeting
  | .publishResults _ => ReadyManifest
  | .deleteUpload => Unit
  | .readRecord => MeetingRecord
  | .now => Time
  | .updateMeeting _ => Meeting
  | .deleteMeeting _ => Unit

inductive SeedError where
  | valueError (message : String)
  | keyError (name : String)
  | typeError
  | indexError
  | validation
  | store (e : Exn)
deriving DecidableEq

abbrev Store : Interface := ⟨StoreOp, fun o => Except Exn o.Value⟩

abbrev Seeding := Prog Store SeedError

def perform (o : StoreOp) : Seeding o.Value :=
  .op o fun
    | .ok a => .ret a
    | .error e => .raise (.store e)

class Prepared where
  sha256 : ByteArray → Sha256
  readDate : Json → Option Date

/-! ## The fixture -/

def readString : Json → Option Str
  | .str s => some s
  | _ => none

variable [Lib] [Home] [Spelling] [Prepared]

def MeetingMetadata.load (j : Json) : Option MeetingMetadata :=
  match j.hinted.record
      ["title", "meeting_date", "timezone", "participants", "recording_notice_confirmed", "language_hint"] with
  | some [title, date, zone, participants, notice, hint] => do
    let m : MeetingMetadata := ⟨← readText title, ← Prepared.readDate date, ← readString zone,
      ← participants.many readName, ← readBool notice, ← readWord LanguageHint.text [.auto, .ru, .kk, .mixed] hint⟩
    if m.valid Lib.validTimezone then some m else none
  | _ => none

/-! ## The store -/

/-- `source.read(1024 * 1024)` on the bytes, until there are no more. -/
def audioChunks (audio : Bytes) : List Bytes := audio.toChunks (1024 * 1024)

def StoreOp.program : (o : StoreOp) → Serv o.Value
  | .createMeeting metadata audio => Tirke.createMeeting metadata (audioChunks audio) .uploadedAudio none 24
  | .publishResults b => Tirke.publishResults b
  | .deleteUpload => Tirke.deleteUpload
  | .readRecord => Tirke.readRecord
  | .now => Tirke.now
  | .updateMeeting r => Tirke.updateMeeting r
  | .deleteMeeting suffix => Tirke.deleteMeeting suffix

/-! ## Seeding -/

def require (b : Bool) (e : SeedError) : Seeding Unit := if b then .ret () else .raise e

/-- `fixture[name]`. -/
def item (fixture : List (String × Json)) (name : String) : Seeding Json :=
  match fixture.lookup name with
  | some value => .ret value
  | none => .raise (.keyError name)

/-- The value, unless there is none. -/
def orRaise {α : Type} (e : SeedError) : Option α → Seeding α
  | some a => .ret a
  | none => .raise e

/-- `payload` without its hash (`:62`). -/
def seedPayload (meeting : Meeting) (job : UUID) (transcript insights : List (String × Json)) (versions : Json) :
    List (String × Json) :=
  [("schema_version", .int 1), ("job_id", .str job.str),
    ("transcript", .obj (Json.setField "meeting_id" (.str meeting.id.str) transcript)),
    ("insights", .obj (Json.setField "meeting_id" (.str meeting.id.str) insights)), ("model_versions", versions)]

def seedBundle (meeting : Meeting) (job : UUID) (transcript insights : List (String × Json)) (versions : Json) :
    Option ResultBundleV1 :=
  let payload := seedPayload meeting job transcript insights versions
  let resultHash := Prepared.sha256 (canonicalJson (.obj payload))
  ResultBundleV1.validate Prepared.sha256 (.obj (payload ++ [("result_hash", .str resultHash.hex)]))

def JobRecord.seeded (j : JobRecord) : JobRecord := { j with cleanupStatus := .deleted, ackPending := false }

/-- The record `:76` to `:88` make of the one that was read. -/
def MeetingRecord.seeded (r : MeetingRecord) (fixtureId : Str) (t : Time) : MeetingRecord :=
  { r with
    audioSha256 := none
    localCleanupStatus := .deleted
    jobs := r.jobs.modifyHead JobRecord.seeded
    meeting := { r.meeting with
      cleanupStatus := .deleted
      sourceAvailable := false
      temporaryExpiresAt := none
      source := ⟨.demoFixture, true, some fixtureId⟩
      updatedAt := t } }

/-- The bundle of `:58` to `:72`. -/
def bundleOf (fixture : List (String × Json)) (meeting : Meeting) (job : UUID) : Seeding ResultBundleV1 := do
  let transcript ← orRaise .typeError (← item fixture "transcript").dict
  let insights ← orRaise .typeError (← item fixture "insights").dict
  let versions ← item fixture "model_versions"
  orRaise .validation (seedBundle meeting job transcript insights versions)

def fill (fixture : List (String × Json)) (fixtureId : Str) (meeting : Meeting) (job : UUID) : Seeding Meeting := do
  let bundle ← bundleOf fixture meeting job
  let _ ← perform (.publishResults bundle)
  perform .deleteUpload
  let record ← perform .readRecord
  require (!record.jobs.isEmpty) .indexError
  require (MeetingSource.valid ⟨.demoFixture, true, some fixtureId⟩) .validation
  let t ← perform .now
  perform (.updateMeeting (record.seeded fixtureId t))

def rollback (suffix : UUID) (e : SeedError) : Seeding Meeting := do
  perform (.deleteMeeting suffix)
  throw e

/-- The purpose the fixture was made for (`:43`). -/
def checkPurpose (allowSynthetic : Bool) (purpose : Json) : Seeding Unit :=
  match purpose with
  | .str s =>
    if s = "synthetic_contract_test".toList then
      require allowSynthetic (.valueError "Synthetic contract data is not a stage demo")
    else require (s = "prepared_demo".toList) (.valueError "Invalid prepared example purpose")
  | _ => .raise (.valueError "Invalid prepared example purpose")

/-- The fixture's identifier and metadata, once it may be used with this recording (`:37` to `:54`). -/
def checkFixture (demoOwnerId : UUID) (allowSynthetic : Bool) (raw : Json) (audio : Bytes) :
    Seeding (List (String × Json) × Str × MeetingMetadata) := do
  require (Home.ownerId = demoOwnerId) (.valueError "Prepared example is restricted to the demo account")
  match raw with
  | .obj fixture =>
    checkPurpose allowSynthetic (raw.get "purpose")
    require ((raw.get "demo_owner_id").text = demoOwnerId.str)
      (.valueError "Prepared example is bound to another demo account")
    let fixtureId ← orRaise (.valueError "Prepared example needs a fixture ID")
      ((readString (raw.get "fixture_id")).filter nonBlank)
    let expected ← orRaise (.valueError "Prepared example needs a pinned audio SHA-256")
      ((readString (raw.get "recording_sha256")).filter fun s => s.length = 64)
    require ((Lib.sha256 (.blob audio)).hex = expected) (.valueError "Recording does not match prepared example")
    let metadata ← orRaise .validation (MeetingMetadata.load (← item fixture "metadata"))
    return (fixture, fixtureId, metadata)
  | _ => throw (.valueError "Invalid prepared example")

def seedDemoFixture (demoOwnerId : UUID) (allowSynthetic : Bool) (raw : Json) (audio : Bytes) (job suffix : UUID) :
    Seeding Meeting := do
  let (fixture, fixtureId, metadata) ← checkFixture demoOwnerId allowSynthetic raw audio
  let meeting ← perform (.createMeeting metadata audio)
  Prog.handle (fill fixture fixtureId meeting job) (rollback suffix)

end Tirke

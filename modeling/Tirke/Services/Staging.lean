import Tirke.Services.Uploads
import Tirke.Lib.Program
import Tirke.Lib.Json
/-!
# `stage_and_validate` (`app/services/uploads.py`)

The machine is the staging directory `<root>/uploads` and the programs that look into its files. Other uploads are at
work in it, too: between two operations the files that this call did not create may become anything.

| here | there |
| --- | --- |
| `UploadExtension.ofSuffix` | `ALLOWED_EXTENSIONS` (`:38`), of the suffix in lower case |
| `Op.prepare` | `_make_directory` and `_sweep_stale_uploads` (`artifact_store.py:166`), which spares files this young |
| `Op.copy` | the `with` block that copies, flushes and syncs (`:151`) |
| `Op.ffprobe`, `Op.ffmpeg` | `subprocess.run`; what it writes to its output is JSON or not |
| `Wave` | the getters of `wave.open` |
| `Exn.other` | any other `BaseException` |
| `stageBody` | the `try` block (`:150`); its exceptions come with what `normalized_path` is then |

Removing a file succeeds where there is one.
-/

namespace Tirke

def maxUploadBytes : Nat := 100 * 1024 * 1024

inductive VideoExtension where
  | mp4
  | mov
  | mkv
deriving DecidableEq

inductive UploadExtension where
  | audio (e : AudioExtension)
  | video (e : VideoExtension)
deriving DecidableEq

def UploadExtension.ofSuffix (suffix : String) : Option UploadExtension :=
  [(".wav", .audio .wav), (".mp3", .audio .mp3), (".m4a", .audio .m4a), (".ogg", .audio .ogg), (".webm", .audio .webm),
    (".mp4", .video .mp4), (".mov", .video .mov), (".mkv", .video .mkv)].lookup suffix

namespace Staging

open CrashProg

-- paths and names of formats are looked up in lists
local instance : LawfulBEq Str := inferInstance
local instance : LawfulBEq UUID := inferInstance

/-! ## What `ffprobe` prints -/

structure ProbeStream where
  codecName : Option Str
  codecType : Str
deriving DecidableEq

structure ProbeResult where
  formatName : Str
  streams : List ProbeStream
deriving DecidableEq

def readString : Json → Option Str
  | .str s => some s
  | _ => none

def ProbeStream.load : Json → Option ProbeStream
  | .obj fields => do
    let codecName ← ((fields.lookup "codec_name").map (Json.nullable readString)).getD (some none)
    let codecType ← (fields.lookup "codec_type").bind readString
    return ⟨codecName, codecType⟩
  | _ => none

/-- `format.format_name`. -/
def readFormat : Json → Option Str
  | .obj fields => (fields.lookup "format_name").bind readString
  | _ => none

def ProbeResult.load : Json → Option ProbeResult
  | .obj fields => do
    let formatName ← (fields.lookup "format").bind readFormat
    let streams ← (fields.lookup "streams").bind (Json.many ProbeStream.load)
    return ⟨formatName, streams⟩
  | _ => none

def ProbeStream.isVideo (s : ProbeStream) : Bool := s.codecType = "video".toList
def ProbeStream.isAudio (s : ProbeStream) : Bool := s.codecType = "audio".toList

/-! ## The machine -/

structure Wave where
  nchannels : Nat
  sampwidth : Nat
  framerate : Nat
  nframes : Nat

inductive Exn where
  | uploadError (status : Nat) (code : String)
  | osError
  | timeoutExpired
  | eofError
  | valueError
  | waveError
  | other
deriving DecidableEq

/-- What `subprocess.run` raises. -/
inductive SpawnError where
  | osError
  | timeoutExpired
deriving DecidableEq

def SpawnError.exn : SpawnError → Exn
  | .osError => .osError
  | .timeoutExpired => .timeoutExpired

inductive Op where
  | prepare
  | uuid4
  | create (path : UUID)
  | copy (path : UUID) (audio : Bytes)
  | waveOpen (path : UUID)
  | readframes (path : UUID) (frames : Nat)
  | ffprobe (path : UUID)
  | ffmpeg (source target : UUID)
  | isFile (path : UUID)
  | stat (path : UUID)
  | head (path : UUID)
  | unlink (path : UUID) (missingOk : Bool)

@[reducible] def Op.Value : Op → Type
  | .uuid4 => UUID
  | .waveOpen _ => Wave
  | .readframes _ _ => Nat
  | .ffprobe _ => Int × Option Json
  | .ffmpeg _ _ => Int
  | .isFile _ => Bool
  | .stat _ => Nat
  | .head _ => Bytes
  | _ => Unit

abbrev Ops : Interface := ⟨Op, fun o => Except Exn o.Value⟩

inductive Event where
  | copied (path : UUID)
  | opened (path : UUID) (content : Option Bytes) (stream : Wave)
  | read (path : UUID) (frames length : Nat)
  | probed (path : UUID) (content : Option Bytes) (returncode : Int) (stdout : Option Json)
  | extracted (source target : UUID)

structure World where
  files : UUID → Option Bytes
  /-- The files this call has created. -/
  mine : List UUID
  /-- Newest first. -/
  log : List Event

/-- What the call does not decide about one operation. -/
structure Choice where
  error : Option Exn
  spawn : Option SpawnError
  uuid : UUID
  /-- What a failed copy, or `ffmpeg`, leaves of its file. -/
  left : Option Bytes
  stream : Wave
  length : Nat
  returncode : Int
  stdout : Option Json
  elsewhere : UUID → Option Bytes

namespace World

def disturb (w : World) (elsewhere : UUID → Option Bytes) : World :=
  { w with files := fun q => if q ∈ w.mine then w.files q else elsewhere q }

def note (w : World) (e : Event) : World := { w with log := e :: w.log }

def put (w : World) (path : UUID) (content : Option Bytes) : World :=
  { w with files := Function.update w.files path content }

def perform (w : World) (c : Choice) : (o : Op) → Except Exn o.Value × World
  | .prepare => (match c.error with | some e => .error e | none => .ok (), w)
  | .uuid4 => (.ok c.uuid, w)
  | .create path => match c.error with
    | some e => (.error e, w)
    | none => if (w.files path).isSome then (.error .osError, w)
      else (.ok (), { w.put path (some []) with mine := path :: w.mine })
  | .copy path audio => match c.error with
    | some e => (.error e, (w.put path (some (c.left.getD []))).note (.copied path))
    | none => (.ok (), (w.put path (some audio)).note (.copied path))
  | .waveOpen path => match c.error with
    | some e => (.error e, w)
    | none => (.ok c.stream, w.note (.opened path (w.files path) c.stream))
  | .readframes path frames => match c.error with
    | some e => (.error e, w)
    | none => (.ok c.length, w.note (.read path frames c.length))
  | .ffprobe path => match c.spawn with
    | some e => (.error e.exn, w)
    | none => (.ok (c.returncode, c.stdout), w.note (.probed path (w.files path) c.returncode c.stdout))
  | .ffmpeg source target => match c.spawn with
    | some e => (.error e.exn, (w.put target c.left).note (.extracted source target))
    | none => (.ok c.returncode, (w.put target c.left).note (.extracted source target))
  | .isFile path => match c.error with
    | some e => (.error e, w)
    | none => (.ok (w.files path).isSome, w)
  | .stat path => match c.error, w.files path with
    | some e, _ => (.error e, w)
    | none, some content => (.ok content.length, w)
    | none, none => (.error .osError, w)
  | .head path => match c.error, w.files path with
    | some e, _ => (.error e, w)
    | none, some content => (.ok (content.take 4096), w)
    | none, none => (.error .osError, w)
  | .unlink path missingOk => match w.files path with
    | some _ => (.ok (), w.put path none)
    | none => (if missingOk then .ok () else .error .osError, w)

def act (o : Op) (c : Choice) (w : World) : Except Exn o.Value × World := (w.disturb c.elsewhere).perform c o

end World

abbrev host : Machine Ops := ⟨World, Choice, World.act⟩

abbrev Stage := Prog Ops Exn

def call (o : Op) : Stage o.Value := .op o .ofExcept

def unsupportedMediaType : Exn := .uploadError 415 "unsupported_media_type"

/-- `if b: raise UploadError(415, "unsupported_media_type")`. -/
def refuse (b : Bool) : Stage Unit := if b then .raise unsupportedMediaType else .ret ()

/-! ## The service -/

def temporaryUploadPath : Stage UUID := do
  call .prepare
  let path ← call .uuid4
  call (.create path)
  return path

/-- `while remaining`. -/
def readAll (path : UUID) (frameSize framesPerChunk : Nat) (h : 0 < framesPerChunk) (remaining : Nat) : Stage Unit :=
  if _h0 : remaining = 0 then .ret ()
  else (call (.readframes path (min remaining framesPerChunk))).bind fun length =>
    if length ≠ min remaining framesPerChunk * frameSize then .raise .valueError
    else readAll path frameSize framesPerChunk h (remaining - min remaining framesPerChunk)
termination_by remaining
decreasing_by omega

def Exn.isWaveError (e : Exn) : Bool := e = .eofError || e = .valueError || e = .waveError

def validateWav (path : UUID) : Stage Unit :=
  (do
    let stream ← call (.waveOpen path)
    if stream.nchannels < 1 || stream.framerate < 1 || stream.nframes < 1 then .raise .valueError
    else
      let frameSize := stream.nchannels * stream.sampwidth
      -- `64 * 1024 // 0`
      if frameSize = 0 then .raise .other
      else readAll path frameSize (max 1 (64 * 1024 / frameSize)) (by omega) stream.nframes : Stage Unit).handle fun e =>
    .raise (if e.isWaveError then unsupportedMediaType else e)

/-- `isinstance(error, (OSError, subprocess.TimeoutExpired))`. -/
def Exn.isSpawnError (e : Exn) : Bool := e = .osError || e = .timeoutExpired

def probeMedia (path : UUID) : Stage ProbeResult := do
  let (returncode, stdout) ← (call (.ffprobe path)).handle fun e =>
    .raise (if e.isSpawnError then unsupportedMediaType else e)
  refuse (returncode ≠ 0)
  match stdout.bind ProbeResult.load with
  | some probe => return probe
  | none => .raise unsupportedMediaType

/-- The dictionary of `_validate_container` has no entry for WAV. -/
def expectedFormats : UploadExtension → Option (List String)
  | .audio .wav => none
  | .audio .mp3 => some ["mp3"]
  | .audio .ogg => some ["ogg"]
  | .audio .m4a | .video .mp4 | .video .mov => some ["mov", "mp4", "m4a", "3gp", "3g2", "mj2"]
  | .audio .webm | .video .mkv => some ["matroska", "webm"]

def ProbeResult.formats (probe : ProbeResult) : List Str := probe.formatName.splitOn ','

def fitsContainer (expected : List String) (probe : ProbeResult) : Bool :=
  (probe.formats.any fun f => f ∈ expected.map String.toList) && !probe.streams.isEmpty

/-- `none` where `path.open` or `source.read` raises an `OSError`. -/
def readHead (path : UUID) : Stage (Option Bytes) :=
  (do let data ← call (.head path); return some data : Stage (Option Bytes)).handle fun e =>
    if e = .osError then .ret none else .raise e

def isWebm (path : UUID) : Stage Bool := do
  let data ← readHead path
  match hasWebmDoctype data with
  | .ok b => return b
  | .error _ => .raise .other

def validateContainer (path : UUID) (suffix : UploadExtension) (probe : ProbeResult) : Stage Unit :=
  match expectedFormats suffix with
  | none => .raise .other
  | some expected => do
    refuse (!fitsContainer expected probe)
    if suffix = .audio .webm then
      let webm ← isWebm path
      refuse (!webm)

def audioOnly (suffix : UploadExtension) (probe : ProbeResult) : Bool :=
  probe.streams.all ProbeStream.isAudio &&
    (suffix ≠ .audio .webm || probe.streams.all fun s => s.codecName = some "opus".toList)

def validateAudioOnly (suffix : UploadExtension) (probe : ProbeResult) : Stage Unit := refuse (!audioOnly suffix probe)

/-- The three checks of what `ffmpeg` has left, in their order (`:294`). -/
def unusable (target : UUID) (returncode : Int) : Stage Bool :=
  if returncode ≠ 0 then .ret true
  else do
    let file ← call (.isFile target)
    if !file then return true
    else
      let size ← call (.stat target)
      return !(0 < size && size ≤ maxUploadBytes)

def extractFirstAudio (source : UUID) : Stage UUID := do
  let target ← temporaryUploadPath
  let returncode ← (call (.ffmpeg source target)).handle fun e =>
    if e.isSpawnError then do call (.unlink target true); .raise unsupportedMediaType
    else .raise e
  (do
    let bad ← unusable target returncode
    refuse bad
    let probe ← probeMedia target
    validateContainer target (.audio .m4a) probe
    validateAudioOnly (.audio .m4a) probe
    return target : Stage UUID).handle fun e => do
      call (.unlink target true)
      .raise e

def ProbeResult.hasVideo (probe : ProbeResult) : Bool := probe.streams.any ProbeStream.isVideo

/-- An exception while `normalized_path` is `None`. -/
def unassigned {α : Type} (p : Stage α) : Prog Ops (Option UUID × Exn) α := p.handle fun e => .raise (none, e)

def stageExtracted (source : UUID) : Prog Ops (Option UUID × Exn) (UUID × AudioExtension) := do
  let normalized ← unassigned (extractFirstAudio source)
  (call (.unlink source false)).handle fun e => .raise (some normalized, e)
  return (normalized, .m4a)

def stageBody (source : UUID) (extension : UploadExtension) (audio : Bytes) :
    Prog Ops (Option UUID × Exn) (UUID × AudioExtension) := do
  unassigned (call (.copy source audio))
  if extension = .audio .wav then do
    unassigned (validateWav source)
    return (source, .wav)
  else do
    let probe ← unassigned (probeMedia source)
    unassigned (validateContainer source extension probe)
    unassigned (refuse (!probe.streams.any ProbeStream.isAudio))
    match extension with
    | .video _ => stageExtracted source
    | .audio e =>
      if probe.hasVideo then stageExtracted source
      else do
        unassigned (validateAudioOnly extension probe)
        return (source, e)

def unlinkNormalized : Option UUID → Stage Unit
  | some normalized => call (.unlink normalized true)
  | none => .ret ()

def stageAndValidate (suffix : String) (audio : Bytes) : Stage (UUID × AudioExtension) :=
  match UploadExtension.ofSuffix suffix with
  | none => .raise unsupportedMediaType
  | some extension => do
    let source ← temporaryUploadPath
    (stageBody source extension audio).handle fun (normalized, e) => do
      call (.unlink source true)
      unlinkNormalized normalized
      .raise e

end Staging

end Tirke

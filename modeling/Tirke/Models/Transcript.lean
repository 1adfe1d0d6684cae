import Mathlib.Data.List.Basic
import Mathlib.Data.List.Nodup
/-!
# `app/models/transcript.py`: the public transcript schema

| here | there |
| --- | --- |
| `UUID`, `Sha256` | `uuid.UUID`, the 64 hex digits of `insights.py:Sha256` |
| `Str` | a Python `str` that pydantic accepts: its Unicode code points |
| `nonBlank`, `personName` | `NonEmptyText` (`:25`), `PersonName` (`:28`) |
| `SpeakerId` | `^speaker_[1-9][0-9]*$` (`:31`): the number is the identifier |
| `Speaker.valid`, `Segment.valid`, `TranscriptV1.valid` | the `model_validator`s (`:55`, `:71`, `:84`) |

A value of one of these types is what pydantic holds after coercion; `valid` says whether
constructing it succeeds, so `model_copy`, which skips validation, is record update.
-/

namespace Tirke

abbrev UUID := BitVec 128
abbrev Sha256 := BitVec 256
/-- A Python `str` as its code points. -/
abbrev Str := List Char
/-- Microseconds since `datetime.min`, UTC. -/
abbrev Time := Nat

/-- Unicode `White_Space`, what pydantic strips. -/
def whiteSpace (c : Char) : Bool :=
  let n := c.toNat
  (9 ≤ n && n ≤ 13) || n = 32 || n = 0x85 || n = 0xA0 || n = 0x1680 || (0x2000 ≤ n && n ≤ 0x200A) ||
    n = 0x2028 || n = 0x2029 || n = 0x202F || n = 0x205F || n = 0x3000

/-- `str.isspace` of one character: `White_Space` and the four information separators. -/
def isSpace (c : Char) : Bool := whiteSpace c || (28 ≤ c.toNat && c.toNat ≤ 31)

def stripBy (p : Char → Bool) (s : Str) : Str := ((s.dropWhile p).reverse.dropWhile p).reverse

/-- `NonEmptyText`: `value.strip()` keeps something. -/
def nonBlank (s : Str) : Bool := s.any fun c => !isSpace c

/-- `PersonName`, once stripped: 1 to 100 code points. -/
def personName (s : Str) : Bool := stripBy whiteSpace s = s && 1 ≤ s.length && s.length ≤ 100

structure SpeakerId where
  number : Nat
  pos : 0 < number
deriving DecidableEq

def SpeakerId.text (s : SpeakerId) : Str := "speaker_".toList ++ Nat.toDigits 10 s.number

inductive IdentityStatus where
  | unreviewed
  | named
  | unknown
deriving DecidableEq, Repr

structure Speaker where
  speakerId : SpeakerId
  displayName : Option Str
  identityStatus : IdentityStatus
deriving DecidableEq

/-- `valid_identity` (`:61`). -/
def Speaker.valid (s : Speaker) : Bool :=
  s.displayName.all personName && ((s.identityStatus = .named) == s.displayName.isSome)

inductive Language where
  | ru
  | kk
  | unknown
deriving DecidableEq, Repr

structure Segment where
  id : UUID
  startMs : Nat
  endMs : Nat
  speakerId : SpeakerId
  language : Language
  text : Str
  edited : Bool
deriving DecidableEq

/-- `valid_interval` (`:77`). -/
def Segment.valid (s : Segment) : Bool := nonBlank s.text && s.startMs < s.endMs

structure TranscriptV1 where
  meetingId : UUID
  revision : Nat
  speakers : List Speaker
  segments : List Segment
deriving DecidableEq

def TranscriptV1.speakerIds (t : TranscriptV1) : List SpeakerId := t.speakers.map (·.speakerId)

/-- `valid_references` (`:90`). -/
def TranscriptV1.valid (t : TranscriptV1) : Bool :=
  t.speakers.all Speaker.valid && t.segments.all Segment.valid && decide t.speakerIds.Nodup &&
    decide (t.segments.map (·.id)).Nodup && t.segments.all (fun s => s.speakerId ∈ t.speakerIds) &&
    decide ((t.segments.map (·.startMs)).Pairwise (· ≤ ·))

/-- `segments.get(segment_id)` of `{segment.id: segment for segment in transcript.segments}`. -/
def TranscriptV1.segment (t : TranscriptV1) (id : UUID) : Option Segment := t.segments.find? (·.id = id)

end Tirke

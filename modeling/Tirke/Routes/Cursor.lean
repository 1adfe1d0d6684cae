import Tirke.Lib.IsoText
import Tirke.Lib.Loads
import Tirke.Routes.Meetings
/-!
# `_decode_cursor`, with the decoders of the standard library

`Routes/Meetings.lean` reads what `_encode_cursor_stub` prints and nothing else. Here the three decoders read all that
CPython 3.12 reads, and raise what it raises.

| here | there |
| --- | --- |
| `urlsafeB64decode` | `base64.urlsafe_b64decode` of a string |
| `Loads.loads`, `IsoText.fromisoformat`, `uuid` | `json.loads`, `datetime.fromisoformat`, `uuid.UUID` |
| `Cursor.readCursor` | the `try` block (`:102`) |
| `Cursor.decodeCursor` | `_decode_cursor` (`:99`) |
| `decimal` | `unicodedata.decimal`, of a character beyond ASCII |
-/

namespace Tirke.Cursor

open Unicode Loads Numeral

/-- The code points of a text. -/
def points (s : Str) : Text := s.map Char.toNat

/-- A string with a character beyond ASCII has no bytes to decode. -/
def urlsafeB64decode (s : Text) : Except PyError (List Nat) :=
  if s.all (· < 0x80) then
    match Base64.decode (s.map Char.ofNat) with
    | some payload => .ok payload
    | none => .error .binasciiError
  else .error .valueError

/-! ## `uuid.UUID` -/

/-- `replace(pattern, "")`; `skipped` characters of an occurrence are still to be dropped. -/
def remove (pattern : Str) : Nat → Str → Str
  | _, [] => []
  | skipped + 1, _ :: s => remove pattern skipped s
  | 0, c :: s => if pattern.isPrefixOf (c :: s) then remove pattern (pattern.length - 1) s else c :: remove pattern 0 s

def hexDigit (c : Char) : Bool := (digitValue c).any (· < 16)

/-- No underscore at the end, and no two together. -/
def grouped (s : Str) : Bool := s.getLast? ≠ some '_' && (s.zip s.tail).all fun p => !(p.1 = '_' && p.2 = '_')

variable (decimal : Char → Option Nat)

/-- `_PyUnicode_TransformDecimalAndSpaceToASCII`. -/
def toASCII (s : Str) : Str :=
  if s.all (·.toNat < 0x80) then s
  else s.map fun c =>
    if c.toNat < 0x80 then c
    else if isSpace c then ' '
    else match decimal c with
      | some d => digitChar d
      | none => '?'

/-- `int(s, 16)` of a text without hyphens. -/
def int16 (s : Str) : Option Nat :=
  let blank := fun c : Char => c = ' ' || (9 ≤ c.toNat && c.toNat ≤ 13)
  let s := (toASCII decimal s).dropWhile blank
  let s := if s.head? = some '+' then s.tail else s
  let prefixed : Bool := ['0', 'x'].isPrefixOf s || ['0', 'X'].isPrefixOf s
  let s := if prefixed then s.drop 2 else s
  let s := if prefixed && s.head? = some '_' then s.tail else s
  let digits := s.takeWhile fun c => hexDigit c || c = '_'
  let rest := s.dropWhile fun c => hexDigit c || c = '_'
  if digits = [] ∨ digits.head? = some '_' ∨ ¬grouped digits ∨ rest.dropWhile blank ≠ [] then none
  else
    let digits := digits.filter (· ≠ '_')
    (number 16 digits.length digits).map Prod.fst

/-- `UUID(text)`. -/
def uuid (text : Text) : Option UUID :=
  let hex := remove "uuid:".toList 0 (remove "urn:".toList 0 (text.map Char.ofNat))
  let hex := (stripBy (fun c => c = '{' || c = '}') hex).filter (· ≠ '-')
  if hex.length ≠ 32 then none
  else (int16 decimal hex).bind fun n => if n < 2 ^ 128 then some (BitVec.ofNat 128 n) else none

/-! ## `_decode_cursor` -/

/-- The nested calls that CPython allows below this one, of the thousand of `sys.getrecursionlimit()`. -/
def nesting : Nat := 800

/-- What is raised out of `_decode_cursor`. -/
inductive CursorError where
  | api (e : MeetingApiError)
  | uncaught (e : PyError)
deriving DecidableEq

/-- The exception of a reader that raises `ValueError` only. -/
def orValueError {α : Type} : Option α → Except PyError α
  | some x => .ok x
  | none => .error .valueError

def readCursor (raw : Text) : Except PyError (Time × Str) := do
  let payload ← urlsafeB64decode (raw ++ List.replicate ((4 - raw.length % 4) % 4) '='.toNat)
  let decoded ← Loads.loads nesting payload
  match decoded with
  | .list [.str first, .str second] =>
    let timestamp ← orValueError (IsoText.fromisoformat first)
    if timestamp.offset ≠ some 0 then .error .valueError
    else
      let id ← orValueError (uuid decimal second)
      if points (encodeCursorStub timestamp.time (UUID.str id)) ≠ raw then .error .valueError
      else return (timestamp.time, UUID.str id)
  | _ => .error .valueError

/-- `except (TypeError, ValueError, UnicodeDecodeError, binascii.Error)` (`:119`). -/
def decodeCursor (raw : Text) : Except CursorError (Time × Str) :=
  if 256 < raw.length then .error (.api (apiError 422 "invalid_request"))
  else match readCursor decimal raw with
    | .ok boundary => .ok boundary
    | .error e => if e.isValueError then .error (.api (apiError 422 "invalid_request")) else .error (.uncaught e)

end Tirke.Cursor

import Mathlib.Data.Prod.Lex
import Mathlib.Data.List.Lex
import Mathlib.Data.Char
import Tirke.Lib.Base64
import Tirke.Lib.Calendar
import Tirke.Lib.Keyset
import Tirke.Models.Dump
import Tirke.Services.ArtifactStore
/-!
# `app/api/routes/meetings.py`: the list of meetings

| here | there |
| --- | --- |
| `sortKey` | the key of `list_meetings` (`artifact_store.py:333`), and of the comparison with the boundary (`:190`) |
| `sorted` | `sorted(…, reverse=True)`: stable, in decreasing order |
| `dumps`, `loads` | `json.dumps` of two plain strings, and `json.loads` of such a text |
| `encodeCursor`, `decodeCursor` | `_encode_cursor` (`:95`), `_decode_cursor` (`:99`) |
| `listMeetings` | the route (`:173`) |
| `queryFn` | its client, `useMeetingsQuery` (`frontend/…/meetings/api/hooks.ts:17`) |

`json.loads`, `datetime.fromisoformat` and `UUID` read more than their counterparts here. It makes no difference
(`Cursor.decodeCursor_points`): a cursor that is not the very text `_encode_cursor_stub` prints is refused (`:119`).
-/

namespace Tirke

open Numeral Calendar

/-! ## Errors -/

structure MeetingApiError where
  status : Nat
  code : String
  detail : String
deriving DecidableEq

def details : List (String × String) :=
  [("invalid_request", "Некорректные данные запроса"),
    ("meeting_not_found", "Встреча не найдена"),
    ("invalid_state", "Результат ещё не готов"),
    ("file_too_large", "Файл слишком большой"),
    ("unsupported_media_type", "Неподдерживаемый формат аудио"),
    ("storage_failed", "Не удалось сохранить данные"),
    ("attempts_exhausted", "Достигнут лимит попыток обработки"),
    ("source_expired", "Загрузите запись повторно"),
    ("cleanup_pending", "Очистка временных данных ещё не завершена"),
    ("delete_failed", "Не удалось удалить встречу"),
    ("stale_revision", "Встреча была изменена; обновите страницу"),
    ("review_required", "Сначала проверьте и утвердите текущую ревизию"),
    ("export_failed", "Не удалось создать PDF")]

/-- `_error` (`:71`). -/
def apiError (status : Nat) (code : String) : MeetingApiError := ⟨status, code, (details.lookup code).getD ""⟩

/-- What a route raises: an answer, or an exception that it does not expect. -/
inductive RouteError where
  | api (e : MeetingApiError)
  | unhandled (e : Exn)
deriving DecidableEq

/-- `except (OSError, ArtifactIntegrityError, UnsafePath)`. -/
def storageFailed (e : Exn) : RouteError :=
  match e with
  | .osError | .fileNotFound | .fileExists | .integrity _ => .api (apiError 503 "storage_failed")
  | _ => .unhandled e

/-! ## Cursors -/

def sortKey (m : Meeting) : Time ×ₗ Str := toLex (m.createdAt, UUID.str m.id)

def sorted (ms : List Meeting) : List Meeting := ms.mergeSort fun m m' => sortKey m' ≤ sortKey m

/-- Neither text holds a character that JSON escapes. -/
def dumps (first second : Str) : Str :=
  '[' :: '"' :: (first ++ '"' :: ',' :: '"' :: (second ++ ['"', ']']))

def loads (payload : List Nat) : Option (Str × Str) :=
  match payload.map Char.ofNat with
  | '[' :: '"' :: s =>
    match s.dropWhile (· ≠ '"') with
    | '"' :: ',' :: '"' :: t =>
      if t.dropWhile (· ≠ '"') = ['"', ']'] then some (s.takeWhile (· ≠ '"'), t.takeWhile (· ≠ '"')) else none
    | _ => none
  | _ => none

def encodeCursorStub (timestamp : Time) (identifier : Str) : Str :=
  Base64.strip (Base64.encode ((dumps (isoformat timestamp) identifier).map Char.toNat))

def encodeCursor (m : Meeting) : Str := encodeCursorStub m.createdAt (UUID.str m.id)

/-- What stands between `try` and `except`; `none` is an exception it catches. -/
def readCursor (raw : Str) : Option (Time × Str) := do
  let payload ← Base64.decode (Base64.pad raw)
  let data ← loads payload
  let timestamp ← fromisoformat data.1
  let offset ← timestamp.offset
  if offset ≠ 0 then none
  let id ← UUID.parse data.2
  if encodeCursorStub timestamp.time (UUID.str id) ≠ raw then none
  return (timestamp.time, UUID.str id)

def decodeCursor (raw : Str) : Except MeetingApiError (Time × Str) :=
  if 256 < raw.length then .error (apiError 422 "invalid_request")
  else match readCursor raw with
    | none => .error (apiError 422 "invalid_request")
    | some boundary => .ok boundary

/-! ## The route -/

structure MeetingPage where
  items : List Meeting
  nextCursor : Option Str

def MeetingPage.dump (p : MeetingPage) : Json :=
  .obj [("items", .list Meeting.dump p.items), ("next_cursor", .optional .str p.nextCursor)]

def isDigit (c : Char) : Bool := '0' ≤ c && c ≤ '9'

/-- `int(limit)` of digits. -/
def int (s : Str) : Nat := s.foldl (fun n c => n * 10 + (c.toNat - '0'.toNat)) 0

def validLimit (limit : Str) : Bool :=
  limit.length ≤ 3 && (limit ≠ [] && limit.all isDigit) && (1 ≤ int limit && int limit ≤ 100)

/-- `GET /meetings`, on what the store lists. -/
def listMeetings (store : Except Exn (List Meeting)) (limit : Str) (cursor : Option Str) : Except RouteError MeetingPage :=
  if validLimit limit = false then .error (.api (apiError 422 "invalid_request"))
  else match cursor.mapM decodeCursor with
    | .error e => .error (.api e)
    | .ok boundary => match store with
      | .error e => .error (storageFailed e)
      | .ok meetings =>
        let meetings := match boundary with
          | none => meetings
          | some b => meetings.filter fun item => sortKey item < toLex b
        let page := meetings.take (int limit)
        let next := if page.length < meetings.length then page.getLast?.map encodeCursor else none
        .ok ⟨page, next⟩

/-! ## The client -/

inductive QueryError where
  | failed (e : RouteError)
  /-- "The meeting service returned a repeated page cursor." -/
  | repeatedCursor

/-- The loop of `useMeetingsQuery` (`hooks.ts:25`), for at most `fuel` pages; `answer i` is how request `i` is answered. -/
def queryFn (answer : Nat → Option Str → Except RouteError MeetingPage) : Nat → Nat → Option Str → List Meeting →
    List Str → Option (Except QueryError (List Meeting))
  | 0, _, _, _, _ => none
  | fuel + 1, i, cursor, items, seenCursors =>
    match answer i cursor with
    | .error e => some (.error (.failed e))
    | .ok page =>
      match page.nextCursor with
      | none => some (.ok (items ++ page.items))
      | some next =>
        if next ∈ seenCursors then some (.error .repeatedCursor)
        else queryFn answer fuel (i + 1) (some next) (items ++ page.items) (next :: seenCursors)

/-! ## Cursors can be read back -/

/-- A character that JSON prints as it is, in one byte. -/
def Plain (c : Char) : Prop := c ≠ '"' ∧ c.toNat < 256

theorem plain_digit {d : Nat} (hd : d < 16) : Plain (digitChar d) := by
  have hall : ∀ d : Fin 16, digitChar d ≠ '"' ∧ (digitChar d).toNat < 256 := by decide
  exact hall ⟨d, hd⟩

theorem plain_isoformat {t : Time} : ∀ c ∈ isoformat t, Plain c :=
  forall_isoformat (fun d hd => plain_digit (by omega)) (by simp [Plain])

theorem plain_str {id : UUID} : ∀ c ∈ UUID.str id, Plain c := forall_str (fun _ => plain_digit) (by simp [Plain])

section
variable {first second : Str}

theorem dumps_plain (h₁ : ∀ c ∈ first, Plain c) (h₂ : ∀ c ∈ second, Plain c) :
    ∀ b ∈ (dumps first second).map Char.toNat, b < 256 := by
  have h : ∀ c ∈ dumps first second, c.toNat < 256 := by
    simp only [dumps, List.forall_mem_cons, List.forall_mem_append]
    exact ⟨by decide, by decide, fun c hc => (h₁ c hc).2, by decide, by decide, by decide, fun c hc => (h₂ c hc).2,
      by decide, by decide, nofun⟩
  intro b hb
  obtain ⟨c, hc, rfl⟩ := List.mem_map.1 hb
  exact h c hc

theorem loads_dumps (h₁ : ∀ c ∈ first, Plain c) (h₂ : ∀ c ∈ second, Plain c) :
    loads ((dumps first second).map Char.toNat) = some (first, second) := by
  have hmap : ((dumps first second).map Char.toNat).map Char.ofNat = dumps first second := by
    rw [List.map_map]
    exact List.map_id'' (fun c => Char.ofNat_toNat c) _
  have htake : ∀ s t : Str, (∀ c ∈ s, Plain c) → (s ++ '"' :: t).takeWhile (· ≠ '"') = s := by
    intro s t hs
    rw [List.takeWhile_append_of_pos fun c hc => by simpa using (hs c hc).1]
    simp
  have hdrop : ∀ s t : Str, (∀ c ∈ s, Plain c) → (s ++ '"' :: t).dropWhile (· ≠ '"') = '"' :: t := by
    intro s t hs
    rw [List.dropWhile_append_of_pos fun c hc => by simpa using (hs c hc).1]
    simp
  rw [loads, hmap, dumps]
  simp only [hdrop first _ h₁, htake first _ h₁, htake second _ h₂, hdrop second _ h₂, if_true]

end

theorem length_encodeCursorStub {t : Time} {id : UUID} : (encodeCursorStub t (UUID.str id)).length ≤ 256 := by
  refine Nat.le_trans Base64.length_strip ?_
  rw [Base64.length_encode, List.length_map]
  have : (dumps (isoformat t) (UUID.str id)).length ≤ 75 := by
    simp only [dumps, List.length_cons, List.length_append, length_str, List.length_nil]
    have := length_isoformat (t := t)
    omega
  omega

theorem decodeCursor_stub {t : Time} {id : UUID} (h : t < Calendar.limit) :
    decodeCursor (encodeCursorStub t (UUID.str id)) = .ok (t, UUID.str id) := by
  have hbytes := dumps_plain (@plain_isoformat t) (@plain_str id)
  have hread : readCursor (encodeCursorStub t (UUID.str id)) = some (t, UUID.str id) := by
    simp only [readCursor, encodeCursorStub, Base64.pad_strip hbytes, Base64.decode_encode hbytes,
      loads_dumps plain_isoformat plain_str, fromisoformat_isoformat h, parse_str, Option.bind_eq_bind, Option.bind_some]
    simp
  unfold decodeCursor
  rw [if_neg (Nat.not_lt.2 length_encodeCursorStub), hread]

/-- **A cursor stands for its boundary.** -/
theorem decodeCursor_encodeCursor {m : Meeting} (h : m.createdAt < Calendar.limit) :
    decodeCursor (encodeCursor m) = .ok (m.createdAt, UUID.str m.id) := decodeCursor_stub h

/-- The text of a boundary. -/
def cursorOf (k : Time ×ₗ Str) : Str := encodeCursorStub (ofLex k).1 (ofLex k).2

/-- The key of a meeting whose creation a `datetime` can tell. -/
def Dated (k : Time ×ₗ Str) : Prop := ∃ m : Meeting, m.createdAt < Calendar.limit ∧ sortKey m = k

theorem Dated.decode {k : Time ×ₗ Str} (h : Dated k) : decodeCursor (cursorOf k) = .ok (ofLex k) := by
  obtain ⟨m, hm, rfl⟩ := h
  exact decodeCursor_encodeCursor hm

theorem cursorOf_injective {k k' : Time ×ₗ Str} (h : Dated k) (h' : Dated k') (he : cursorOf k = cursorOf k') : k = k' := by
  have heq := h.decode.symm.trans (he ▸ h'.decode)
  exact congrArg toLex (Except.ok.inj heq)

/-! ## The route serves pages -/

theorem int_limit {limit : Str} (h : validLimit limit = true) : 1 ≤ int limit ∧ int limit ≤ 100 := by
  simp only [validLimit, Bool.and_eq_true, decide_eq_true_eq] at h
  exact h.2

/-- **A request that names its boundary by a cursor gets the page of that boundary.** -/
theorem listMeetings_page {ms : List Meeting} {limit : Str} {b : Option (Time ×ₗ Str)} (hl : validLimit limit = true)
    (hb : ∀ k, b = some k → Dated k) :
    listMeetings (.ok ms) limit (b.map cursorOf) = .ok ⟨(Keyset.page sortKey (ms, int limit) b).items,
      (Keyset.page sortKey (ms, int limit) b).next.map cursorOf⟩ := by
  have hnext : ∀ xs : List Meeting, xs.getLast?.map encodeCursor = (xs.getLast?.map sortKey).map cursorOf := by
    intro xs
    rw [Option.map_map]
    rfl
  unfold listMeetings Keyset.page
  rw [if_neg (by rw [hl]; nofun)]
  cases b with
  | none =>
    have hall : Keyset.below sortKey none ms = ms := List.filter_eq_self.2 fun m _ => decide_eq_true nofun
    simp only [Option.map_none, hall, apply_ite (Option.map cursorOf), ← hnext]
    rfl
  | some k =>
    have hbelow : (ms.filter fun item => decide (sortKey item < toLex (ofLex k))) = Keyset.below sortKey (some k) ms := by
      refine List.filter_congr fun m _ => decide_eq_decide.2 ⟨fun h _ he => ?_, fun h => h k rfl⟩
      cases he
      exact h
    have hdec : Option.mapM decodeCursor (some (cursorOf k)) = .ok (some (ofLex k)) := by
      change some <$> decodeCursor (cursorOf k) = _
      rw [(hb k rfl).decode]
      rfl
    simp only [Option.map_some, Option.map_none, hdec, hbelow, apply_ite (Option.map cursorOf), ← hnext]

end Tirke

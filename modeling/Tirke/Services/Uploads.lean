import Tirke.Models.Document
/-!
# `app/services/uploads.py`

| here | there |
| --- | --- |
| `vintMarker` | the `while width <= 8 and not first & mask` loop of `vint` (`:341`) |
| `vint` | the nested function (`:334`); its offset and what it returns are positions in `data` |
| `elements` | the `while cursor < header_end` loop (`:352`) |
| `sniff` | `_has_webm_doctype` (`:322`), of the bytes that were read |
-/

namespace Tirke

/-! ## `_has_webm_doctype` -/

/-- What the parser may raise: its own `ValueError`, or the `IndexError` of `data[offset]`. -/
inductive SniffError where
  | value
  | index
deriving DecidableEq, Repr

/-- `data[start:stop]`. -/
def slice (data : Bytes) (start stop : Nat) : Bytes := (data.take stop).drop start

/-- The mask and the width at the end of the loop. -/
def vintMarker (first mask width : Nat) : Nat × Nat :=
  if width ≤ 8 ∧ first &&& mask = 0 then vintMarker first (mask >>> 1) (width + 1) else (mask, width)
termination_by 9 - width

def vint (data : Bytes) (offset : Nat) (size : Bool) : Except SniffError (Nat × Nat) :=
  if data.length ≤ offset then .error .value
  else match data[offset]? with
    | none => .error .index
    | some first =>
      let (mask, width) := vintMarker first.toNat 0x80 1
      if 8 < width ∨ data.length < offset + width then .error .value
      else
        let value := if size then first.toNat &&& (mask - 1) else first.toNat
        .ok ((slice data (offset + 1) (offset + width)).foldl (fun value byte => (value <<< 8) ||| byte.toNat) value,
          offset + width)

theorem width_le_vintMarker {first mask width : Nat} : width ≤ (vintMarker first mask width).2 := by
  fun_induction vintMarker with
  | case1 mask width h ih => omega
  | case2 mask width h => exact Nat.le_refl _

/-- The cursor moves on. -/
theorem lt_of_vint {data : Bytes} {offset value next : Nat} {size : Bool} (h : vint data offset size = .ok (value, next)) :
    offset < next := by
  unfold vint at h
  split at h
  · cases h
  split at h
  · cases h
  next first _ =>
  have hwidth : 1 ≤ (vintMarker first.toNat 0x80 1).2 := width_le_vintMarker
  dsimp only at h
  split at h
  · cases h
  · cases h
    omega

/-- `b"webm"`. -/
def webmDoctype : Bytes := [0x77, 0x65, 0x62, 0x6d]

def elements (data : Bytes) (headerEnd cursor : Nat) : Except SniffError Bool :=
  if cursor < headerEnd then
    match _hid : vint data cursor false with
    | .error e => .error e
    | .ok (elementId, next) =>
      match _hsize : vint data next true with
      | .error e => .error e
      | .ok (elementSize, payload) =>
        if headerEnd < payload + elementSize then .ok false
        else if elementId = 0x4282 then .ok (slice data payload (payload + elementSize) = webmDoctype)
        else elements data headerEnd (payload + elementSize)
  else .ok false
termination_by headerEnd - cursor
decreasing_by
  have := lt_of_vint _hid
  have := lt_of_vint _hsize
  omega

def ebmlMagic : Bytes := [0x1a, 0x45, 0xdf, 0xa3]

/-- `except ValueError: return False`. -/
def orFalse (out : Except SniffError Bool) : Except SniffError Bool :=
  match out with
  | .error .value => .ok false
  | out => out

def sniff (data : Bytes) : Except SniffError Bool :=
  if ebmlMagic.isPrefixOf data then
    orFalse (do
      let (headerSize, cursor) ← vint data 4 true
      let headerEnd := cursor + headerSize
      if data.length < headerEnd then return false
      elements data headerEnd cursor)
  else .ok false

/-- The file's content, or `none` where it cannot be read. -/
def hasWebmDoctype (file : Option Bytes) : Except SniffError Bool :=
  match file with
  | none => .ok false
  | some content => sniff (content.take 4096)

end Tirke

import Mathlib.Data.List.Basic
/-!
# Bytes as text

A text is a list of code points, with lone surrogates allowed, and a byte a number below 256. `decode` reads the three
transformation formats and lets surrogates pass; `detect` tells which of them a text whose first two characters are ASCII
is written in. What is ASCII reads as itself (`decode_ascii`).
-/

namespace Unicode

abbrev Text := List Nat

inductive Format where
  | utf8
  | utf16 (little : Bool)
  | utf32 (little : Bool)
deriving DecidableEq

def continuation (b : Nat) : Bool := 0x80 ≤ b && b < 0xC0

/-- Neither overlong nor beyond the last code point. -/
def utf8 : List Nat → Option Text
  | [] => some []
  | a :: s =>
    if a < 0x80 then (utf8 s).map (a :: ·)
    else if 0xC2 ≤ a ∧ a < 0xE0 then
      match s with
      | b :: s => if continuation b then (utf8 s).map (((a - 0xC0) * 64 + (b - 0x80)) :: ·) else none
      | _ => none
    else if 0xE0 ≤ a ∧ a < 0xF0 then
      match s with
      | b :: c :: s =>
        let n := ((a - 0xE0) * 64 + (b - 0x80)) * 64 + (c - 0x80)
        if continuation b ∧ continuation c ∧ 0x800 ≤ n then (utf8 s).map (n :: ·) else none
      | _ => none
    else if 0xF0 ≤ a ∧ a < 0xF5 then
      match s with
      | b :: c :: d :: s =>
        let n := (((a - 0xF0) * 64 + (b - 0x80)) * 64 + (c - 0x80)) * 64 + (d - 0x80)
        if continuation b ∧ continuation c ∧ continuation d ∧ 0x10000 ≤ n ∧ n < 0x110000 then (utf8 s).map (n :: ·)
        else none
      | _ => none
    else none

def highSurrogate (n : Nat) : Bool := 0xD800 ≤ n && n < 0xDC00
def lowSurrogate (n : Nat) : Bool := 0xDC00 ≤ n && n < 0xE000
def joinSurrogates (high low : Nat) : Nat := 0x10000 + (high - 0xD800) * 0x400 + (low - 0xDC00)

/-- Units of 16 bits. -/
def units16 (little : Bool) : List Nat → Option (List Nat)
  | [] => some []
  | [_] => none
  | a :: b :: s => (units16 little s).map ((if little then b * 256 + a else a * 256 + b) :: ·)

/-- Surrogates are joined where they can be. -/
def joined : List Nat → Text
  | [] => []
  | [n] => [n]
  | high :: low :: s =>
    if highSurrogate high && lowSurrogate low then joinSurrogates high low :: joined s else high :: joined (low :: s)

def utf32 (little : Bool) : List Nat → Option Text
  | [] => some []
  | a :: b :: c :: d :: s =>
    let n := if little then ((d * 256 + c) * 256 + b) * 256 + a else ((a * 256 + b) * 256 + c) * 256 + d
    if n < 0x110000 then (utf32 little s).map (n :: ·) else none
  | _ => none

def decode : Format → List Nat → Option Text
  | .utf8, s => utf8 s
  | .utf16 little, s => (units16 little s).map joined
  | .utf32 little, s => utf32 little s

/-- The format, and what follows its mark. -/
def detect (s : List Nat) : Format × List Nat :=
  if [0, 0, 0xFE, 0xFF].isPrefixOf s then (.utf32 false, s.drop 4)
  else if [0xFF, 0xFE, 0, 0].isPrefixOf s then (.utf32 true, s.drop 4)
  else if [0xFE, 0xFF].isPrefixOf s then (.utf16 false, s.drop 2)
  else if [0xFF, 0xFE].isPrefixOf s then (.utf16 true, s.drop 2)
  else if [0xEF, 0xBB, 0xBF].isPrefixOf s then (.utf8, s.drop 3)
  else match s with
    | 0 :: 0 :: _ :: _ :: _ => (.utf32 false, s)
    | 0 :: _ :: _ :: _ :: _ => (.utf16 false, s)
    | _ :: 0 :: 0 :: 0 :: _ => (.utf32 true, s)
    | _ :: 0 :: _ :: _ :: _ => (.utf16 true, s)
    | [0, _] => (.utf16 false, s)
    | [_, 0] => (.utf16 true, s)
    | _ => (.utf8, s)

/-! ## ASCII -/

theorem utf8_cons {b : Nat} {s : List Nat} (h : b < 0x80) : utf8 (b :: s) = (utf8 s).map (b :: ·) := by
  rw [utf8.eq_def]
  exact if_pos h

theorem utf8_ascii {s : List Nat} (h : ∀ b ∈ s, b < 0x80) : utf8 s = some s := by
  induction s with
  | nil => rfl
  | cons b s ih =>
    rw [List.forall_mem_cons] at h
    rw [utf8_cons h.1, ih h.2]
    rfl

/-- Two characters other than the null character mark nothing and hide nothing. -/
theorem detect_ascii {a b : Nat} {s : List Nat} (ha : 0 < a) (ha' : a < 0x80) (hb : 0 < b) :
    detect (a :: b :: s) = (.utf8, a :: b :: s) := by
  have h0 : (0 == a) = false := by simp; omega
  have h1 : (0xFF == a) = false := by simp; omega
  have h2 : (0xFE == a) = false := by simp; omega
  have h3 : (0xEF == a) = false := by simp; omega
  simp only [detect, List.isPrefixOf, h0, h1, h2, h3, Bool.false_and, Bool.false_eq_true, if_false]
  split <;> simp_all

theorem decode_ascii {a b : Nat} {s : List Nat} (ha : 0 < a) (hb : 0 < b) (h : ∀ c ∈ a :: b :: s, c < 0x80) :
    decode (detect (a :: b :: s)).1 (detect (a :: b :: s)).2 = some (a :: b :: s) := by
  rw [detect_ascii ha (h a List.mem_cons_self) hb]
  exact utf8_ascii h

/-! ## Nothing is longer than what it is written in -/

theorem length_map_cons {o : Option Text} {n k : Nat} {t : Text} (h : o.map (n :: ·) = some t)
    (hlen : ∀ {u}, o = some u → u.length ≤ k) : t.length ≤ k + 1 := by
  obtain ⟨u, hu, rfl⟩ := Option.map_eq_some_iff.1 h
  exact Nat.succ_le_succ (hlen hu)

theorem length_utf8 {s t : List Nat} (h : utf8 s = some t) : t.length ≤ s.length := by
  fun_induction utf8 s generalizing t with
  | case1 =>
    cases h
    exact Nat.le_refl _
  | case2 a s ha ih => exact length_map_cons h ih
  | case3 a ha ha2 b s hb ih => exact Nat.le_trans (length_map_cons h ih) (by simp)
  | case6 | case9 =>
    rename_i ih
    exact Nat.le_trans (length_map_cons h ih) (by simp)
  | _ => cases h

theorem length_units16 {little : Bool} {s t : List Nat} (h : units16 little s = some t) : t.length ≤ s.length := by
  fun_induction units16 little s generalizing t with
  | case1 =>
    cases h
    exact Nat.le_refl _
  | case2 => cases h
  | case3 a b s ih => exact Nat.le_trans (length_map_cons h ih) (by simp)

theorem length_joined (s : List Nat) : (joined s).length ≤ s.length := by
  fun_induction joined s with
  | case1 | case2 => exact Nat.le_refl _
  | case3 high low s h ih =>
    simp only [List.length_cons]
    omega
  | case4 high low s h ih => simpa using ih

theorem length_utf32 {little : Bool} {s t : List Nat} (h : utf32 little s = some t) : t.length ≤ s.length := by
  fun_induction utf32 little s generalizing t with
  | case1 =>
    cases h
    exact Nat.le_refl _
  | case2 =>
    rename_i ih
    exact Nat.le_trans (length_map_cons h ih) (by simp)
  | _ => cases h

theorem length_decode {f : Format} {s t : List Nat} (h : decode f s = some t) : t.length ≤ s.length := by
  cases f with
  | utf8 => exact length_utf8 h
  | utf16 little =>
    obtain ⟨u, hu, rfl⟩ := Option.map_eq_some_iff.1 h
    exact Nat.le_trans (length_joined u) (length_units16 hu)
  | utf32 little => exact length_utf32 h

theorem length_detect (s : List Nat) : (detect s).2.length ≤ s.length := by
  unfold detect
  repeat' split
  all_goals simp

end Unicode

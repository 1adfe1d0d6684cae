import Tirke.Lib.Calendar
import Tirke.Lib.Unicode
/-!
# `datetime.fromisoformat`

The parser as CPython 3.12 has it, over the UTF-8 bytes of the text: dates by month or by week, with or without hyphens,
any character between date and time, times with or without colons and to any precision, `Z` or an offset to the
microsecond. Everything it refuses is a `ValueError`. What `isoformat` prints is read back (`fromisoformat_isoformat`).
-/

namespace IsoText

open Unicode Numeral Calendar

/-! ## Bytes -/

def surrogate (n : Nat) : Bool := highSurrogate n || lowSurrogate n

def utf8Bytes (n : Nat) : List Nat :=
  if n < 0x80 then [n]
  else if n < 0x800 then [0xC0 + n / 64, 0x80 + n % 64]
  else if n < 0x10000 then [0xE0 + n / 4096, 0x80 + n / 64 % 64, 0x80 + n % 64]
  else [0xF0 + n / 262144, 0x80 + n / 4096 % 64, 0x80 + n / 64 % 64, 0x80 + n % 64]

/-- `_sanitize_isoformat_str`: the separator may be a surrogate. -/
def sanitize (s : Text) : Text :=
  match [7, 8, 10].find? fun i => surrogate (s.getD i 0) with
  | some i => s.set i 'T'.toNat
  | none => s

/-- The bytes, one character each; a surrogate has none. -/
def bytes (s : Text) : Option (List Char) :=
  if s.any surrogate then none else some ((s.flatMap utf8Bytes).map Char.ofNat)

/-! ## Dates -/

def isDigit (c : Char) : Bool := '0' ≤ c && c ≤ '9'

/-- `_find_isoformat_datetime_separator`. -/
def separator (s : List Char) : Option Nat :=
  if s.length < 7 then none
  else if s.length = 7 then some 7
  else if s.getD 4 ' ' = '-' then
    if s.getD 5 ' ' = 'W' then
      if 8 < s.length ∧ s.getD 8 ' ' = '-' then
        if s.length = 9 then none
        else if 10 < s.length ∧ isDigit (s.getD 10 ' ') then some 8
        else some 10
      else some 8
    else some 10
  else if s.getD 4 ' ' = 'W' then
    let pos := 7 + ((s.drop 7).takeWhile isDigit).length
    if pos < 9 then some pos else if pos % 2 = 0 then some 7 else some 8
  else some 8

/-- `iso_to_ymd`: days count from 0, which is a Monday. -/
def isoToYmd (year week day : Nat) : Option (Nat × Nat × Nat) :=
  let first := toOrdinal year 1 1
  let long := first % 7 = 3 ∨ first % 7 = 2 ∧ isLeap year
  if year < 1 ∨ 9999 < year then none
  else if week < 1 ∨ 53 < week ∨ week = 53 ∧ ¬long then none
  else if day < 1 ∨ 7 < day then none
  else
    let monday := first - first % 7 + if 3 < first % 7 then 7 else 0
    let (y, n) := yearDay (monday + (week - 1) * 7 + (day - 1))
    let (m, d) := monthDay (isLeap y) n
    some (y, m, d)

/-- `parse_isoformat_date`. -/
def date (s : List Char) : Option (Nat × Nat × Nat) := do
  let (year, s) ← number 10 4 s
  let usesSeparator := s.head? = some '-'
  let s := if usesSeparator then s.tail else s
  let hyphen := fun s : List Char => if usesSeparator then expect '-' s else some s
  if s.head? = some 'W' then
    let (week, s) ← number 10 2 s.tail
    if s = [] then isoToYmd year week 1
    else
      let s ← hyphen s
      let (day, _) ← number 10 1 s
      isoToYmd year week day
  else
    let (month, s) ← number 10 2 s
    let s ← hyphen s
    let (day, _) ← number 10 2 s
    return (year, month, day)

/-! ## Times -/

/-- The fraction of a second, and whether something follows it; `more` is whether the text goes on behind `s`. -/
def fraction (more : Bool) (s : List Char) : Option (Nat × Bool) := do
  let k := min 6 s.length
  let (n, s) ← number 10 k s
  return (n * 10 ^ (6 - k), match s.dropWhile isDigit with
    | [] => more
    | c :: _ => c ≠ '\x00')

/-- `parse_hh_mm_ss_ff`, with so many components to go: the components, the microseconds, and whether something follows. -/
def components (more : Bool) : Nat → Option Bool → List Char → Option (List Nat × Nat × Bool)
  | 0, _, s => (fraction more s).map fun x => ([], x.1, x.2)
  | i + 1, hasSeparator, s =>
    match number 10 2 s with
    | none => none
    | some (n, []) => some ([n], 0, more)
    | some (n, c :: s) =>
      let hasSeparator := hasSeparator.getD (c = ':')
      if s = [] then some ([n], 0, c ≠ '\x00')
      else if hasSeparator ∧ c = ':' then (components more i (some hasSeparator) s).map fun x => (n :: x.1, x.2)
      else if c = '.' ∨ c = ',' then (fraction more s).map fun x => ([n], x.1, x.2)
      else if hasSeparator then none
      else (components more i (some hasSeparator) (c :: s)).map fun x => (n :: x.1, x.2)

structure Clock where
  hour : Nat
  minute : Nat
  second : Nat
  microsecond : Nat

def clock (x : List Nat × Nat × Bool) : Clock := ⟨x.1.getD 0 0, x.1.getD 1 0, x.1.getD 2 0, x.2.1⟩

/-- How far `sign hh:mm:ss.ffffff` is off UTC, in microseconds; a whole number of seconds 0 is UTC. -/
def offset (negative : Bool) (c : Clock) : Int :=
  let seconds := c.hour * 3600 + c.minute * 60 + c.second
  let all : Int := if seconds = 0 then 0 else seconds * micros + c.microsecond
  if negative then -all else all

/-- `parse_isoformat_time`. -/
def time (s : List Char) : Option (Clock × Option Int) := do
  let zone := s.dropWhile fun c => c ≠ '+' ∧ c ≠ '-' ∧ c ≠ 'Z'
  let parsed ← components (zone ≠ []) 3 none (s.takeWhile fun c => c ≠ '+' ∧ c ≠ '-' ∧ c ≠ 'Z')
  match zone with
  | [] => if parsed.2.2 then none else return (clock parsed, none)
  | sign :: s =>
    if sign = 'Z' then
      if s.head?.all (· = '\x00') then return (clock parsed, some 0) else none
    else
      let tz ← components false 3 none s
      if tz.2.2 then none else return (clock parsed, some (offset (sign = '-') (clock tz)))

/-- A local time and how many microseconds it is off UTC, unless it does not say. -/
structure Moment where
  time : Nat
  offset : Option Int
deriving DecidableEq

/-- `datetime(…, tzinfo=…)`: every field in its range, and the offset shorter than a day. -/
def construct (d : Nat × Nat × Nat) (c : Clock) (offset : Option Int) : Option Moment :=
  let f : Fields := ⟨d.1, d.2.1, d.2.2, c.hour, c.minute, c.second, c.microsecond⟩
  if f.valid ∧ offset.all (fun o => o.natAbs < dayMicros) then some ⟨f.time, offset⟩ else none

/-- How many bytes the character behind the date has. -/
def width (c : Char) : Nat :=
  if c.toNat < 0x80 then 1
  else if c.toNat / 16 = 0xE then 3
  else if c.toNat / 16 = 0xF then 4
  else 2

/-- `datetime.fromisoformat`. -/
def fromisoformat (s : Text) : Option Moment := do
  let s ← bytes (sanitize s)
  let location ← separator s
  let d ← date (s.take location)
  match s.drop location with
  | [] => construct d ⟨0, 0, 0, 0⟩ none
  | c :: t =>
    let (clock, offset) ← time (t.drop (width c - 1))
    construct d clock offset

/-! ## What is printed is read back -/

/-- Neither a surrogate nor longer than a byte. -/
theorem bytes_ascii {s : List Char} (h : ∀ c ∈ s, c.toNat < 0x80) :
    bytes (sanitize (s.map Char.toNat)) = some s := by
  have hsurrogate : ∀ n : Nat, n < 0x80 → surrogate n = false := by
    intro n hn
    simp only [surrogate, highSurrogate, lowSurrogate, Bool.or_eq_false_iff, Bool.and_eq_false_iff, decide_eq_false_iff_not]
    omega
  have hpoints : ∀ n ∈ s.map Char.toNat, n < 0x80 := by
    intro n hn
    obtain ⟨c, hc, rfl⟩ := List.mem_map.1 hn
    exact h c hc
  have hsanitize : sanitize (s.map Char.toNat) = s.map Char.toNat := by
    have hnone : ([7, 8, 10].find? fun i => surrogate ((s.map Char.toNat).getD i 0)) = none := by
      rw [List.find?_eq_none]
      intro i _
      have hlt : (s.map Char.toNat).getD i 0 < 0x80 := by
        rw [List.getD_eq_getElem?_getD]
        cases hi : (s.map Char.toNat)[i]? with
        | none => decide
        | some n => exact hpoints n (List.mem_of_getElem? hi)
      rw [hsurrogate _ hlt]
      decide
    rw [sanitize, hnone]
  have hany : (s.map Char.toNat).any surrogate = false := by
    rw [List.any_eq_false]
    intro n hn
    rw [hsurrogate n (hpoints n hn)]
    decide
  have hbytes : ((s.map Char.toNat).flatMap utf8Bytes).map Char.ofNat = s := by
    clear hsanitize hany hpoints
    induction s with
    | nil => rfl
    | cons c s ih =>
      rw [List.forall_mem_cons] at h
      rw [List.map_cons, List.flatMap_cons, List.map_append, ih h.2, utf8Bytes, if_pos h.1]
      simp [Char.ofNat_toNat]
  rw [hsanitize, bytes, hany, hbytes]
  rfl

theorem isDigit_numeral {k n : Nat} : ∀ c ∈ numeral 10 k n, isDigit c = true := by
  intro c hc
  obtain ⟨d, hd, rfl⟩ := mem_numeral (by decide) hc
  have hall : ∀ d : Fin 10, isDigit (digitChar d) = true := by decide
  exact hall ⟨d, hd⟩

/-- The date and the clock of `isoformat`. -/
def dateText (f : Fields) : List Char :=
  numeral 10 4 f.year ++ '-' :: (numeral 10 2 f.month ++ '-' :: numeral 10 2 f.day)

def clockText (f : Fields) : List Char :=
  numeral 10 2 f.hour ++ ':' :: (numeral 10 2 f.minute ++ ':' :: (numeral 10 2 f.second ++
    if f.microsecond = 0 then [] else '.' :: numeral 10 6 f.microsecond))

theorem isoformat_eq {t : Nat} :
    isoformat t = dateText (fields t) ++ 'T' :: (clockText (fields t) ++ "+00:00".toList) := by
  simp only [isoformat, dateText, clockText, List.append_assoc, List.cons_append]

section
variable {f : Fields}

theorem length_dateText : (dateText f).length = 10 := by
  simp [dateText]

theorem ascii_clockText : ∀ c ∈ clockText f, isDigit c = true ∨ c = ':' ∨ c = '.' := by
  have hdigit : ∀ k n, ∀ c ∈ numeral 10 k n, isDigit c = true ∨ c = ':' ∨ c = '.' :=
    fun k n c hc => Or.inl (isDigit_numeral c hc)
  simp only [clockText, List.forall_mem_append, List.forall_mem_cons]
  refine ⟨hdigit _ _, by decide, hdigit _ _, by decide, hdigit _ _, ?_⟩
  split
  · nofun
  · exact List.forall_mem_cons.2 ⟨by decide, hdigit _ _⟩

theorem ascii_isoformat {t : Nat} : ∀ c ∈ isoformat t, c.toNat < 0x80 := by
  have hall : ∀ d : Fin 10, (digitChar d).toNat < 0x80 := by decide
  exact forall_isoformat (fun d hd => hall ⟨d, hd⟩) (by simp)

theorem separator_isoformat {s : List Char} : separator (dateText f ++ 'T' :: s) = some 10 := by
  have hlen : (dateText f ++ 'T' :: s).length = s.length + 11 := by
    simp only [List.length_append, length_dateText, List.length_cons]
    omega
  have hfour : (dateText f ++ 'T' :: s).getD 4 ' ' = '-' := rfl
  have hfive : (dateText f ++ 'T' :: s).getD 5 ' ' = digitChar (f.month / 10 % 10) := rfl
  have hmonth : digitChar (f.month / 10 % 10) ≠ 'W' := by
    have hall : ∀ d : Fin 10, digitChar d ≠ 'W' := by decide
    exact hall ⟨f.month / 10 % 10, Nat.mod_lt _ (by decide)⟩
  unfold separator
  rw [if_neg (by omega), if_neg (by omega), hfour, hfive, if_pos rfl, if_neg hmonth]

theorem date_dateText (hy : f.year < 10 ^ 4) (hm : f.month < 10 ^ 2) (hd : f.day < 10 ^ 2) :
    date (dateText f) = some (f.year, f.month, f.day) := by
  have hweek : ((numeral 10 2 f.month ++ '-' :: numeral 10 2 f.day).head? = some 'W') = False := by
    rw [eq_iff_iff, iff_false]
    intro h
    have hall : ∀ d : Fin 10, some (digitChar d) ≠ some 'W' := by decide
    exact hall ⟨f.month / 10 % 10, Nat.mod_lt _ (by decide)⟩ h
  have hlast : number 10 2 (numeral 10 2 f.day) = some (f.day, []) := by
    have := number_ten (s := []) hd
    rwa [List.append_nil] at this
  simp only [date, dateText, number_ten hy, Option.bind_eq_bind, Option.bind_some, List.head?_cons, List.tail_cons, if_true,
    hweek, if_false, number_ten hm, expect_self, hlast]
  rfl

theorem components_clockText (hh : f.hour < 10 ^ 2) (hmi : f.minute < 10 ^ 2) (hs : f.second < 10 ^ 2)
    (hus : f.microsecond < 10 ^ 6) :
    components true 3 none (clockText f) = some ([f.hour, f.minute, f.second], f.microsecond, true) := by
  have htail : components true 1 (some true) (numeral 10 2 f.second ++
      if f.microsecond = 0 then [] else '.' :: numeral 10 6 f.microsecond) = some ([f.second], f.microsecond, true) := by
    by_cases h0 : f.microsecond = 0
    · rw [if_pos h0, components, number_ten hs, h0]
    · have hfraction : fraction true (numeral 10 6 f.microsecond) = some (f.microsecond, true) := by
        have hread : number 10 6 (numeral 10 6 f.microsecond) = some (f.microsecond, []) := by
          have := number_ten (s := []) hus
          rwa [List.append_nil] at this
        simp [fraction, hread]
      have hne : numeral 10 6 f.microsecond ≠ [] := List.ne_nil_of_length_pos (by simp)
      rw [if_neg h0, components, number_ten hs]
      simp [hne, hfraction]
  have hmore : ∀ k n (s : List Char), numeral 10 (k + 1) n ++ s ≠ [] := by
    intro k n s
    refine List.ne_nil_of_length_pos ?_
    rw [List.length_append, length_numeral]
    omega
  have hminute : components true 2 (some true) (numeral 10 2 f.minute ++ ':' :: (numeral 10 2 f.second ++
      if f.microsecond = 0 then [] else '.' :: numeral 10 6 f.microsecond)) =
        some ([f.minute, f.second], f.microsecond, true) := by
    rw [components, number_ten hmi]
    simp only [Option.getD_some, if_neg (hmore _ _ _), htail, and_self, if_true, Option.map_some]
  unfold clockText
  rw [components, number_ten hh]
  simp only [Option.getD_none, if_neg (hmore _ _ _), decide_true, and_self, if_true, hminute, Option.map_some]

theorem time_clockText (hh : f.hour < 10 ^ 2) (hmi : f.minute < 10 ^ 2) (hs : f.second < 10 ^ 2)
    (hus : f.microsecond < 10 ^ 6) : time (clockText f ++ "+00:00".toList) =
      some (⟨f.hour, f.minute, f.second, f.microsecond⟩, some 0) := by
  have hclock : ∀ c ∈ clockText f, (decide (c ≠ '+' ∧ c ≠ '-' ∧ c ≠ 'Z')) = true := by
    intro c hc
    rw [decide_eq_true_eq]
    rcases ascii_clockText c hc with h | rfl | rfl
    · refine ⟨?_, ?_, ?_⟩ <;> rintro rfl <;> exact absurd h (by decide)
    · decide
    · decide
  have htake : (clockText f ++ "+00:00".toList).takeWhile (fun c => decide (c ≠ '+' ∧ c ≠ '-' ∧ c ≠ 'Z')) = clockText f := by
    rw [List.takeWhile_append_of_pos hclock]
    simp
  have hdrop : (clockText f ++ "+00:00".toList).dropWhile (fun c => decide (c ≠ '+' ∧ c ≠ '-' ∧ c ≠ 'Z')) =
      "+00:00".toList := by
    rw [List.dropWhile_append_of_pos hclock]
    simp
  have hplus : "+00:00".toList = '+' :: "00:00".toList := by simp
  have hzone : components false 3 none "00:00".toList = some ([0, 0], 0, false) := by decide +kernel
  have hoffset : offset (decide ('+' = '-')) (clock ([0, 0], 0, false)) = 0 := by simp [offset, clock]
  unfold time
  rw [htake, hdrop, hplus]
  simp only [ne_eq, reduceCtorEq, not_false_eq_true, decide_true, components_clockText hh hmi hs hus, Option.bind_eq_bind,
    Option.bind_some, hzone, if_false, show ('+' = 'Z') = False by simp]
  rw [hoffset]
  rfl

end

/-- **What `isoformat` prints is read back.** -/
theorem fromisoformat_isoformat {t : Nat} (h : t < limit) :
    fromisoformat ((isoformat t).map Char.toNat) = some ⟨t, some 0⟩ := by
  have hv := fields_valid h
  have hvalid := hv
  simp only [Fields.valid, Bool.and_eq_true, decide_eq_true_eq] at hvalid
  obtain ⟨⟨⟨⟨⟨⟨⟨⟨-, hy⟩, -⟩, hm⟩, -⟩, hd⟩, hh⟩, hmi⟩, hs⟩ := hvalid
  have hday : (fields t).day < 10 ^ 2 := by
    have := @daysInMonth_le (isLeap (fields t).year) (fields t).month
    omega
  have hus : (fields t).microsecond < 10 ^ 6 := Nat.mod_lt _ (by decide)
  have htake : (isoformat t).take 10 = dateText (fields t) := by
    rw [isoformat_eq]
    exact List.take_left' length_dateText
  have hdrop : (isoformat t).drop 10 = 'T' :: (clockText (fields t) ++ "+00:00".toList) := by
    rw [isoformat_eq]
    exact List.drop_left' length_dateText
  have hseparator : separator (isoformat t) = some 10 := by
    rw [isoformat_eq]
    exact separator_isoformat
  have hwidth : width 'T' = 1 := by decide
  simp only [fromisoformat, bytes_ascii ascii_isoformat, hseparator, htake, hdrop, hwidth, Nat.sub_self, List.drop_zero,
    date_dateText (show (fields t).year < 10 ^ 4 by omega) (show (fields t).month < 10 ^ 2 by omega) hday,
    time_clockText (show (fields t).hour < 10 ^ 2 by omega) (show (fields t).minute < 10 ^ 2 by omega)
      (show (fields t).second < 10 ^ 2 by omega) hus, Option.bind_eq_bind, Option.bind_some]
  have hf : (⟨(fields t).year, (fields t).month, (fields t).day, (fields t).hour, (fields t).minute, (fields t).second,
      (fields t).microsecond⟩ : Fields) = fields t := rfl
  have hshort : (some (0 : Int)).all (fun o => decide (o.natAbs < dayMicros)) = true := by decide
  unfold construct
  simp only [hf, hv, hshort, and_self, if_true, time_fields]

/-! ## What is read is a `datetime` -/

theorem fraction_lt {more : Bool} {s : List Char} {x : Nat × Bool} (h : fraction more s = some x) : x.1 < micros := by
  unfold fraction at h
  obtain ⟨⟨n, rest⟩, hn, h⟩ := Option.bind_eq_some_iff.1 h
  obtain rfl := Option.some.inj h
  have hlt := number_lt hn
  have hk : min 6 s.length + (6 - min 6 s.length) = 6 := by omega
  calc n * 10 ^ (6 - min 6 s.length) < 10 ^ min 6 s.length * 10 ^ (6 - min 6 s.length) :=
        Nat.mul_lt_mul_of_pos_right hlt (Nat.pow_pos (by decide))
    _ = 10 ^ 6 := by rw [← Nat.pow_add, hk]

theorem components_lt {more : Bool} {i : Nat} {sep : Option Bool} {s : List Char} {x : List Nat × Nat × Bool}
    (h : components more i sep s = some x) : x.2.1 < micros := by
  have hfraction : ∀ {s : List Char} {ns : List Nat} {x : List Nat × Nat × Bool},
      (fraction more s).map (fun y => (ns, y.1, y.2)) = some x → x.2.1 < micros := by
    intro s ns x h
    obtain ⟨y, hy, rfl⟩ := Option.map_eq_some_iff.1 h
    exact fraction_lt hy
  fun_induction components more i sep s generalizing x with
  | case1 => exact hfraction h
  | case2 => cases h
  | case3 | case4 =>
    cases h
    exact (show 0 < micros by decide)
  | case5 =>
    rename_i ih
    obtain ⟨y, hy, rfl⟩ := Option.map_eq_some_iff.1 h
    have hlt := ih hy
    exact hlt
  | case6 => exact hfraction h
  | case7 => cases h
  | case8 =>
    rename_i ih
    obtain ⟨y, hy, rfl⟩ := Option.map_eq_some_iff.1 h
    have hlt := ih hy
    exact hlt

theorem time_lt {s : List Char} {x : Clock × Option Int} (h : time s = some x) : x.1.microsecond < micros := by
  unfold time at h
  obtain ⟨parsed, hparsed, h⟩ := Option.bind_eq_some_iff.1 h
  have hlt := components_lt hparsed
  split at h
  · split at h
    · cases h
    · cases h
      exact hlt
  · split at h
    · split at h
      · cases h
        exact hlt
      · cases h
    · obtain ⟨tz, -, h⟩ := Option.bind_eq_some_iff.1 h
      split at h
      · cases h
      · cases h
        exact hlt

theorem construct_lt {d : Nat × Nat × Nat} {c : Clock} {o : Option Int} {m : Moment} (h : construct d c o = some m)
    (hc : c.microsecond < micros) : m.time < limit := by
  unfold construct at h
  simp only at h
  split at h
  · next hv =>
    cases h
    exact Fields.time_lt hv.1 hc
  · cases h

theorem fromisoformat_lt {s : Text} {m : Moment} (h : fromisoformat s = some m) : m.time < limit := by
  unfold fromisoformat at h
  obtain ⟨bytes, -, h⟩ := Option.bind_eq_some_iff.1 h
  obtain ⟨location, -, h⟩ := Option.bind_eq_some_iff.1 h
  obtain ⟨d, -, h⟩ := Option.bind_eq_some_iff.1 h
  split at h
  · exact construct_lt h (by decide)
  · obtain ⟨x, hx, h⟩ := Option.bind_eq_some_iff.1 h
    exact construct_lt h (time_lt hx)

end IsoText

import Tirke.Lib.Numeral
/-!
# Timestamps as text

A timestamp counts microseconds since the first midnight of year 1 of the proleptic Gregorian calendar, in UTC, and lies
before the end of year 9999. `isoformat` prints its fields; `fromisoformat` reads that form back, with any offset from UTC
(`fromisoformat_isoformat`).
-/

namespace Calendar

open Numeral

def isLeap (y : Nat) : Bool := y % 4 = 0 && (y % 100 ≠ 0 || y % 400 = 0)

/-- The days before January 1 of year `y`. -/
def daysBeforeYear (y : Nat) : Nat := (y - 1) * 365 + (y - 1) / 4 - (y - 1) / 100 + (y - 1) / 400

def daysInMonth (leap : Bool) (m : Nat) : Nat :=
  if m = 2 ∧ leap then 29 else [31, 28, 31, 30, 31, 30, 31, 31, 30, 31, 30, 31].getD (m - 1) 0

def daysBeforeMonth (leap : Bool) (m : Nat) : Nat :=
  [0, 31, 59, 90, 120, 151, 181, 212, 243, 273, 304, 334].getD (m - 1) 0 + if 2 < m ∧ leap then 1 else 0

/-- The ordinal of a date; that of the first day is 0. -/
def toOrdinal (y m d : Nat) : Nat := daysBeforeYear y + daysBeforeMonth (isLeap y) m + (d - 1)

/-- The month and day of the `n`th day of a year: the month is estimated, and corrected if the estimate is too large. -/
def monthDay (leap : Bool) (n : Nat) : Nat × Nat :=
  let month := (n + 50) / 32
  if n < daysBeforeMonth leap month then (month - 1, n - daysBeforeMonth leap (month - 1) + 1)
  else (month, n - daysBeforeMonth leap month + 1)

/-- The year of a day, and the number of the day in it. -/
def yearDay (n : Nat) : Nat × Nat :=
  let n400 := n / 146097
  let n100 := n % 146097 / 36524
  let n4 := n % 146097 % 36524 / 1461
  let n1 := n % 146097 % 36524 % 1461 / 365
  let y := n400 * 400 + n100 * 100 + n4 * 4 + n1
  if n1 = 4 ∨ n100 = 4 then (y, 365) else (y + 1, n % 146097 % 36524 % 1461 % 365)

structure Fields where
  year : Nat
  month : Nat
  day : Nat
  hour : Nat
  minute : Nat
  second : Nat
  microsecond : Nat
deriving DecidableEq

def micros : Nat := 1000000
def dayMicros : Nat := 86400 * micros

/-- The end of year 9999. -/
def limit : Nat := 3652059 * dayMicros

def fields (t : Nat) : Fields :=
  let yd := yearDay (t / dayMicros)
  let md := monthDay (isLeap yd.1) yd.2
  let s := t % dayMicros / micros
  ⟨yd.1, md.1, md.2, s / 3600, s / 60 % 60, s % 60, t % micros⟩

namespace Fields

def valid (f : Fields) : Bool :=
  1 ≤ f.year && f.year ≤ 9999 && 1 ≤ f.month && f.month ≤ 12 && 1 ≤ f.day && f.day ≤ daysInMonth (isLeap f.year) f.month &&
    f.hour < 24 && f.minute < 60 && f.second < 60

def time (f : Fields) : Nat :=
  toOrdinal f.year f.month f.day * dayMicros + (f.hour * 3600 + f.minute * 60 + f.second) * micros + f.microsecond

end Fields

/-! ## Dates -/

theorem monthDay_spec (leap : Bool) (n : Nat) (h : n < if leap then 366 else 365) :
    (1 ≤ (monthDay leap n).1 ∧ (monthDay leap n).1 ≤ 12) ∧
    (1 ≤ (monthDay leap n).2 ∧ (monthDay leap n).2 ≤ daysInMonth leap (monthDay leap n).1) ∧
    daysBeforeMonth leap (monthDay leap n).1 + ((monthDay leap n).2 - 1) = n := by
  have hall : ∀ leap : Bool, ∀ n : Fin 366, (n.val < if leap then 366 else 365) →
      (1 ≤ (monthDay leap n).1 ∧ (monthDay leap n).1 ≤ 12) ∧
      (1 ≤ (monthDay leap n).2 ∧ (monthDay leap n).2 ≤ daysInMonth leap (monthDay leap n).1) ∧
      daysBeforeMonth leap (monthDay leap n).1 + ((monthDay leap n).2 - 1) = n.val := by decide +kernel
  have hn : n < 366 := by
    cases leap with
    | true => simpa using h
    | false => simp at h; omega
  exact hall leap ⟨n, hn⟩ h

theorem yearDay_spec (n : Nat) : 1 ≤ (yearDay n).1 ∧ daysBeforeYear (yearDay n).1 + (yearDay n).2 = n ∧
    (yearDay n).2 < if isLeap (yearDay n).1 then 366 else 365 := by
  unfold yearDay
  simp only
  -- the four quotients determine the year; which of them is at its end decides whether the year is a leap year
  generalize h400 : n / 146097 = n400
  generalize hr400 : n % 146097 = r400
  generalize h100 : r400 / 36524 = n100
  generalize hr100 : r400 % 36524 = r100
  generalize h4 : r100 / 1461 = n4
  generalize hr4 : r100 % 1461 = r4
  generalize h1 : r4 / 365 = n1
  generalize hr1 : r4 % 365 = r1
  have hb : n100 ≤ 4 ∧ n4 ≤ 24 ∧ n1 ≤ 4 := by omega
  by_cases hend : n1 = 4 ∨ n100 = 4
  · rw [if_pos hend]
    have hy : (n400 * 400 + n100 * 100 + n4 * 4 + n1) % 4 = 0 ∧
        ((n400 * 400 + n100 * 100 + n4 * 4 + n1) % 100 ≠ 0 ∨ (n400 * 400 + n100 * 100 + n4 * 4 + n1) % 400 = 0) := by
      omega
    have hleap : isLeap (n400 * 400 + n100 * 100 + n4 * 4 + n1) = true := by
      simpa [isLeap] using hy
    simp only [hleap, if_true]
    refine ⟨by omega, ?_, by decide⟩
    have hfour : (n400 * 400 + n100 * 100 + n4 * 4 + n1 - 1) / 4 = n400 * 100 + n100 * 25 + n4 - if n100 = 4 then 1 else 0 := by
      split <;> omega
    have hhundred : (n400 * 400 + n100 * 100 + n4 * 4 + n1 - 1) / 100 = n400 * 4 + n100 - if n100 = 4 then 1 else 0 := by
      split <;> omega
    have hcycle : (n400 * 400 + n100 * 100 + n4 * 4 + n1 - 1) / 400 = n400 := by omega
    simp only [daysBeforeYear, hfour, hhundred, hcycle]
    split <;> omega
  · rw [if_neg hend]
    have hfour : (n400 * 400 + n100 * 100 + n4 * 4 + n1) / 4 = n400 * 100 + n100 * 25 + n4 := by omega
    have hhundred : (n400 * 400 + n100 * 100 + n4 * 4 + n1) / 100 = n400 * 4 + n100 := by omega
    have hcycle : (n400 * 400 + n100 * 100 + n4 * 4 + n1) / 400 = n400 := by omega
    refine ⟨by simp only; omega, ?_, ?_⟩
    · simp only [daysBeforeYear, Nat.add_sub_cancel, hfour, hhundred, hcycle]
      omega
    · split <;> omega

theorem toOrdinal_fields (n : Nat) : toOrdinal (yearDay n).1 (monthDay (isLeap (yearDay n).1) (yearDay n).2).1
    (monthDay (isLeap (yearDay n).1) (yearDay n).2).2 = n := by
  obtain ⟨-, hy, hlt⟩ := yearDay_spec n
  obtain ⟨-, -, hm⟩ := monthDay_spec _ _ hlt
  unfold toOrdinal
  omega

theorem year_le {n : Nat} (h : n < 3652059) : (yearDay n).1 ≤ 9999 := by
  obtain ⟨-, hy, -⟩ := yearDay_spec n
  by_contra hgt
  have : 3652059 ≤ daysBeforeYear (yearDay n).1 := by
    unfold daysBeforeYear
    omega
  omega

theorem time_fields (t : Nat) : (fields t).time = t := by
  unfold Fields.time fields
  simp only
  rw [toOrdinal_fields]
  unfold dayMicros micros
  omega

theorem fields_valid {t : Nat} (h : t < limit) : (fields t).valid = true := by
  have hn : t / dayMicros < 3652059 := by
    unfold limit dayMicros micros at h
    unfold dayMicros micros
    omega
  obtain ⟨hy1, -, hlt⟩ := yearDay_spec (t / dayMicros)
  obtain ⟨⟨hm1, hm2⟩, ⟨hd1, hd2⟩, -⟩ := monthDay_spec _ _ hlt
  have hy2 := year_le hn
  have hh : t % dayMicros / micros / 3600 < 24 := by
    unfold dayMicros micros
    omega
  have hmi : t % dayMicros / micros / 60 % 60 < 60 := Nat.mod_lt _ (by decide)
  have hs : t % dayMicros / micros % 60 < 60 := Nat.mod_lt _ (by decide)
  simp only [Fields.valid, Bool.and_eq_true, decide_eq_true_eq]
  exact ⟨⟨⟨⟨⟨⟨⟨⟨hy1, hy2⟩, hm1⟩, hm2⟩, hd1⟩, hd2⟩, hh⟩, hmi⟩, hs⟩

theorem toOrdinal_lt {y m d : Nat} (hy : y ≤ 9999) (hm : m ≤ 12) (hd : d ≤ daysInMonth (isLeap y) m) (hd1 : 1 ≤ d) :
    toOrdinal y m d < 3652059 := by
  have hall : ∀ leap : Bool, ∀ m : Fin 13, daysBeforeMonth leap m + daysInMonth leap m ≤ if leap then 366 else 365 := by
    decide
  have hday := hall (isLeap y) ⟨m, by omega⟩
  simp only at hday
  unfold toOrdinal
  by_cases h9999 : y = 9999
  · have hleap : isLeap y = false := by
      rw [h9999]
      decide
    have hbefore : daysBeforeYear y = 3651694 := by
      rw [h9999]
      decide
    rw [hleap] at hd hday ⊢
    rw [hbefore]
    simp at hday
    omega
  · have hbefore : daysBeforeYear y + 366 ≤ 3652059 := by
      unfold daysBeforeYear
      omega
    have hle : (if isLeap y = true then 366 else 365) ≤ 366 := by split <;> omega
    omega

theorem Fields.time_lt {f : Fields} (hv : f.valid = true) (hus : f.microsecond < micros) : f.time < limit := by
  simp only [Fields.valid, Bool.and_eq_true, decide_eq_true_eq] at hv
  obtain ⟨⟨⟨⟨⟨⟨⟨⟨-, hy⟩, -⟩, hm⟩, hd1⟩, hd⟩, hh⟩, hmi⟩, hs⟩ := hv
  have hday := toOrdinal_lt hy hm hd hd1
  unfold Fields.time limit dayMicros
  unfold micros at hus ⊢
  omega

/-! ## Text -/

/-- The form `YYYY-MM-DDTHH:MM:SS[.ffffff]+00:00`. -/
def isoformat (t : Nat) : List Char :=
  let f := fields t
  numeral 10 4 f.year ++ '-' :: (numeral 10 2 f.month ++ '-' :: (numeral 10 2 f.day ++ 'T' :: (numeral 10 2 f.hour ++
    ':' :: (numeral 10 2 f.minute ++ ':' :: (numeral 10 2 f.second ++
      ((if f.microsecond = 0 then [] else '.' :: numeral 10 6 f.microsecond) ++ "+00:00".toList))))))

/-- A local time and how many minutes it is off UTC, unless it does not say. -/
structure Stamp where
  time : Nat
  offset : Option Int
deriving DecidableEq

def expect (c : Char) : List Char → Option (List Char)
  | [] => none
  | c' :: s => if c' = c then some s else none

/-- Nothing, or `+HH:MM`, or `-HH:MM`. -/
def readOffset : List Char → Option (Option Int)
  | [] => some none
  | sign :: s => do
    let (h, s) ← number 10 2 s
    let s ← expect ':' s
    let (m, s) ← number 10 2 s
    if s ≠ [] then none
    else if sign = '+' then return some (h * 60 + m : Nat)
    else if sign = '-' then return some (-(h * 60 + m : Nat))
    else none

def readMicros : List Char → Option (Nat × List Char)
  | '.' :: s => number 10 6 s
  | s => some (0, s)

/-- Read what `isoformat` prints, for any offset. -/
def fromisoformat (s : List Char) : Option Stamp := do
  let (year, s) ← number 10 4 s
  let s ← expect '-' s
  let (month, s) ← number 10 2 s
  let s ← expect '-' s
  let (day, s) ← number 10 2 s
  let s ← expect 'T' s
  let (hour, s) ← number 10 2 s
  let s ← expect ':' s
  let (minute, s) ← number 10 2 s
  let s ← expect ':' s
  let (second, s) ← number 10 2 s
  let (microsecond, s) ← readMicros s
  let offset ← readOffset s
  let f : Fields := ⟨year, month, day, hour, minute, second, microsecond⟩
  if f.valid then return ⟨f.time, offset⟩ else none

@[simp] theorem expect_self {c : Char} {s : List Char} : expect c (c :: s) = some s := if_pos rfl

theorem number_ten {k n : Nat} {s : List Char} (h : n < 10 ^ k) : number 10 k (numeral 10 k n ++ s) = some (n, s) := by
  rw [number_numeral (by decide) (by decide), Nat.mod_eq_of_lt h]

theorem readMicros_print {n : Nat} (h : n < 10 ^ 6) :
    readMicros ((if n = 0 then [] else '.' :: numeral 10 6 n) ++ "+00:00".toList) = some (n, "+00:00".toList) := by
  by_cases h0 : n = 0
  · rw [if_pos h0, h0]
    rfl
  · rw [if_neg h0]
    exact number_ten h

theorem daysInMonth_le {leap : Bool} {m : Nat} : daysInMonth leap m ≤ 31 := by
  unfold daysInMonth
  split
  · omega
  · generalize m - 1 = i
    rcases i with _ | _ | _ | _ | _ | _ | _ | _ | _ | _ | _ | _ | i <;> simp

/-- **What is printed is read back.** -/
theorem fromisoformat_isoformat {t : Nat} (h : t < limit) : fromisoformat (isoformat t) = some ⟨t, some 0⟩ := by
  have hv := fields_valid h
  have hvalid := hv
  simp only [Fields.valid, Bool.and_eq_true, decide_eq_true_eq] at hvalid
  obtain ⟨⟨⟨⟨⟨⟨⟨⟨-, hy⟩, -⟩, hm⟩, -⟩, hd⟩, hh⟩, hmi⟩, hs⟩ := hvalid
  have hday : (fields t).day < 10 ^ 2 := by
    have := @daysInMonth_le (isLeap (fields t).year) (fields t).month
    omega
  have hus : (fields t).microsecond < 10 ^ 6 := Nat.mod_lt _ (by decide)
  have hoff : readOffset "+00:00".toList = some (some 0) := by decide
  simp only [fromisoformat, isoformat, number_ten (show (fields t).year < 10 ^ 4 by omega), expect_self,
    number_ten (show (fields t).month < 10 ^ 2 by omega), number_ten hday, number_ten (show (fields t).hour < 10 ^ 2 by omega),
    number_ten (show (fields t).minute < 10 ^ 2 by omega), number_ten (show (fields t).second < 10 ^ 2 by omega),
    readMicros_print hus, hoff, Option.bind_eq_bind, Option.bind_some]
  have hf : (⟨(fields t).year, (fields t).month, (fields t).day, (fields t).hour, (fields t).minute, (fields t).second,
      (fields t).microsecond⟩ : Fields) = fields t := rfl
  rw [hf, if_pos hv, time_fields]
  rfl

theorem readMicros_lt {s : List Char} {x : Nat × List Char} (h : readMicros s = some x) : x.1 < micros := by
  unfold readMicros at h
  split at h
  · exact number_lt (v := x.1) (r := x.2) h
  · cases h
    exact (show 0 < micros by decide)

/-- What is read lies before the end of year 9999. -/
theorem fromisoformat_lt {s : List Char} {x : Stamp} (h : fromisoformat s = some x) : x.time < limit := by
  unfold fromisoformat at h
  obtain ⟨year, -, h⟩ := Option.bind_eq_some_iff.1 h
  obtain ⟨_, -, h⟩ := Option.bind_eq_some_iff.1 h
  obtain ⟨month, -, h⟩ := Option.bind_eq_some_iff.1 h
  obtain ⟨_, -, h⟩ := Option.bind_eq_some_iff.1 h
  obtain ⟨day, -, h⟩ := Option.bind_eq_some_iff.1 h
  obtain ⟨_, -, h⟩ := Option.bind_eq_some_iff.1 h
  obtain ⟨hour, -, h⟩ := Option.bind_eq_some_iff.1 h
  obtain ⟨_, -, h⟩ := Option.bind_eq_some_iff.1 h
  obtain ⟨minute, -, h⟩ := Option.bind_eq_some_iff.1 h
  obtain ⟨_, -, h⟩ := Option.bind_eq_some_iff.1 h
  obtain ⟨second, -, h⟩ := Option.bind_eq_some_iff.1 h
  obtain ⟨microsecond, hmicros, h⟩ := Option.bind_eq_some_iff.1 h
  obtain ⟨offset, -, h⟩ := Option.bind_eq_some_iff.1 h
  simp only at h
  split at h
  · next hv =>
    cases h
    exact Fields.time_lt hv (readMicros_lt hmicros)
  · cases h

/-- What holds of the digits and the marks holds of the text. -/
theorem forall_isoformat {P : Char → Prop} (hdigit : ∀ d < 10, P (digitChar d)) (hmark : ∀ c ∈ "-:T.+".toList, P c)
    {t : Nat} : ∀ c ∈ isoformat t, P c := by
  have hten : ∀ k n, ∀ c ∈ numeral 10 k n, P c := by
    intro k n c hc
    obtain ⟨d, hd, rfl⟩ := mem_numeral (by decide) hc
    exact hdigit d hd
  have hall : P '-' ∧ P ':' ∧ P 'T' ∧ P '.' ∧ P '+' := by simpa using hmark
  obtain ⟨hdash, hcolon, ht, hdot, hplus⟩ := hall
  have hzero : P '0' := hdigit 0 (by decide)
  have hzone : ∀ c ∈ "+00:00".toList, P c := by simp [hplus, hzero, hcolon]
  simp only [isoformat, List.forall_mem_append, List.forall_mem_cons]
  refine ⟨hten _ _, hdash, hten _ _, hdash, hten _ _, ht, hten _ _, hcolon, hten _ _, hcolon, hten _ _, ?_, hzone⟩
  split
  · nofun
  · exact List.forall_mem_cons.2 ⟨hdot, hten _ _⟩

theorem length_isoformat {t : Nat} : (isoformat t).length ≤ 32 := by
  simp only [isoformat, List.length_append, List.length_cons, length_numeral]
  split <;> simp

end Calendar

import Tirke.Lib.Numeral
import Tirke.Lib.Unicode
/-!
# `json.loads` of bytes

The scanner as CPython has it, over the code points of the text: blanks between the tokens, strings with lone surrogates,
numbers, `NaN` and the infinities. It calls itself for every array and object, and `depth` is how many more of these calls
the interpreter allows; `fuel` bounds all calls. A text no longer than `depth` never exhausts either (`scanOnce_bounded`),
so that what is raised is a `ValueError` (`loads_error`).
-/

namespace Loads

open Unicode Numeral

/-- The exceptions of the decoders. -/
inductive PyError where
  | valueError
  | unicodeDecodeError
  | binasciiError
  | jsonDecodeError
  | recursionError
deriving DecidableEq

/-- `isinstance(error, ValueError)`. -/
def PyError.isValueError : PyError → Bool
  | .recursionError => false
  | _ => true

inductive Value where
  | null
  | bool (b : Bool)
  | number (text : Text)
  | str (s : Text)
  | list (xs : List Value)
  | dict (items : List (Text × Value))

def code (s : String) : Text := s.toList.map Char.toNat

def blank (c : Nat) : Bool := c = 0x20 || c = 0x09 || c = 0x0A || c = 0x0D

def skip (s : Text) : Text := s.dropWhile blank

/-! ## Strings -/

/-- Four hexadecimal digits. -/
def hex4 (a b c d : Nat) : Option Nat := (number 16 4 ([a, b, c, d].map Char.ofNat)).map Prod.fst

/-- What a character stands for behind a backslash. -/
def unescape (c : Nat) : Option Nat :=
  if c = '"'.toNat ∨ c = '\\'.toNat ∨ c = '/'.toNat then some c
  else if c = 'b'.toNat then some 0x08
  else if c = 'f'.toNat then some 0x0C
  else if c = 'n'.toNat then some 0x0A
  else if c = 'r'.toNat then some 0x0D
  else if c = 't'.toNat then some 0x09
  else none

/-- What an escape adds to the string behind a pending first half of a pair, and what is pending then. -/
def pair (pending : Option Nat) (n : Nat) : Text × Option Nat :=
  match pending with
  | some high =>
    if lowSurrogate n then ([joinSurrogates high n], none)
    else if highSurrogate n then ([high], some n)
    else ([high, n], none)
  | none => if highSurrogate n then ([], some n) else ([n], none)

/-- The rest of a string, behind its opening quote. -/
def scanString (pending : Option Nat) : Text → Except PyError (Text × Text)
  | [] => .error .jsonDecodeError
  | c :: s =>
    if c = '"'.toNat then .ok (pending.toList, s)
    else if c < 0x20 then .error .jsonDecodeError
    else if c = '\\'.toNat then
      match s with
      | [] => .error .jsonDecodeError
      | e :: s =>
        if e = 'u'.toNat then
          match s with
          | a :: b :: c :: d :: s => match hex4 a b c d with
            | none => .error .jsonDecodeError
            | some n => (scanString (pair pending n).2 s).map fun x => ((pair pending n).1 ++ x.1, x.2)
          | _ => .error .jsonDecodeError
        else match unescape e with
          | none => .error .jsonDecodeError
          | some n => (scanString none s).map fun x => (pending.toList ++ n :: x.1, x.2)
    else (scanString none s).map fun x => (pending.toList ++ c :: x.1, x.2)

/-! ## Numbers -/

def digit (c : Nat) : Bool := '0'.toNat ≤ c && c ≤ '9'.toNat

/-- The integer part; nothing may follow a leading zero. -/
def integer : Text → Option (Text × Text)
  | [] => none
  | c :: s =>
    if c = '0'.toNat then some ([c], s)
    else if digit c then some (c :: s.takeWhile digit, s.dropWhile digit)
    else none

/-- A point and digits, if there are any. -/
def fraction : Text → Text × Text
  | p :: d :: s =>
    if p = '.'.toNat ∧ digit d then (p :: d :: s.takeWhile digit, s.dropWhile digit) else ([], p :: d :: s)
  | s => ([], s)

/-- One of these characters, if it is there. -/
def optional (cs : Text) : Text → Text × Text
  | c :: s => if c ∈ cs then ([c], s) else ([], c :: s)
  | [] => ([], [])

/-- An exponent, if there is one. -/
def exponent : Text → Text × Text
  | e :: s =>
    if e ∈ code "eE" then
      let (sign, t) := optional (code "+-") s
      if t.takeWhile digit = [] then ([], e :: s) else (e :: sign ++ t.takeWhile digit, t.dropWhile digit)
    else ([], e :: s)
  | [] => ([], [])

/-- `_match_number`; an integer has at most the digits that `int` reads. -/
def scanNumber (s : Text) : Except PyError (Value × Text) :=
  let (sign, t) := optional (code "-") s
  match integer t with
  | none => .error .jsonDecodeError
  | some (n, t) =>
    let (f, t) := fraction t
    let (e, t) := exponent t
    if f = [] ∧ e = [] ∧ 4300 < n.length then .error .valueError else .ok (.number (sign ++ n ++ f ++ e), t)

/-- The names of the constants. -/
def constants : List (Text × Value) :=
  [(code "null", .null), (code "true", .bool true), (code "false", .bool false), (code "NaN", .number (code "NaN")),
    (code "Infinity", .number (code "Infinity")), (code "-Infinity", .number (code "-Infinity"))]

def scanConstant (s : Text) : Option (Value × Text) :=
  (constants.find? fun c => c.1.isPrefixOf s).map fun c => (c.2, s.drop c.1.length)

/-! ## Values -/

mutual

/-- `scan_once`. -/
def scanOnce : Nat → Nat → Text → Except PyError (Value × Text)
  | 0, _, _ => .error .recursionError
  | _ + 1, _, [] => .error .jsonDecodeError
  | fuel + 1, depth, c :: s =>
    if c = '"'.toNat then (scanString none s).map fun x => (.str x.1, x.2)
    else if c = '['.toNat then
      match depth with
      | 0 => .error .recursionError
      | depth + 1 => match skip s with
        | [] => .error .jsonDecodeError
        | d :: t => if d = ']'.toNat then .ok (.list [], t) else (scanItems fuel depth (d :: t)).map fun x => (.list x.1, x.2)
    else if c = '{'.toNat then
      match depth with
      | 0 => .error .recursionError
      | depth + 1 => match skip s with
        | [] => .error .jsonDecodeError
        | d :: t => if d = '}'.toNat then .ok (.dict [], t) else (scanPairs fuel depth (d :: t)).map fun x => (.dict x.1, x.2)
    else match scanConstant (c :: s) with
      | some x => .ok x
      | none => scanNumber (c :: s)

/-- `_parse_array`, behind the bracket and blanks. -/
def scanItems : Nat → Nat → Text → Except PyError (List Value × Text)
  | 0, _, _ => .error .recursionError
  | fuel + 1, depth, s => do
    let (x, s) ← scanOnce fuel depth s
    match skip s with
    | [] => .error .jsonDecodeError
    | c :: s =>
      if c = ']'.toNat then return ([x], s)
      else if c = ','.toNat then (scanItems fuel depth (skip s)).map fun xs => (x :: xs.1, xs.2)
      else .error .jsonDecodeError

/-- `_parse_object`, behind the brace and blanks. -/
def scanPairs : Nat → Nat → Text → Except PyError (List (Text × Value) × Text)
  | 0, _, _ => .error .recursionError
  | _ + 1, _, [] => .error .jsonDecodeError
  | fuel + 1, depth, q :: s =>
    if q ≠ '"'.toNat then .error .jsonDecodeError
    else do
      let (key, s) ← scanString none s
      match skip s with
      | [] => .error .jsonDecodeError
      | c :: s =>
        if c ≠ ':'.toNat then .error .jsonDecodeError
        else do
          let (x, s) ← scanOnce fuel depth (skip s)
          match skip s with
          | [] => .error .jsonDecodeError
          | c :: s =>
            if c = '}'.toNat then return ([(key, x)], s)
            else if c = ','.toNat then (scanPairs fuel depth (skip s)).map fun xs => ((key, x) :: xs.1, xs.2)
            else .error .jsonDecodeError

end

/-- `json.loads(payload)`, with so many calls left. -/
def loads (depth : Nat) (payload : List Nat) : Except PyError Value :=
  match decode (detect payload).1 (detect payload).2 with
  | none => .error .unicodeDecodeError
  | some s => do
    let (x, s) ← scanOnce (2 * s.length + 1) depth (skip s)
    if skip s = [] then return x else .error .jsonDecodeError

/-! ## Neither bound is reached -/

/-- Something was read, or an error was raised that is not about the depth. -/
def Bounded {α : Type} (n : Nat) : Except PyError (α × Text) → Prop
  | .ok x => x.2.length < n
  | .error e => e.isValueError = true

section
variable {α β : Type} {n m : Nat} {r : Except PyError (α × Text)}

theorem Bounded.map (h : Bounded n r) {f : α × Text → β × Text} (hf : ∀ x, (f x).2 = x.2) (hnm : n ≤ m) :
    Bounded m (r.map f) := by
  cases r with
  | error e => exact h
  | ok x =>
    show (f x).2.length < m
    rw [hf]
    exact Nat.lt_of_lt_of_le h hnm

theorem Bounded.bind (h : Bounded n r) {f : α × Text → Except PyError (β × Text)}
    (hf : ∀ x, x.2.length < n → Bounded m (f x)) : Bounded m (r >>= f) := by
  cases r with
  | error e => exact h
  | ok x => exact hf x h

theorem Bounded.mono (h : Bounded n r) (hnm : n ≤ m) : Bounded m r := by
  cases r with
  | error e => exact h
  | ok x => exact Nat.lt_of_lt_of_le h hnm

end

theorem length_skip (s : Text) : (skip s).length ≤ s.length := (List.dropWhile_suffix _).length_le

theorem scanString_bounded (pending : Option Nat) (s : Text) : Bounded s.length (scanString pending s) := by
  fun_induction scanString pending s with
  | case2 => exact Nat.lt_succ_self _
  | case6 | case9 | case10 =>
    rename_i ih
    refine ih.map (fun _ => rfl) ?_
    simp only [List.length_cons]
    omega
  | _ => rfl

theorem integer_length {s t n : Text} (h : integer s = some (n, t)) : t.length < s.length := by
  cases s with
  | nil => cases h
  | cons c s =>
    have hdrop : (s.dropWhile digit).length ≤ s.length := (List.dropWhile_suffix _).length_le
    simp only [integer] at h
    split at h
    · cases h
      exact Nat.lt_succ_self _
    · split at h
      · cases h
        exact Nat.lt_succ_of_le hdrop
      · cases h

theorem fraction_length (s : Text) : (fraction s).2.length ≤ s.length := by
  unfold fraction
  split
  · next p d s =>
    have hdrop : (s.dropWhile digit).length ≤ s.length := (List.dropWhile_suffix _).length_le
    split
    · simp only [List.length_cons]
      omega
    · exact Nat.le_refl _
  · exact Nat.le_refl _

theorem optional_length (cs s : Text) : (optional cs s).2.length ≤ s.length := by
  cases s with
  | nil => exact Nat.le_refl _
  | cons c s =>
    simp only [optional]
    split
    · exact Nat.le_succ _
    · exact Nat.le_refl _

theorem exponent_length (s : Text) : (exponent s).2.length ≤ s.length := by
  cases s with
  | nil => exact Nat.le_refl _
  | cons e s =>
    have hsign := optional_length (code "+-") s
    have hdrop : ((optional (code "+-") s).2.dropWhile digit).length ≤ (optional (code "+-") s).2.length :=
      (List.dropWhile_suffix _).length_le
    simp only [exponent]
    split
    · split
      · exact Nat.le_refl _
      · simp only [List.length_cons]
        omega
    · exact Nat.le_refl _

theorem scanNumber_bounded (s : Text) : Bounded s.length (scanNumber s) := by
  have hsign := optional_length (code "-") s
  simp only [scanNumber]
  cases hn : integer (optional (code "-") s).2 with
  | none => rfl
  | some x =>
    have h₁ := integer_length hn
    have h₂ := fraction_length x.2
    have h₃ := exponent_length (fraction x.2).2
    simp only
    split
    · rfl
    · show (exponent (fraction x.2).2).2.length < s.length
      omega

theorem scanConstant_length {s : Text} {x : Value × Text} (h : scanConstant s = some x) (hs : s ≠ []) :
    x.2.length < s.length := by
  obtain ⟨c, hc, rfl⟩ := Option.map_eq_some_iff.1 h
  have hmem := List.mem_of_find?_eq_some hc
  have hpos : 0 < c.1.length := by
    have hall : ∀ c ∈ constants, 0 < c.1.length := by
      simp [constants, code]
    exact hall c hmem
  have hlen : 0 < s.length := List.length_pos_iff.2 hs
  show (s.drop c.1.length).length < s.length
  rw [List.length_drop]
  omega

mutual

theorem scanOnce_bounded : ∀ (fuel depth : Nat) (s : Text), 2 * s.length < fuel → s.length ≤ depth →
    Bounded s.length (scanOnce fuel depth s)
  | 0, _, _, h, _ => absurd h (Nat.not_lt_zero _)
  | _ + 1, _, [], _, _ => rfl
  | fuel + 1, 0, c :: s, _, hd => absurd hd (by simp)
  | fuel + 1, depth + 1, c :: s, h, hd => by
    have hskip := length_skip s
    simp only [List.length_cons] at h hd
    rw [scanOnce]
    split
    · exact (scanString_bounded none s).map (fun _ => rfl) (Nat.le_succ _)
    split
    · cases hs : skip s with
      | nil => rfl
      | cons d t =>
        rw [hs, List.length_cons] at hskip
        simp only
        split
        · show t.length < s.length + 1
          omega
        · refine (scanItems_bounded fuel depth (d :: t) ?_ ?_).map (fun _ => rfl) ?_ <;> simp only [List.length_cons] <;> omega
    split
    · cases hs : skip s with
      | nil => rfl
      | cons d t =>
        rw [hs, List.length_cons] at hskip
        simp only
        split
        · show t.length < s.length + 1
          omega
        · refine (scanPairs_bounded fuel depth (d :: t) ?_ ?_).map (fun _ => rfl) ?_ <;> simp only [List.length_cons] <;> omega
    cases hc : scanConstant (c :: s) with
    | some x => exact scanConstant_length hc nofun
    | none => exact scanNumber_bounded (c :: s)

theorem scanItems_bounded : ∀ (fuel depth : Nat) (s : Text), 2 * s.length + 1 < fuel → s.length ≤ depth →
    Bounded s.length (scanItems fuel depth s)
  | 0, _, _, h, _ => absurd h (Nat.not_lt_zero _)
  | fuel + 1, depth, s, h, hd => by
    rw [scanItems]
    refine (scanOnce_bounded fuel depth s (by omega) hd).bind ?_
    rintro ⟨x, rest⟩ hx
    have hskip := length_skip rest
    simp only at hx ⊢
    cases hs : skip rest with
    | nil => rfl
    | cons c t =>
      rw [hs, List.length_cons] at hskip
      have hskip' := length_skip t
      simp only
      split
      · show t.length < s.length
        omega
      split
      · exact (scanItems_bounded fuel depth (skip t) (by omega) (by omega)).map (fun _ => rfl) (by omega)
      · rfl

theorem scanPairs_bounded : ∀ (fuel depth : Nat) (s : Text), 2 * s.length + 1 < fuel → s.length ≤ depth →
    Bounded s.length (scanPairs fuel depth s)
  | 0, _, _, h, _ => absurd h (Nat.not_lt_zero _)
  | _ + 1, _, [], _, _ => rfl
  | fuel + 1, depth, q :: s, h, hd => by
    simp only [List.length_cons] at h hd
    rw [scanPairs]
    split
    · rfl
    refine (scanString_bounded none s).bind ?_
    rintro ⟨key, rest⟩ hkey
    have hcolon := length_skip rest
    simp only at hkey ⊢
    cases hs : skip rest with
    | nil => rfl
    | cons c t =>
      rw [hs, List.length_cons] at hcolon
      have hvalue := length_skip t
      simp only
      split
      · rfl
      refine (scanOnce_bounded fuel depth (skip t) (by omega) (by omega)).bind ?_
      rintro ⟨x, rest'⟩ hx
      have hnext := length_skip rest'
      simp only at hx ⊢
      cases hs' : skip rest' with
      | nil => rfl
      | cons c' t' =>
        rw [hs', List.length_cons] at hnext
        have hmore := length_skip t'
        simp only
        split
        · show t'.length < (q :: s).length
          simp only [List.length_cons]
          omega
        split
        · refine (scanPairs_bounded fuel depth (skip t') (by omega) (by omega)).map (fun _ => rfl) ?_
          simp only [List.length_cons]
          omega
        · rfl

end

/-- **A text that is not too long raises `ValueError` or nothing.** -/
theorem loads_error {depth : Nat} {payload : List Nat} {e : PyError} (hd : payload.length ≤ depth)
    (h : loads depth payload = .error e) : e.isValueError = true := by
  unfold loads at h
  have hdetect := length_detect payload
  cases hdec : decode (detect payload).1 (detect payload).2 with
  | none =>
    rw [hdec] at h
    cases h
    rfl
  | some s =>
    have hlen := length_decode hdec
    have hskip := length_skip s
    have hscan := scanOnce_bounded (2 * s.length + 1) depth (skip s) (by omega) (by omega)
    rw [hdec] at h
    simp only at h
    cases hr : scanOnce (2 * s.length + 1) depth (skip s) with
    | error e' =>
      rw [hr] at h hscan
      cases h
      exact hscan
    | ok x =>
      rw [hr] at h
      simp only [bind, Except.bind] at h
      split at h
      · cases h
      · cases h
        rfl

/-! ## Two plain strings -/

/-- A character that stands for itself in a string and in UTF-8. -/
structure Plain (c : Nat) : Prop where
  printed : 0x20 ≤ c
  ascii : c < 0x80
  quote : c ≠ '"'.toNat
  backslash : c ≠ '\\'.toNat

section
variable {first second : Text}

theorem scanString_plain {s : Text} (h : ∀ c ∈ first, Plain c) :
    scanString none (first ++ '"'.toNat :: s) = .ok (first, s) := by
  induction first with
  | nil =>
    rw [List.nil_append, scanString.eq_def]
    exact if_pos rfl
  | cons c first ih =>
    rw [List.forall_mem_cons] at h
    rw [List.cons_append, scanString.eq_def]
    simp only [if_neg h.1.quote, if_neg (Nat.not_lt.2 h.1.printed), if_neg h.1.backslash, ih h.2]
    rfl

/-- The list of two strings, without blanks. -/
def pairText (first second : Text) : Text :=
  '['.toNat :: '"'.toNat :: (first ++ '"'.toNat :: ','.toNat :: '"'.toNat :: (second ++ ['"'.toNat, ']'.toNat]))

theorem skip_cons {c : Nat} {s : Text} (h : blank c = false) : skip (c :: s) = c :: s := List.dropWhile_cons_of_neg (by simp [h])

theorem scanOnce_string {fuel depth : Nat} {s : Text} (h : ∀ c ∈ first, Plain c) :
    scanOnce (fuel + 1) depth ('"'.toNat :: (first ++ '"'.toNat :: s)) = .ok (.str first, s) := by
  rw [scanOnce.eq_def]
  simp only [if_true, scanString_plain h]
  rfl

theorem scanOnce_pair {fuel depth : Nat} (h₁ : ∀ c ∈ first, Plain c) (h₂ : ∀ c ∈ second, Plain c) :
    scanOnce (fuel + 4) (depth + 1) (pairText first second) = .ok (.list [.str first, .str second], []) := by
  have hlast : scanItems (fuel + 2) depth ('"'.toNat :: (second ++ ['"'.toNat, ']'.toNat])) =
      .ok ([.str second], []) := by
    rw [scanItems, scanOnce_string h₂]
    rfl
  have hboth : scanItems (fuel + 3) depth ('"'.toNat :: (first ++ '"'.toNat :: ','.toNat :: '"'.toNat ::
      (second ++ ['"'.toNat, ']'.toNat]))) = .ok ([.str first, .str second], []) := by
    have hcomma : skip (','.toNat :: '"'.toNat :: (second ++ ['"'.toNat, ']'.toNat])) =
        ','.toNat :: '"'.toNat :: (second ++ ['"'.toNat, ']'.toNat]) := skip_cons (by decide)
    have hquote : skip ('"'.toNat :: (second ++ ['"'.toNat, ']'.toNat])) =
        '"'.toNat :: (second ++ ['"'.toNat, ']'.toNat]) := skip_cons (by decide)
    rw [scanItems, scanOnce_string h₁]
    simp only [bind, Except.bind, hcomma, if_neg (show ','.toNat ≠ ']'.toNat by decide), if_true, hquote, hlast]
    rfl
  have hopen : skip ('"'.toNat :: (first ++ '"'.toNat :: ','.toNat :: '"'.toNat :: (second ++ ['"'.toNat, ']'.toNat]))) =
      '"'.toNat :: (first ++ '"'.toNat :: ','.toNat :: '"'.toNat :: (second ++ ['"'.toNat, ']'.toNat])) :=
    skip_cons (by decide)
  rw [pairText, scanOnce.eq_def]
  simp only [if_neg (show '['.toNat ≠ '"'.toNat by decide), if_true, hopen, if_neg (show '"'.toNat ≠ ']'.toNat by decide),
    hboth]
  rfl

theorem pairText_ascii (h₁ : ∀ c ∈ first, Plain c) (h₂ : ∀ c ∈ second, Plain c) : ∀ c ∈ pairText first second, c < 0x80 := by
  simp only [pairText, List.forall_mem_cons, List.forall_mem_append]
  exact ⟨by decide, by decide, fun c hc => (h₁ c hc).ascii, by decide, by decide, by decide, fun c hc => (h₂ c hc).ascii,
    by decide, by decide, nofun⟩

/-- **Two plain strings are read back.** -/
theorem loads_pair {depth : Nat} (hd : 0 < depth) (h₁ : ∀ c ∈ first, Plain c) (h₂ : ∀ c ∈ second, Plain c) :
    loads depth (pairText first second) = .ok (.list [.str first, .str second]) := by
  obtain ⟨depth, rfl⟩ : ∃ d, depth = d + 1 := ⟨depth - 1, by omega⟩
  have hdec := decode_ascii (a := '['.toNat) (b := '"'.toNat) (by decide) (by decide) (pairText_ascii h₁ h₂)
  have hskip : skip (pairText first second) = pairText first second := skip_cons (by decide)
  obtain ⟨fuel, hfuel⟩ : ∃ fuel, 2 * (pairText first second).length + 1 = fuel + 4 := by
    refine ⟨2 * (pairText first second).length + 1 - 4, ?_⟩
    simp only [pairText, List.length_cons, List.length_append]
    omega
  unfold loads
  rw [show decode (detect (pairText first second)).1 (detect (pairText first second)).2 = some (pairText first second)
    from hdec]
  simp only [hskip, hfuel, scanOnce_pair h₁ h₂]
  rfl

end

end Loads

import Tirke.Lib.Json
import Tirke.Lib.Calendar
/-!
# The validators of `zod` and the text functions of JavaScript

A schema says whether `safeParse` succeeds. No float passes for an integer here: a document that has one is not judged.

| here | there |
| --- | --- |
| `utf16Length` | `s.length`: UTF-16 code units |
| `jsWhiteSpace`, `trim` | `s.trim()`: the white space and line terminators of ECMAScript |
| `uuid` | `z.uuid()`: versions 1 to 8 with their variant, and the nil and max UUIDs |
| `date`, `datetime` | `z.iso.date()`, `z.iso.datetime({ offset: true })` |
| `int` | `z.number().int()`: safe integers |
| `strictObject` | `z.object(shape).strict()` |
-/

namespace Zod

open Numeral Calendar

/-! ## Text -/

def utf16Length (s : List Char) : Nat := (s.map fun c => if c.toNat < 0x10000 then 1 else 2).sum

def jsWhiteSpace (c : Char) : Bool :=
  let n := c.toNat
  (9 ≤ n && n ≤ 13) || n = 32 || n = 0xA0 || n = 0x1680 || (0x2000 ≤ n && n ≤ 0x200A) || n = 0x2028 || n = 0x2029 ||
    n = 0x202F || n = 0x205F || n = 0x3000 || n = 0xFEFF

def trim (s : List Char) : List Char :=
  ((s.dropWhile jsWhiteSpace).reverse.dropWhile jsWhiteSpace).reverse

def fitsAll (pattern : List (Char → Bool)) (s : List Char) : Bool :=
  pattern.length = s.length && (pattern.zip s).all fun x => x.1 x.2

def isHex (c : Char) : Bool := (digitValue c).isSome

def hexes (n : Nat) : List (Char → Bool) := List.replicate n isHex

def oneOf (cs : String) : List (Char → Bool) := [fun c => cs.toList.contains c]

def uuid (s : List Char) : Bool :=
  fitsAll (hexes 8 ++ oneOf "-" ++ hexes 4 ++ oneOf "-" ++ oneOf "12345678" ++ hexes 3 ++ oneOf "-" ++ oneOf "89abAB" ++
      hexes 3 ++ oneOf "-" ++ hexes 12) s ||
    s = "00000000-0000-0000-0000-000000000000".toList || s = "ffffffff-ffff-ffff-ffff-ffffffffffff".toList

/-- A day that exists, in any year of four digits; the rest of the text. -/
def readDate (s : List Char) : Option (List Char) := do
  let (year, s) ← number 10 4 s
  let s ← expect '-' s
  let (month, s) ← number 10 2 s
  let s ← expect '-' s
  let (day, s) ← number 10 2 s
  if 1 ≤ month ∧ month ≤ 12 ∧ 1 ≤ day ∧ day ≤ daysInMonth (isLeap year) month then some s else none

def date (s : List Char) : Bool := readDate s = some []

/-- `([01]\d|2[0-3]):[0-5]\d` -/
def readMinutes (s : List Char) : Option (List Char) := do
  let (hour, s) ← number 10 2 s
  let s ← expect ':' s
  let (minute, s) ← number 10 2 s
  if hour ≤ 23 ∧ minute ≤ 59 then some s else none

def isDigit (c : Char) : Bool := '0' ≤ c && c ≤ '9'

/-- `(:[0-5]\d(\.\d+)?)?` -/
def readSeconds (s : List Char) : Option (List Char) :=
  match s with
  | ':' :: s => do
    let (second, s) ← number 10 2 s
    if 59 < second then none
    match s with
    | '.' :: s => if (s.takeWhile isDigit).isEmpty then none else some (s.dropWhile isDigit)
    | s => some s
  | s => some s

/-- `(Z|[+-]([01]\d|2[0-3]):[0-5]\d)`, and no more. -/
def zone (s : List Char) : Bool :=
  match s with
  | ['Z'] => true
  | '+' :: s | '-' :: s => readMinutes s = some []
  | _ => false

def datetime (s : List Char) : Bool :=
  match readDate s >>= expect 'T' >>= readMinutes >>= readSeconds with
  | some s => zone s
  | none => false

/-! ## Schemas -/

abbrev Schema := Json → Bool

def string (check : List Char → Bool) : Schema
  | .str s => check s
  | _ => false

/-- `z.enum(values)`, and `z.literal` of one. -/
def enum (values : List String) : Schema := string fun s => values.any (·.toList = s)

/-- `Number.isSafeInteger`. -/
def safe (n : Int) : Bool := -(2 ^ 53 - 1) ≤ n && n ≤ 2 ^ 53 - 1

def int (check : Int → Bool) : Schema
  | .int n => safe n && check n
  | _ => false

def boolean : Schema
  | .bool _ => true
  | _ => false

/-- `z.literal(true)` -/
def literalTrue : Schema
  | .bool b => b
  | _ => false

def nullable (z : Schema) : Schema
  | .null => true
  | j => z j

def array (z : Schema) : Schema
  | .arr xs => xs.all z
  | _ => false

def refine (z : Schema) (check : Json → Bool) : Schema := fun j => z j && check j

/-- What a shape asks of a field, which may be missing. -/
abbrev Field := Option Json → Bool

def required (z : Schema) : Field := fun o => o.any z
def optional (z : Schema) : Field := fun o => o.all z

def strictObject (shape : List (String × Field)) : Schema
  | .obj fields => fields.all (fun f => f.1 ∈ shape.map (·.1)) && shape.all fun f => f.2 (fields.lookup f.1)
  | _ => false

/-- `new Set(xs).size === xs.length` -/
def unique (xs : List (List Char)) : Bool := decide xs.Nodup

section
variable {z : Schema} {check : List Char → Bool} {test : Int → Bool} {s : List Char} {n : Int} {b : Bool}
  {fields : List (String × Json)} {j : Json}

@[simp] theorem string_str : string check (.str s) = check s := rfl
@[simp] theorem int_int : int test (.int n) = (safe n && test n) := rfl
@[simp] theorem boolean_bool : boolean (.bool b) = true := rfl
@[simp] theorem literalTrue_bool : literalTrue (.bool b) = b := rfl
@[simp] theorem nullable_null : nullable z .null = true := rfl
@[simp] theorem nullable_str : nullable z (.str s) = z (.str s) := rfl
@[simp] theorem nullable_obj : nullable z (.obj fields) = z (.obj fields) := rfl
@[simp] theorem refine_apply {test : Json → Bool} : refine z test j = (z j && test j) := rfl
@[simp] theorem required_some : required z (some j) = z j := rfl
@[simp] theorem optional_some : Zod.optional z (some j) = z j := rfl

theorem nullable_optional {α : Type} {f : α → Json} (hf : ∀ x, nullable z (f x) = z (f x)) {o : Option α} :
    nullable z (.optional f o) = true ↔ ∀ x, o = some x → z (f x) = true := by
  cases o <;> simp [hf]

theorem array_list {α : Type} {f : α → Json} {xs : List α} :
    array z (.list f xs) = true ↔ ∀ x ∈ xs, z (f x) = true := by
  simp [array, Json.list]

theorem enum_word {values : List String} {value : String} (h : value ∈ values) : enum values (.word value) = true :=
  List.any_eq_true.2 ⟨value, h, decide_eq_true rfl⟩

end

theorem utf16Length_plain {s : List Char} (h : ∀ c ∈ s, c.toNat < 0x10000) : utf16Length s = s.length := by
  unfold utf16Length
  induction s with
  | nil => rfl
  | cons c s ih =>
    rw [List.map_cons, List.sum_cons, if_pos (h c List.mem_cons_self), ih fun d hd => h d (List.mem_cons_of_mem _ hd),
      List.length_cons, Nat.add_comm]

/-! ## Patterns -/

section
variable {ps qs : List (Char → Bool)} {s t : List Char} {n : Nat}

theorem fitsAll_append (h : ps.length = s.length) : fitsAll (ps ++ qs) (s ++ t) = (fitsAll ps s && fitsAll qs t) := by
  simp only [fitsAll, List.length_append, List.zip_append h, List.all_append, h, Nat.add_left_cancel_iff, decide_true,
    Bool.true_and]
  rw [Bool.and_left_comm]

theorem fitsAll_hexes (hn : s.length = n) (h : ∀ c ∈ s, isHex c = true) : fitsAll (hexes n) s = true := by
  have hzip : ((List.replicate n isHex).zip s).all (fun x => x.1 x.2) = true := by
    refine List.all_eq_true.2 fun x hx => ?_
    obtain ⟨h₁, h₂⟩ := List.of_mem_zip hx
    rw [List.eq_of_mem_replicate h₁]
    exact h _ h₂
  simp only [fitsAll, hexes, List.length_replicate, hn, decide_true, Bool.true_and]
  exact hzip

theorem fitsAll_oneOf {cs : String} {c : Char} : fitsAll (oneOf cs) [c] = cs.toList.contains c := by
  simp [fitsAll, oneOf]

theorem isHex_numeral {base k n : Nat} (hb : base ≤ 16) (h0 : 0 < base) {c : Char} (h : c ∈ numeral base k n) :
    isHex c = true := by
  obtain ⟨d, hd, rfl⟩ := mem_numeral h0 h
  rw [isHex, digitValue_digitChar (Nat.lt_of_lt_of_le hd hb)]
  rfl

theorem isDigit_numeral {k n : Nat} {c : Char} (h : c ∈ numeral 10 k n) : isDigit c = true := by
  obtain ⟨d, hd, rfl⟩ := mem_numeral (by decide) h
  have hall : ∀ d : Fin 10, isDigit (digitChar d) = true := by decide
  exact hall ⟨d, hd⟩

end

/-! ## Dates -/

section
variable {y m d h k us : Nat} {s : List Char}

theorem readDate_print (hy : y < 10 ^ 4) (hm : 1 ≤ m ∧ m ≤ 12) (hd : 1 ≤ d ∧ d ≤ daysInMonth (isLeap y) m) :
    readDate (numeral 10 4 y ++ '-' :: (numeral 10 2 m ++ '-' :: (numeral 10 2 d ++ s))) = some s := by
  have hd31 : d ≤ 31 := Nat.le_trans hd.2 daysInMonth_le
  simp only [readDate, number_ten hy, number_ten (show m < 10 ^ 2 by omega), number_ten (show d < 10 ^ 2 by omega),
    expect_self, Option.bind_eq_bind, Option.bind_some]
  exact if_pos ⟨hm.1, hm.2, hd⟩

theorem readMinutes_print (hh : h ≤ 23) (hm : m ≤ 59) : readMinutes (numeral 10 2 h ++ ':' :: (numeral 10 2 m ++ s)) = some s := by
  simp only [readMinutes, number_ten (show h < 10 ^ 2 by omega), number_ten (show m < 10 ^ 2 by omega),
    expect_self, Option.bind_eq_bind, Option.bind_some]
  exact if_pos ⟨hh, hm⟩

theorem readSeconds_print (hk : k ≤ 59) :
    readSeconds (':' :: (numeral 10 2 k ++ ((if us = 0 then [] else '.' :: numeral 10 6 us) ++ ['Z']))) = some ['Z'] := by
  have hrest : ∀ xs : List Char, readSeconds (':' :: (numeral 10 2 k ++ xs)) = match xs with
      | '.' :: s => if (s.takeWhile isDigit).isEmpty then none else some (s.dropWhile isDigit)
      | s => some s := by
    intro xs
    simp only [readSeconds, number_ten (show k < 10 ^ 2 by omega), Option.bind_eq_bind, Option.bind_some,
      if_neg (show ¬ 59 < k by omega)]
  rw [hrest]
  by_cases h0 : us = 0
  · rw [if_pos h0]
    rfl
  · rw [if_neg h0]
    have htake : (numeral 10 6 us ++ ['Z']).takeWhile isDigit = numeral 10 6 us := by
      rw [List.takeWhile_append_of_pos fun c hc => isDigit_numeral hc]
      simp [isDigit]
    have hdrop : (numeral 10 6 us ++ ['Z']).dropWhile isDigit = ['Z'] := by
      rw [List.dropWhile_append_of_pos fun c hc => isDigit_numeral hc]
      simp [isDigit]
    simp only [List.cons_append, htake, hdrop]
    rfl

end

end Zod

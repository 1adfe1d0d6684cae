import Tirke.Lib.Json
import Tirke.Lib.Numeral
/-!
# JSON values as text

`print` is the compact text of a value, its fields in their order; `read` reads it back (`read_print`).
A text is read as far as `print` would have written it: without blanks, and with the escapes of `escape`.
-/

namespace Json

open Numeral

/-! ## Printing -/

def escape (c : Char) : List Char :=
  if c = '"' then ['\\', '"']
  else if c = '\\' then ['\\', '\\']
  else if c = '\n' then ['\\', 'n']
  else if c = '\r' then ['\\', 'r']
  else if c = '\t' then ['\\', 't']
  else if c = '\x08' then ['\\', 'b']
  else if c = '\x0c' then ['\\', 'f']
  else if c.toNat < 32 then '\\' :: 'u' :: numeral 16 4 c.toNat
  else [c]

def escaped (s : List Char) : List Char := s.flatMap escape

def printInt (n : Int) : List Char := if n < 0 then '-' :: Nat.toDigits 10 n.natAbs else Nat.toDigits 10 n.natAbs

mutual

def print : Json → List Char
  | .null => ['n', 'u', 'l', 'l']
  | .bool true => ['t', 'r', 'u', 'e']
  | .bool false => ['f', 'a', 'l', 's', 'e']
  | .int n => printInt n
  | .float x => x.text
  | .str s => '"' :: (escaped s ++ ['"'])
  | .arr xs => '[' :: (printItems xs ++ [']'])
  | .obj fs => '{' :: (printFields fs ++ ['}'])

def printItems : List Json → List Char
  | [] => []
  | [x] => print x
  | x :: xs => print x ++ ',' :: printItems xs

def printFields : List (String × Json) → List Char
  | [] => []
  | [(k, x)] => '"' :: (escaped k.toList ++ '"' :: ':' :: print x)
  | (k, x) :: fs => '"' :: (escaped k.toList ++ '"' :: ':' :: (print x ++ ',' :: printFields fs))

end

/-! ## Reading -/

/-- The rest of a string, behind its opening quote. -/
def readString : List Char → Option (List Char × List Char)
  | [] => none
  | '"' :: s => some ([], s)
  | '\\' :: 'u' :: a :: b :: c :: d :: s => match Numeral.number 16 4 [a, b, c, d] with
    | some (n, _) => (readString s).map fun x => (Char.ofNat n :: x.1, x.2)
    | none => none
  | '\\' :: 'n' :: s => (readString s).map fun x => ('\n' :: x.1, x.2)
  | '\\' :: 'r' :: s => (readString s).map fun x => ('\r' :: x.1, x.2)
  | '\\' :: 't' :: s => (readString s).map fun x => ('\t' :: x.1, x.2)
  | '\\' :: 'b' :: s => (readString s).map fun x => ('\x08' :: x.1, x.2)
  | '\\' :: 'f' :: s => (readString s).map fun x => ('\x0c' :: x.1, x.2)
  | '\\' :: c :: s => (readString s).map fun x => (c :: x.1, x.2)
  | c :: s => (readString s).map fun x => (c :: x.1, x.2)

def readInt : List Char → Int
  | '-' :: ds => -(Nat.ofDigitChars 10 ds 0)
  | ds => Nat.ofDigitChars 10 ds 0

def readNumber (s : List Char) : Option (Json × List Char) :=
  let t := s.takeWhile numeric
  if t = [] then none
  else if h : t.all numeric = true ∧ t.any (fun c => c = '.' || c = 'e') = true then
    some (.float ⟨t, h.1, h.2⟩, s.dropWhile numeric)
  else some (.int (readInt t), s.dropWhile numeric)

mutual

/-- One value and what follows it, nested at most as deep as `fuel` goes. -/
def readValue : Nat → List Char → Option (Json × List Char)
  | 0, _ => none
  | _ + 1, 'n' :: 'u' :: 'l' :: 'l' :: s => some (.null, s)
  | _ + 1, 't' :: 'r' :: 'u' :: 'e' :: s => some (.bool true, s)
  | _ + 1, 'f' :: 'a' :: 'l' :: 's' :: 'e' :: s => some (.bool false, s)
  | _ + 1, '"' :: s => (readString s).map fun x => (.str x.1, x.2)
  | _ + 1, '[' :: ']' :: s => some (.arr [], s)
  | fuel + 1, '[' :: s => (readItems fuel s).map fun x => (.arr x.1, x.2)
  | _ + 1, '{' :: '}' :: s => some (.obj [], s)
  | fuel + 1, '{' :: s => (readFields fuel s).map fun x => (.obj x.1, x.2)
  | _ + 1, s => readNumber s

def readItems : Nat → List Char → Option (List Json × List Char)
  | 0, _ => none
  | fuel + 1, s => match readValue fuel s with
    | some (x, ',' :: s) => (readItems fuel s).map fun xs => (x :: xs.1, xs.2)
    | some (x, ']' :: s) => some ([x], s)
    | _ => none

def readFields : Nat → List Char → Option (List (String × Json) × List Char)
  | 0, _ => none
  | fuel + 1, '"' :: s => match readString s with
    | some (k, ':' :: s) => match readValue fuel s with
      | some (x, ',' :: s) => (readFields fuel s).map fun fs => ((String.ofList k, x) :: fs.1, fs.2)
      | some (x, '}' :: s) => some ([(String.ofList k, x)], s)
      | _ => none
    | _ => none
  | _ + 1, _ => none

end

/-- The value that the whole text stands for. -/
def read (s : List Char) : Option Json :=
  match readValue s.length s with
  | some (j, []) => some j
  | _ => none

/-! ## What is printed is read back -/

theorem readString_escape (c : Char) (s : List Char) :
    readString (escape c ++ s) = (readString s).map fun x => (c :: x.1, x.2) := by
  unfold escape
  by_cases h₁ : c = '"'
  · subst h₁; simp [readString]
  by_cases h₂ : c = '\\'
  · subst h₂; simp [readString]
  by_cases h₃ : c = '\n'
  · subst h₃; simp [readString]
  by_cases h₄ : c = '\r'
  · subst h₄; simp [readString]
  by_cases h₅ : c = '\t'
  · subst h₅; simp [readString]
  by_cases h₆ : c = '\x08'
  · subst h₆; simp [readString]
  by_cases h₇ : c = '\x0c'
  · subst h₇; simp [readString]
  simp only [if_neg h₁, if_neg h₂, if_neg h₃, if_neg h₄, if_neg h₅, if_neg h₆, if_neg h₇]
  by_cases h₈ : c.toNat < 32
  · rw [if_pos h₈]
    obtain ⟨a, b, x, y, hd⟩ : ∃ a b x y, numeral 16 4 c.toNat = [a, b, x, y] := ⟨_, _, _, _, rfl⟩
    have hread : Numeral.number 16 4 [a, b, x, y] = some (c.toNat, []) := by
      have := @number_numeral 16 4 c.toNat [] (by decide) (by decide)
      rw [List.append_nil, Nat.mod_eq_of_lt (by omega)] at this
      rw [← hd]
      exact this
    simp [hd, readString, hread, Char.ofNat_toNat]
  · rw [if_neg h₈, List.singleton_append, readString.eq_def]
    split <;> simp_all

theorem readString_escaped (t s : List Char) : readString (escaped t ++ '"' :: s) = some (t, s) := by
  induction t with
  | nil => simp [escaped, readString]
  | cons c t ih =>
    have hcons : escaped (c :: t) = escape c ++ escaped t := rfl
    rw [hcons, List.append_assoc, readString_escape, ih]
    rfl

/-- What may follow a number: nothing that could belong to it. -/
def Ends (s : List Char) : Prop := ∀ c ∈ s.head?, numeric c = false

theorem numeric_int {n : Int} :
    (∀ c ∈ printInt n, numeric c = true ∧ c ≠ '.' ∧ c ≠ 'e') ∧ printInt n ≠ [] := by
  have hdigit : ∀ c ∈ Nat.toDigits 10 n.natAbs, numeric c = true ∧ c ≠ '.' ∧ c ≠ 'e' := by
    intro c hc
    have h := Nat.isDigit_of_mem_toDigits (by decide) (by decide) hc
    refine ⟨by simp [numeric, h], ?_, ?_⟩ <;> rintro rfl <;> simp at h
  unfold printInt
  split
  · refine ⟨?_, by simp⟩
    simp only [List.forall_mem_cons]
    exact ⟨by decide, hdigit⟩
  · exact ⟨hdigit, Nat.toDigits_ne_nil⟩

theorem takeWhile_number {t s : List Char} (ht : ∀ c ∈ t, numeric c = true) (hs : Ends s) :
    (t ++ s).takeWhile numeric = t ∧ (t ++ s).dropWhile numeric = s := by
  rw [List.takeWhile_append_of_pos ht, List.dropWhile_append_of_pos ht]
  cases s with
  | nil => simp
  | cons c s =>
    have hc : numeric c = false := hs c rfl
    simp [hc]

theorem readInt_print {n : Int} : readInt (printInt n) = n := by
  unfold printInt
  split
  · simp only [readInt, Nat.ofDigitChars_ten_toDigits]
    omega
  · have hhead : ∀ ds, Nat.toDigits 10 n.natAbs ≠ '-' :: ds := by
      intro ds hds
      have hmem : '-' ∈ Nat.toDigits 10 n.natAbs := hds ▸ List.mem_cons_self
      have h := Nat.isDigit_of_mem_toDigits (by decide) (by decide) hmem
      simp at h
    rw [readInt.eq_def]
    split
    · next ds hds => exact absurd hds (hhead ds)
    · rw [Nat.ofDigitChars_ten_toDigits]
      omega

theorem readNumber_int {n : Int} {s : List Char} (hs : Ends s) :
    readNumber (printInt n ++ s) = some (.int n, s) := by
  obtain ⟨hall, hne⟩ := @numeric_int n
  obtain ⟨htake, hdrop⟩ := takeWhile_number (fun c hc => (hall c hc).1) hs
  have hpoint : ¬ ((printInt n).all numeric = true ∧
      (printInt n).any (fun c => c = '.' || c = 'e') = true) := by
    rintro ⟨-, h⟩
    obtain ⟨c, hc, h⟩ := List.any_eq_true.1 h
    have := (hall c hc).2
    simp [this.1, this.2] at h
  simp only [readNumber, htake, hdrop, if_neg hne, readInt_print]
  rw [dif_neg hpoint]

theorem readNumber_float {x : FloatText} {s : List Char} (hs : Ends s) :
    readNumber (x.text ++ s) = some (.float x, s) := by
  obtain ⟨htake, hdrop⟩ := takeWhile_number (List.all_eq_true.1 x.digits) hs
  simp only [readNumber, htake, hdrop, if_neg x.ne_nil]
  rw [dif_pos ⟨x.digits, x.point⟩]

mutual

/-- How deep reading the value goes. -/
def weight : Json → Nat
  | .arr xs => 1 + weightItems xs
  | .obj fs => 1 + weightFields fs
  | _ => 1

def weightItems : List Json → Nat
  | [] => 0
  | x :: xs => 1 + max (weight x) (weightItems xs)

def weightFields : List (String × Json) → Nat
  | [] => 0
  | (_, x) :: fs => 1 + max (weight x) (weightFields fs)

end

theorem readValue_number {c : Char} {s : List Char} {n : Nat} (hc : numeric c = true) :
    readValue (n + 1) (c :: s) = readNumber (c :: s) := by
  rw [readValue.eq_def]
  split <;> simp_all [numeric]

theorem readValue_numeric {t s : List Char} {n : Nat} (ht : ∀ c ∈ t, numeric c = true) (hne : t ≠ []) :
    readValue (n + 1) (t ++ s) = readNumber (t ++ s) := by
  cases t with
  | nil => exact absurd rfl hne
  | cons c t => exact readValue_number (ht c List.mem_cons_self)

theorem head_print {j : Json} : ∃ c t, j.print = c :: t ∧ c ≠ ']' := by
  have hnumber : ∀ t : List Char, (∀ c ∈ t, numeric c = true) → t ≠ [] → ∃ c u, t = c :: u ∧ c ≠ ']' := by
    intro t ht hne
    cases t with
    | nil => exact absurd rfl hne
    | cons c u =>
      refine ⟨c, u, rfl, ?_⟩
      rintro rfl
      exact absurd (ht ']' List.mem_cons_self) (by decide)
  cases j with
  | bool b => cases b <;> exact ⟨_, _, rfl, by decide⟩
  | int n => exact hnumber _ (fun c hc => (numeric_int.1 c hc).1) numeric_int.2
  | float x => exact hnumber _ (List.all_eq_true.1 x.digits) x.ne_nil
  | _ => exact ⟨_, _, rfl, by decide⟩

theorem readValue_items {n : Nat} {c : Char} {s : List Char} (hc : c ≠ ']') :
    readValue (n + 1) ('[' :: c :: s) = (readItems n (c :: s)).map fun x => (.arr x.1, x.2) := by
  rw [readValue.eq_def]
  simp [hc]

theorem head_items (x : Json) (xs : List Json) : ∃ c t, printItems (x :: xs) = c :: t ∧ c ≠ ']' := by
  obtain ⟨c, t, ht, hc⟩ := @head_print x
  cases xs with
  | nil => exact ⟨c, t, by rw [printItems, ht], hc⟩
  | cons y ys => exact ⟨c, t ++ ',' :: printItems (y :: ys), by simp [printItems, ht], hc⟩

theorem head_fields (f : String × Json) (fs : List (String × Json)) :
    ∃ t, printFields (f :: fs) = '"' :: t := by
  cases fs with
  | nil => exact ⟨_, by rw [printFields]⟩
  | cons g gs =>
    exact ⟨escaped f.1.toList ++ '"' :: ':' :: (print f.2 ++ ',' :: printFields (g :: gs)), by simp [printFields]⟩

theorem ends_of {c : Char} {s : List Char} (h : numeric c = false) : Ends (c :: s) := by
  intro d hd
  cases hd
  exact h

mutual

theorem readValue_print : ∀ (j : Json) (n : Nat) (s : List Char), j.weight ≤ n → Ends s →
    readValue n (j.print ++ s) = some (j, s)
  | j, 0, s, hn, _ => by cases j <;> simp [weight] at hn
  | .null, n + 1, s, _, _ => by simp [print, readValue]
  | .bool true, n + 1, s, _, _ => by simp [print, readValue]
  | .bool false, n + 1, s, _, _ => by simp [print, readValue]
  | .int i, n + 1, s, _, hs => by
    rw [print, readValue_numeric (fun c hc => (numeric_int.1 c hc).1) numeric_int.2, readNumber_int hs]
  | .float x, n + 1, s, _, hs => by
    rw [print, readValue_numeric (List.all_eq_true.1 x.digits) x.ne_nil, readNumber_float hs]
  | .str t, n + 1, s, _, _ => by simp [print, readValue, readString_escaped]
  | .arr [], n + 1, s, _, _ => by simp [print, printItems, readValue]
  | .arr (x :: xs), n + 1, s, hn, _ => by
    have hread := readItems_print x xs n s (by simp only [weight] at hn; omega)
    obtain ⟨c, t, ht, hc⟩ := head_items x xs
    rw [print, List.cons_append, List.append_assoc, List.singleton_append]
    rw [ht] at hread ⊢
    rw [List.cons_append, readValue_items hc, ← List.cons_append, hread]
    rfl
  | .obj [], n + 1, s, _, _ => by simp [print, printFields, readValue]
  | .obj (f :: fs), n + 1, s, hn, _ => by
    have hread := readFields_print f fs n s (by simp only [weight] at hn; omega)
    obtain ⟨t, ht⟩ := head_fields f fs
    rw [print, List.cons_append, List.append_assoc, List.singleton_append]
    rw [ht, List.cons_append] at hread
    rw [ht]
    simp [readValue, hread]

theorem readItems_print : ∀ (x : Json) (xs : List Json) (n : Nat) (s : List Char),
    weightItems (x :: xs) ≤ n → readItems n (printItems (x :: xs) ++ ']' :: s) = some (x :: xs, s)
  | _, _, 0, _, hn => by simp [weightItems] at hn
  | x, [], n + 1, s, hn => by
    have hx := readValue_print x n (']' :: s) (by simp only [weightItems] at hn; omega) (ends_of (by decide))
    simp [printItems, readItems, hx]
  | x, y :: ys, n + 1, s, hn => by
    have hx := readValue_print x n (',' :: (printItems (y :: ys) ++ ']' :: s))
      (by simp only [weightItems] at hn; omega) (ends_of (by decide))
    have hys := readItems_print y ys n s (by simp only [weightItems] at hn ⊢; omega)
    simp [printItems, readItems, hx, hys]

theorem readFields_print : ∀ (f : String × Json) (fs : List (String × Json)) (n : Nat) (s : List Char),
    weightFields (f :: fs) ≤ n → readFields n (printFields (f :: fs) ++ '}' :: s) = some (f :: fs, s)
  | _, _, 0, _, hn => by simp [weightFields] at hn
  | (k, x), [], n + 1, s, hn => by
    have hx := readValue_print x n ('}' :: s) (by simp only [weightFields] at hn; omega) (ends_of (by decide))
    simp [printFields, readFields, readString_escaped, hx]
  | (k, x), g :: gs, n + 1, s, hn => by
    have hx := readValue_print x n (',' :: (printFields (g :: gs) ++ '}' :: s))
      (by simp only [weightFields] at hn; omega) (ends_of (by decide))
    have hgs := readFields_print g gs n s (by simp only [weightFields] at hn ⊢; omega)
    simp [printFields, readFields, readString_escaped, hx, hgs]

end

/-! ## Fuel -/

theorem length_print_pos {j : Json} : 1 ≤ j.print.length := by
  obtain ⟨c, t, ht, -⟩ := @head_print j
  simp [ht]

mutual

theorem weight_le : ∀ j : Json, j.weight ≤ j.print.length
  | .arr xs => by
    have := weightItems_le xs
    simp only [weight, print, List.length_cons, List.length_append, List.length_nil]
    omega
  | .obj fs => by
    have := weightFields_le fs
    simp only [weight, print, List.length_cons, List.length_append, List.length_nil]
    omega
  | .null => by simp [weight, print]
  | .bool b => by cases b <;> simp [weight, print]
  | .int n => length_print_pos
  | .float x => length_print_pos
  | .str s => by simp [weight, print]

theorem weightItems_le : ∀ xs : List Json, weightItems xs ≤ (printItems xs).length + 1
  | [] => by simp [weightItems]
  | [x] => by
    have := weight_le x
    simp only [weightItems, printItems]
    omega
  | x :: y :: ys => by
    have hx := weight_le x
    have hys := weightItems_le (y :: ys)
    have hpos := @length_print_pos x
    rw [weightItems, printItems]
    simp only [List.length_append, List.length_cons]
    omega
    simp

theorem weightFields_le : ∀ fs : List (String × Json), weightFields fs ≤ (printFields fs).length + 1
  | [] => by simp [weightFields]
  | [(k, x)] => by
    have := weight_le x
    simp only [weightFields, printFields, List.length_append, List.length_cons]
    omega
  | (k, x) :: g :: gs => by
    have hx := weight_le x
    have hgs := weightFields_le (g :: gs)
    rw [weightFields, printFields]
    simp only [List.length_append, List.length_cons]
    omega
    simp

end

/-- **What is printed is read back.** -/
theorem read_print {j : Json} : read j.print = some j := by
  have h := readValue_print j j.print.length [] (weight_le j) nofun
  rw [List.append_nil] at h
  rw [read, h]

end Json

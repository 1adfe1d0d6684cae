import Mathlib.Algebra.Ring.Int.Defs
import Mathlib.Algebra.Ring.Nat
import Mathlib.Data.List.Basic
import Mathlib.Data.Nat.Basic
/-!
# Numerals of a fixed width

`numeral base k n` are the last `k` digits of `n`, and `number base k` reads as many from the front of a text.
-/

namespace Numeral

def digitChar (d : Nat) : Char := "0123456789abcdef".toList.getD d '0'

/-- The value of a digit below 16, in either case. -/
def digitValue (c : Char) : Option Nat :=
  match "0123456789abcdef".toList.findIdx? (· = c) with
  | some d => some d
  | none => ("ABCDEF".toList.findIdx? (· = c)).map (· + 10)

def numeral (base : Nat) : Nat → Nat → List Char
  | 0, _ => []
  | k + 1, n => numeral base k (n / base) ++ [digitChar (n % base)]

/-- Read `k` digits behind the value `acc`. -/
def readFrom (base : Nat) (acc : Nat) : Nat → List Char → Option (Nat × List Char)
  | 0, s => some (acc, s)
  | _ + 1, [] => none
  | k + 1, c :: s => match digitValue c with
    | none => none
    | some d => if d < base then readFrom base (acc * base + d) k s else none

def number (base k : Nat) : List Char → Option (Nat × List Char) := readFrom base 0 k

section
variable {base k n acc d : Nat} {s : List Char}

theorem digitValue_digitChar (h : d < 16) : digitValue (digitChar d) = some d := by
  have hall : ∀ d : Fin 16, digitValue (digitChar d) = some d.val := by decide +kernel
  exact hall ⟨d, h⟩

@[simp] theorem length_numeral : (numeral base k n).length = k := by
  induction k generalizing n with
  | zero => rfl
  | succ k ih => simp [numeral, ih]

theorem readFrom_snoc (hd : d < base) (hb : base ≤ 16) {v : Nat} {t : List Char} (h : ∀ s, readFrom base acc k (t ++ s) = some (v, s)) :
    readFrom base acc (k + 1) (t ++ digitChar d :: s) = some (v * base + d, s) := by
  induction k generalizing acc t with
  | zero =>
    have hv : some (acc, t ++ s) = some (v, s) := h s
    simp only [Option.some.injEq, Prod.mk.injEq, List.append_left_eq_self] at hv
    obtain ⟨rfl, rfl⟩ := hv
    simp [readFrom, digitValue_digitChar (Nat.lt_of_lt_of_le hd hb), hd]
  | succ k ih =>
    cases t with
    | nil => cases h []
    | cons c t =>
      cases hc : digitValue c with
      | none => simpa [readFrom, hc] using h []
      | some x =>
        by_cases hx : x < base
        · have hrest : ∀ s, readFrom base (acc * base + x) k (t ++ s) = some (v, s) := by
            intro s
            simpa [readFrom, hc, hx] using h s
          have := ih hrest
          simp only [List.cons_append]
          rw [readFrom]
          simp only [hc, if_pos hx]
          exact this
        · simpa [readFrom, hc, hx] using h []

/-- **What is printed is read back**, as far as the width goes. -/
theorem number_numeral (hb : base ≤ 16) (h0 : 0 < base) : number base k (numeral base k n ++ s) = some (n % base ^ k, s) := by
  induction k generalizing n s with
  | zero => simp [number, readFrom, numeral, Nat.mod_one]
  | succ k ih =>
    have hread : ∀ s, readFrom base 0 k (numeral base k (n / base) ++ s) = some (n / base % base ^ k, s) := fun s => ih
    rw [numeral, List.append_assoc, List.singleton_append, number, readFrom_snoc (Nat.mod_lt _ h0) hb hread]
    congr 2
    rw [Nat.pow_succ, Nat.mul_comm (base ^ k), Nat.mod_mul, Nat.mul_comm]
    omega

theorem readFrom_lt {v : Nat} {r : List Char} (h : readFrom base acc k s = some (v, r)) : v < (acc + 1) * base ^ k := by
  induction k generalizing acc s with
  | zero =>
    cases h
    simp
  | succ k ih =>
    cases s with
    | nil => cases h
    | cons c s =>
      rw [readFrom] at h
      split at h
      · cases h
      · next d hd =>
        split at h
        · next hlt =>
          have hle : acc * base + d + 1 ≤ (acc + 1) * base := by
            rw [Nat.add_mul, Nat.one_mul]
            omega
          calc v < (acc * base + d + 1) * base ^ k := ih h
            _ ≤ (acc + 1) * base * base ^ k := Nat.mul_le_mul_right _ hle
            _ = (acc + 1) * base ^ (k + 1) := by rw [Nat.pow_succ, Nat.mul_assoc, Nat.mul_comm base]
        · cases h

/-- As many digits stand for no more. -/
theorem number_lt {v : Nat} {r : List Char} (h : number base k s = some (v, r)) : v < base ^ k := by
  have := readFrom_lt h
  omega

/-- Digits only. -/
theorem mem_numeral {c : Char} (h0 : 0 < base) (h : c ∈ numeral base k n) : ∃ d < base, c = digitChar d := by
  induction k generalizing n with
  | zero => cases h
  | succ k ih =>
    rcases List.mem_append.1 h with h | h
    · exact ih h
    · exact ⟨n % base, Nat.mod_lt _ h0, List.mem_singleton.1 h⟩

/-- The digits from the front. -/
theorem getElem?_numeral {i : Nat} (h : i < k) :
    (numeral base k n)[i]? = some (digitChar (n / base ^ (k - 1 - i) % base)) := by
  induction k generalizing n with
  | zero => omega
  | succ k ih =>
    rw [numeral]
    by_cases hi : i < k
    · rw [List.getElem?_append_left (by rw [length_numeral]; exact hi), ih hi, Nat.div_div_eq_div_mul,
        ← Nat.pow_succ', Nat.succ_eq_add_one, show k - 1 - i + 1 = k + 1 - 1 - i by omega]
    · obtain rfl : i = k := by omega
      rw [List.getElem?_append_right (by rw [length_numeral]), length_numeral]
      simp

end

/-- A positive number has no leading zero. -/
theorem head_toDigits {n : Nat} (h : 0 < n) : ∃ d rest, Nat.toDigits 10 n = d :: rest ∧ '1' ≤ d ∧ d ≤ '9' := by
  induction n using Nat.strongRecOn with
  | ind n ih =>
    rw [Nat.toDigits_eq_if (by decide)]
    split
    · next hlt =>
      have hall : ∀ d : Fin 10, 0 < d.val → '1' ≤ d.val.digitChar ∧ d.val.digitChar ≤ '9' := by decide
      exact ⟨_, [], rfl, hall ⟨n, hlt⟩ h⟩
    · next hge =>
      obtain ⟨d, rest, hd, h₁, h₂⟩ := ih (n / 10) (by omega) (by omega)
      exact ⟨d, rest ++ [(n % 10).digitChar], by rw [hd, List.cons_append], h₁, h₂⟩

end Numeral

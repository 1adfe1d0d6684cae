import Mathlib.Data.List.Basic
import Mathlib.Tactic.Ring
/-!
# EBML

A variable-length integer takes one to eight bytes, and the zero bits before the first one of its first byte say how
many follow. An element is an integer that names it, read with its marker bit, one that is its size, read without, and
its payload. `First id payload` are the texts in which the first element named `id` has this payload; what follows it
need not be of any form.
-/

namespace Ebml

/-- The number that bytes are, most significant first. -/
def number (bs : List UInt8) : Nat := bs.foldl (fun n b => n * 256 + b.toNat) 0

/-- As many bytes follow the first as it has zero bits before its marker. -/
inductive Vint : List UInt8 → Prop where
  | mk (first : UInt8) (rest : List UInt8) (hlen : rest.length ≤ 7) (hlow : 2 ^ (7 - rest.length) ≤ first.toNat)
      (hhigh : first.toNat < 2 ^ (8 - rest.length)) : Vint (first :: rest)

/-- Seven bits of each byte are left when the marker is taken away. -/
def unmarked (bs : List UInt8) : Nat := number bs - 2 ^ (7 * bs.length)

inductive Element : List UInt8 → Nat → List UInt8 → Prop where
  | mk {i s payload : List UInt8} (hi : Vint i) (hs : Vint s) (hp : payload.length = unmarked s) :
      Element (i ++ s ++ payload) (number i) payload

inductive Elements : List UInt8 → List (Nat × List UInt8) → Prop where
  | nil : Elements [] []
  | cons {e rest payload : List UInt8} {id : Nat} {l : List (Nat × List UInt8)} (h : Element e id payload)
      (hrest : Elements rest l) : Elements (e ++ rest) ((id, payload) :: l)

/-- Well-formed elements of other names, one named `id` with this payload, and anything. -/
def First (id : Nat) (payload body : List UInt8) : Prop :=
  ∃ before l e after, body = before ++ (e ++ after) ∧ Elements before l ∧ (∀ x ∈ l, x.1 ≠ id) ∧ Element e id payload

variable {bs rest : List UInt8} {first : UInt8} {id m : Nat} {payload body e : List UInt8}

/-! ## Numbers -/

theorem foldl_number : bs.foldl (fun n b => n * 256 + b.toNat) m = m * 256 ^ bs.length + number bs := by
  unfold number
  induction bs generalizing m with
  | nil => simp
  | cons b bs ih =>
    simp only [List.foldl_cons, List.length_cons]
    rw [ih, ih (m := 0 * 256 + b.toNat), pow_succ]
    ring

theorem number_cons : number (first :: rest) = first.toNat * 256 ^ rest.length + number rest := by
  have h := @foldl_number rest (0 * 256 + first.toNat)
  rw [Nat.zero_mul, Nat.zero_add] at h
  simpa [number] using h

/-- The marker stands just above the bits that are left. -/
theorem unmarked_cons (h : Vint (first :: rest)) :
    unmarked (first :: rest) = (first.toNat % 2 ^ (7 - rest.length)) * 256 ^ rest.length + number rest := by
  cases h with
  | mk _ _ hlen hlow hhigh =>
    have hdouble : 2 ^ (8 - rest.length) = 2 ^ (7 - rest.length) + 2 ^ (7 - rest.length) := by
      rw [show 8 - rest.length = 7 - rest.length + 1 by omega, pow_succ]
      omega
    have hmod : first.toNat % 2 ^ (7 - rest.length) = first.toNat - 2 ^ (7 - rest.length) := by
      rw [Nat.mod_eq_sub_mod hlow, Nat.mod_eq_of_lt]
      omega
    have hmarker : 2 ^ (7 * (rest.length + 1)) = 2 ^ (7 - rest.length) * 256 ^ rest.length := by
      rw [show (256 : Nat) = 2 ^ 8 from rfl, ← pow_mul, ← pow_add]
      congr 1
      omega
    rw [unmarked, number_cons, hmod, List.length_cons, hmarker, Nat.sub_mul]
    have hle : 2 ^ (7 - rest.length) * 256 ^ rest.length ≤ first.toNat * 256 ^ rest.length :=
      Nat.mul_le_mul_right _ hlow
    omega

theorem Vint.ne_nil (h : Vint bs) : bs ≠ [] := by
  cases h
  nofun

theorem Vint.length_pos (h : Vint bs) : 0 < bs.length := List.length_pos_of_ne_nil h.ne_nil

/-! ## The first element of a name -/

theorem Element.length_pos (h : Element e id payload) : 0 < e.length := by
  cases h with
  | mk hi hs hp =>
    have := hi.length_pos
    simp only [List.length_append]
    omega

theorem First.here (h : Element e id payload) (after : List UInt8) : First id payload (e ++ after) :=
  ⟨[], [], e, after, rfl, .nil, nofun, h⟩

theorem First.later {other : Nat} {content : List UInt8} (h : Element e other content) (hne : other ≠ id)
    (hrest : First id payload rest) : First id payload (e ++ rest) := by
  obtain ⟨before, l, e', after, rfl, hl, hall, he⟩ := hrest
  refine ⟨e ++ before, (other, content) :: l, e', after, (List.append_assoc ..).symm, .cons h hl, fun x hx => ?_, he⟩
  rcases List.mem_cons.1 hx with rfl | hx
  · exact hne
  · exact hall x hx

/-- **By cases on the first element.** -/
theorem First.cases (h : First id payload body) : (∃ e after, body = e ++ after ∧ Element e id payload) ∨
    ∃ e other content rest, body = e ++ rest ∧ Element e other content ∧ other ≠ id ∧ First id payload rest := by
  obtain ⟨before, l, e, after, rfl, hl, hall, he⟩ := h
  cases hl with
  | nil => exact .inl ⟨e, after, rfl, he⟩
  | @cons e₁ rest₁ content other l hfirst hrest =>
    refine .inr ⟨e₁, other, content, rest₁ ++ (e ++ after), List.append_assoc .., hfirst, hall _ List.mem_cons_self, ?_⟩
    exact ⟨rest₁, l, e, after, rfl, hrest, fun x hx => hall x (List.mem_cons_of_mem _ hx), he⟩

end Ebml
